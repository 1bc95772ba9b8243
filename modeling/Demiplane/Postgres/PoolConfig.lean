import Mathlib.Algebra.Group.Nat.Defs
import Mathlib.Data.Int.Init
import Mathlib.Logic.Basic
import Mathlib.Tactic.Common

/-!
`PoolConfig`, as both pools read it. A configuration that a pool is made with
has passed `validate`.
-/

namespace Demiplane.Postgres

/-- The fields of `PoolConfig` that the pool reads or `validate` checks; the
timeout is in seconds. -/
structure PoolConfig where
  capacity : ℕ
  minConnections : ℕ
  connectTimeout : ℤ

namespace PoolConfig

def validate (cfg : PoolConfig) : Except String Unit :=
  if cfg.capacity = 0 then .error "Pool capacity must be greater than 0"
  else if cfg.capacity &&& (cfg.capacity - 1) ≠ 0 then .error "Pool capacity must be a power of 2"
  else if cfg.minConnections > cfg.capacity then .error "min_connections cannot exceed capacity"
  else if cfg.connectTimeout ≤ 0 then .error "connect_timeout must be positive"
  else .ok ()

/-- What `Builder::finalize` returns. -/
def Valid := { cfg : PoolConfig // cfg.validate = .ok () }

/-- `Builder{}` holds the default values. -/
def builder : PoolConfig where
  capacity := 16
  minConnections := 2
  connectTimeout := 10

def minimal : Valid := ⟨{ builder with capacity := 2, minConnections := 1 }, rfl⟩

/-- The pool made by the constructor has one idle holder and no room for
another. -/
def single : Valid := ⟨{ builder with capacity := 1, minConnections := 1 }, rfl⟩

theorem Valid.capacity_pos (cfg : Valid) : 0 < cfg.1.capacity := by
  have hvalid := cfg.2
  by_contra hzero
  simp [validate, Nat.eq_zero_of_not_pos hzero] at hvalid

theorem Valid.capacity_eq_two_pow (cfg : Valid) : ∃ k, cfg.1.capacity = 2 ^ k := by
  have hne0 : cfg.1.capacity ≠ 0 := Nat.ne_of_gt cfg.capacity_pos
  have hand : cfg.1.capacity &&& (cfg.1.capacity - 1) = 0 := by
    by_contra hne
    have hvalid := cfg.2
    rw [validate, if_neg hne0, if_pos hne] at hvalid
    cases hvalid
  generalize cfg.1.capacity = n at hne0 hand
  refine ⟨n.log2, ?_⟩
  by_contra hne
  have hle : 2 ^ n.log2 ≤ n := Nat.log2_self_le hne0
  have hlt : n < 2 ^ (n.log2 + 1) := Nat.lt_log2_self
  -- were there another bit in `n`, then `n - 1` would still have the highest one
  have htop : n.testBit n.log2 = true := Nat.testBit_log2 hne0
  have hpred : (n - 1).testBit n.log2 = true :=
    Nat.testBit_of_two_pow_le_and_two_pow_add_one_gt (by omega) (by omega)
  have hboth : (n &&& (n - 1)).testBit n.log2 = true := by
    rw [Nat.testBit_and, htop, hpred, Bool.and_self]
  rw [hand, Nat.zero_testBit] at hboth
  cases hboth

theorem Valid.minConnections_le (cfg : Valid) : cfg.1.minConnections ≤ cfg.1.capacity := by
  have hvalid := cfg.2
  by_contra hlt
  simp only [validate] at hvalid
  rw [if_neg (Nat.ne_of_gt cfg.capacity_pos), if_pos (Nat.lt_of_not_le hlt)] at hvalid
  split at hvalid <;> cases hvalid

end PoolConfig

end Demiplane.Postgres
