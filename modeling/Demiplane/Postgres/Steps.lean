import Demiplane.Postgres.BlockingPool
import Demiplane.Transition.Run

/-!
Everything a step of the pool can do, said once. `Pool.Step` lists the ways
out of the critical sections with the tests that lead there and the state they
leave; `step_cases` is the only proof that looks into `Pool.step`, and the
invariants are case analyses over `Pool.Step`.
-/

namespace Demiplane.Postgres

open Transition

namespace Pool

/-- The ways a step of the pool can go. -/
inductive Step (cfg : PoolConfig.Valid) (st : Pool) : Action → Pool → Prop
  | callAborted {c : ℕ} {k : Kind} (hc : st.calls c = .idle) (hs : st.isShutdown = true) :
      Step cfg st (.call c k) (st.abort k c)
  | callEntered {c : ℕ} {k : Kind} (hc : st.calls c = .idle) (hs : st.isShutdown = false) :
      Step cfg st (.call c k) (st.setCall c (.entered k))
  | lockAborted {c : ℕ} {k : Kind} (hc : st.calls c = .entered k)
      (hs : st.isShutdown = true) : Step cfg st (.lock c) (st.abort k c)
  | lockTook {c : ℕ} {k : Kind} {h : Holder} {rest : List Holder}
      (hc : st.calls c = .entered k) (hs : st.isShutdown = false) (hf : st.free = h :: rest) :
      Step cfg st (.lock c) ({ st with free := rest }.deliver k c h)
  | lockCreating {c : ℕ} {k : Kind} (hc : st.calls c = .entered k)
      (hs : st.isShutdown = false) (hf : st.free = []) (hcap : st.created < cfg.1.capacity) :
      Step cfg st (.lock c) (st.setCall c (.creating k))
  | lockQueued {c : ℕ} {k : Kind} (hc : st.calls c = .entered k)
      (hs : st.isShutdown = false) (hf : st.free = []) (hcap : cfg.1.capacity ≤ st.created) :
      Step cfg st (.lock c) (st.enqueue k c)
  | relockAborted {c : ℕ} {k : Kind} {connected : Bool} (hc : st.calls c = .creating k)
      (hk : k.isAsync = true) (hs : st.isShutdown = true) :
      Step cfg st (.relock c connected) (st.abort k c)
  | relockCreated {c : ℕ} {k : Kind} (hc : st.calls c = .creating k)
      (hs : ¬ (k.isAsync = true ∧ st.isShutdown = true)) :
      Step cfg st (.relock c true)
        ({ st with
          created := st.created + 1
          holders := st.holders ++ [st.fresh]
          fresh := st.fresh + 1 }.deliver k c st.fresh)
  | relockQueued {c : ℕ} {k : Kind} (hc : st.calls c = .creating k)
      (hs : ¬ (k.isAsync = true ∧ st.isShutdown = true)) :
      Step cfg st (.relock c false) (st.enqueue k c)
  | wakeReady {c : ℕ} {expired timed : Bool} {h : Holder}
      (hc : st.calls c = .waiting timed (some h)) :
      Step cfg st (.wake c expired) (st.setCall c (.holding h))
  | wakeLeft {c : ℕ} {expired timed : Bool} (hc : st.calls c = .waiting timed none)
      (hs : st.isShutdown = true ∨ timed = true ∧ expired = true) :
      Step cfg st (.wake c expired) (st.leave c)
  | timerLost {c : ℕ} (ha : st.armed c = true) (hc : st.claimed c = true) :
      Step cfg st (.timer c) { st with armed := Function.update st.armed c false }
  | timerWon {c : ℕ} (ha : st.armed c = true) (hc : st.claimed c = false) :
      Step cfg st (.timer c)
        { st with
          armed := Function.update st.armed c false
          claimed := Function.update st.claimed c true
          waiters := st.waiters.filter (· ≠ WaiterEntry.async c)
          posts := st.posts ++ [(.timer, ⟨c, .timedOut, none⟩)] }
  | posted {c : ℕ} {p : Poster × Completion} (hp : st.posts.find? (·.2.call = c) = some p) :
      Step cfg st (.post c)
        { st with posts := st.posts.eraseP (·.2.call = c), handlers := st.handlers ++ [p.2] }
  | ran {c : ℕ} {p : Completion} (hp : handlerOf c st.handlers = some p) :
      Step cfg st (.runHandler c)
        ({ st with handlers := st.handlers.eraseP (·.call = c) }.setCall c
          (match p.holder with
            | some h => .holding h
            | none => .returned))
  | resetLate {c : ℕ} {h : Holder} {alive : Bool} (hc : st.calls c = .holding h)
      (hs : st.isShutdown = true) : Step cfg st (.reset c alive) (st.setCall c .returned)
  | resetParked {c : ℕ} {h : Holder} (hc : st.calls c = .holding h)
      (hs : st.isShutdown = false) (hpop : popWaiter st.claimed st.waiters = none) :
      Step cfg st (.reset c true)
        { st.setCall c .returned with waiters := [], free := st.free ++ [h] }
  | resetSync {c w : ℕ} {h : Holder} {rest : List WaiterEntry}
      (hc : st.calls c = .holding h) (hs : st.isShutdown = false)
      (hpop : popWaiter st.claimed st.waiters = some (.sync w, rest)) :
      Step cfg st (.reset c true)
        { st with
          waiters := rest
          calls := Function.update (Function.update st.calls c .returned) w
            (match Function.update st.calls c .returned w with
              | .waiting timed _ => .waiting timed (some h)
              | call => call) }
  | resetAsync {c w : ℕ} {h : Holder} {rest : List WaiterEntry}
      (hc : st.calls c = .holding h) (hs : st.isShutdown = false)
      (hpop : popWaiter st.claimed st.waiters = some (.async w, rest)) :
      Step cfg st (.reset c true)
        { st.setCall c .returned with
          waiters := rest
          claimed := Function.update st.claimed w true
          posts := st.posts ++ [(.release, ⟨w, .success, some h⟩)] }
  | resetDropped {c : ℕ} {h : Holder} (hc : st.calls c = .holding h)
      (hs : st.isShutdown = false) (hh : h ∈ st.holders) :
      Step cfg st (.reset c false)
        { st.setCall c .returned with
          holders := st.holders.erase h
          created := st.created - 1 }
  | resetUnknown {c : ℕ} {h : Holder} (hc : st.calls c = .holding h)
      (hs : st.isShutdown = false) (hh : h ∉ st.holders) :
      Step cfg st (.reset c false) (st.setCall c .returned)
  | exchanged (hc : st.closing = .idle) :
      Step cfg st .exchange { st with isShutdown := true, closing := .exchanged }
  | exchangedAgain (hc : st.closing ≠ .idle) : Step cfg st .exchange st
  | cleared (hc : st.closing = .exchanged) : Step cfg st .clear st.clear
  | postedAborted {c : ℕ} {cs : List ℕ} (hc : st.closing = .posting (c :: cs)) :
      Step cfg st .postAborted
        { st with
          closing := .posting cs
          handlers := st.handlers ++ [⟨c, .operationAborted, none⟩] }
  | shutdownReturned (hc : st.closing = .posting []) :
      Step cfg st .returnShutdown { st with closing := .returned }

theorem step_cases {cfg : PoolConfig.Valid} {st st' : Pool} {a : Action}
    (h : st.step cfg a = some st') : Step cfg st a st' := by
  cases a with
  | call c k =>
      simp only [step, callStep] at h
      split at h
      · rename_i hc
        obtain rfl := Option.some.inj h
        split
        · rename_i hs
          exact .callAborted hc hs
        · rename_i hs
          exact .callEntered hc (Bool.not_eq_true _ ▸ hs)
      · cases h
  | lock c =>
      simp only [step] at h
      split at h
      · rename_i k hc
        obtain rfl := Option.some.inj h
        simp only [lock]
        split
        · rename_i hs
          exact .lockAborted hc hs
        · rename_i hs
          have hs := Bool.not_eq_true _ ▸ hs
          split
          · rename_i x rest hf
            exact .lockTook hc hs hf
          · rename_i hf
            split
            · rename_i hcap
              exact .lockCreating hc hs hf hcap
            · rename_i hcap
              exact .lockQueued hc hs hf (Nat.le_of_not_lt hcap)
      · cases h
  | relock c connected =>
      simp only [step] at h
      split at h
      · rename_i k hc
        obtain rfl := Option.some.inj h
        simp only [relock]
        split
        · rename_i hs
          exact .relockAborted hc hs.1 hs.2
        · rename_i hs
          cases connected
          · exact .relockQueued hc hs
          · exact .relockCreated hc hs
      · cases h
  | wake c expired =>
      simp only [step, wake] at h
      split at h
      · rename_i timed x hc
        obtain rfl := Option.some.inj h
        exact .wakeReady hc
      · rename_i timed hc
        split at h
        · rename_i hs
          obtain rfl := Option.some.inj h
          exact .wakeLeft hc hs
        · cases h
      · cases h
  | timer c =>
      simp only [step] at h
      split at h
      · rename_i ha
        obtain rfl := Option.some.inj h
        simp only [onAsyncWaiterTimeout]
        split
        · rename_i hc
          exact .timerLost ha hc
        · rename_i hc
          exact .timerWon ha (Bool.not_eq_true _ ▸ hc)
      · cases h
  | post c =>
      simp only [step, post, Option.map_eq_some_iff] at h
      obtain ⟨p, hp, rfl⟩ := h
      exact .posted hp
  | runHandler c =>
      simp only [step, runHandler, Option.map_eq_some_iff] at h
      obtain ⟨p, hp, rfl⟩ := h
      exact .ran hp
  | reset c alive =>
      simp only [step] at h
      split at h
      · rename_i x hc
        obtain rfl := Option.some.inj h
        cases alive with
        | true =>
            simp only [reset, returnHolder, if_true]
            split
            · rename_i hs
              exact .resetLate hc hs
            · rename_i hs
              have hs := Bool.not_eq_true _ ▸ hs
              split
              · rename_i hpop
                exact .resetParked hc hs hpop
              · rename_i w rest hpop
                exact .resetSync hc hs hpop
              · rename_i w rest hpop
                exact .resetAsync hc hs hpop
        | false =>
            simp only [reset, dropDead, Bool.false_eq_true, if_false]
            split
            · rename_i hs
              exact .resetLate hc hs
            · rename_i hs
              have hs := Bool.not_eq_true _ ▸ hs
              split
              · rename_i hh
                exact .resetDropped hc hs hh
              · rename_i hh
                exact .resetUnknown hc hs hh
      · cases h
  | exchange =>
      simp only [step] at h
      split at h
      · rename_i hc
        obtain rfl := Option.some.inj h
        exact .exchanged hc
      · rename_i hc
        obtain rfl := Option.some.inj h
        exact .exchangedAgain hc
  | clear =>
      simp only [step] at h
      split at h
      · rename_i hc
        obtain rfl := Option.some.inj h
        exact .cleared hc
      · cases h
  | postAborted =>
      simp only [step] at h
      split at h
      · rename_i c cs hc
        obtain rfl := Option.some.inj h
        exact .postedAborted hc
      · cases h
  | returnShutdown =>
      simp only [step] at h
      split at h
      · rename_i hc
        obtain rfl := Option.some.inj h
        exact .shutdownReturned hc
      · cases h

/-! ### After the constructor -/

/-- A pool of `n` idle holders that nobody has called yet. -/
def idle (n : ℕ) : Pool :=
  { empty with holders := List.range n, free := List.range n, created := n, fresh := n }

theorem construct_idle (n : ℕ) (connected : Bool) :
    (idle n).construct connected = idle (if connected then n + 1 else n) := by
  cases connected with
  | false => rfl
  | true => simp [construct, idle, List.range_succ]

/-- The constructor leaves as many idle holders as attempts succeeded. -/
theorem start_eq (cfg : PoolConfig.Valid) (attempts : ℕ → Bool) :
    ∃ n ≤ cfg.1.minConnections, start cfg attempts = idle n := by
  rw [start]
  induction cfg.1.minConnections with
  | zero => exact ⟨0, le_rfl, rfl⟩
  | succ m ih =>
      obtain ⟨n, hn, hidle⟩ := ih
      rw [List.range_succ, List.foldl_append, hidle, List.foldl_cons, List.foldl_nil,
        construct_idle]
      split
      · exact ⟨n + 1, by omega, rfl⟩
      · exact ⟨n, by omega, rfl⟩

/-! ### The flag and the call of `shutdown()` -/

/-- `shutdown_` is set by the first call of `shutdown()` and by nothing else. -/
def Flagged (st : Pool) : Prop := st.isShutdown = false ↔ st.closing = .idle

theorem flagged_start (cfg : PoolConfig.Valid) (attempts : ℕ → Bool) :
    Flagged (start cfg attempts) := by
  obtain ⟨n, -, hidle⟩ := start_eq cfg attempts
  rw [hidle]
  exact iff_of_true rfl rfl

theorem flagged_step {cfg : PoolConfig.Valid} {st st' : Pool} {a : Action} (h : Flagged st)
    (hstep : Step cfg st a st') : Flagged st' := by
  have hset (hc : st.closing ≠ .idle) : st.isShutdown ≠ false := fun hs => hc (h.mp hs)
  cases hstep with
  | exchanged hc => exact iff_of_false (by simp) (by simp)
  | cleared hc => exact iff_of_false (hset (by simp [hc])) (by simp [clear])
  | postedAborted hc => exact iff_of_false (hset (by simp [hc])) (by simp)
  | shutdownReturned hc => exact iff_of_false (hset (by simp [hc])) (by simp)
  | _ => exact h

theorem open_of_step {cfg : PoolConfig.Valid} {st st' : Pool} {a : Action}
    (hstep : Step cfg st a st') (hs' : st'.isShutdown = false) : st.isShutdown = false := by
  cases hstep with
  | exchanged hc => cases hs'
  | _ => exact hs'

end Pool

end Demiplane.Postgres
