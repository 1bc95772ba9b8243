import Mathlib.Data.Int.Order.Basic

/-!
`Nexus`: the slot of one key of the registry. Every operation but `sweep` looks up one key,
and `sweep` treats each slot by itself. The sections of `get` that hold the registry's mutex
are functions of their own, and `get` without interference is their composition.
-/

namespace Demiplane.Nexus

/-- `idle` is in `std::chrono::seconds`. -/
inductive Lifetime where
  | resettable
  | scoped
  | timed (idle : Int64)
  | immortal
  deriving DecidableEq, Repr

/-- A number of seconds in the unit of the clock, which is what it is converted to before it is
compared with a duration of the clock. One that does not fit wraps around. -/
def nanoseconds (idle : Int64) : ℤ := (idle * 1000000000).toInt

/-- The limits that fit: those up to 292 years. -/
def Fits (idle : Int64) : Prop := -9223372036 ≤ idle.toInt ∧ idle.toInt ≤ 9223372036

instance (idle : Int64) : Decidable (Fits idle) := inferInstanceAs (Decidable (_ ∧ _))

theorem nanoseconds_of_fits {idle : Int64} (h : Fits idle) :
    nanoseconds idle = idle.toInt * 1000000000 := by
  obtain ⟨hlow, hhigh⟩ := h
  rw [nanoseconds, Int64.toInt_mul]
  have hunit : (1000000000 : Int64).toInt = 1000000000 := rfl
  rw [hunit, Int.bmod_eq_of_le (by omega) (by omega)]

example : nanoseconds Int64.maxValue = -1000000000 := by decide

/-- `φ` are factories, `ι` instances and `τ` threads. Times are in nanoseconds. A null pointer is
`none`, as is an empty `std::function`, and the owner of a mutex that is not locked. -/
structure Slot (φ ι τ : Type*) where
  obj : Option ι
  factory : Option φ
  lt : Lifetime
  lastTouch : ℤ
  expiredFlag : Option Bool
  constructionMutex : Option τ
  deriving DecidableEq, Repr

inductive NexusError where
  | notRegistered
  | noFactory
  | removedDuringConstruction
  | noSuchObject
  | notResettable
  | factoryThrew
  deriving DecidableEq, Repr

/-- The text of the exception, but for one that the factory throws. -/
def NexusError.what : NexusError → Option String
  | notRegistered => some "Nexus::spawn – not registered"
  | noFactory => some "Nexus::spawn – no factory available"
  | removedDuringConstruction => some "Nexus::spawn – registration removed during construction"
  | noSuchObject => some "Nexus::reset – no such object"
  | notResettable => some "Nexus::reset – only Resettable lifetime can be reset"
  | factoryThrew => none

/-- What a call of a factory comes to. -/
inductive Outcome (ι : Type*) where
  | returns (obj : Option ι)
  | throws
  deriving DecidableEq, Repr

section Sections

variable {φ ι τ : Type*}

namespace Slot

/-- A slot that `operator[]` has inserted. -/
def empty : Slot φ ι τ := ⟨none, none, .resettable, 0, none, none⟩

def isTimed (s : Slot φ ι τ) : Bool :=
  match s.lt with
  | .timed _ => true
  | _ => false

/-- The object that `get` returns without constructing one. -/
def ready (s : Slot φ ι τ) : Option ι :=
  if s.isTimed && s.expiredFlag == some true then none else s.obj

/-- What `build_handle` does to the slot; the handle is a copy of `obj`. -/
def buildHandle (now : ℤ) (s : Slot φ ι τ) : Slot φ ι τ :=
  if s.isTimed then { s with lastTouch := now } else s

/-- The stores of the last section of `get`. -/
def store (now : ℤ) (obj : Option ι) (s : Slot φ ι τ) : Slot φ ι τ :=
  { s with
    obj := obj
    lastTouch := now
    expiredFlag := if s.isTimed then some false else s.expiredFlag }

/-- The visitor of `sweep`; `none` if it has the slot erased. -/
def sweep (now : ℤ) (useCount : ι → ℕ) (s : Slot φ ι τ) : Option (Slot φ ι τ) :=
  match s.lt with
  | .scoped => if s.obj.any fun o => useCount o == 1 then none else some s
  | .timed idle =>
      if now - s.lastTouch > nanoseconds idle then some { s with obj := none } else some s
  | .resettable => some s
  | .immortal => some s

end Slot

/-- `register_instance` of a factory. -/
def registerFactory (f : φ) (lt : Lifetime) (slot : Option (Slot φ ι τ)) : Slot φ ι τ :=
  { slot.getD Slot.empty with obj := none, factory := some f, lt := lt }

/-- `register_instance` of an object. -/
def registerObject (sp : Option ι) (lt : Lifetime) (now : ℤ) (slot : Option (Slot φ ι τ)) :
    Slot φ ι τ :=
  { slot.getD Slot.empty with obj := sp, factory := none, lt := lt, lastTouch := now }

/-- The fast path of `get`. -/
def fastPath (now : ℤ) :
    Option (Slot φ ι τ) → Except NexusError (Option (ι × Slot φ ι τ))
  | none => .error .notRegistered
  | some s => .ok (s.ready.map fun o => (o, s.buildHandle now))

/-- The section that reads the factory. -/
def readFactory : Option (Slot φ ι τ) → Except NexusError (Option φ)
  | none => .error .notRegistered
  | some s => .ok s.factory

/-- The section behind the lock of the construction mutex. -/
def doubleCheck (now : ℤ) (slot : Option (Slot φ ι τ)) : Option (ι × Slot φ ι τ) :=
  slot.bind fun s => s.ready.map fun o => (o, s.buildHandle now)

def callFactory (factoryCopy : Option φ) (outcome : Outcome ι) :
    Except NexusError (Option ι) :=
  match factoryCopy, outcome with
  | none, _ => .error .noFactory
  | some _, .throws => .error .factoryThrew
  | some _, .returns obj => .ok obj

/-- The last section of `get`. -/
def storeObject (now : ℤ) (obj : Option ι) :
    Option (Slot φ ι τ) → Except NexusError (Slot φ ι τ)
  | none => .error .removedDuringConstruction
  | some s => .ok ((s.store now obj).buildHandle now)

/-- What a `get` comes to: its result, whether it has called the factory, and the slot. -/
structure Got (φ ι τ : Type*) where
  result : Except NexusError (Option ι)
  called : Bool
  slot : Option (Slot φ ι τ)

/-- `get` without interference. -/
def get (now : ℤ) (outcome : Outcome ι) (slot : Option (Slot φ ι τ)) : Got φ ι τ :=
  match fastPath now slot with
  | .error e => ⟨.error e, false, slot⟩
  | .ok (some (o, s)) => ⟨.ok (some o), false, some s⟩
  | .ok none =>
      match readFactory slot with
      | .error e => ⟨.error e, false, slot⟩
      | .ok factoryCopy =>
          match doubleCheck now slot with
          | some (o, s) => ⟨.ok (some o), false, some s⟩
          | none =>
              match callFactory factoryCopy outcome with
              | .error e => ⟨.error e, factoryCopy.isSome, slot⟩
              | .ok obj =>
                  match storeObject now obj slot with
                  | .error e => ⟨.error e, true, slot⟩
                  | .ok s => ⟨.ok obj, true, some s⟩

def reset : Option (Slot φ ι τ) → Except NexusError (Option (Slot φ ι τ))
  | none => .error .noSuchObject
  | some s => if s.lt = .resettable then .ok none else .error .notResettable

end Sections

/-! ### What `get` returns -/

section Get

variable {φ ι τ : Type*}

@[simp] theorem Slot.buildHandle_obj (now : ℤ) (s : Slot φ ι τ) :
    (s.buildHandle now).obj = s.obj := by
  unfold buildHandle
  split_ifs <;> rfl

@[simp] theorem Slot.buildHandle_factory (now : ℤ) (s : Slot φ ι τ) :
    (s.buildHandle now).factory = s.factory := by
  unfold buildHandle
  split_ifs <;> rfl

@[simp] theorem Slot.buildHandle_lt (now : ℤ) (s : Slot φ ι τ) :
    (s.buildHandle now).lt = s.lt := by
  unfold buildHandle
  split_ifs <;> rfl

@[simp] theorem Slot.buildHandle_expiredFlag (now : ℤ) (s : Slot φ ι τ) :
    (s.buildHandle now).expiredFlag = s.expiredFlag := by
  unfold buildHandle
  split_ifs <;> rfl

@[simp] theorem Slot.buildHandle_constructionMutex (now : ℤ) (s : Slot φ ι τ) :
    (s.buildHandle now).constructionMutex = s.constructionMutex := by
  unfold buildHandle
  split_ifs <;> rfl

theorem Slot.ready_eq_obj {s : Slot φ ι τ} (h : s.expiredFlag ≠ some true) :
    s.ready = s.obj := by
  have hflag : (s.expiredFlag == some true) = false := by simpa using h
  rw [Slot.ready, hflag, Bool.and_false, if_neg Bool.false_ne_true]

theorem Slot.obj_of_ready {s : Slot φ ι τ} {o : ι} (h : s.ready = some o) : s.obj = some o := by
  unfold Slot.ready at h
  split_ifs at h
  exact h

theorem get_none (now : ℤ) (outcome : Outcome ι) :
    get now outcome (none : Option (Slot φ ι τ)) = ⟨.error .notRegistered, false, none⟩ :=
  rfl

theorem get_ready {s : Slot φ ι τ} {o : ι} (h : s.ready = some o) (now : ℤ)
    (outcome : Outcome ι) :
    get now outcome (some s) = ⟨.ok (some o), false, some (s.buildHandle now)⟩ := by
  simp only [get, fastPath, h, Option.map_some]

theorem get_constructs {s : Slot φ ι τ} (h : s.ready = none) {f : φ} (hf : s.factory = some f)
    (now : ℤ) (obj : Option ι) :
    get now (.returns obj) (some s) =
      ⟨.ok obj, true, some ((s.store now obj).buildHandle now)⟩ := by
  simp only [get, fastPath, h, Option.map_none, readFactory, doubleCheck, Option.bind_some, hf,
    callFactory, storeObject]

theorem callFactory_eq_ok {factoryCopy : Option φ} {outcome : Outcome ι} {obj : Option ι}
    (h : callFactory factoryCopy outcome = .ok obj) :
    ∃ f, factoryCopy = some f ∧ outcome = .returns obj := by
  cases factoryCopy with
  | none => cases h
  | some f =>
    cases outcome with
    | throws => cases h
    | returns obj' =>
      obtain rfl := Except.ok.inj h
      exact ⟨f, rfl, rfl⟩

/-- Without an object a `get` that gets none from the factory leaves the slot alone. -/
theorem get_error {s : Slot φ ι τ} (h : s.ready = none) {outcome : Outcome ι} {e : NexusError}
    (hf : callFactory s.factory outcome = .error e) (now : ℤ) :
    get now outcome (some s) = ⟨.error e, s.factory.isSome, some s⟩ := by
  simp only [get, fastPath, h, Option.map_none, readFactory, doubleCheck, Option.bind_some, hf]

/-- What a `get` can do to a slot. -/
theorem get_cases (now : ℤ) (outcome : Outcome ι) (s : Slot φ ι τ) :
    (∃ o, s.ready = some o ∧
      get now outcome (some s) = ⟨.ok (some o), false, some (s.buildHandle now)⟩) ∨
    (∃ f obj, s.ready = none ∧ s.factory = some f ∧ outcome = .returns obj ∧
      get now outcome (some s) =
        ⟨.ok obj, true, some ((s.store now obj).buildHandle now)⟩) ∨
    (∃ e, get now outcome (some s) = ⟨.error e, s.factory.isSome, some s⟩) := by
  cases hready : s.ready with
  | some o => exact .inl ⟨o, rfl, get_ready hready now outcome⟩
  | none =>
    cases hresult : callFactory s.factory outcome with
    | error e => exact .inr (.inr ⟨e, get_error hready hresult now⟩)
    | ok obj =>
      obtain ⟨f, hf, rfl⟩ := callFactory_eq_ok hresult
      exact .inr (.inl ⟨f, obj, rfl, hf, rfl, get_constructs hready hf now obj⟩)

end Get

/-! ### What a sweep does -/

section Sweep

variable {φ ι τ : Type*}

/-- A sweep erases the slot of a `Scoped` instance that nobody else holds, drops a `Timed`
instance that has been idle for too long, and does nothing otherwise. -/
theorem Slot.sweep_cases (now : ℤ) (useCount : ι → ℕ) (s : Slot φ ι τ) :
    (s.lt = .scoped ∧ (∃ o, s.obj = some o ∧ useCount o = 1) ∧ s.sweep now useCount = none) ∨
    ((∃ idle, s.lt = .timed idle ∧ nanoseconds idle < now - s.lastTouch) ∧
      s.sweep now useCount = some { s with obj := none }) ∨
    ((s.lt = .scoped → ∀ o, s.obj = some o → useCount o ≠ 1) ∧
      (∀ idle, s.lt = .timed idle → now - s.lastTouch ≤ nanoseconds idle) ∧
      s.sweep now useCount = some s) := by
  unfold Slot.sweep
  cases hlt : s.lt with
  | resettable => simp
  | immortal => simp
  | «scoped» =>
    cases hobj : s.obj with
    | none => simp
    | some o =>
      by_cases huse : useCount o = 1
      · simp [huse]
      · simp [huse]
  | timed idle =>
    by_cases hidle : nanoseconds idle < now - s.lastTouch
    · simp [hidle]
    · refine .inr (.inr ⟨by simp, ?_, by simp [hidle]⟩)
      intro idle' heq
      obtain rfl := Lifetime.timed.inj heq
      exact not_lt.mp hidle

/-- What is in the slot after a sweep was there before it. -/
theorem Slot.obj_of_sweep {now : ℤ} {useCount : ι → ℕ} {s s' : Slot φ ι τ} {o : ι}
    (h : s.sweep now useCount = some s') (ho : s'.obj = some o) : s.obj = some o := by
  rcases s.sweep_cases now useCount with ⟨-, -, hsweep⟩ | ⟨-, hsweep⟩ | ⟨-, -, hsweep⟩
  · rw [hsweep] at h
    cases h
  · obtain rfl := Option.some.inj (hsweep.symm.trans h)
    cases ho
  · obtain rfl := Option.some.inj (hsweep.symm.trans h)
    exact ho

end Sweep

end Demiplane.Nexus
