import TypedJson.Proofs.Value.Awake

/-!
# What can be done with an object

An object is read, set and looked at in any order, and each `Operation` may find its initializer or
a provider failing. A `Turn` is what one operation answers, the object that it leaves and what it
runs: each run of the initializer or of a provider is an `Attempt`, and the attempts of a turn cost
what the operation costs.

One step is enough to know (`due_perform`, `get_perform`). A supplier that can still succeed is
*due*, once; an attempt that succeeds is one that was due, and is no longer. What a field answers is
not changed by any operation but setting it. The laws of whole histories (`isLawful`) follow by
induction over the operations.
-/

namespace TypedJson

/-! ## Costs -/

namespace Cost

theorem zero_add (a : Cost) : 0 + a = a := by
  obtain ⟨runs, reads⟩ := a
  exact congrArg₂ Cost.mk (Nat.zero_add runs) (Nat.zero_add reads)

theorem add_zero (a : Cost) : a + 0 = a := rfl

theorem add_assoc (a b c : Cost) : a + b + c = a + (b + c) :=
  congrArg₂ Cost.mk (Nat.add_assoc _ _ _) (Nat.add_assoc _ _ _)

end Cost

namespace Object

/-! ## Operations -/

/-- What can be done with an object. -/
inductive Operation where
  | get (name : String)
  | set (name : String) (value : Value)
  | setProvider (name : String) (cost : Cost) (outcome : Except Failure Value)
  /-- Runs the initializer of a ghost. -/
  | wake
  | resolveAll
  | fieldNames
  | isFieldInitialized (name : String)
  | isGhost

namespace Operation

/-- Whether the operation sets a field, to a value or to what a provider will answer. -/
def sets (name : String) : Operation → Bool
  | .set other _ | .setProvider other _ _ => other = name
  | _ => false

/-- Whether the operation only looks at the object. -/
def peeks : Operation → Bool
  | .fieldNames | .isFieldInitialized _ | .isGhost => true
  | _ => false

end Operation

/-- What an operation answers. -/
inductive Answer where
  | field (result : Except Failure (Option Value))
  | done (result : Except Failure Unit)
  | fields (result : Except Failure (Entries String Value))
  | names (names : List String)
  | flag (b : Bool)

/-- The failure that is answered. -/
def Answer.failure? : Answer → Option Failure
  | .field (.error failure) | .done (.error failure) | .fields (.error failure) => some failure
  | _ => none

/-- What an object runs when it is read. -/
inductive Supplier where
  | initializer
  | provider (name : String)
  deriving DecidableEq

/-- A run of a supplier. -/
structure Attempt where
  supplier : Supplier
  cost : Cost
  succeeds : Bool

namespace Attempt

/-- What attempts cost together. -/
def total (attempts : List Attempt) : Cost := (attempts.map (·.cost)).foldr (· + ·) 0

/-- How often a supplier succeeds. -/
def successes (supplier : Supplier) (attempts : List Attempt) : Nat :=
  attempts.countP fun attempt ↦ attempt.supplier = supplier && attempt.succeeds

theorem total_append (attempts others : List Attempt) :
    total (attempts ++ others) = total attempts + total others := by
  induction attempts with
  | nil => exact (Cost.zero_add _).symm
  | cons attempt attempts ih =>
    have hcons : ∀ rest, total (attempt :: rest) = attempt.cost + total rest := fun _ ↦ rfl
    rw [List.cons_append, hcons, hcons, ih, Cost.add_assoc]

theorem successes_append (supplier : Supplier) (attempts others : List Attempt) :
    successes supplier (attempts ++ others) =
      successes supplier attempts + successes supplier others := List.countP_append

theorem successes_singleton (supplier : Supplier) (attempt : Attempt) :
    successes supplier [attempt] =
      if attempt.supplier = supplier ∧ attempt.succeeds = true then 1 else 0 := by
  rw [successes, List.countP_singleton]
  simp only [Bool.and_eq_true, decide_eq_true_eq]

end Attempt

open Attempt

/-! ## What operations run -/

/-- What waking an object runs. -/
def wakeAttempts (o : Object Value) : List Attempt :=
  match o.state with
  | .ghost _ cost outcome => [⟨.initializer, cost, outcome.isOk⟩]
  | .ready _ => []

/-- What reading a field runs, once the slots are known. -/
def slotAttempts (slots : Entries String (Slot Value)) (name : String) : List Attempt :=
  match Entries.find? slots name with
  | some (.pending cost outcome) => [⟨.provider name, cost, outcome.isOk⟩]
  | _ => []

/-- What reading a field runs. -/
def getAttempts (o : Object Value) (name : String) : List Attempt :=
  match o.wake.result with
  | .ok slots => o.wakeAttempts ++ slotAttempts slots name
  | .error _ => o.wakeAttempts

/-- What reading fields one after another runs, up to the first failure. -/
def getEachAttempts (o : Object Value) : List String → List Attempt
  | [] => []
  | name :: names =>
    match (o.get name).result with
    | .ok _ => o.getAttempts name ++ (o.get name).object.getEachAttempts names
    | .error _ => o.getAttempts name

/-- Whether an operation has to wake the object. Reading all fields of a ghost that declares none
does not. -/
def wakes (o : Object Value) : Operation → Bool
  | .get _ | .set _ _ | .setProvider _ _ _ | .wake => true
  | .resolveAll => !o.fieldNames.isEmpty
  | .fieldNames | .isFieldInitialized _ | .isGhost => false

/-- What an operation does. -/
structure Turn where
  answer : Answer
  /-- The object afterwards. -/
  object : Object Value
  cost : Cost
  /-- What is run, in order. -/
  attempts : List Attempt

/-- An operation on an object. -/
def perform (o : Object Value) : Operation → Turn
  | .get name =>
    ⟨.field (o.get name).result, (o.get name).object, (o.get name).cost, o.getAttempts name⟩
  | .set name value =>
    let step := o.put name (.initialized value)
    ⟨.done step.result, step.object, step.cost, o.wakeAttempts⟩
  | .setProvider name cost outcome =>
    let step := o.put name (.pending cost outcome)
    ⟨.done step.result, step.object, step.cost, o.wakeAttempts⟩
  | .wake =>
    ⟨.done (o.wake.result.map fun _ ↦ ()), o.wake.object, o.wake.cost, o.wakeAttempts⟩
  | .resolveAll =>
    ⟨.fields o.resolveAll.result, o.resolveAll.object, o.resolveAll.cost,
      o.getEachAttempts o.fieldNames.eraseDups⟩
  | .fieldNames => ⟨.names o.fieldNames, o, 0, []⟩
  | .isFieldInitialized name => ⟨.flag (o.isInitialized name), o, 0, []⟩
  | .isGhost => ⟨.flag o.isGhost, o, 0, []⟩

/-- The turns of operations one after another. -/
def turns (o : Object Value) : List Operation → List (Operation × Turn)
  | [] => []
  | op :: ops => (op, o.perform op) :: (o.perform op).object.turns ops

/-- The object after operations. -/
def performAll (o : Object Value) (ops : List Operation) : Object Value :=
  ops.foldl (fun o op ↦ (o.perform op).object) o

/-- What operations run. -/
def attempts (o : Object Value) (ops : List Operation) : List Attempt :=
  (o.turns ops).flatMap (·.2.attempts)

/-! ## Waking -/

/-- The slots that an object has, or will have as soon as its initializer is run. -/
def HasSlots (o : Object Value) (slots : Entries String (Slot Value)) : Prop :=
  o.state = .ready slots ∨ ∃ declared cost, o.state = .ghost declared cost (.ok slots)

variable {o : Object Value} {slots : Entries String (Slot Value)} {name : String}

theorem hasSlots_iff : o.HasSlots slots ↔ o.wake.result = .ok slots := by
  obtain ⟨identity, className, ⟨declared, cost, failure | others⟩ | others⟩ := o <;>
    simp [HasSlots, wake]

theorem wake_object (h : o.wake.result = .ok slots) :
    o.wake.object = { o with state := .ready slots } := by
  obtain ⟨identity, className, ⟨declared, cost, failure | others⟩ | others⟩ := o
  · cases h
  · cases h
    rfl
  · cases h
    rfl

theorem wake_object_of_error {failure : Failure} (h : o.wake.result = .error failure) :
    o.wake.object = o := by
  obtain ⟨identity, className, ⟨declared, cost, failure | others⟩ | others⟩ := o
  · rfl
  · cases h
  · rfl

/-- An object answers the same slots once it is awake. -/
theorem result_wake_wake (o : Object Value) : o.wake.object.wake.result = o.wake.result := by
  obtain ⟨identity, className, ⟨declared, cost, failure | others⟩ | others⟩ := o <;> rfl

theorem cost_wake (o : Object Value) : o.wake.cost = total o.wakeAttempts := by
  obtain ⟨identity, className, ⟨declared, cost, failure | others⟩ | others⟩ := o <;> rfl

/-! ## Reading a field -/

/-- What reading a field of known slots comes to: the answer, the slots afterwards and what is
run. -/
inductive Looks (slots : Entries String (Slot Value)) (name : String) :
    Except Failure (Option Value) → Entries String (Slot Value) → List Attempt → Prop
  | absent (h : Entries.find? slots name = none) : Looks slots name (.ok none) slots []
  | known {value : Value} (h : Entries.find? slots name = some (.initialized value)) :
      Looks slots name (.ok (some value)) slots []
  | fails {cost : Cost} {failure : Failure}
      (h : Entries.find? slots name = some (.pending cost (.error failure))) :
      Looks slots name (.error failure) slots [⟨.provider name, cost, false⟩]
  | resolves {cost : Cost} {value : Value}
      (h : Entries.find? slots name = some (.pending cost (.ok value))) :
      Looks slots name (.ok (some value)) (Entries.put slots name (.initialized value))
        [⟨.provider name, cost, true⟩]

/-- Reading a field wakes the object and looks at one slot. -/
theorem get_looks (h : o.wake.result = .ok slots) (name : String) :
    ∃ result slots' attempts, Looks slots name result slots' attempts ∧
      o.get name = ⟨result, { o with state := .ready slots' }, o.wake.cost + total attempts⟩ ∧
      o.getAttempts name = o.wakeAttempts ++ attempts := by
  have hobject := wake_object h
  unfold get getAttempts slotAttempts
  simp only [h, hobject]
  cases hfind : Entries.find? slots name with
  | none => exact ⟨_, _, _, .absent hfind, rfl, rfl⟩
  | some slot =>
    rcases slot with value | ⟨cost, failure | value⟩
    · exact ⟨_, _, _, .known hfind, rfl, rfl⟩
    · exact ⟨_, _, _, .fails hfind, rfl, rfl⟩
    · exact ⟨_, _, _, .resolves hfind, rfl, rfl⟩

theorem get_of_error {failure : Failure} (h : o.wake.result = .error failure) (name : String) :
    o.get name = ⟨.error failure, o, o.wake.cost⟩ ∧ o.getAttempts name = o.wakeAttempts := by
  unfold get getAttempts
  simp only [h, wake_object_of_error h, and_self]

theorem cost_get (o : Object Value) (name : String) :
    (o.get name).cost = total (o.getAttempts name) := by
  cases h : o.wake.result with
  | error failure =>
    rw [(get_of_error h name).1, (get_of_error h name).2]
    exact cost_wake o
  | ok slots =>
    obtain ⟨result, slots', attempts, -, hget, hattempts⟩ := get_looks h name
    rw [hget, hattempts, total_append, ← cost_wake]

namespace Looks

variable {result : Except Failure (Option Value)} {slots' : Entries String (Slot Value)}
  {attempts : List Attempt} {other : String}

theorem keys (h : Looks slots name result slots' attempts) :
    slots'.map (·.1) = slots.map (·.1) := by
  cases h with
  | absent | known | fails => rfl
  | resolves h =>
    rw [Entries.keys_put, if_pos]
    exact List.mem_map.mpr ⟨_, Entries.mem_of_find? h, rfl⟩

/-- No other slot is touched. -/
theorem find?_of_ne (h : Looks slots name result slots' attempts) (hne : other ≠ name) :
    Entries.find? slots' other = Entries.find? slots other := by
  cases h with
  | absent | known | fails => rfl
  | resolves => exact Entries.find?_put_of_ne _ _ hne.symm

theorem eq_of_error {failure : Failure} (h : Looks slots name result slots' attempts)
    (hresult : result = .error failure) : slots' = slots := by
  cases h with
  | fails => rfl
  | absent | known | resolves => cases hresult

end Looks

/-! ## What is due -/

/-- How often the provider of a field can still succeed. -/
def dueAt (slots : Entries String (Slot Value)) (name : String) : Nat :=
  match Entries.find? slots name with
  | some (.pending _ (.ok _)) => 1
  | _ => 0

/-- How often a supplier can still succeed, if its field is not set. -/
def due (o : Object Value) : Supplier → Nat
  | .initializer =>
    match o.state with
    | .ghost _ _ (.ok _) => 1
    | _ => 0
  | .provider name =>
    match o.wake.result with
    | .ok slots => dueAt slots name
    | .error _ => 0

theorem due_le_one (o : Object Value) (supplier : Supplier) : o.due supplier ≤ 1 := by
  unfold due dueAt
  grind

theorem due_provider (h : o.wake.result = .ok slots) (name : String) :
    o.due (.provider name) = dueAt slots name := by
  simp only [due, h]

theorem due_ready (o : Object Value) (slots : Entries String (Slot Value)) :
    { o with state := .ready slots }.due .initializer = 0 := rfl

theorem dueAt_congr {others : Entries String (Slot Value)}
    (h : Entries.find? others name = Entries.find? slots name) :
    dueAt others name = dueAt slots name := by
  rw [dueAt, dueAt, h]

/-- A slot that is looked at is due before, unless its provider fails, and not afterwards. -/
theorem Looks.due {result : Except Failure (Option Value)} {slots' : Entries String (Slot Value)}
    {attempts : List Attempt} (h : Looks slots name result slots' attempts) (other : String) :
    successes (.provider other) attempts + dueAt slots' other = dueAt slots other := by
  by_cases hne : other = name
  · subst hne
    cases h with
    | absent h | known h => exact Nat.zero_add _
    | fails h =>
      rw [successes_singleton, if_neg (fun h ↦ Bool.false_ne_true h.2), Nat.zero_add]
    | resolves h =>
      simp only [successes_singleton, dueAt, Entries.find?_put_self, h, and_self, if_true]
  · have hsupplier : Supplier.provider name ≠ .provider other := by
      rintro ⟨⟩
      exact hne rfl
    have hnone : successes (.provider other) attempts = 0 := by
      cases h with
      | absent | known => rfl
      | fails | resolves => rw [successes_singleton, if_neg fun h ↦ hsupplier h.1]
    rw [hnone, Nat.zero_add]
    exact dueAt_congr (h.find?_of_ne hne)

theorem Looks.successes_initializer {result : Except Failure (Option Value)}
    {slots' : Entries String (Slot Value)} {attempts : List Attempt}
    (h : Looks slots name result slots' attempts) : successes .initializer attempts = 0 := by
  cases h with
  | absent | known => rfl
  | fails | resolves => rw [successes_singleton, if_neg fun h ↦ Supplier.noConfusion h.1]

/-- Waking runs no provider. -/
theorem successes_wakeAttempts (o : Object Value) (name : String) :
    successes (.provider name) o.wakeAttempts = 0 := by
  obtain ⟨identity, className, ⟨declared, cost, failure | slots⟩ | slots⟩ := o <;> rfl

/-- An initializer that succeeds was due, and is not any more. -/
theorem due_wake (o : Object Value) (supplier : Supplier) :
    successes supplier o.wakeAttempts + o.wake.object.due supplier = o.due supplier := by
  cases supplier with
  | initializer =>
    obtain ⟨identity, className, ⟨declared, cost, failure | slots⟩ | slots⟩ := o <;> rfl
  | provider name =>
    rw [successes_wakeAttempts, Nat.zero_add]
    simp only [due, result_wake_wake]

/-- What succeeds by reading a field was due and is not any more. -/
theorem due_get (o : Object Value) (name : String) (supplier : Supplier) :
    successes supplier (o.getAttempts name) + (o.get name).object.due supplier =
      o.due supplier := by
  have hwake := due_wake o supplier
  cases h : o.wake.result with
  | error failure =>
    rw [wake_object_of_error h] at hwake
    rw [(get_of_error h name).1, (get_of_error h name).2]
    exact hwake
  | ok slots =>
    obtain ⟨result, slots', attempts, hlooks, hget, hattempts⟩ := get_looks h name
    rw [wake_object h] at hwake
    rw [hget, hattempts, successes_append]
    cases supplier with
    | initializer =>
      rw [hlooks.successes_initializer, Nat.add_zero, due_ready]
      rwa [due_ready] at hwake
    | provider other =>
      rw [successes_wakeAttempts, Nat.zero_add, due_provider h,
        @due_provider { o with state := .ready slots' } slots' rfl]
      exact hlooks.due other

/-! ## Setting a field -/

theorem put_of_ok (h : o.wake.result = .ok slots) (name : String) (slot : Slot Value) :
    o.put name slot =
      ⟨.ok (), { o with state := .ready (Entries.put slots name slot) }, o.wake.cost⟩ := by
  simp only [put, h, wake_object h]

theorem put_of_error {failure : Failure} (h : o.wake.result = .error failure) (name : String)
    (slot : Slot Value) : o.put name slot = ⟨.error failure, o, o.wake.cost⟩ := by
  simp only [put, h, wake_object_of_error h]

theorem cost_put (o : Object Value) (name : String) (slot : Slot Value) :
    (o.put name slot).cost = total o.wakeAttempts := by
  rw [← cost_wake]
  cases h : o.wake.result with
  | error failure => rw [put_of_error h]
  | ok slots => rw [put_of_ok h]

/-- Setting a field changes what is due for that field only. -/
theorem due_put (o : Object Value) (name : String) (slot : Slot Value) {supplier : Supplier}
    (hne : supplier ≠ .provider name) :
    successes supplier o.wakeAttempts + (o.put name slot).object.due supplier =
      o.due supplier := by
  have hwake := due_wake o supplier
  cases h : o.wake.result with
  | error failure =>
    rw [put_of_error h]
    rwa [wake_object_of_error h] at hwake
  | ok slots =>
    rw [wake_object h] at hwake
    rw [put_of_ok h, ← hwake]
    cases supplier with
    | initializer => rfl
    | provider other =>
      have hother : name ≠ other := by
        rintro rfl
        exact hne rfl
      exact congrArg _ (dueAt_congr (Entries.find?_put_of_ne slots slot hother))

/-! ## What fields answer -/

/-- What a field answers depends on what its slot comes to, and on nothing else. -/
theorem result_get_congr {p : Object Value} {others : Entries String (Slot Value)}
    (h : o.wake.result = .ok slots) (h' : p.wake.result = .ok others)
    (hfind : Entries.find? (outcomes others) name = Entries.find? (outcomes slots) name) :
    (p.get name).result = (o.get name).result := by
  rw [(get_spec h name).1, (get_spec h' name).1, hfind]

theorem result_get_wake (o : Object Value) (name : String) :
    (o.wake.object.get name).result = (o.get name).result := by
  cases h : o.wake.result with
  | error failure => rw [wake_object_of_error h]
  | ok slots => exact result_get_congr h ((result_wake_wake o).trans h) rfl

/-- Reading a field changes what no field answers. -/
theorem result_get_get (o : Object Value) (other name : String) :
    ((o.get other).object.get name).result = (o.get name).result := by
  cases h : o.wake.result with
  | error failure => rw [(get_of_error h other).1]
  | ok slots =>
    obtain ⟨-, slots', hslots', hsame⟩ := get_spec h other
    exact result_get_congr h hslots' (hsame name)

/-- Setting a field changes what no other field answers. -/
theorem result_get_put (o : Object Value) {other : String} (slot : Slot Value)
    (hne : other ≠ name) : ((o.put other slot).object.get name).result = (o.get name).result := by
  cases h : o.wake.result with
  | error failure => rw [put_of_error h]
  | ok slots =>
    rw [put_of_ok h]
    refine @result_get_congr o slots name _ (Entries.put slots other slot) h rfl ?_
    rw [find?_outcomes, find?_outcomes, Entries.find?_put_of_ne _ _ hne]

theorem result_get_put_self (h : o.wake.result = .ok slots) (name : String) (value : Value) :
    ((o.put name (.initialized value)).object.get name).result = .ok (some value) := by
  rw [put_of_ok h, get]
  simp only [wake, Entries.find?_put_self]

/-! ## Reading fields one after another -/

/-- Reading fields one after another keeps whatever reading one of them keeps. -/
theorem getEach_induction {motive : Object Value → List Attempt → Object Value → Prop}
    (nil : ∀ o, motive o [] o)
    (single : ∀ o name, motive o (o.getAttempts name) (o.get name).object)
    (append : ∀ o attempts p others q, motive o attempts p → motive p others q →
      motive o (attempts ++ others) q)
    (o : Object Value) (names : List String) :
    motive o (o.getEachAttempts names) (o.getEach names).object := by
  induction names generalizing o with
  | nil => exact nil o
  | cons name names ih =>
    rw [getEach, getEachAttempts]
    cases h : (o.get name).result with
    | error failure => exact single o name
    | ok value => exact append _ _ _ _ _ (single o name) (ih _)

theorem due_getEach (o : Object Value) (names : List String) (supplier : Supplier) :
    successes supplier (o.getEachAttempts names) + (o.getEach names).object.due supplier =
      o.due supplier := by
  refine getEach_induction
    (motive := fun o attempts p ↦ successes supplier attempts + p.due supplier = o.due supplier)
    (fun o ↦ Nat.zero_add _) (fun o name ↦ due_get o name supplier) ?_ o names
  intro o attempts p others q h h'
  rw [successes_append, Nat.add_assoc, h', h]

theorem result_get_getEach (o : Object Value) (names : List String) (name : String) :
    ((o.getEach names).object.get name).result = (o.get name).result :=
  getEach_induction (motive := fun o _ p ↦ (p.get name).result = (o.get name).result)
    (fun _ ↦ rfl) (fun o other ↦ result_get_get o other name)
    (fun _ _ _ _ _ h h' ↦ h'.trans h) o names

theorem cost_getEach (o : Object Value) (names : List String) :
    (o.getEach names).cost = total (o.getEachAttempts names) := by
  induction names generalizing o with
  | nil => rfl
  | cons name names ih =>
    rw [getEach, getEachAttempts]
    cases h : (o.get name).result with
    | error failure => exact cost_get o name
    | ok value =>
      rw [total_append, ← cost_get, ← ih]

/-- The entries of fields that are read hold what each field answers. -/
theorem result_get_of_mem_getEach {names : List String} {fields : Entries String Value}
    (h : (o.getEach names).result = .ok fields) {value : Value} (hmem : (name, value) ∈ fields) :
    (o.get name).result = .ok (some value) := by
  induction names generalizing o fields with
  | nil =>
    cases h
    exact absurd hmem List.not_mem_nil
  | cons first names ih =>
    rw [getEach] at h
    cases hfirst : (o.get first).result with
    | error failure =>
      simp only [hfirst] at h
      cases h
    | ok found =>
      simp only [hfirst] at h
      obtain ⟨rest, hrest, rfl⟩ := Outcome.map_eq_ok.mp h
      have hothers : (name, value) ∈ rest → (o.get name).result = .ok (some value) := by
        intro hin
        rw [← result_get_get o first name]
        exact ih hrest hin
      cases found with
      | none => exact hothers hmem
      | some v =>
        rcases List.mem_cons.mp hmem with heq | hin
        · cases heq
          exact hfirst
        · exact hothers hin

/-! ## One operation -/

theorem cost_perform (o : Object Value) (op : Operation) :
    (o.perform op).cost = total (o.perform op).attempts := by
  cases op with
  | get name => exact cost_get o name
  | set name value => exact cost_put o name _
  | setProvider name cost outcome => exact cost_put o name _
  | wake => exact cost_wake o
  | resolveAll => exact cost_getEach o _
  | fieldNames | isFieldInitialized | isGhost => rfl

/-- What succeeds in an operation was due and is not any more, unless its field is set. -/
theorem due_perform (o : Object Value) (op : Operation) {supplier : Supplier}
    (h : ∀ name, supplier = .provider name → op.sets name = false) :
    successes supplier (o.perform op).attempts + (o.perform op).object.due supplier =
      o.due supplier := by
  have hne : ∀ {name : String}, op.sets name = true → supplier ≠ .provider name := by
    rintro name hsets rfl
    exact Bool.false_ne_true ((h name rfl).symm.trans hsets)
  cases op with
  | get name => exact due_get o name supplier
  | set name value => exact due_put o name _ (hne (decide_eq_true rfl))
  | setProvider name cost outcome => exact due_put o name _ (hne (decide_eq_true rfl))
  | wake => exact due_wake o supplier
  | resolveAll => exact due_getEach o _ supplier
  | fieldNames | isFieldInitialized | isGhost => exact Nat.zero_add _

/-- An operation changes what no field answers, unless it sets the field. -/
theorem result_get_perform (o : Object Value) {op : Operation} (h : op.sets name = false) :
    ((o.perform op).object.get name).result = (o.get name).result := by
  cases op with
  | get other => exact result_get_get o other name
  | set other value => exact result_get_put o _ (of_decide_eq_false h)
  | setProvider other cost outcome => exact result_get_put o _ (of_decide_eq_false h)
  | wake => exact result_get_wake o name
  | resolveAll => exact result_get_getEach o _ name
  | fieldNames | isFieldInitialized | isGhost => rfl

theorem exists_slots_of_ready (h : o.isGhost = false) :
    ∃ slots, o.wake.result = .ok slots ∧ o.wake.object.isGhost = false ∧ o.wakeAttempts = [] := by
  obtain ⟨identity, className, ⟨declared, cost, outcome⟩ | slots⟩ := o
  · cases h
  · exact ⟨slots, rfl, rfl, rfl⟩

/-- An object is ready once a slot of it is filled. -/
theorem isGhost_put (h : o.wake.result = .ok slots) (name : String) (slot : Slot Value) :
    (o.put name slot).object.isGhost = false := by
  rw [put_of_ok h]
  rfl

theorem get_ready (h : o.isGhost = false) (name : String) :
    (o.get name).object.isGhost = false ∧
      ∀ attempt ∈ o.getAttempts name, attempt.supplier ≠ .initializer := by
  obtain ⟨slots, hok, -, hnone⟩ := exists_slots_of_ready h
  obtain ⟨result, slots', attempts, hlooks, hstep, hattempts⟩ := get_looks hok name
  rw [hstep, hattempts, hnone, List.nil_append]
  refine ⟨rfl, ?_⟩
  cases hlooks with
  | absent | known => exact List.forall_mem_nil _
  | fails | resolves => exact List.forall_mem_singleton.mpr Supplier.noConfusion

/-- An object that is ready stays so and does not run its initializer again. -/
theorem perform_ready (h : o.isGhost = false) (op : Operation) :
    (o.perform op).object.isGhost = false ∧
      ∀ attempt ∈ (o.perform op).attempts, attempt.supplier ≠ .initializer := by
  obtain ⟨slots, hok, hwake, hnone⟩ := exists_slots_of_ready h
  have hwakeAttempts : ∀ attempt ∈ o.wakeAttempts, attempt.supplier ≠ .initializer := by
    rw [hnone]
    exact List.forall_mem_nil _
  cases op with
  | get name => exact get_ready h name
  | set name value => exact ⟨isGhost_put hok name _, hwakeAttempts⟩
  | setProvider name cost outcome => exact ⟨isGhost_put hok name _, hwakeAttempts⟩
  | wake => exact ⟨hwake, hwakeAttempts⟩
  | resolveAll =>
    refine getEach_induction (motive := fun o attempts p ↦ o.isGhost = false →
        p.isGhost = false ∧ ∀ attempt ∈ attempts, attempt.supplier ≠ .initializer)
      (fun o ho ↦ ⟨ho, List.forall_mem_nil _⟩) (fun o name ho ↦ get_ready ho name) ?_ o _ h
    intro o attempts p others q hfirst hrest ho
    obtain ⟨hp, hattempts⟩ := hfirst ho
    obtain ⟨hq, hothers⟩ := hrest hp
    exact ⟨hq, fun attempt hmem ↦ (List.mem_append.mp hmem).elim (hattempts attempt)
      (hothers attempt)⟩
  | fieldNames | isFieldInitialized | isGhost => exact ⟨h, List.forall_mem_nil _⟩

/-- An initializer that fails leaves the object as it is, and is run again by every operation that
needs it. -/
theorem perform_of_error {declared : List String} {cost : Cost} {failure : Failure}
    (h : o.state = .ghost declared cost (.error failure)) (op : Operation) :
    (o.perform op).object = o ∧ (o.wakes op = true →
      (o.perform op).answer.failure? = some failure ∧
        (o.perform op).attempts = [⟨.initializer, cost, false⟩]) := by
  have hwake : o.wake.result = .error failure ∧ o.wakeAttempts = [⟨.initializer, cost, false⟩] := by
    obtain ⟨identity, className, state⟩ := o
    obtain rfl : state = _ := h
    exact ⟨rfl, rfl⟩
  obtain ⟨hresult, hattempts⟩ := hwake
  have hput : ∀ name slot, o.put name slot = ⟨.error failure, o, o.wake.cost⟩ :=
    put_of_error hresult
  cases op with
  | get name =>
    obtain ⟨hget, hgetAttempts⟩ := get_of_error hresult name
    rw [perform, hget]
    exact ⟨rfl, fun _ ↦ ⟨rfl, hgetAttempts.trans hattempts⟩⟩
  | set name value =>
    rw [perform, hput]
    exact ⟨rfl, fun _ ↦ ⟨rfl, hattempts⟩⟩
  | setProvider name cost outcome =>
    rw [perform, hput]
    exact ⟨rfl, fun _ ↦ ⟨rfl, hattempts⟩⟩
  | wake =>
    rw [perform, hresult]
    exact ⟨wake_object_of_error hresult, fun _ ↦ ⟨rfl, hattempts⟩⟩
  | resolveAll =>
    rw [perform, resolveAll, wakes]
    cases hnames : o.fieldNames with
    | nil => exact ⟨rfl, Bool.noConfusion⟩
    | cons name names =>
      obtain ⟨hget, hgetAttempts⟩ := get_of_error hresult name
      rw [List.eraseDups_cons, getEach, getEachAttempts, hget]
      exact ⟨rfl, fun _ ↦ ⟨rfl, hgetAttempts.trans hattempts⟩⟩
  | fieldNames | isFieldInitialized | isGhost => exact ⟨rfl, Bool.noConfusion⟩

/-! ## Histories -/

theorem attempts_cons (o : Object Value) (op : Operation) (ops : List Operation) :
    o.attempts (op :: ops) = (o.perform op).attempts ++ (o.perform op).object.attempts ops :=
  List.flatMap_cons

theorem performAll_append (o : Object Value) (ops others : List Operation) :
    o.performAll (ops ++ others) = (o.performAll ops).performAll others := List.foldl_append

/-- What holds of an object and is kept by operations holds of the object at every turn. -/
theorem turns_induction {P : Object Value → Prop} (ops : List Operation)
    (step : ∀ o, ∀ op ∈ ops, P o → P (o.perform op).object) (h : P o) :
    P (o.performAll ops) ∧
      ∀ turn ∈ o.turns ops, ∃ p : Object Value, P p ∧ turn.2 = p.perform turn.1 := by
  induction ops generalizing o with
  | nil => exact ⟨h, List.forall_mem_nil _⟩
  | cons op ops ih =>
    obtain ⟨hlast, hturns⟩ := ih
      (fun o other hother ↦ step o other (List.mem_cons_of_mem op hother))
      (step o op List.mem_cons_self h)
    exact ⟨hlast, List.forall_mem_cons.mpr ⟨⟨o, h, rfl⟩, hturns⟩⟩

/-- What succeeds in the course of operations was due at the start. -/
theorem due_attempts (o : Object Value) (ops : List Operation) {supplier : Supplier}
    (h : ∀ name, supplier = .provider name → ∀ op ∈ ops, op.sets name = false) :
    successes supplier (o.attempts ops) + (o.performAll ops).due supplier = o.due supplier := by
  induction ops generalizing o with
  | nil => exact Nat.zero_add _
  | cons op ops ih =>
    have hstep := due_perform o op fun name hname ↦ h name hname op List.mem_cons_self
    have hrest := ih (o.perform op).object fun name hname other hother ↦
      h name hname other (List.mem_cons_of_mem op hother)
    rw [attempts_cons, successes_append, Nat.add_assoc, ← hstep]
    exact congrArg _ hrest

/-- The laws of an object whose initializer and providers are run when they are needed, for all that
can be done with it. Each law holds at every moment: after the operations `before`. -/
structure IsLawful (o : Object Value) : Prop where
  /-- What is paid for is what is run. -/
  pays : ∀ ops, ∀ turn ∈ o.turns ops, turn.2.cost = total turn.2.attempts
  /-- The initializer succeeds at most once. -/
  initializes_once : ∀ ops, successes .initializer (o.attempts ops) ≤ 1
  /-- A ready object does not become a ghost again. -/
  stays_ready : ∀ before ops, (o.performAll before).isGhost = false →
    (o.performAll (before ++ ops)).isGhost = false
  /-- As long as a field is not set, its provider succeeds at most once. -/
  resolves_once : ∀ before ops name, (∀ op ∈ ops, op.sets name = false) →
    successes (.provider name) ((o.performAll before).attempts ops) ≤ 1
  /-- As long as a field is not set, all readings of it answer the same, and so do readings of all
  fields. -/
  answers_same : ∀ before ops name, (∀ op ∈ ops, op.sets name = false) →
    ∃ result, ∀ turn ∈ (o.performAll before).turns ops,
      (turn.1 = .get name → turn.2.answer = .field result) ∧
        ∀ fields, turn.2.answer = .fields (.ok fields) → ∀ value, (name, value) ∈ fields →
          result = .ok (some value)
  /-- Reading a field changes no other slot, and neither the names nor their order. -/
  changes_slot : ∀ before name slots, (o.performAll before).HasSlots slots →
    ∃ slots', ((o.performAll before).get name).object =
        { o.performAll before with state := .ready slots' } ∧
      slots'.map (·.1) = slots.map (·.1) ∧
      ∀ other, other ≠ name → Entries.find? slots' other = Entries.find? slots other
  /-- If that fails, all slots stay as they are, unless they are those of a ghost that is ready
  now. -/
  fails_unchanged : ∀ before name failure,
    ((o.performAll before).get name).result = .error failure →
    ((o.performAll before).get name).object = o.performAll before ∨
      ∃ declared cost slots, (o.performAll before).state = .ghost declared cost (.ok slots) ∧
        ((o.performAll before).get name).object =
          { o.performAll before with state := .ready slots }
  /-- An initializer that fails leaves the ghost as it is, and is run again whenever it is
  needed. -/
  retries : ∀ before ops declared cost failure,
    (o.performAll before).state = .ghost declared cost (.error failure) →
      o.performAll (before ++ ops) = o.performAll before ∧
      ∀ turn ∈ (o.performAll before).turns ops, turn.2.object = o.performAll before ∧
        ((o.performAll before).wakes turn.1 = true → turn.2.answer.failure? = some failure ∧
          turn.2.attempts = [⟨.initializer, cost, false⟩])
  /-- A field that is set keeps its value until it is set again, also on a ghost: the initializer is
  not run any more. -/
  keeps_set : ∀ before name value ops,
    ((o.performAll before).perform (.set name value)).answer = .done (.ok ()) →
      (∀ attempt ∈ ((o.performAll before).perform (.set name value)).object.attempts ops,
        attempt.supplier ≠ .initializer) ∧
      ((∀ op ∈ ops, op.sets name = false) →
        ∀ turn ∈ ((o.performAll before).perform (.set name value)).object.turns ops,
          turn.1 = .get name → turn.2.answer = .field (.ok (some value)))
  /-- Looking at the object changes nothing and runs nothing. -/
  peeks : ∀ before op, Operation.peeks op = true →
    ((o.performAll before).perform op).object = o.performAll before ∧
      ((o.performAll before).perform op).attempts = []

/-- As long as a field is not set, it answers what it answers at the start. -/
theorem answers_get (o : Object Value) {ops : List Operation}
    (h : ∀ op ∈ ops, op.sets name = false) :
    ∀ turn ∈ o.turns ops,
      (turn.1 = .get name → turn.2.answer = .field (o.get name).result) ∧
        ∀ fields, turn.2.answer = .fields (.ok fields) → ∀ value, (name, value) ∈ fields →
          (o.get name).result = .ok (some value) := by
  have hturns := (turns_induction (P := fun p ↦ (p.get name).result = (o.get name).result) ops
    (fun p op hop hp ↦ (result_get_perform p (h op hop)).trans hp) rfl).2
  intro turn hturn
  obtain ⟨p, hp, hperform⟩ := hturns turn hturn
  rw [← hp, hperform]
  refine ⟨fun hget ↦ ?_, fun fields hfields value hmem ↦ ?_⟩
  · rw [hget]
    rfl
  · generalize turn.1 = op at hfields
    cases op with
    | resolveAll => exact result_get_of_mem_getEach (Answer.fields.inj hfields) hmem
    | get | set | setProvider | wake | fieldNames | isFieldInitialized | isGhost => cases hfields

/-- An object that is ready does not run its initializer. -/
theorem attempts_of_ready (h : o.isGhost = false) (ops : List Operation) :
    ∀ attempt ∈ o.attempts ops, attempt.supplier ≠ .initializer := by
  intro attempt hattempt
  obtain ⟨turn, hturn, hmem⟩ := List.mem_flatMap.mp hattempt
  obtain ⟨p, hp, hperform⟩ := (turns_induction (P := fun p ↦ p.isGhost = false) ops
    (fun p op _ hp ↦ (perform_ready hp op).1) h).2 turn hturn
  rw [hperform] at hmem
  exact (perform_ready hp turn.1).2 attempt hmem

/-- A field can be set only if the object can be woken. -/
theorem exists_slots_of_set {value : Value}
    (h : (o.perform (.set name value)).answer = .done (.ok ())) :
    ∃ slots, o.wake.result = .ok slots := by
  cases hwake : o.wake.result with
  | ok slots => exact ⟨slots, rfl⟩
  | error failure =>
    rw [perform, put_of_error hwake] at h
    cases h

/-- **An object runs its initializer and its providers on demand, and each of them succeeds at most
once.** Whatever is done with an object, ready or not, in whatever order and whatever fails on the
way. -/
theorem isLawful (o : Object Value) : o.IsLawful where
  pays ops := by
    intro turn hturn
    obtain ⟨p, -, hperform⟩ := (turns_induction (P := fun _ ↦ True) ops (fun _ _ _ _ ↦ trivial)
      trivial).2 turn hturn
    rw [hperform]
    exact cost_perform p turn.1
  initializes_once ops := by
    have hdue := @due_attempts o ops .initializer fun _ ↦ Supplier.noConfusion
    have hle := due_le_one o .initializer
    omega
  stays_ready before ops h := by
    rw [performAll_append]
    exact (turns_induction (P := fun p ↦ p.isGhost = false) ops
      (fun p op _ hp ↦ (perform_ready hp op).1) h).1
  resolves_once before ops name h := by
    have hdue := @due_attempts (o.performAll before) ops (.provider name) fun other hother ↦
      Supplier.provider.inj hother ▸ h
    have hle := due_le_one (o.performAll before) (.provider name)
    omega
  answers_same before ops name h := ⟨_, answers_get (o.performAll before) h⟩
  changes_slot before name slots h := by
    obtain ⟨result, slots', attempts, hlooks, hget, -⟩ := get_looks (hasSlots_iff.mp h) name
    exact ⟨slots', congrArg Step.object hget, hlooks.keys, fun other ↦ hlooks.find?_of_ne⟩
  fails_unchanged before name failure h := by
    cases hwake : (o.performAll before).wake.result with
    | error other => exact .inl (congrArg Step.object (get_of_error hwake name).1)
    | ok slots =>
      obtain ⟨result, slots', attempts, hlooks, hget, -⟩ := get_looks hwake name
      obtain rfl := hlooks.eq_of_error ((congrArg Step.result hget).symm.trans h)
      have hobject := congrArg Step.object hget
      obtain hready | ⟨declared, cost, hghost⟩ := hasSlots_iff.mpr hwake
      · exact .inl (hobject.trans (by rw [← hready]))
      · exact .inr ⟨declared, cost, slots', hghost, hobject⟩
  retries before ops declared cost failure h := by
    obtain ⟨hlast, hturns⟩ := turns_induction (P := fun p ↦ p = o.performAll before) ops
      (fun p op _ hp ↦ by rw [hp, (perform_of_error h op).1]) rfl
    refine ⟨(performAll_append ..).trans hlast, fun turn hturn ↦ ?_⟩
    obtain ⟨p, rfl, hperform⟩ := hturns turn hturn
    rw [hperform]
    exact perform_of_error h turn.1
  keeps_set before name value ops h := by
    obtain ⟨slots, hslots⟩ := exists_slots_of_set h
    refine ⟨attempts_of_ready (isGhost_put hslots name _) ops, fun hops turn hturn hget ↦ ?_⟩
    rw [(answers_get _ hops turn hturn).1 hget]
    exact congrArg Answer.field (result_get_put_self hslots name value)
  peeks before op h := by
    cases op with
    | fieldNames | isFieldInitialized | isGhost => exact ⟨rfl, rfl⟩
    | get | set | setProvider | wake | resolveAll => cases h

/-- A ghost with one field, which is read twice. -/
example : (⟨.made 0, "Point", .ghost ["x"] ⟨1, 0⟩ (.ok [("x", .pending ⟨1, 0⟩ (.ok (.int 3)))])⟩ :
    Object Value).attempts [.isGhost, .get "x", .resolveAll] =
      [⟨.initializer, ⟨1, 0⟩, true⟩, ⟨.provider "x", ⟨1, 0⟩, true⟩] := rfl

end Object

end TypedJson
