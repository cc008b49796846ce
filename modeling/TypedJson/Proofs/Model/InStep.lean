import TypedJson.Model.Builder

/-!
# Builds in step

Two builds are *in step* if, from states that match, both succeed with the same value or both fail,
and their states match again. What it means that states match is open: a `Lockstep` says which
memories go together and which failures may stand against each other, and the open classes of both
sides are named beside it. As the stacks before and after are the same, to be in step also says that
whatever a build opens it closes again, also when it fails.

With the right lockstep this covers all that is shown of builds here: that the cached properties do
not show, that what is remembered does not show, that fuel does not run out; and, for a build in
step with itself, that an invariant is kept. The relation is closed under everything builds are made
of.
-/

namespace TypedJson

/-- How the memories and the failures of two builds go together. -/
structure Lockstep where
  memory : BuildMemory → BuildMemory → Prop
  failure : Failure → Failure → Prop

/-- The states have the given open classes, and memories that go together. -/
structure Lockstep.Matches (L : Lockstep) (S S' : List String) (s s' : BuildState) : Prop where
  left : s.stack = S
  right : s'.stack = S'
  memory : L.memory s.toBuildMemory s'.toBuildMemory

/-- A build beside itself: its memory stays of a kind, and so are its failures. -/
def Lockstep.alone (M : BuildMemory → Prop) (E : Failure → Prop) : Lockstep where
  memory m m' := m = m' ∧ M m
  failure e e' := e = e' ∧ E e

theorem Lockstep.Matches.eq {M : BuildMemory → Prop} {E : Failure → Prop} {S : List String}
    {s s' : BuildState} (h : (Lockstep.alone M E).Matches S S s s') : s = s' := by
  obtain ⟨m, stack⟩ := s
  obtain ⟨m', stack'⟩ := s'
  obtain ⟨hleft, hright, hmemory, -⟩ := h
  obtain rfl : stack = S := hleft
  obtain rfl : stack' = stack := hright
  obtain rfl : m = m' := hmemory
  rfl

namespace Build

variable {L : Lockstep} {S S' : List String} {α β : Type} {P : α → Prop} {Q : β → Prop}

/-- The builds keep states in step and end alike, with a value of a kind or in failures that may
stand against each other. -/
def InStep (L : Lockstep) (S S' : List String) (P : α → Prop) (x y : Build α) : Prop :=
  ∀ s s', L.Matches S S' s s' →
    match x s, y s' with
    | .ok a σ, .ok b σ' => a = b ∧ P a ∧ L.Matches S S' σ σ'
    | .error e σ, .error e' σ' => L.failure e e' ∧ L.Matches S S' σ σ'
    | _, _ => False

/-- A remembered node is answered, and a node that is built is remembered. -/
theorem remembering_eq (key : String × Depths) (x : Build Node) (s : BuildState) :
    Build.remembering key x s =
      match Entries.find? s.memo key with
      | some node => .ok node s
      | none =>
        match x s with
        | .ok node σ => .ok node { σ with memo := Entries.put σ.memo key node }
        | .error e σ => .error e σ := by
  show (match Entries.find? s.memo key with
    | some node => pure node
    | none => do
      let node ← x
      modify fun state ↦ { state with memo := Entries.put state.memo key node }
      return node : Build Node) s = _
  cases Entries.find? s.memo key with
  | some node => rfl
  | none =>
    show EStateM.bind x _ s = _
    unfold EStateM.bind
    dsimp only
    cases x s with
    | ok node σ => rfl
    | error e σ => rfl

namespace InStep

variable {x y : Build α}

theorem pure {a : α} (h : P a) : InStep L S S' P (pure a) (pure a) :=
  fun _ _ hs ↦ ⟨rfl, h, hs⟩

theorem throw {e e' : Failure} (h : L.failure e e') :
    InStep L S S' P (throw e : Build α) (throw e' : Build α) :=
  fun _ _ hs ↦ ⟨h, hs⟩

theorem refuse {error : ConfigError}
    (h : L.failure (.configuration error) (.configuration error)) :
    InStep L S S' P (Build.refuse error) (Build.refuse error) :=
  throw h

theorem mono {P' : α → Prop} (hP : ∀ a, P a → P' a) (h : InStep L S S' P x y) :
    InStep L S S' P' x y := by
  intro s s' hs
  have hxy := h s s' hs
  split at hxy
  · exact ⟨hxy.1, hP _ hxy.2.1, hxy.2.2⟩
  · exact hxy
  · exact hxy.elim

theorem bind {f g : α → Build β} (hx : InStep L S S' P x y)
    (hf : ∀ a, P a → InStep L S S' Q (f a) (g a)) : InStep L S S' Q (x >>= f) (y >>= g) := by
  intro s s' hs
  have hxs := hx s s' hs
  show (match (EStateM.bind x f) s, (EStateM.bind y g) s' with
    | .ok a σ, .ok b σ' => a = b ∧ Q a ∧ L.Matches S S' σ σ'
    | .error e σ, .error e' σ' => L.failure e e' ∧ L.Matches S S' σ σ'
    | _, _ => False)
  unfold EStateM.bind
  cases hx' : x s with
  | ok a σ =>
    cases hy' : y s' with
    | ok b σ' =>
      rw [hx', hy'] at hxs
      obtain ⟨rfl, hP, hσ⟩ := hxs
      exact hf a hP σ σ' hσ
    | error e' σ' =>
      rw [hx', hy'] at hxs
      exact hxs.elim
  | error e σ =>
    cases hy' : y s' with
    | ok b σ' =>
      rw [hx', hy'] at hxs
      exact hxs.elim
    | error e' σ' =>
      rw [hx', hy'] at hxs
      exact hxs

/-- Looking at the state in the middle of a build. -/
theorem get_bind {f g : BuildState → Build α}
    (h : ∀ s s', L.Matches S S' s s' → InStep L S S' P (f s) (g s')) :
    InStep L S S' P (get >>= f) (get >>= g) :=
  fun s s' hs ↦ h s s' hs s s' hs

theorem modify {f g : BuildState → BuildState}
    (h : ∀ s s', L.Matches S S' s s' → L.Matches S S' (f s) (g s')) :
    InStep L S S' (fun _ ↦ True) (modify f) (modify g) :=
  fun s s' hs ↦ ⟨rfl, trivial, h s s' hs⟩

theorem lift {x : Except ConfigError α} (h : ∀ a, x = .ok a → P a)
    (he : ∀ e, x = .error e → L.failure (.configuration e) (.configuration e)) :
    InStep L S S' P (Build.lift x) (Build.lift x) := by
  cases x with
  | error error => exact refuse (he error rfl)
  | ok a => exact pure (h a rfl)

/-! ### Open classes -/

/-- With one more class open on both sides. -/
theorem opening {className : String}
    (h : InStep L (S ++ [className]) (S' ++ [className]) P x y) :
    InStep L S S' P (Build.opening className x) (Build.opening className y) := by
  intro s s' hs
  have hopened := h { s with stack := s.stack ++ [className] }
    { s' with stack := s'.stack ++ [className] } ⟨by rw [hs.left], by rw [hs.right], hs.memory⟩
  have hclosed : ∀ σ σ', L.Matches (S ++ [className]) (S' ++ [className]) σ σ' →
      L.Matches S S' { σ with stack := σ.stack.dropLast }
        { σ' with stack := σ'.stack.dropLast } := fun σ σ' hσ ↦
    ⟨by rw [hσ.left, List.dropLast_concat], by rw [hσ.right, List.dropLast_concat], hσ.memory⟩
  unfold Build.opening
  split at hopened
  · next hx hy =>
    rw [hx, hy]
    exact ⟨hopened.1, hopened.2.1, hclosed _ _ hopened.2.2⟩
  · next hx hy =>
    rw [hx, hy]
    exact ⟨hopened.1, hclosed _ _ hopened.2⟩
  · exact hopened.elim

/-- A class is opened on both sides or on neither. -/
theorem guarding {policy : CircularPolicy} {className : String}
    (hsame : isTooDeep policy S className = isTooDeep policy S' className)
    (hfail : isTooDeep policy S className = true →
      L.failure (circular S className) (circular S' className))
    (h : isTooDeep policy S className = false → InStep L S S' P x y) :
    InStep L S S' P (Build.guarding policy className x) (Build.guarding policy className y) := by
  refine get_bind fun s s' hs ↦ ?_
  rw [hs.left, hs.right]
  dsimp only
  rw [← hsame]
  split
  · next hdeep => exact throw (hfail hdeep)
  · next hopen => exact h (Bool.eq_false_iff.mpr hopen)

/-- What is remembered is the same on both sides. What is built may be of a narrower kind than what
is found. -/
theorem remembering {P B : Node → Prop} {key : String × Depths} {x y : Build Node}
    (hsame : ∀ m m', L.memory m m' → Entries.find? m.memo key = Entries.find? m'.memo key)
    (hfound : ∀ m m' node, L.memory m m' → Entries.find? m.memo key = some node → P node)
    (hput : ∀ m m' node, L.memory m m' → B node →
      L.memory { m with memo := Entries.put m.memo key node }
        { m' with memo := Entries.put m'.memo key node })
    (hbuilt : ∀ node, B node → P node) (h : InStep L S S' B x y) :
    InStep L S S' P (Build.remembering key x) (Build.remembering key y) := by
  refine get_bind fun s s' hs ↦ ?_
  rw [← hsame _ _ hs.memory]
  cases hfind : Entries.find? s.memo key with
  | some node => exact pure (hfound _ _ node hs.memory hfind)
  | none =>
    refine bind h fun node hnode ↦ bind (modify fun σ σ' hσ ↦ ?_) fun _ _ ↦ pure (hbuilt _ hnode)
    exact ⟨hσ.left, hσ.right, hput _ _ node hσ.memory hnode⟩

/-! ### One side only -/

theorem get_bind_left {f : BuildState → Build α}
    (h : ∀ s s', L.Matches S S' s s' → InStep L S S' P (f s) y) :
    InStep L S S' P (get >>= f) y :=
  fun s s' hs ↦ h s s' hs s s' hs

/-- Beside a build that remembers nothing. What is remembered has to be what that build answers. -/
theorem remembering_left {P : Node → Prop} {key : String × Depths} {x y : Build Node}
    (hfound : ∀ s s' node, L.Matches S S' s s' → Entries.find? s.memo key = some node →
      ∃ σ', y s' = .ok node σ' ∧ P node ∧ L.Matches S S' s σ')
    (hput : ∀ s s' node σ σ', L.Matches S S' s s' → x s = .ok node σ → y s' = .ok node σ' →
      L.Matches S S' σ σ' → L.memory { σ.toBuildMemory with memo := Entries.put σ.memo key node }
        σ'.toBuildMemory)
    (h : InStep L S S' P x y) : InStep L S S' P (Build.remembering key x) y := by
  intro s s' hs
  rw [remembering_eq]
  cases hfind : Entries.find? s.memo key with
  | some node =>
    obtain ⟨σ', hy, hP, hσ⟩ := hfound s s' node hs hfind
    rw [hy]
    exact ⟨rfl, hP, hσ⟩
  | none =>
    have hxy := h s s' hs
    cases hx : x s with
    | error e σ =>
      rw [hx] at hxy
      exact hxy
    | ok node σ =>
      rw [hx] at hxy
      cases hy : y s' with
      | error e' σ' =>
        rw [hy] at hxy
        exact hxy.elim
      | ok node' σ' =>
        rw [hy] at hxy
        obtain ⟨rfl, hP, hσ⟩ := hxy
        exact ⟨rfl, hP, hσ.left, hσ.right, hput s s' node σ σ' hs hx hy hσ⟩

end InStep

/-- What a build in step with itself answers. -/
theorem InStep.run {M : BuildMemory → Prop} {E : Failure → Prop} {x : Build α}
    (h : InStep (.alone M E) S S P x x) {s : BuildState} (hstack : s.stack = S)
    (hM : M s.toBuildMemory) :
    match x s with
    | .ok a σ => P a ∧ σ.stack = S ∧ M σ.toBuildMemory
    | .error e σ => E e ∧ σ.stack = S ∧ M σ.toBuildMemory := by
  have hrun := h s s ⟨hstack, hstack, rfl, hM⟩
  cases hx : x s with
  | ok a σ =>
    rw [hx] at hrun
    exact ⟨hrun.2.1, hrun.2.2.left, hrun.2.2.memory.2⟩
  | error e σ =>
    rw [hx] at hrun
    exact ⟨hrun.1.2, hrun.2.left, hrun.2.memory.2⟩

end Build

end TypedJson
