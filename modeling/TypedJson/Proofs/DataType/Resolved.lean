import TypedJson.Proofs.DataType.Text
import TypedJson.Proofs.Outcome

/-!
# What the resolver answers

Whatever type string the resolver accepts, the type it answers is settled. With the reading back of
texts this makes settled types exactly those that are denoted by their own text.
-/

namespace TypedJson

namespace TypeText

open DataType

variable {scope : Scope} {t : DataType}

theorem settled_of_plainBuiltin? {name : String} (h : plainBuiltin? name = some t) :
    Settled scope t ∧ IsLeaf t := by
  unfold plainBuiltin? at h
  split at h <;> cases h
  case h_1 | h_2 => exact ⟨.scalar .int false, rfl⟩
  case h_3 | h_4 => exact ⟨.scalar .float false, rfl⟩
  case h_5 | h_6 => exact ⟨.scalar .bool false, rfl⟩
  case h_7 => exact ⟨.scalar .string false, rfl⟩
  case h_8 => exact ⟨.null, trivial⟩
  case h_9 => exact ⟨.mixed, trivial⟩

theorem eq_scalar_of_beq {key : DataType} {kind : ScalarKind} (h : (key == .scalar kind) = true) :
    key = .scalar kind := by
  obtain ⟨other, nullable⟩ := key
  have hboth : (nullable == false && sameKind false other (.scalar kind)) = true := h
  obtain ⟨hn, hk⟩ := Bool.and_eq_true_iff.mp hboth
  cases other with
  | scalar other =>
    have hkind : (other == kind) = true := hk
    rw [beq_iff_eq.mp hkind, beq_iff_eq.mp hn]
    rfl
  | _ => cases hk

theorem settled_of_resolveDict {atom : List Char} {key value : DataType}
    (hvalue : Settled scope value) (h : resolveDict atom key value = .ok t) :
    Settled scope t ∧ IsLeaf t := by
  unfold resolveDict at h
  split at h
  · next hkey =>
    cases h
    refine ⟨.dict false ?_ hvalue, rfl⟩
    exact (Bool.or_eq_true_iff.mp hkey).imp eq_scalar_of_beq eq_scalar_of_beq
  · cases h

theorem settled_of_resolveName {atom : List Char} {name : String} {params : List DataType}
    (hfree : IsFree name) (hparams : ∀ p ∈ params, Settled scope p)
    (h : resolveName scope atom name params = .ok t) : Settled scope t ∧ IsLeaf t := by
  unfold resolveName at h
  split at h
  · next hmem =>
    split at h <;> cases h
    exact ⟨.template false hfree (by simpa using hmem), rfl⟩
  next hmem =>
  split at h
  · next htime =>
    split at h <;> cases h
    exact ⟨.dateTime false (by simpa using hmem) (by simpa using htime), rfl⟩
  next htime =>
  split at h
  · next templates hlookup =>
    split at h
    · next hlen =>
      cases h
      rw [hlen] at hlookup
      exact ⟨.object false hfree (by simpa using hmem) (by simpa using htime) hlookup hparams, rfl⟩
    · cases h
  · next backing hlookup =>
    split at h <;> cases h
    exact ⟨.enum false hfree (by simpa using hmem) (by simpa using htime) hlookup, rfl⟩
  · cases h

theorem settled_of_resolveBase {atom : List Char} {name : String} {params : List DataType}
    (hname : isName name.toList = true) (hparams : ∀ p ∈ params, Settled scope p)
    (h : resolveBase scope atom name params = .ok t) : Settled scope t ∧ IsLeaf t := by
  have hlist : ∀ item, Settled scope item → Settled scope (.list item) ∧ IsLeaf (.list item) :=
    fun item hitem ↦ ⟨.list false hitem, rfl⟩
  have hdict : ∀ value, Settled scope value →
      Settled scope (.dict (.scalar .string) value) ∧ IsLeaf (.dict (.scalar .string) value) :=
    fun value hvalue ↦ ⟨.dict false (.inr rfl) hvalue, rfl⟩
  delta resolveBase at h
  split at h
  · next plain hplain =>
    split at h <;> cases h
    exact settled_of_plainBuiltin? hplain
  next hplain =>
  split at h
  · split at h <;> cases h
    · exact hlist _ .mixed
    · exact hlist _ (hparams _ (by simp))
  next hnlist =>
  split at h
  · split at h
    · cases h
      exact hlist _ .mixed
    · cases h
      exact hlist _ (hparams _ (by simp))
    · exact settled_of_resolveDict (hparams _ (by simp)) h
    · cases h
  next hnarray =>
  split at h
  · split at h
    · cases h
      exact hdict _ .mixed
    · cases h
      exact hdict _ (hparams _ (by simp))
    · exact settled_of_resolveDict (hparams _ (by simp)) h
    · cases h
  next hndict =>
  exact settled_of_resolveName ⟨hname, hplain, hnlist, hnarray, hndict⟩ hparams h

/-! ## Texts -/

variable {resolve : List Char → Except ConfigError DataType}

theorem forall_of_resolveEach {P : DataType → Prop} {texts : List (List Char)}
    {types : List DataType} (hres : ∀ text t, resolve text = .ok t → P t)
    (h : resolveEach resolve texts = .ok types) : ∀ t ∈ types, P t := by
  induction texts generalizing types with
  | nil =>
    cases h
    simp
  | cons text texts ih =>
    obtain ⟨t, ht, h⟩ := Outcome.bind_eq_ok.mp h
    obtain ⟨rest, hrest, h⟩ := Outcome.bind_eq_ok.mp h
    cases h
    intro u hu
    rcases List.mem_cons.mp hu with rfl | hu
    · exact hres text _ ht
    · exact ih hrest u hu

theorem settled_of_resolveAtom {atom : List Char}
    (hres : ∀ text t, resolve text = .ok t → Settled scope t)
    (h : resolveAtom scope resolve atom = .ok t) : Settled scope t ∧ IsLeaf t := by
  obtain ⟨⟨base, texts⟩, -, h⟩ := Outcome.bind_eq_ok.mp h
  replace h : (if isName base = true then do
      let params ← resolveEach resolve texts
      resolveBase scope atom (String.ofList base) params
    else throw (invalid atom "invalid identifier")) = .ok t := h
  split at h
  · next hname =>
    obtain ⟨params, hparams, h⟩ := Outcome.bind_eq_ok.mp h
    refine settled_of_resolveBase ?_ (forall_of_resolveEach hres hparams) h
    rwa [String.toList_ofList]
  · cases h

theorem settled_of_resolveMember {text : List Char}
    (hres : ∀ text t, resolve text = .ok t → Settled scope t)
    (h : resolveMember scope resolve text = .ok t) : Settled scope t := by
  unfold resolveMember at h
  split at h
  · obtain ⟨u, hu, rfl⟩ := Outcome.map_eq_ok.mp h
    exact (settled_of_resolveAtom hres hu).1.orNull
  · exact (settled_of_resolveAtom hres h).1

theorem settled_of_resolveUnionMember {input text : List Char}
    (hres : ∀ text t, resolve text = .ok t → Settled scope t)
    (h : resolveUnionMember scope resolve input text = .ok t) : Settled scope t := by
  unfold resolveUnionMember at h
  split at h
  · cases h
  · exact settled_of_resolveMember hres h

theorem settled_of_resolveAt {fuel : Nat} {text : List Char}
    (h : resolveAt scope fuel text = .ok t) : Settled scope t := by
  induction fuel generalizing text t with
  | zero => cases h
  | succ fuel ih =>
    have hres : ∀ text t, resolveAt scope fuel text = .ok t → Settled scope t := fun _ _ ↦ ih
    rw [resolveAt] at h
    split at h
    · cases h
    obtain ⟨members, -, h⟩ := Outcome.bind_eq_ok.mp h
    split at h
    · exact settled_of_resolveMember hres h
    · obtain ⟨types, htypes, h⟩ := Outcome.bind_eq_ok.mp h
      have hsettled : ∀ u ∈ types, Settled scope u :=
        forall_of_resolveEach (fun _ _ ↦ settled_of_resolveUnionMember hres) htypes
      split at h
      · next union hunion =>
        cases h
        exact Settled.union? hsettled hunion
      · cases h

end TypeText

namespace DataType

open TypeText

theorem settled_of_resolve {scope : Scope} {text : String} {t : DataType}
    (h : TypeText.resolve scope text = .ok t) : Settled scope t :=
  settled_of_resolveAt h

/-- The settled types are those that their own text denotes. -/
theorem settled_iff {scope : Scope} {t : DataType} :
    Settled scope t ↔ TypeText.resolve scope t.text = .ok t :=
  ⟨Settled.resolve_text, settled_of_resolve⟩

/-- A resolved type is what its own text denotes. So in one scope the text tells resolved types
apart, down to the order of the members of unions. -/
theorem resolve_text_of_resolve {scope : Scope} {text : String} {t : DataType}
    (h : TypeText.resolve scope text = .ok t) :
    TypeText.resolve scope t.text = .ok t ∧
      ∀ other u, TypeText.resolve scope other = .ok u → u.text = t.text → u = t := by
  have ht : Settled scope t := settled_of_resolve h
  refine ⟨ht.resolve_text, fun other u hu htext ↦ ?_⟩
  have hsettled : Settled scope u := settled_of_resolve hu
  exact hsettled.eq_of_text ht htext

/-- A name without its parameters is written out in the text of the type. -/
theorem resolve_text_of_resolve_box :
    let scope : Scope := ⟨fun name ↦ if name = "Box" then some (.className 1) else none, ["T"]⟩
    let t : DataType := mk (.object "Box" [mk (.union [.template "T", .list .mixed]) false]) true
    TypeText.resolve scope "?Box<T|array>" = .ok t ∧ t.text = "?Box<T|list<mixed>>" ∧
      TypeText.resolve scope t.text = .ok t ∧
        ∀ other u, TypeText.resolve scope other = .ok u → u.text = t.text → u = t := by
  intro scope t
  have h : TypeText.resolve scope "?Box<T|array>" = .ok t := rfl
  exact ⟨h, by cbv, resolve_text_of_resolve h⟩

end DataType

end TypedJson
