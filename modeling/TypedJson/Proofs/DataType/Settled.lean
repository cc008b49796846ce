import TypedJson.DataType.Resolve
import TypedJson.Proofs.DataType.Members

/-!
# Settled types

Different types can have the same text: an enumeration and a class of one name, or a union that is
marked nullable and one that is not. The resolver answers only one type for each text. `Settled`
describes the types that it answers in a scope, one rule for each branch of the resolver, and the
operations on types are shown here to stay among them: making a type nullable or not, flattening a
union, and putting settled types in the place of template parameters.
-/

namespace TypedJson

namespace TypeText

/-- A name that the resolver looks up in its scope. -/
structure IsFree (name : String) : Prop where
  isName : isName name.toList = true
  notPlain : plainBuiltin? name = none
  notList : name ≠ "list"
  notArray : name ≠ "array"
  notDict : name ≠ "dict"

end TypeText

namespace DataType

open TypeText

/-! ## Settled types -/

/-- The types that the resolver answers in a scope. -/
inductive Settled (scope : Scope) : DataType → Prop
  | scalar (kind : ScalarKind) (nullable : Bool) : Settled scope (mk (.scalar kind) nullable)
  | null : Settled scope (mk .null true)
  | mixed : Settled scope (mk .mixed true)
  | list {item : DataType} (nullable : Bool) :
    Settled scope item → Settled scope (mk (.list item) nullable)
  | dict {key value : DataType} (nullable : Bool) :
    key = .scalar .int ∨ key = .scalar .string → Settled scope value →
      Settled scope (mk (.dict key value) nullable)
  | template {name : String} (nullable : Bool) :
    IsFree name → name ∈ scope.templates → Settled scope (mk (.template name) nullable)
  | dateTime {name : String} (nullable : Bool) :
    name ∉ scope.templates → name ∈ dateTimeClasses →
      Settled scope (mk (.object name []) nullable)
  | object {name : String} {generics : List DataType} (nullable : Bool) :
    IsFree name → name ∉ scope.templates → name ∉ dateTimeClasses →
      scope.lookup name = some (.className generics.length) →
      (∀ t ∈ generics, Settled scope t) → Settled scope (mk (.object name generics) nullable)
  | enum {name : String} {backing : ScalarKind} (nullable : Bool) :
    IsFree name → name ∉ scope.templates → name ∉ dateTimeClasses →
      scope.lookup name = some (.enum backing) → Settled scope (mk (.enum name backing) nullable)
  | union {members : List DataType} :
    2 ≤ members.length → (∀ m ∈ members, Settled scope m) → (∀ m ∈ members, IsLeaf m) →
      AreDistinct members → Settled scope (mk (.union members) (members.any isNull))

namespace Settled

variable {scope : Scope} {t : DataType}

theorem withNullable {kind : TypeKind DataType} {nullable : Bool}
    (h : Settled scope (mk kind nullable)) (hp : IsPlain kind) (other : Bool) :
    Settled scope (mk kind other) := by
  cases h with
  | null | mixed | union => exact hp.elim
  | scalar => exact .scalar _ _
  | list _ hitem => exact .list other hitem
  | dict _ hkey hvalue => exact .dict other hkey hvalue
  | template _ hfree hmem => exact .template other hfree hmem
  | dateTime _ hmem htime => exact .dateTime other hmem htime
  | object _ hfree hmem htime hlookup hgen => exact .object other hfree hmem htime hlookup hgen
  | enum _ hfree hmem htime hlookup => exact .enum other hfree hmem htime hlookup

theorem isUnionClosed (scope : Scope) : IsUnionClosed (Settled scope) where
  null := .null
  mixed := .mixed
  withNullable h hp other := h.withNullable hp other
  of_union h := by
    cases h with
    | union _ hset => exact hset
  orNull_union h := by
    cases h with
    | @union members hlen hset hleaf hdist =>
      rw [DataType.orNull]
      split
      · exact .union hlen hset hleaf hdist
      · next hnull =>
        refine .union (by simp; omega) ?_ ?_ (hdist.concat_null hnull)
        · exact List.forall_mem_append.mpr ⟨hset, List.forall_mem_singleton.mpr .null⟩
        · exact List.forall_mem_append.mpr ⟨hleaf, List.forall_mem_singleton.mpr trivial⟩
  unionOf hlen hset hleaf hdist := .union hlen hset hleaf hdist

theorem unionOf {members : List DataType} (hlen : 2 ≤ members.length)
    (h : ∀ m ∈ members, Settled scope m ∧ IsLeaf m) (hdist : AreDistinct members) :
    Settled scope (DataType.unionOf members) :=
  .union hlen (fun m hm ↦ (h m hm).1) (fun m hm ↦ (h m hm).2) hdist

theorem union? {types : List DataType} (h : ∀ u ∈ types, Settled scope u)
    (ht : DataType.union? types = some t) : Settled scope t :=
  (isUnionClosed scope).union? h ht

theorem unionOrMember {types : List DataType} (h : ∀ u ∈ types, Settled scope u) :
    Settled scope (DataType.unionOrMember types) :=
  (isUnionClosed scope).unionOrMember h

theorem orNull (h : Settled scope t) : Settled scope t.orNull :=
  (isUnionClosed scope).orNull h

theorem nullableIf (h : Settled scope t) (flag : Bool) : Settled scope (t.nullableIf flag) :=
  (isUnionClosed scope).nullableIf h flag

theorem nonNull (h : Settled scope t) : Settled scope t.nonNull :=
  (isUnionClosed scope).nonNull h

end Settled

/-! ## Substitution -/

/-- The scope without template parameters. -/
def closed (scope : Scope) : Scope := ⟨scope.lookup, []⟩

/-- Bindings for the template parameters of a scope, to types that have none. -/
structure Binds (scope : Scope) (bindings : Entries String DataType) : Prop where
  covers : ∀ name ∈ scope.templates, ∃ t, Entries.find? bindings name = some t
  settled : ∀ name t, Entries.find? bindings name = some t → Settled (closed scope) t

theorem substituteInAll_eq_map (bindings : Entries String DataType) (types : List DataType) :
    substituteInAll bindings types = types.map (substituteIn bindings) := by
  induction types with
  | nil => rfl
  | cons t types ih => rw [substituteInAll, ih, List.map_cons]

/-- There is nothing to replace in a scalar type. -/
theorem substitute_scalar (kind : ScalarKind) (nullable : Bool)
    (bindings : Entries String DataType) :
    ((scalar kind).nullableIf nullable).substitute bindings =
      (scalar kind).nullableIf nullable := by
  unfold substitute
  split
  · rfl
  · cases nullable <;> rfl

namespace Binds

variable {scope : Scope} {bindings : Entries String DataType}

theorem bound (h : Binds scope bindings) {name : String} {unbound : DataType}
    (hu : Settled (closed scope) unbound) (nullable : Bool) :
    Settled (closed scope) (DataType.bound bindings name nullable unbound) :=
  (Settled.isUnionClosed _).bound (h.settled name) hu nullable

/-- With every template parameter of its scope bound, a type has none left. -/
theorem substituteIn (h : Binds scope bindings) {t : DataType} (ht : Settled scope t) :
    Settled (closed scope) (t.substituteIn bindings) := by
  induction ht with
  | scalar kind nullable => exact .scalar kind nullable
  | null => exact .null
  | mixed => exact .mixed
  | list nullable _ ih =>
    rw [DataType.substituteIn]
    exact (Settled.list false ih).nullableIf nullable
  | @dict key value nullable hkey _ ih =>
    have hkept : key.substituteIn bindings = key := by
      rcases hkey with rfl | rfl <;> rfl
    rw [DataType.substituteIn, hkept]
    exact (Settled.dict false hkey ih).nullableIf nullable
  | template nullable hfree hmem =>
    obtain ⟨t, ht⟩ := h.covers _ hmem
    rw [DataType.substituteIn, DataType.bound, ht]
    exact (h.settled _ t ht).nullableIf nullable
  | dateTime nullable _ htime =>
    rw [DataType.substituteIn]
    exact h.bound (.dateTime nullable List.not_mem_nil htime) nullable
  | @object name generics nullable hfree _ htime hlookup _ ih =>
    cases generics with
    | nil =>
      rw [DataType.substituteIn]
      exact h.bound (.object nullable hfree List.not_mem_nil htime hlookup (by simp)) nullable
    | cons t types =>
      rw [DataType.substituteIn, substituteInAll_eq_map, ← List.map_cons]
      refine Settled.nullableIf (.object false hfree List.not_mem_nil htime ?_ ?_) nullable
      · rw [List.length_map]
        exact hlookup
      · intro u hu
        obtain ⟨v, hv, rfl⟩ := List.mem_map.mp hu
        exact ih v hv
  | enum nullable hfree _ htime hlookup =>
    exact .enum nullable hfree List.not_mem_nil htime hlookup
  | union _ _ _ _ ih =>
    rw [DataType.substituteIn, substituteInAll_eq_map]
    refine Settled.unionOrMember fun u hu ↦ ?_
    obtain ⟨v, hv, rfl⟩ := List.mem_map.mp hu
    exact ih v hv

theorem substitute (h : Binds scope bindings) {t : DataType} (ht : Settled scope t) :
    Settled (closed scope) (t.substitute bindings) := by
  unfold DataType.substitute
  split
  · next hempty =>
    have hnone : scope.templates = [] := by
      refine List.eq_nil_iff_forall_not_mem.mpr fun name hname ↦ ?_
      obtain ⟨t, ht⟩ := h.covers name hname
      rw [List.isEmpty_iff.mp hempty] at ht
      cases ht
    have hscope : closed scope = scope := by
      rw [closed, ← hnone]
    rwa [hscope]
  · exact h.substituteIn ht

end Binds

end DataType

end TypedJson
