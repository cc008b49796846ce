import Mathlib.Data.List.Nodup
import TypedJson.Proofs.Roundtrip.Leaves

/-!
# Values of any type

Where any type will do, a value is written by what it is and read as one JSON value. A value for
which JSON has a form comes back the same, provided that its containers are not nested deeper than
the reader goes.
-/

namespace TypedJson

/-! ## Entries with distinct keys -/

theorem Parsed.jsonEntries_of_nodup {entries : List (String × Parsed)}
    (hdistinct : (entries.map (·.1)).Nodup) {done : Entries String Json}
    (hnew : ∀ a ∈ done, ∀ b ∈ entries, a.1 ≠ b.1) :
    Parsed.jsonEntries entries done = done ++ entries.map fun entry ↦ (entry.1, entry.2.json) := by
  induction entries generalizing done with
  | nil => exact (List.append_nil done).symm
  | cons entry entries ih =>
    obtain ⟨key, tree⟩ := entry
    obtain ⟨hfirst, hrest⟩ := List.nodup_cons.mp hdistinct
    have hput : Entries.put done key tree.json = done ++ [(key, tree.json)] :=
      Entries.put_of_forall_ne (fun a ha ↦ hnew a ha _ List.mem_cons_self) _
    have hnew' : ∀ a ∈ done ++ [(key, tree.json)], ∀ b ∈ entries, a.1 ≠ b.1 := by
      intro a ha b hb
      rcases List.mem_append.mp ha with ha | ha
      · exact hnew a ha b (List.mem_cons_of_mem _ hb)
      · rw [List.mem_singleton.mp ha]
        exact fun heq ↦ hfirst (List.mem_map.mpr ⟨b, hb, heq.symm⟩)
    rw [Parsed.jsonEntries, hput, ih hrest hnew', List.append_assoc]
    rfl

theorem Value.ofJsonItems_eq_map (items : List Json) :
    Value.ofJsonItems items = items.map Value.ofJson := by
  induction items with
  | nil => rfl
  | cons item items ih => rw [Value.ofJsonItems, ih, List.map_cons]

theorem Value.ofJsonEntries_eq_map (entries : List (String × Json)) :
    Value.ofJsonEntries entries =
      entries.map fun entry ↦ (.string entry.1, Value.ofJson entry.2) := by
  induction entries with
  | nil => rfl
  | cons entry entries ih => rw [Value.ofJsonEntries, ih, List.map_cons]

theorem Parsed.jsonItems_eq_map (items : List Parsed) :
    Parsed.jsonItems items = items.map Parsed.json := by
  induction items with
  | nil => rfl
  | cons item items ih => rw [Parsed.jsonItems, ih, List.map_cons]

theorem Parsed.heightItems_le {items : List Parsed} {depth : Nat}
    (h : ∀ item ∈ items, item.height ≤ depth) : Parsed.heightItems items ≤ depth := by
  induction items with
  | nil => exact Nat.zero_le depth
  | cons item items ih =>
    exact Nat.max_le.mpr ⟨h item List.mem_cons_self,
      ih fun other hother ↦ h other (List.mem_cons_of_mem item hother)⟩

theorem Parsed.heightEntries_le {entries : List (String × Parsed)} {depth : Nat}
    (h : ∀ entry ∈ entries, entry.2.height ≤ depth) : Parsed.heightEntries entries ≤ depth := by
  induction entries with
  | nil => exact Nat.zero_le depth
  | cons entry entries ih =>
    exact Nat.max_le.mpr ⟨h entry List.mem_cons_self,
      ih fun other hother ↦ h other (List.mem_cons_of_mem entry hother)⟩

/-! ## The round trip -/

/-- The tree is not too high, and its shape and its value are those of the value. -/
structure Parsed.IsFormOf (flags : JsonFlags) (depth : Nat) (v : Value) (tree : Parsed) : Prop where
  height : tree.height ≤ depth
  shape : v.HasShape flags tree.shape
  same : (Value.ofJson tree.json).SameAs v

theorem Parsed.IsLeafOf.isFormOf {value : Json} {shape : String} {tree : Parsed}
    (h : tree.IsLeafOf value shape) {flags : JsonFlags} {v : Value}
    (hshape : v.HasShape flags shape) (hsame : (Value.ofJson value).SameAs v) (depth : Nat) :
    tree.IsFormOf flags depth v :=
  ⟨by rw [h.height]; exact Nat.zero_le depth, by rwa [h.shape], by rwa [h.json]⟩

namespace Parsed.IsFormOf

variable {flags : JsonFlags} {depth : Nat}

theorem list {items : List Value} {trees : List Parsed} (offset : Nat)
    (h : List.Forall₂ (IsFormOf flags depth) items trees) :
    IsFormOf flags (depth + 1) (.list items) (.list offset trees) := by
  refine ⟨Nat.succ_le_succ (heightItems_le fun tree htree ↦ ?_), rfl, ?_⟩
  · obtain ⟨item, _, hitem⟩ := exists_of_forall₂_right h htree
    exact hitem.height
  · rw [Parsed.json, Value.ofJson, jsonItems_eq_map, Value.ofJsonItems_eq_map, List.map_map]
    refine .list (List.forall₂_map_left_iff.mpr ?_)
    exact List.Forall₂.flip (h.imp fun _ _ hitem ↦ hitem.same)

theorem dict {entries : List (DictKey × Value)} {trees : List (String × Parsed)}
    (hkeys : ∀ entry ∈ entries, entry.1.IsOf .string) (hdistinct : (entries.map (·.1)).Nodup)
    (offset : Nat)
    (h : List.Forall₂ (Run.FitsField (·.1.text) fun entry ↦ IsFormOf flags depth entry.2) entries
      trees) :
    IsFormOf flags (depth + 1) (.dict entries) (.dict offset trees) := by
  have hkey : ∀ entry ∈ entries, entry.1 = .string entry.1.text := by
    intro entry hentry
    have hkind := hkeys entry hentry
    obtain ⟨_ | _, _⟩ := entry
    · exact hkind.elim
    · rfl
  have hboth := (List.forall₂_and_left entries trees).mpr ⟨hkey, h⟩
  have hnames : entries.map (·.1) = trees.map fun tree ↦ DictKey.string tree.1 :=
    map_eq_map_of_forall₂ hboth fun entry tree hentry ↦ by rw [hentry.1, hentry.2.1]
  have hnodup : (trees.map (·.1)).Nodup := by
    refine List.Nodup.of_map DictKey.string ?_
    rw [List.map_map]
    exact hnames ▸ hdistinct
  refine ⟨Nat.succ_le_succ (heightEntries_le fun tree htree ↦ ?_), rfl, ?_⟩
  · obtain ⟨entry, _, hentry⟩ := exists_of_forall₂_right h htree
    exact hentry.2.height
  · rw [Parsed.json, jsonEntries_of_nodup hnodup fun _ h ↦ absurd h List.not_mem_nil, Value.ofJson,
      Value.ofJsonEntries_eq_map, List.nil_append, List.map_map]
    refine .dict hdistinct
      (List.forall₂_map_left_iff.mpr (hboth.imp fun entry tree hentry ↦ ?_).flip)
    exact ⟨(congrArg DictKey.string hentry.2.1).trans hentry.1.symm, hentry.2.2.same⟩

end Parsed.IsFormOf

theorem Run.WritesValue.isFormOf {x : Run Unit} {value : Json} {shape : String}
    (h : x.WritesValue (Parsed.IsLeafOf value shape)) {flags : JsonFlags} {v : Value}
    (hshape : v.HasShape flags shape) (hsame : (Value.ofJson value).SameAs v) (depth : Nat) :
    x.WritesValue (Parsed.IsFormOf flags depth v) :=
  h.mono fun _ htree ↦ htree.isFormOf hshape hsame depth

/-- A value that JSON has a form for is written in that form. -/
theorem Value.IsPlain.writes {config : Config} {depth : Nat} {v : Value}
    (h : v.IsPlain config.jsonFlags depth) :
    (Run.writeResolved config v.resolved).WritesValue
      (Parsed.IsFormOf config.jsonFlags depth v) := by
  induction h with
  | null => exact Run.writes_null.isFormOf (v := .null) rfl .null _
  | bool b => exact (Run.writes_bool b).isFormOf (v := .bool b) rfl (.bool b) _
  | int i =>
    have hvalue : Value.ofJson (.number (.ofInt64 i)) = .int i := by
      rw [Value.ofJson, Value.ofNumber, Number.toInt64?_ofInt64]
    exact (Run.writes_int i).isFormOf (v := .int i) rfl (hvalue ▸ .int i) _
  | @float _ f hback hint =>
    obtain ⟨n, shape, hsame, hnone | hsome, hshape, hwrites⟩ := Run.writes_float hback
    · have hvalue : Value.ofJson (.number n) = .float n.toFloat := by
        rw [Value.ofJson, Value.ofNumber, hnone]
      exact hwrites.isFormOf (v := .float f) hshape (hvalue ▸ .float hsame) _
    · exact absurd hsome hint
  | string s => exact (Run.writes_string _ s).isFormOf (v := .string s) rfl (.string s) _
  | @list depth items _ ih =>
    refine Run.writesValue_list (fun text hadds ↦ ?_) ih fun offset trees ↦ .list offset
    rwa [Run.writeItems_resolved]
  | @dict depth entries hkeys hdistinct _ ih =>
    refine Run.writesValue_dict config.jsonFlags (·.1.text) (fun text hadds ↦ ?_) ih
      fun offset trees htrees ↦ .dict hkeys hdistinct offset htrees
    rwa [Run.writeEntries_resolved]

end TypedJson
