import Mathlib.Data.List.Forall2
import Mathlib.Data.List.Induction
import Mathlib.Data.List.Perm.Subperm
import TypedJson.Entries

/-!
# Looking up entries

Entries may be given from outside with a key twice; then the first counts. So a look-up sees the
entries of its key only, in their order, and any rearrangement that keeps that order answers the
same.
-/

namespace TypedJson.Entries

variable {κ α β : Type} [DecidableEq κ]

theorem mem_of_find? {entries : Entries κ α} {key : κ} {a : α} (h : find? entries key = some a) :
    (key, a) ∈ entries := by
  induction entries with
  | nil => simp at h
  | cons entry rest ih =>
    obtain ⟨k, b⟩ := entry
    rw [find?] at h
    split at h
    · next hk =>
      rw [Option.some.injEq] at h
      rw [hk, h]
      exact List.mem_cons_self
    · exact List.mem_cons_of_mem _ (ih h)

theorem find?_of_mem {entries : Entries κ α} (hdistinct : (entries.map (·.1)).Nodup) {key : κ}
    {a : α} (h : (key, a) ∈ entries) : find? entries key = some a := by
  induction entries with
  | nil => exact absurd h List.not_mem_nil
  | cons entry rest ih =>
    obtain ⟨k, b⟩ := entry
    obtain ⟨hnew, hrest⟩ := List.nodup_cons.mp hdistinct
    rw [find?]
    rcases List.mem_cons.mp h with heq | hmem
    · obtain ⟨rfl, rfl⟩ := Prod.mk.inj heq
      exact if_pos rfl
    · have hne : k ≠ key := by
        rintro rfl
        exact hnew (List.mem_map.mpr ⟨_, hmem, rfl⟩)
      rw [if_neg hne]
      exact ih hrest hmem

theorem find?_eq_none {entries : Entries κ α} {key : κ} :
    find? entries key = none ↔ ∀ entry ∈ entries, entry.1 ≠ key := by
  induction entries with
  | nil => simp
  | cons entry rest ih =>
    obtain ⟨k, a⟩ := entry
    by_cases hk : k = key
    · simp [find?, hk]
    · simp [find?, hk, ih]

/-- Something under a new key is put behind the entries. -/
theorem put_of_forall_ne {entries : Entries κ α} {key : κ}
    (h : ∀ entry ∈ entries, entry.1 ≠ key) (a : α) : put entries key a = entries ++ [(key, a)] := by
  induction entries with
  | nil => rfl
  | cons entry rest ih =>
    rw [put, if_neg (h entry List.mem_cons_self),
      ih fun other hother ↦ h other (List.mem_cons_of_mem entry hother)]
    rfl

theorem find?_append (entries others : Entries κ α) (key : κ) :
    find? (entries ++ others) key = (find? entries key).or (find? others key) := by
  induction entries with
  | nil => rfl
  | cons entry rest ih =>
    obtain ⟨k, a⟩ := entry
    rw [List.cons_append, find?, find?]
    split
    · rfl
    · exact ih

/-- Looking up after keys and values have been changed, keys without making any two the same. -/
theorem find?_map {rename : κ → κ} (hinj : ∀ a b, rename a = rename b → a = b) (f : α → β)
    (entries : Entries κ α) (key : κ) :
    find? (entries.map fun entry ↦ (rename entry.1, f entry.2)) (rename key) =
      (find? entries key).map f := by
  induction entries with
  | nil => rfl
  | cons entry rest ih =>
    obtain ⟨k, a⟩ := entry
    by_cases hk : k = key
    · simp [find?, hk]
    · have hne : rename k ≠ rename key := fun h ↦ hk (hinj _ _ h)
      simp only [List.map_cons, find?, if_neg hne, if_neg hk]
      exact ih

/-- The same with the keys as they are. -/
theorem find?_map_snd (f : α → β) (entries : Entries κ α) (key : κ) :
    find? (entries.map fun entry ↦ (entry.1, f entry.2)) key = (find? entries key).map f :=
  find?_map (fun (_ _ : κ) h ↦ h) f entries key

/-- The order of entries with distinct keys does not count. -/
theorem find?_perm {entries others : Entries κ α} (h : entries.Perm others)
    (hdistinct : (entries.map (·.1)).Nodup) (key : κ) : find? entries key = find? others key := by
  cases hfind : find? entries key with
  | none =>
    refine (find?_eq_none.mpr fun entry hentry ↦ ?_).symm
    exact find?_eq_none.mp hfind entry (h.mem_iff.mpr hentry)
  | some a =>
    exact (find?_of_mem ((h.map _).nodup_iff.mp hdistinct)
      (h.mem_iff.mp (mem_of_find? hfind))).symm

theorem find?_eq_head? (entries : Entries κ α) (key : κ) :
    find? entries key = (entries.filter fun entry ↦ decide (entry.1 = key)).head?.map (·.2) := by
  induction entries with
  | nil => rfl
  | cons entry rest ih =>
    obtain ⟨k, a⟩ := entry
    by_cases hk : k = key
    · simp [find?, hk]
    · simp [find?, hk, ih]

/-- Sorting by keys keeps entries with the same key in their order. -/
theorem find?_mergeSort {le : κ × α → κ × α → Bool} (htrans : ∀ a b c, le a b → le b c → le a c)
    (htotal : ∀ a b, le a b || le b a) (hkey : ∀ a b, a.1 = b.1 → le a b)
    (entries : Entries κ α) (key : κ) :
    find? (entries.mergeSort le) key = find? entries key := by
  have hsub : List.Sublist (entries.filter fun entry ↦ decide (entry.1 = key))
      (entries.mergeSort le) := by
    refine List.sublist_mergeSort htrans htotal ?_ List.filter_sublist
    refine List.pairwise_of_forall_mem_list fun a ha b hb ↦ hkey a b ?_
    have ha' := of_decide_eq_true (List.mem_filter.mp ha).2
    have hb' := of_decide_eq_true (List.mem_filter.mp hb).2
    rw [ha', hb']
  have hfilter := hsub.filter fun entry ↦ decide (entry.1 = key)
  rw [List.filter_filter] at hfilter
  simp only [Bool.and_self] at hfilter
  have hperm := (List.mergeSort_perm entries le).filter fun entry ↦ decide (entry.1 = key)
  rw [find?_eq_head?, find?_eq_head?, hfilter.eq_of_length hperm.length_eq.symm]

/-! ## Putting entries -/

theorem mem_put {entries : Entries κ α} {key : κ} {a : α} {entry : κ × α}
    (h : entry ∈ put entries key a) : entry = (key, a) ∨ entry ∈ entries := by
  induction entries with
  | nil => exact .inl (List.mem_singleton.mp h)
  | cons first rest ih =>
    obtain ⟨k, b⟩ := first
    rw [put] at h
    split at h
    · rcases List.mem_cons.mp h with rfl | h
      · exact .inl rfl
      · exact .inr (List.mem_cons_of_mem _ h)
    · rcases List.mem_cons.mp h with rfl | h
      · exact .inr List.mem_cons_self
      · exact (ih h).imp id (List.mem_cons_of_mem _)

theorem mem_put_of_ne {entries : Entries κ α} {key : κ} {entry : κ × α} (h : entry ∈ entries)
    (hne : entry.1 ≠ key) (a : α) : entry ∈ put entries key a := by
  induction entries with
  | nil => exact absurd h List.not_mem_nil
  | cons first rest ih =>
    obtain ⟨k, b⟩ := first
    rw [put]
    split
    · next hk =>
      rcases List.mem_cons.mp h with rfl | h
      · exact absurd hk hne
      · exact List.mem_cons_of_mem _ h
    · rcases List.mem_cons.mp h with rfl | h
      · exact List.mem_cons_self
      · exact List.mem_cons_of_mem _ (ih h)

theorem mem_put_self (entries : Entries κ α) (key : κ) (a : α) :
    (key, a) ∈ put entries key a := mem_of_find? (find?_put_self entries key a)

/-- What is known of every value that is found stays known if it holds of the value that is put. -/
theorem forall_find?_put {P : κ → α → Prop} {entries : Entries κ α} {key : κ} {a : α}
    (h : ∀ k b, find? entries k = some b → P k b) (ha : P key a) :
    ∀ k b, find? (put entries key a) k = some b → P k b := by
  intro k b hfind
  by_cases hkey : key = k
  · subst hkey
    rw [find?_put_self] at hfind
    exact Option.some.inj hfind ▸ ha
  · rw [find?_put_of_ne _ _ hkey] at hfind
    exact h k b hfind

/-- Entries with the same keys and related values stay so if related values are put under one
key. -/
theorem forall₂_put {R : α → β → Prop} {entries : Entries κ α} {entries' : Entries κ β}
    (h : List.Forall₂ (fun a b ↦ a.1 = b.1 ∧ R a.2 b.2) entries entries') (key : κ) {a : α} {b : β}
    (hab : R a b) :
    List.Forall₂ (fun a b ↦ a.1 = b.1 ∧ R a.2 b.2) (put entries key a) (put entries' key b) := by
  induction h with
  | nil => exact .cons ⟨rfl, hab⟩ .nil
  | @cons entry entry' _ _ hentry hentries ih =>
    obtain ⟨k, _⟩ := entry
    obtain ⟨_, _⟩ := entry'
    obtain ⟨rfl, hentry⟩ := hentry
    by_cases hk : k = key
    · simp only [put, if_pos hk]
      exact .cons ⟨rfl, hab⟩ hentries
    · simp only [put, if_neg hk]
      exact .cons ⟨rfl, hentry⟩ ih

/-- A key that is put again keeps its place. -/
theorem keys_put (entries : Entries κ α) (key : κ) (a : α) :
    (put entries key a).map (·.1) =
      if key ∈ entries.map (·.1) then entries.map (·.1) else entries.map (·.1) ++ [key] := by
  induction entries with
  | nil => rfl
  | cons first rest ih =>
    obtain ⟨k, b⟩ := first
    by_cases hk : k = key
    · simp [put, hk]
    · rw [put, if_neg hk, List.map_cons, ih, List.map_cons]
      simp only [List.mem_cons, Ne.symm hk, false_or]
      split <;> rfl

theorem nodup_keys_put {entries : Entries κ α} (h : (entries.map (·.1)).Nodup) (key : κ) (a : α) :
    ((put entries key a).map (·.1)).Nodup := by
  rw [keys_put]
  split
  · exact h
  · next hkey =>
    refine List.nodup_append.mpr ⟨h, List.pairwise_singleton _ key, fun k hk other hother ↦ ?_⟩
    rintro rfl
    exact hkey (List.mem_singleton.mp hother ▸ hk)

/-- Each value is the one that is found under its key. -/
theorem values_eq_filterMap {entries : Entries κ α} (h : (entries.map (·.1)).Nodup) :
    entries.map (·.2) = (entries.map (·.1)).filterMap (find? entries) := by
  rw [List.filterMap_map, ← List.filterMap_eq_map]
  exact List.filterMap_congr fun entry hentry ↦ (find?_of_mem h hentry).symm

/-! ## Entries from pairs -/

theorem ofList_concat (pairs : List (κ × α)) (pair : κ × α) :
    ofList (pairs ++ [pair]) = put (ofList pairs) pair.1 pair.2 := by
  rw [ofList, List.foldl_append, List.foldl_cons, List.foldl_nil, ofList]

/-- Of the values that are put under a key, the last one is found. -/
theorem find?_ofList (pairs : List (κ × α)) (key : κ) :
    find? (ofList pairs) key = find? pairs.reverse key := by
  -- From the back, since the last pair is put last.
  induction pairs using List.reverseRecOn with
  | nil => rfl
  | append_singleton pairs pair ih =>
    rw [ofList_concat, List.reverse_append, List.reverse_singleton, List.singleton_append, find?]
    split
    · next hkey => rw [hkey, find?_put_self]
    · next hkey => rw [find?_put_of_ne _ _ hkey, ih]

/-- The keys stand in the order in which they are put for the first time. -/
theorem keys_ofList (pairs : List (κ × α)) :
    (ofList pairs).map (·.1) = (pairs.map (·.1)).eraseDups := by
  induction pairs using List.reverseRecOn with
  | nil => rfl
  | append_singleton pairs pair ih =>
    rw [ofList_concat, keys_put, ih, List.map_append, List.map_singleton, List.eraseDups_append,
      List.removeAll]
    by_cases hkey : pair.1 ∈ pairs.map (·.1)
    · simp [hkey]
    · simp [hkey, List.eraseDups_cons]

theorem nodup_keys_ofList (pairs : List (κ × α)) : ((ofList pairs).map (·.1)).Nodup := by
  induction pairs using List.reverseRecOn with
  | nil => exact List.nodup_nil
  | append_singleton pairs pair ih =>
    rw [ofList_concat]
    exact nodup_keys_put ih _ _

/-- Pairs with distinct keys are entries as they are. -/
theorem ofList_of_nodup {pairs : List (κ × α)} (h : (pairs.map (·.1)).Nodup) :
    ofList pairs = pairs := by
  induction pairs using List.reverseRecOn with
  | nil => rfl
  | append_singleton pairs pair ih =>
    rw [List.map_append] at h
    obtain ⟨hpairs, -, hdisjoint⟩ := List.nodup_append.mp h
    have hnew : ∀ entry ∈ pairs, entry.1 ≠ pair.1 := fun entry hentry ↦
      hdisjoint _ (List.mem_map_of_mem hentry) _ (List.mem_singleton_self pair.1)
    rw [ofList_concat, ih hpairs, put_of_forall_ne hnew]

/-- A pair is lost exactly if two have the same key. -/
theorem length_ofList_eq_iff (pairs : List (κ × α)) :
    (ofList pairs).length = pairs.length ↔ (pairs.map (·.1)).Nodup := by
  refine ⟨fun h ↦ ?_, fun h ↦ congrArg List.length (ofList_of_nodup h)⟩
  have hsubset : (ofList pairs).map (·.1) ⊆ pairs.map (·.1) := by
    rw [keys_ofList]
    exact fun key hkey ↦ List.mem_eraseDups.mp hkey
  have hlength : (pairs.map (·.1)).length ≤ ((ofList pairs).map (·.1)).length := by
    simp only [List.length_map, h, Nat.le_refl]
  have hperm :=
    (List.subperm_of_subset (nodup_keys_ofList pairs) hsubset).perm_of_length_le hlength
  exact hperm.nodup_iff.mp (nodup_keys_ofList pairs)

theorem mem_ofList {pairs : List (κ × α)} {entry : κ × α} (h : entry ∈ ofList pairs) :
    entry ∈ pairs := by
  have hfind := find?_of_mem (nodup_keys_ofList pairs) h
  rw [find?_ofList] at hfind
  exact List.mem_reverse.mp (mem_of_find? hfind)

/-- Every key that is put can be found. -/
theorem find?_ofList_of_mem {pairs : List (κ × α)} {key : κ}
    (h : key ∈ pairs.map (·.1)) : ∃ a, find? (ofList pairs) key = some a := by
  obtain ⟨pair, hpair, rfl⟩ := List.mem_map.mp h
  rw [find?_ofList]
  refine Option.ne_none_iff_exists'.mp fun hnone ↦ ?_
  exact find?_eq_none.mp hnone pair (List.mem_reverse.mpr hpair) rfl

end TypedJson.Entries
