import TypedJson.Proofs.DataType.Parts
import TypedJson.Proofs.DataType.WellFormed

/-!
# Texts that denote a union

A text that denotes a union is cut at its bars, each part denotes a type, and the union has the
distinct ones of these types as its members. The text *spells* the union *out* if its parts are the
canonical texts of the members. Other texts denote the same union: they write a member twice, by an
alias, or with blanks in it.

Types that equal the union need not have the same members either, since the order of the members of
a union counts at no depth. `perm_text_iff` takes these two differences apart: the parts of a text
are the texts of the members of a type that equals the union only if the text spells the union out
and the type has the same members.
-/

namespace TypedJson

namespace DataType

open TypeText

variable {scope : Scope}

namespace Settled

variable {a b : TypeKind DataType} {m n : Bool}

theorem parts (h : Settled scope (DataType.mk a n)) : ∀ t ∈ a.parts, Settled scope t := by
  cases h with
  | list _ hitem => simpa [TypeKind.parts] using hitem
  | dict _ hkey hvalue =>
    refine List.forall_mem_cons.mpr ⟨?_, by simpa using hvalue⟩
    rcases hkey with rfl | rfl <;> exact .scalar _ false
  | object _ _ _ _ _ hgenerics => exact hgenerics
  | union _ hmembers => exact hmembers
  | _ => simp [TypeKind.parts]

/-- What differs from a settled type in settled parts that equal its own is settled. -/
theorem of_head (h : Settled scope (DataType.mk b n)) (hb : ¬b.IsUnion) (hhead : a.head = b.head)
    (hparts : List.Forall₂ (fun t u ↦ (t == u) = true) a.parts b.parts)
    (hall : ∀ t ∈ a.parts, Settled scope t) : Settled scope (DataType.mk a n) := by
  cases h with
  | scalar =>
    cases a <;> cases hhead
    exact .scalar _ n
  | null =>
    cases a <;> cases hhead
    exact .null
  | mixed =>
    cases a <;> cases hhead
    exact .mixed
  | template _ hfree hmem =>
    cases a <;> cases hhead
    exact .template n hfree hmem
  | dateTime _ hmem htime =>
    cases a <;> cases hhead
    obtain rfl := List.forall₂_nil_right_iff.mp hparts
    exact .dateTime n hmem htime
  | enum _ hfree hmem htime hlookup =>
    cases a <;> cases hhead
    exact .enum n hfree hmem htime hlookup
  | list =>
    cases a <;> cases hhead
    exact .list n (hall _ (by simp [TypeKind.parts]))
  | dict _ hkey =>
    cases a <;> cases hhead
    obtain ⟨hbeq, -⟩ := List.forall₂_cons.mp hparts
    refine .dict n ?_ (hall _ (by simp [TypeKind.parts]))
    rcases hkey with rfl | rfl
    · exact .inl (eq_scalar_of_beq hbeq)
    · exact .inr (eq_scalar_of_beq hbeq)
  | object _ hfree hmem htime hlookup =>
    cases a <;> cases hhead
    exact .object n hfree hmem htime (hparts.length_eq ▸ hlookup) hall
  | union => exact (hb trivial).elim

/-- A well-formed type that equals a settled one is settled. -/
theorem of_beq {u : DataType} : ∀ {t : DataType}, Settled scope u → WellFormed t →
    (t == u) = true → Settled scope t := by
  induction u using parts_induction with
  | mk kind nullable ih =>
    rintro ⟨a, m⟩ hu ht h
    refine beq_cases h ?_ ?_
    · rintro as bs rfl rfl rfl - hall
      cases ht with
      | plain _ hp => exact hp.elim
      | union hlen hwf hleaf hunequal =>
        -- Each member equals one of the settled union, with the sides swapped.
        refine .union hlen (fun t htmem ↦ ?_) hleaf hunequal.areDistinct
        obtain ⟨v, hv, hvt⟩ := hall t htmem
        have hsettled : Settled scope v := hu.parts v hv
        exact ih v hv hsettled (hwf t htmem) ((hsettled.wellFormed.beq_comm (hwf t htmem)).mp hvt)
    · rintro - hb rfl hhead hall
      refine hu.of_head hb hhead hall fun t htmem ↦ ?_
      obtain ⟨v, hv, htv⟩ := exists_of_forall₂_left hall htmem
      exact ih v hv (hu.parts v hv) (ht.parts t htmem) htv

end Settled

/-! ## Unions -/

/-- A part of the text of a union, trimmed, and what it is resolved to. -/
structure Denotes (scope : Scope) (part : List Char) (t : DataType) : Prop where
  settled : Settled scope t
  isLeaf : IsLeaf t
  /-- The text of a type is resolved to the type. -/
  eq_of_text : ∀ m, Settled scope m → IsLeaf m → m.text.toList = part → t = m

theorem denotes_of_resolveUnionMember {fuel : Nat} {input part : List Char} {t : DataType}
    (hfuel : part.length ≤ fuel)
    (h : resolveUnionMember scope (resolveAt scope fuel) input part = .ok t) :
    Denotes scope (Text.trimChars part) t := by
  have hatom : resolveAtom scope (resolveAt scope fuel) (Text.trimChars part) = .ok t := by
    unfold resolveUnionMember resolveMember at h
    split at h
    · cases h
    · next hmark =>
      split at h
      · next hpart => exact (hmark (by rw [hpart]; rfl)).elim
      · exact h
  obtain ⟨hsettled, hleaf⟩ := settled_of_resolveAtom (fun _ _ ↦ settled_of_resolveAt) hatom
  refine ⟨hsettled, hleaf, fun m hm hmleaf htext ↦ ?_⟩
  have hlen : m.text.length ≤ fuel := by
    rw [← String.length_toList, htext]
    exact Nat.le_trans (Text.length_trimChars_le part) hfuel
  have hread := hm.reads.resolvesAtom hmleaf fuel hlen
  rw [htext, hatom] at hread
  exact Except.ok.inj hread

theorem forall₂_of_resolveEach {resolve : List Char → Except ConfigError DataType}
    {texts : List (List Char)} {types : List DataType}
    (h : resolveEach resolve texts = .ok types) :
    List.Forall₂ (fun text t ↦ resolve text = .ok t) texts types := by
  induction texts generalizing types with
  | nil =>
    cases h
    exact .nil
  | cons text texts ih =>
    obtain ⟨t, ht, h⟩ := Outcome.bind_eq_ok.mp h
    obtain ⟨rest, hrest, h⟩ := Outcome.bind_eq_ok.mp h
    cases h
    exact .cons ht (ih hrest)

theorem not_union_of_resolveMember {resolve : List Char → Except ConfigError DataType}
    {text : List Char} {members : List DataType} {nullable : Bool}
    (hres : ∀ text t, resolve text = .ok t → Settled scope t) :
    resolveMember scope resolve text ≠ .ok (mk (.union members) nullable) := by
  intro h
  unfold resolveMember at h
  split at h
  · obtain ⟨⟨kind, n⟩, hu, heq⟩ := Outcome.map_eq_ok.mp h
    have hleaf := (settled_of_resolveAtom hres hu).2
    cases kind with
    | union => exact hleaf.elim
    | _ => cases heq
  · exact (settled_of_resolveAtom hres h).2.elim

theorem length_le_of_splitTop {sep : Char} {cs : List Char} {parts : List (List Char)}
    (h : splitTop sep (Text.trimChars cs) = .ok parts) :
    ∀ part ∈ parts, part.length ≤ cs.length := by
  intro part hpart
  obtain ⟨first, others, rfl, -, -, hcs⟩ := splitFrom_eq_some (splitTop_eq_ok.mp h)
  calc part.length ≤ ([sep].intercalate (first :: others)).length :=
        length_le_intercalate [sep] hpart
    _ = (Text.trimChars cs).length := by rw [hcs]
    _ ≤ cs.length := Text.length_trimChars_le cs

/-- A text that denotes a union is cut into parts that denote types, and the union has the distinct
ones of these as its members. -/
theorem exists_types_of_resolve {text : String} {members : List DataType} {nullable : Bool}
    (h : TypeText.resolve scope text = .ok (mk (.union members) nullable)) :
    ∃ parts types, splitTop '|' text.toList = .ok parts ∧
      List.Forall₂ (Denotes scope) (parts.map Text.trimChars) types ∧ members = distinct types := by
  rw [TypeText.resolve, resolveAt] at h
  split at h
  · cases h
  obtain ⟨inner, hinner, h⟩ := Outcome.bind_eq_ok.mp h
  have hsplit : splitFrom '|' 0 (Text.trimChars text.toList) = some inner :=
    splitTop_eq_ok.mp hinner
  obtain ⟨parts, hparts, htrim⟩ := splitFrom_of_trimChars (by decide) (by decide) (by decide) hsplit
  split at h
  · exact (not_union_of_resolveMember (fun _ _ ↦ settled_of_resolveAt) h).elim
  obtain ⟨types, htypes, h⟩ := Outcome.bind_eq_ok.mp h
  split at h
  · next union hunion =>
    cases h
    have hdenotes : List.Forall₂ (Denotes scope) (parts.map Text.trimChars) types := by
      rw [htrim, List.forall₂_map_left_iff]
      refine forall₂_imp_of_mem (forall₂_of_resolveEach htypes) fun part hpart t _ ht ↦ ?_
      exact denotes_of_resolveUnionMember (length_le_of_splitTop hinner part hpart) ht
    have hleaf : ∀ t ∈ types, IsLeaf t := by
      intro t ht
      obtain ⟨part, -, hpart⟩ := exists_of_forall₂_right hdenotes ht
      exact hpart.isLeaf
    refine ⟨parts, types, splitTop_eq_ok.mpr hparts, hdenotes, ?_⟩
    rw [union?, flatten, leavesOfAll_of_isLeaf hleaf] at hunion
    split at hunion
    · cases hunion
    · cases hunion
      rfl
  · cases h

/-! ## Alternatives -/

/-- Only unions have several alternatives. -/
theorem exists_eq_union {t : DataType} (h : 2 ≤ t.alternatives.length) :
    ∃ members nullable, t = mk (.union members) nullable := by
  obtain ⟨kind, nullable⟩ := t
  have hle : 2 ≤ (mk kind nullable).members.length := Nat.le_trans h (List.length_filter_le _ _)
  cases kind with
  | union members => exact ⟨members, nullable, rfl⟩
  | _ => exact absurd hle (Nat.not_succ_le_self 1)

theorem isUnion_of_beq {t u : DataType} (h : (t == u) = true) :
    t.kind.IsUnion ↔ u.kind.IsUnion := by
  obtain ⟨a, m⟩ := t
  obtain ⟨b, n⟩ := u
  refine beq_cases h ?_ fun _ _ _ hhead _ ↦ TypeKind.isUnion_of_head hhead
  rintro as bs rfl rfl - - -
  exact Iff.rfl

/-- Settled types with the same texts, in another order, are the same in another order. -/
theorem perm_of_map_text {ts us : List DataType} (ht : ∀ t ∈ ts, Settled scope t)
    (hu : ∀ u ∈ us, Settled scope u) (h : (ts.map text).Perm (us.map text)) : ts.Perm us := by
  have hback (xs : List DataType) (hxs : ∀ x ∈ xs, Settled scope x) :
      (xs.map text).map (TypeText.resolve scope) = xs.map .ok := by
    rw [List.map_map]
    exact List.map_congr_left fun x hx ↦ (hxs x hx).resolve_text
  have hperm := h.map (TypeText.resolve scope)
  rw [hback ts ht, hback us hu] at hperm
  exact (List.map_perm_map_iff fun _ _ ↦ Except.ok.inj).mp hperm

/-- Alternatives of which no two are equal are kept when equal types are left out. -/
theorem filter_distinct_perm {types : List DataType}
    (h : AreUnequal (types.filter fun m ↦ !m.isNull)) :
    ((distinct types).filter fun m ↦ !m.isNull).Perm (types.filter fun m ↦ !m.isNull) := by
  have hnodup : ((distinct types).filter fun m ↦ !m.isNull).Nodup :=
    (distinct_areDistinct types).nodup.filter _
  refine (List.perm_ext_iff_of_nodup hnodup h.areDistinct.nodup).mpr fun t ↦ ?_
  rw [List.mem_filter, List.mem_filter]
  refine ⟨fun ⟨ht, hnull⟩ ↦ ⟨mem_of_mem_distinct ht, hnull⟩, fun ⟨ht, hnull⟩ ↦ ⟨?_, hnull⟩⟩
  obtain ⟨u, hu, heq⟩ := exists_beq_mem_distinct ht
  have hmem : u ∈ types.filter fun m ↦ !m.isNull :=
    List.mem_filter.mpr ⟨mem_of_mem_distinct hu, (isNull_of_beq heq).symm ▸ hnull⟩
  rwa [← h.eq_of_beq hmem (List.mem_filter.mpr ⟨ht, hnull⟩) heq]

/-- What equals several alternatives are several alternatives, and settled if those are. -/
theorem settled_alternatives {t union : DataType} (hunion : Settled scope union)
    (hlen : 2 ≤ union.alternatives.length) (ht : WellFormed t)
    (heq : (t.nonNull == union.nonNull) = true) :
    2 ≤ t.alternatives.length ∧ AreUnequal t.alternatives ∧
      ∀ m ∈ t.alternatives, Settled scope m ∧ IsLeaf m := by
  have hsettled : Settled scope t.nonNull :=
    hunion.nonNull.of_beq (WellFormed.isUnionClosed.nonNull ht) heq
  have hright : union.nonNull = unionOf union.alternatives := by
    rcases hunion.wellFormed.nonNull_cases with ⟨-, h⟩ | ⟨h, -⟩
    · exact h
    · omega
  rcases ht.nonNull_cases with ⟨htwo, hleft⟩ | ⟨-, hnot⟩
  · rw [hleft] at hsettled
    refine ⟨htwo, hsettled.wellFormed.unequal, fun m hm ↦ ?_⟩
    cases hsettled with
    | union _ hmembers hleaf => exact ⟨hmembers m hm, hleaf m hm⟩
  · rw [hright] at heq
    exact (hnot ((isUnion_of_beq heq).mpr trivial)).elim

end DataType

namespace TypeText

/-- The parts of the text of a union, `null` apart. -/
def alternatives (union : String) : Except ConfigError (List String) := do
  let parts ← splitTop '|' union.toList
  let members := parts.map fun part ↦ String.ofList (Text.trimChars part)
  return members.filter fun member ↦ decide (member ≠ "null")

/-- A text spells a union out: its parts are the canonical texts of the members, each once, in any
order and with `null` anywhere. -/
def SpellsOut (text : String) (union : DataType) : Prop :=
  ∃ parts, alternatives text = .ok parts ∧ parts.Perm (union.alternatives.map DataType.text)

theorem isPart_of_alternatives {text : String} {parts : List String}
    (h : alternatives text = .ok parts) : ∀ part ∈ parts, IsPart '|' 0 part.toList := by
  obtain ⟨cut, hcut, h⟩ := Outcome.bind_eq_ok.mp h
  cases h
  intro part hpart
  obtain ⟨cs, hcs, rfl⟩ := List.mem_map.mp (List.mem_filter.mp hpart).1
  obtain ⟨first, others, rfl, hfirst, hothers, -⟩ := splitFrom_eq_some (splitTop_eq_ok.mp hcut)
  rw [String.toList_ofList]
  exact (List.forall_mem_cons.mpr ⟨hfirst, hothers⟩ cs hcs).trimChars

/-- The parts of a text that denotes a union denote the members. -/
theorem exists_alternatives {scope : Scope} {text : String} {union : DataType}
    (h : resolve scope text = .ok union) (hlen : 2 ≤ union.alternatives.length) :
    ∃ cut types, alternatives text = .ok
        ((cut.map String.ofList).filter fun member ↦ decide (member ≠ "null")) ∧
      List.Forall₂ (DataType.Denotes scope) cut types ∧
      union.members = DataType.distinct types := by
  obtain ⟨members, nullable, rfl⟩ := DataType.exists_eq_union hlen
  obtain ⟨parts, types, hparts, hdenotes, rfl⟩ := DataType.exists_types_of_resolve h
  refine ⟨parts.map Text.trimChars, types, ?_, hdenotes, rfl⟩
  rw [alternatives, hparts, List.map_map]
  rfl

/-- If the parts of a text are among the texts of some members, then each part is the text of the
type that it denotes. -/
theorem parts_eq_map_text {scope : Scope} {cut : List (List Char)} {types ms : List DataType}
    (hdenotes : List.Forall₂ (DataType.Denotes scope) cut types)
    (hms : ∀ m ∈ ms, (DataType.Settled scope m ∧ m.IsLeaf) ∧ m.isNull = false)
    (hsub : (cut.map String.ofList).filter (fun member ↦ decide (member ≠ "null")) ⊆
      ms.map DataType.text) :
    (cut.map String.ofList).filter (fun member ↦ decide (member ≠ "null")) =
      (types.filter fun t ↦ !t.isNull).map DataType.text := by
  have hpart : List.Forall₂ (fun part t ↦
      decide (part ≠ "null") = !t.isNull ∧ ((!t.isNull) = true → part = t.text))
      (cut.map String.ofList) types := by
    rw [List.forall₂_map_left_iff]
    refine forall₂_imp_of_mem hdenotes fun part hpart t _ ht ↦ ?_
    by_cases hnull : String.ofList part = "null"
    · obtain rfl : t = DataType.null := ht.eq_of_text DataType.null .null trivial (by
        rw [← String.toList_ofList (l := part), hnull]
        rfl)
      exact ⟨decide_eq_false (not_not_intro hnull), fun h ↦ nomatch h⟩
    · have hmem : String.ofList part ∈
          (cut.map String.ofList).filter fun member ↦ decide (member ≠ "null") :=
        List.mem_filter.mpr ⟨List.mem_map_of_mem hpart, by simpa using hnull⟩
      obtain ⟨m, hm, htext⟩ := List.mem_map.mp (hsub hmem)
      obtain ⟨⟨hsettled, hleaf⟩, hvalue⟩ := hms m hm
      obtain rfl : t = m := ht.eq_of_text m hsettled hleaf (by rw [htext, String.toList_ofList])
      exact ⟨by simp [hnull, hvalue], fun _ ↦ htext.symm⟩
  simpa using filter_map_eq_of_forall₂ (f := id) hpart (fun _ _ h ↦ h.1) fun _ _ h ↦ h.2

/-- If a well-formed type equals the union that a text denotes, up to `null`, then the parts of the
text are the texts of its members only if the text spells out the union and the members are the
same. -/
theorem perm_text_iff {scope : Scope} {text : String} {parts : List String} {union t : DataType}
    (h : resolve scope text = .ok union) (hlen : 2 ≤ union.alternatives.length)
    (ht : t.WellFormed) (heq : (t.nonNull == union.nonNull) = true)
    (hparts : alternatives text = .ok parts) :
    parts.Perm (t.alternatives.map DataType.text) ↔
      parts.Perm (union.alternatives.map DataType.text) ∧
        t.alternatives.Perm union.alternatives := by
  obtain ⟨cut, types, hcut, hdenotes, hmembers⟩ := exists_alternatives h hlen
  obtain rfl : _ = parts := Except.ok.inj (hcut.symm.trans hparts)
  obtain ⟨-, hunequal, hsettled⟩ :=
    DataType.settled_alternatives (DataType.settled_of_resolve h) hlen ht heq
  refine ⟨fun hperm ↦ ?_, fun ⟨hperm, hsame⟩ ↦ hperm.trans (hsame.map DataType.text).symm⟩
  have htexts := parts_eq_map_text hdenotes
    (fun m hm ↦ ⟨hsettled m hm, by simpa using (List.mem_filter.mp hm).2⟩) hperm.subset
  have hkept : ∀ u ∈ types.filter fun u ↦ !u.isNull, DataType.Settled scope u := by
    intro u hu
    obtain ⟨part, -, hpart⟩ := exists_of_forall₂_right hdenotes (List.mem_filter.mp hu).1
    exact hpart.settled
  rw [htexts] at hperm ⊢
  have hsame : (types.filter fun u ↦ !u.isNull).Perm t.alternatives :=
    DataType.perm_of_map_text hkept (fun m hm ↦ (hsettled m hm).1) hperm
  have hunion : union.alternatives.Perm (types.filter fun u ↦ !u.isNull) := by
    rw [DataType.alternatives, hmembers]
    exact DataType.filter_distinct_perm (hunequal.perm hsame.symm)
  exact ⟨hunion.symm.map DataType.text, (hunion.trans hsame).symm⟩

end TypeText

end TypedJson
