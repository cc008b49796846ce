import Mathlib.Data.List.TakeWhile
import TypedJson.Proofs.Json.Covering
import TypedJson.Proofs.Json.Grammar
import TypedJson.Split.Container

/-!
# Steps of a split

A step of a split looks at one member and what stands behind it. Its answer for the value is decided
by the member alone: the trimmed window if that is solid, and an error otherwise.
-/

namespace TypedJson

namespace Window

variable {offset : Nat} {bytes blanks rest : List UInt8} {b : UInt8}

theorem trimFrom_append (h : Parsed.IsBlank blanks) (offset : Nat) :
    trimFrom offset (blanks ++ bytes) = trimFrom (offset + blanks.length) bytes := by
  induction blanks generalizing offset with
  | nil => rfl
  | cons b blanks ih =>
    rw [List.cons_append, trimFrom, if_pos (h b List.mem_cons_self),
      ih (fun c hc ↦ h c (List.mem_cons_of_mem b hc)), List.length_cons, Nat.add_assoc,
      Nat.add_comm 1]

theorem trimFrom_cons (h : Text.isJsonBlank b = false) (offset : Nat) :
    trimFrom offset (b :: bytes) = ⟨offset, b :: bytes⟩ := by
  rw [trimFrom, h, if_neg Bool.false_ne_true]

theorem trimEnd_append (hlast : ∃ b, bytes.getLast? = some b ∧ Text.isJsonBlank b = false)
    (hblanks : Parsed.IsBlank blanks) : trimEnd (bytes ++ blanks) = bytes := by
  obtain ⟨b, hb, hblank⟩ := hlast
  obtain ⟨front, rfl⟩ := List.getLast?_eq_some_iff.mp hb
  have hdrop : ∀ c ∈ blanks.reverse, Text.isJsonBlank c = true :=
    fun c hc ↦ hblanks c (List.mem_reverse.mp hc)
  rw [trimEnd, List.reverse_append, List.dropWhile_append_of_pos hdrop, List.reverse_append,
    List.reverse_singleton, List.singleton_append,
    List.dropWhile_cons_of_neg (Bool.eq_false_iff.mp hblank), List.reverse_cons,
    List.reverse_reverse]

/-- The window without the blanks around. -/
def trim (w : Window) : Window := ⟨w.trimStart.offset, trimEnd w.trimStart.bytes⟩

theorem exists_trimEnd (bytes : List UInt8) :
    ∃ blanks, bytes = trimEnd bytes ++ blanks ∧ Parsed.IsBlank blanks := by
  refine ⟨(bytes.reverse.takeWhile Text.isJsonBlank).reverse, ?_, ?_⟩
  · rw [trimEnd, ← List.reverse_append, List.takeWhile_append_dropWhile, List.reverse_reverse]
  · intro b hb
    exact List.mem_takeWhile_imp (List.mem_reverse.mp hb)

theorem exists_blanks_append (bytes : List UInt8) :
    ∃ blanks rest, bytes = blanks ++ rest ∧ Parsed.IsBlank blanks ∧
      (rest = [] ∨ ∃ b tail, rest = b :: tail ∧ Text.isJsonBlank b = false) := by
  refine ⟨bytes.takeWhile Text.isJsonBlank, bytes.dropWhile Text.isJsonBlank,
    List.takeWhile_append_dropWhile.symm, fun b hb ↦ List.mem_takeWhile_imp hb, ?_⟩
  have hhead := List.head?_dropWhile_not Text.isJsonBlank bytes
  cases hrest : bytes.dropWhile Text.isJsonBlank with
  | nil => exact .inl rfl
  | cons b tail =>
    rw [hrest] at hhead
    exact .inr ⟨b, tail, rfl, hhead⟩

/-- Blanks in front do not change what is left of a window. -/
theorem trim_append (hblanks : Parsed.IsBlank blanks) :
    trim ⟨offset, blanks ++ bytes⟩ = trim ⟨offset + blanks.length, bytes⟩ := by
  simp only [trim, trimStart, trimFrom_append hblanks]

theorem trim_cons (hb : Text.isJsonBlank b = false) :
    trim ⟨offset, b :: bytes⟩ = ⟨offset, trimEnd (b :: bytes)⟩ := by
  simp only [trim, trimStart, trimFrom_cons hb]

theorem trim_blank (hblanks : Parsed.IsBlank blanks) :
    trim ⟨offset, blanks⟩ = ⟨offset + blanks.length, []⟩ := by
  have h : trim ⟨offset, blanks ++ []⟩ = trim ⟨offset + blanks.length, []⟩ := trim_append hblanks
  rwa [List.append_nil] at h

end Window

/-! ## Members and what stands in front -/

namespace Scan

variable {p : UInt8 → Prop} {bytes rest blanks : List UInt8} {b : UInt8}

theorem Nested.of_cons (hb : b ∉ Byte.structural) (h : Nested p (b :: rest)) :
    p b ∧ Nested p rest := by
  cases h with
  | byte _ hp h => exact ⟨hp, h⟩
  | string => exact absurd (List.mem_of_elem_eq_true rfl) hb
  | brackets hkind => exact absurd hkind.mem_structural hb

theorem not_structural_of_blank (hb : Text.isJsonBlank b = true) : b ∉ Byte.structural := by
  simp only [Text.isJsonBlank, Bool.or_eq_true, beq_iff_eq] at hb
  obtain ((rfl | rfl) | rfl) | rfl := hb <;> decide

theorem Nested.of_blanks_append (hblanks : Parsed.IsBlank blanks) (h : Nested p (blanks ++ rest)) :
    Nested p rest := by
  induction blanks with
  | nil => exact h
  | cons b blanks ih =>
    have hb := not_structural_of_blank (hblanks b List.mem_cons_self)
    exact ih (fun c hc ↦ hblanks c (List.mem_cons_of_mem b hc)) (h.of_cons hb).2

/-- A member does not start with a byte that ends one. -/
theorem IsMember.head (h : IsMember (b :: rest)) : Byte.isDelimiter b = false := by
  cases h with
  | byte hb hp _ =>
    have hne : b ≠ Byte.comma := hp
    simp [Byte.isDelimiter, Byte.not_isCloser_of_not_structural hb, hne]
  | string => rfl
  | brackets hkind => exact hkind.isSolid.2

theorem IsQuoted.getLast? (h : IsQuoted bytes) : bytes.getLast? = some Byte.quote := by
  induction h with
  | close => rfl
  | character _ _ _ ih | escape _ ih => simp [List.getLast?_cons, ih]

theorem exists_getLast?_append {piece : List UInt8}
    (hpiece : ∃ b, piece.getLast? = some b ∧ Text.isJsonBlank b = false)
    (hrest : rest ≠ [] → ∃ b, rest.getLast? = some b ∧ Text.isJsonBlank b = false) :
    ∃ b, (piece ++ rest).getLast? = some b ∧ Text.isJsonBlank b = false := by
  by_cases hne : rest = []
  · rw [hne, List.append_nil]
    exact hpiece
  · obtain ⟨b, hb, hblank⟩ := hrest hne
    refine ⟨b, ?_, hblank⟩
    rw [List.getLast?_append, hb]
    rfl

/-- What is solid ends with a byte that is no blank. -/
theorem Nested.exists_getLast? (h : Nested p bytes) (hp : ∀ b, p b → Byte.IsSolid b)
    (hne : bytes ≠ []) : ∃ b, bytes.getLast? = some b ∧ Text.isJsonBlank b = false := by
  induction h with
  | nil => exact absurd rfl hne
  | @byte p b rest _ hpb _ ih =>
    have hpiece : ∃ c, [b].getLast? = some c ∧ Text.isJsonBlank c = false :=
      ⟨b, rfl, (hp b hpb).2⟩
    exact exists_getLast?_append hpiece (ih hp)
  | @string p body rest hbody _ ih =>
    rw [← List.cons_append]
    refine exists_getLast?_append ⟨Byte.quote, ?_, rfl⟩ (ih hp)
    rw [List.getLast?_cons, hbody.getLast?]
    rfl
  | @brackets p opener closer inner rest hkind _ _ _ ih =>
    have hsplit : opener :: (inner ++ closer :: rest) =
        (opener :: (inner ++ [closer])) ++ rest := by simp
    rw [hsplit]
    refine exists_getLast?_append ⟨closer, ?_, ?_⟩ (ih hp)
    · simp [List.getLast?_cons]
    · obtain ⟨-, rfl⟩ | ⟨-, rfl⟩ := hkind
      · rfl
      · rfl

theorem IsSolid.exists_cons (h : IsSolid bytes) :
    ∃ b rest, bytes = b :: rest ∧ Text.isJsonBlank b = false := by
  obtain ⟨b, rest, rfl⟩ := List.exists_cons_of_ne_nil h.1
  refine ⟨b, rest, rfl, ?_⟩
  cases h.2 with
  | byte _ hb _ => exact hb.2
  | string => rfl
  | brackets hkind => exact hkind.isSolid.1

/-- Blanks around a solid text are trimmed away. -/
theorem IsSolid.trim_eq {before after : List UInt8} (h : IsSolid bytes)
    (hbefore : Parsed.IsBlank before) (hafter : Parsed.IsBlank after) (offset : Nat) :
    Window.trim ⟨offset, before ++ (bytes ++ after)⟩ = ⟨offset + before.length, bytes⟩ := by
  obtain ⟨b, rest, hbytes, hb⟩ := h.exists_cons
  have hlast := h.2.exists_getLast? (fun _ h ↦ h) h.1
  rw [Window.trim_append hbefore, hbytes, List.cons_append, Window.trim_cons hb,
    ← List.cons_append, ← hbytes, Window.trimEnd_append hlast hafter]

theorem IsSolid.not_isBlank {before after : List UInt8} (h : IsSolid bytes) :
    ¬ Parsed.IsBlank (before ++ (bytes ++ after)) := by
  obtain ⟨b, rest, rfl, hb⟩ := h.exists_cons
  intro hblank
  exact Bool.false_ne_true (hb.symm.trans (hblank b (by simp)))

/-- A text with no blank in front is solid without the blanks at the end exactly if blanks outside
stand at the end only. -/
theorem isSolid_trimEnd_iff (hb : Text.isJsonBlank b = false) :
    IsSolid (Window.trimEnd (b :: rest)) ↔ Nested.EndsBlank (b :: rest) := by
  constructor
  · rintro ⟨-, hsolid⟩
    obtain ⟨blanks, hbytes, hblanks⟩ := Window.exists_trimEnd (b :: rest)
    exact ⟨_, blanks, hbytes, hsolid, hblanks⟩
  · rintro ⟨solid, blanks, hbytes, hsolid, hblanks⟩
    have hne : solid ≠ [] := by
      rintro rfl
      have hmem : b ∈ blanks := by
        rw [List.nil_append] at hbytes
        rw [← hbytes]
        exact List.mem_cons_self
      exact Bool.false_ne_true (hb.symm.trans (hblanks b hmem))
    rw [hbytes, Window.trimEnd_append (hsolid.exists_getLast? (fun _ h ↦ h) hne) hblanks]
    exact ⟨hne, hsolid⟩

end Scan

/-! ## Steps -/

/-- The step of a split that has an answer for a member, given what stands behind the member. -/
def SplitStep.proceed {κ : Type} (item : Except Failure (Member κ)) : Option Window → SplitStep κ
  | none => .last [item]
  | some rest => .more item rest

namespace Container

variable {κ : Type} {c : Container κ} {key : κ} {offset : Nat} {m rest : List UInt8} {b d : UInt8}
  {next : Option Window}

theorem delimiter_comma :
    c.delimiter ⟨offset, Byte.comma :: rest⟩ = .ok (some ⟨offset + 1, rest⟩) := by
  simp [delimiter]

theorem delimiter_closer (h : c.closer ≠ Byte.comma) :
    c.delimiter ⟨offset, c.closer :: rest⟩ = .ok none := by
  simp [delimiter, h]

theorem members_eq_of_last {afterComma : Bool} {w : Window}
    {items : List (Except Failure (Member κ))} (h : c.step afterComma w = .last items) :
    c.members afterComma w = items := by
  rw [members]
  split
  · next h' => exact SplitStep.last.inj (h'.symm.trans h)
  · next h' => cases h'.symm.trans h

theorem members_eq_of_more {afterComma : Bool} {w rest : Window}
    {item : Except Failure (Member κ)} (h : c.step afterComma w = .more item rest) :
    c.members afterComma w = item :: c.members true rest := by
  rw [members]
  split
  · next h' => cases h'.symm.trans h
  · next h' =>
    obtain ⟨rfl, rfl⟩ := SplitStep.more.inj (h'.symm.trans h)
    rfl

/-- The delimiters of a container. -/
theorem delimiter_eq_ok (h : c.delimiter ⟨offset, d :: rest⟩ = .ok next) :
    d = Byte.comma ∨ d = c.closer ∧ next = none := by
  unfold delimiter at h
  by_cases hcomma : d = Byte.comma
  · exact .inl hcomma
  · by_cases hcloser : d = c.closer
    · simp only [if_neg hcomma, if_pos hcloser, Except.ok.injEq] at h
      exact .inr ⟨hcloser, h.symm⟩
    · simp only [if_neg hcomma, if_neg hcloser] at h
      exact nomatch h

/-- Behind a failure, whatever of the member is left is skipped. -/
theorem resume_member (hm : Scan.IsMember m) (hd : Byte.isDelimiter d = true)
    (hnext : c.delimiter ⟨offset + m.length, d :: rest⟩ = .ok next) (failure : Failure) :
    c.resume failure ⟨offset, m ++ d :: rest⟩ = .proceed (.error failure) next := by
  unfold resume
  simp only [hm.member_append hd, hnext]
  cases next with
  | none => rfl
  | some rest => rfl

/-- A value is answered with its trimmed window if it is solid. -/
theorem value_member (hb : Text.isJsonBlank b = false) (hm : Scan.IsMember (b :: m))
    (hd : Byte.isDelimiter d = true)
    (hnext : c.delimiter ⟨offset + (b :: m).length, d :: rest⟩ = .ok next) :
    ∃ item, c.value key ⟨offset, (b :: m) ++ d :: rest⟩ = .proceed item next ∧
      (Scan.IsSolid (Window.trimEnd (b :: m)) →
        item = .ok ⟨key, offset, Window.trimEnd (b :: m)⟩) ∧
      (¬ Scan.IsSolid (Window.trimEnd (b :: m)) → ∃ failure, item = .error failure) := by
  have hstray := hm.stray_eq_none_iff
  rw [← Scan.isSolid_trimEnd_iff hb] at hstray
  unfold value
  simp only [hm.member_append hd]
  cases hnone : Scan.stray {} false 0 (b :: m) with
  | none =>
    refine ⟨_, ?_, fun _ ↦ rfl, fun h ↦ absurd (hstray.mp hnone) h⟩
    simp only [hnext]
    cases next with
    | none => rfl
    | some rest => rfl
  | some found =>
    obtain ⟨i, stray⟩ := found
    refine ⟨_, resume_member .nil hd hnext _, fun h ↦ ?_, fun _ ↦ ⟨_, rfl⟩⟩
    rw [hstray.mpr h] at hnone
    exact nomatch hnone

theorem ne_of_isMember (hm : Scan.IsMember (b :: m)) (hd : Byte.isDelimiter d = true) : b ≠ d := by
  rintro rfl
  exact Bool.false_ne_true (hm.head.symm.trans hd)

theorem not_blank_of_isDelimiter (hd : Byte.isDelimiter d = true) : Text.isJsonBlank d = false := by
  rw [Bool.eq_false_iff]
  intro hblank
  exact Bool.false_ne_true ((Scan.not_isDelimiter_of_blank hblank).symm.trans hd)

/-- A scan starts behind the blanks of a member, and at the delimiter if there is nothing else. -/
theorem trimStart_member {blanks tail : List UInt8} (hblanks : Parsed.IsBlank blanks)
    (htail : tail = [] ∨ ∃ b t, tail = b :: t ∧ Text.isJsonBlank b = false)
    (hd : Byte.isDelimiter d = true) (offset : Nat) (rest : List UInt8) :
    Window.trimStart ⟨offset, blanks ++ tail ++ d :: rest⟩ =
      ⟨offset + blanks.length, tail ++ d :: rest⟩ := by
  rw [Window.trimStart, List.append_assoc, Window.trimFrom_append hblanks]
  obtain rfl | ⟨b, t, rfl, hb⟩ := htail
  · exact Window.trimFrom_cons (not_blank_of_isDelimiter hd) _
  · exact Window.trimFrom_cons hb _

/-- The step to a member whose key is read is answered by its value. -/
theorem step_of_read {w front : Window} {first : UInt8}
    {start value : List UInt8} (hfront : w.trimStart = front)
    (hstart : front.bytes = first :: start) (hfirst : first ≠ c.closer)
    (hkey : c.key front = .read key ⟨offset, value ++ d :: rest⟩)
    (hvalue : Scan.IsMember value) (hcloser : Byte.isDelimiter c.closer = true)
    (hd : Byte.isDelimiter d = true)
    (hnext : c.delimiter ⟨offset + value.length, d :: rest⟩ = .ok next) (afterComma : Bool) :
    ∃ item, c.step afterComma w = .proceed item next ∧
      (Scan.IsSolid (Window.trim ⟨offset, value⟩).bytes →
        item = .ok ⟨key, Window.trim ⟨offset, value⟩⟩) ∧
      (¬ Scan.IsSolid (Window.trim ⟨offset, value⟩).bytes → ∃ failure, item = .error failure) := by
  obtain ⟨blanks, tail, rfl, hblanks, htail⟩ := Window.exists_blanks_append value
  rw [List.length_append, ← Nat.add_assoc] at hnext
  unfold step
  simp only [hfront, hstart, if_neg hfirst, hkey, trimStart_member hblanks htail hd offset rest]
  obtain rfl | ⟨b, tail, rfl, hb⟩ := htail
  · -- A blank value: the delimiter stands in its place.
    rw [List.append_nil, Window.trim_blank hblanks]
    have hends : (decide (d = Byte.comma) || decide (d = c.closer)) = true := by
      obtain rfl | ⟨rfl, -⟩ := delimiter_eq_ok hnext
      · simp
      · simp
    refine ⟨.error (Window.unexpected (offset + blanks.length) d), ?_, fun h ↦ absurd rfl h.1,
      fun _ ↦ ⟨_, rfl⟩⟩
    simp only [List.nil_append, hends, if_true]
    exact resume_member .nil hd hnext _
  · have hm : Scan.IsMember (b :: tail) := Scan.Nested.of_blanks_append hblanks hvalue
    have hends : (decide (b = Byte.comma) || decide (b = c.closer)) = false := by
      have hcomma : b ≠ Byte.comma := ne_of_isMember hm rfl
      simp [hcomma, ne_of_isMember hm hcloser]
    rw [Window.trim_append hblanks, Window.trim_cons hb]
    simp only [List.cons_append, hends]
    exact value_member hb hm hd hnext

/-- A blank member in front of the closing bracket is refused behind a comma. -/
theorem step_blank (hm : Parsed.IsBlank m) (hcloser : Text.isJsonBlank c.closer = false) :
    c.step true ⟨offset, m ++ c.closer :: rest⟩ =
      .last [.error (Window.unexpected (offset + m.length) c.closer)] := by
  unfold step
  simp [Window.trimStart, Window.trimFrom_append hm, Window.trimFrom_cons hcloser]

/-! ## Keys -/

theorem readString?_quote {body : List UInt8} {key : String}
    (h : Parsed.IsScalar (Byte.quote :: body) (.string key)) :
    Json.readString? (Byte.quote :: body) = some key := by
  have hstands : Parsed.Stands (.scalar 0 (Byte.quote :: body) (.string key))
      (Byte.quote :: body) := .scalar h
  have hread := hstands.fills.readWithin? (Nat.zero_le Json.nesting)
  simp only [Json.readString?, Json.read?, hread, Parsed.json]

theorem readKey_append {body between : List UInt8} {key : String}
    (h : Parsed.IsScalar (Byte.quote :: body) (.string key))
    (hbetween : Parsed.IsBlank between) (offset : Nat) (rest : List UInt8) :
    readKey ⟨offset, Byte.quote :: (body ++ (between ++ Byte.colon :: rest))⟩ =
      .read key ⟨offset + body.length + between.length + 2, rest⟩ := by
  have hquoted : Scan.IsQuoted body := by
    cases h with
    | string hbody _ => exact (Grammar.isString_of_isBody hbody).isQuoted
  have hstring := Scan.string_append hquoted [] (between ++ Byte.colon :: rest)
  have hcolon : Window.trimStart ⟨offset + 1 + body.length, between ++ Byte.colon :: rest⟩ =
      ⟨offset + 1 + body.length + between.length, Byte.colon :: rest⟩ := by
    rw [Window.trimStart, Window.trimFrom_append hbetween, Window.trimFrom_cons rfl]
  simp [readKey, hstring, readString?_quote h, readColon, hcolon]
  omega

/-! ## Opening a container -/

theorem members_empty {blanks : List UInt8} (c : Container κ) (h : Parsed.IsBlank blanks)
    (hcloser : Text.isJsonBlank c.closer = false) (offset : Nat) (rest : List UInt8) :
    c.members false ⟨offset, blanks ++ c.closer :: rest⟩ = [] := by
  refine members_eq_of_last ?_
  unfold step
  simp [Window.trimStart, Window.trimFrom_append h, Window.trimFrom_cons hcloser]

end Container

end TypedJson
