import TypedJson.Proofs.Split.Crossing

/-!
# Nested bytes

`Nested p` describes bytes by their brackets and strings alone: brackets are nested, strings are
closed, and each byte outside both is of a kind `p`. No grammar of values is involved, so this is
what can be asked of a member that may be malformed otherwise.

A scan runs over nested bytes without commas outside, whatever follows (`IsMember.member_append`),
and finds no stray byte among them exactly if there is no blank outside either, but for those at the
end (`IsMember.stray_eq_none_iff`).
-/

namespace TypedJson

namespace Byte

/-- The bytes of which strings and brackets are made. -/
def structural : List UInt8 := [quote, openList, closeList, openDict, closeDict]

/-- The two bytes are the brackets of one kind of container. -/
def Enclose (opener closer : UInt8) : Prop :=
  opener = openList ∧ closer = closeList ∨ opener = openDict ∧ closer = closeDict

/-- A byte that may stand in a member outside brackets and strings. -/
def IsInner (b : UInt8) : Prop := b ≠ comma

/-- A byte that may stand in a value outside brackets and strings. -/
def IsSolid (b : UInt8) : Prop := b ≠ comma ∧ Text.isJsonBlank b = false

variable {b opener closer : UInt8}

theorem not_isCloser_of_not_structural (h : b ∉ structural) : isCloser b = false := by
  simp only [structural, List.mem_cons, List.not_mem_nil, or_false, not_or] at h
  simp [isCloser, h]

theorem Enclose.mem_structural (h : Enclose opener closer) : opener ∈ structural := by
  obtain ⟨rfl, -⟩ | ⟨rfl, -⟩ := h
  · exact List.mem_of_elem_eq_true rfl
  · exact List.mem_of_elem_eq_true rfl

theorem Enclose.isSolid (h : Enclose opener closer) :
    Text.isJsonBlank opener = false ∧ isDelimiter opener = false := by
  obtain ⟨rfl, -⟩ | ⟨rfl, -⟩ := h
  · exact ⟨rfl, rfl⟩
  · exact ⟨rfl, rfl⟩

end Byte

namespace Scan

/-- Brackets are nested, strings are closed, and the bytes outside both are of a kind. -/
inductive Nested : (UInt8 → Prop) → List UInt8 → Prop
  | nil {p : UInt8 → Prop} : Nested p []
  | byte {p : UInt8 → Prop} {b : UInt8} {bytes : List UInt8} (hb : b ∉ Byte.structural) (hp : p b)
      (h : Nested p bytes) : Nested p (b :: bytes)
  | string {p : UInt8 → Prop} {body bytes : List UInt8} (hbody : IsQuoted body)
      (h : Nested p bytes) : Nested p (Byte.quote :: (body ++ bytes))
  | brackets {p : UInt8 → Prop} {opener closer : UInt8} {inner bytes : List UInt8}
      (hkind : Byte.Enclose opener closer) (hinner : Nested (fun _ ↦ True) inner)
      (h : Nested p bytes) : Nested p (opener :: (inner ++ closer :: bytes))

/-- The text of a member, which may be blank or malformed otherwise. -/
def IsMember (bytes : List UInt8) : Prop := Nested Byte.IsInner bytes

/-- A text that is not empty and has no blank outside brackets and strings. -/
def IsSolid (bytes : List UInt8) : Prop := bytes ≠ [] ∧ Nested Byte.IsSolid bytes

namespace Nested

variable {p q : UInt8 → Prop} {bytes rest read : List UInt8} {closers : List UInt8} {b : UInt8}

theorem mono (h : Nested p bytes) (hpq : ∀ b, p b → q b) : Nested q bytes := by
  induction h with
  | nil => exact .nil
  | byte hb hp _ ih => exact .byte hb (hpq _ hp) (ih hpq)
  | string hbody _ ih => exact .string hbody (ih hpq)
  | brackets hkind hinner _ _ ih => exact .brackets hkind hinner (ih hpq)

theorem append (h : Nested p bytes) (hrest : Nested p rest) : Nested p (bytes ++ rest) := by
  induction h with
  | nil => exact hrest
  | byte hb hp _ ih => exact .byte hb hp (ih hrest)
  | string hbody _ ih =>
    rw [List.cons_append, List.append_assoc]
    exact .string hbody (ih hrest)
  | brackets hkind hinner _ _ ih =>
    rw [List.cons_append, List.append_assoc]
    exact .brackets hkind hinner (ih hrest)

/-- Blanks are bytes like others. -/
theorem of_isBlank (h : Parsed.IsBlank bytes) (hp : ∀ b, Text.isJsonBlank b = true → p b) :
    Nested p bytes := by
  induction bytes with
  | nil => exact .nil
  | cons b bytes ih =>
    have hb := h b List.mem_cons_self
    have hplain : b ∉ Byte.structural := by
      simp only [Text.isJsonBlank, Bool.or_eq_true, beq_iff_eq] at hb
      obtain ((rfl | rfl) | rfl) | rfl := hb <;> decide
    exact .byte hplain (hp b hb) (ih fun c hc ↦ h c (List.mem_cons_of_mem b hc))

/-! ## Scans of nested bytes -/

theorem step_of_not_structural {s : State} (hmode : s.mode = .plain) (hb : b ∉ Byte.structural) :
    s.step b = s := by
  simp only [Byte.structural, List.mem_cons, List.not_mem_nil, or_false, not_or] at hb
  simp [State.step, hmode, Byte.isCloser, hb]

/-- Within brackets a scan crosses all nested bytes, and outside those without commas and blanks. -/
theorem crosses (h : Nested p bytes) (hp : closers = [] → ∀ b, p b → Byte.IsSolid b) :
    Crosses { closers } bytes { closers } := by
  induction h generalizing closers with
  | nil => exact .nil
  | @byte p b bytes hb hpb _ ih =>
    have hcloser := Byte.not_isCloser_of_not_structural hb
    have hsolid : State.isOutside { closers } = true → Byte.IsSolid b :=
      fun hout ↦ hp (isOutside_eq_true.mp hout).2 b hpb
    refine .cons ?_ ?_ (fun hout ↦ (hsolid hout).2) ?_
    · rw [State.stops, Bool.and_eq_false_imp]
      intro hout
      simp [Byte.isDelimiter, hcloser, (hsolid hout).1]
    · simp [State.mismatches, hcloser]
    · rw [step_of_not_structural rfl hb]
      exact ih hp
  | string hbody _ ih =>
    have hquote : State.stops { closers } Byte.quote = false := Bool.and_false _
    exact .cons hquote rfl (fun _ ↦ rfl) ((crosses_quoted hbody).append (ih hp))
  | @brackets p opener closer inner bytes hkind _ _ ihinner ih =>
    have hinner : Crosses { closers := closer :: closers } inner
        { closers := closer :: closers } := ihinner fun h ↦ (List.cons_ne_nil _ _ h).elim
    have happend := (crosses_brackets hkind hinner).append (ih hp)
    rwa [List.cons_append, List.append_assoc] at happend

/-- Outside, a scan crosses what is solid. -/
theorem crosses_outside (h : Nested Byte.IsSolid bytes) : Crosses {} bytes {} :=
  h.crosses fun _ _ hb ↦ hb

/-- A string by itself. -/
theorem of_isQuoted {body : List UInt8} (hbody : IsQuoted body) :
    Nested p (Byte.quote :: body) := by
  have h : Nested p (Byte.quote :: (body ++ [])) := .string hbody .nil
  rwa [List.append_nil] at h

/-- A text in brackets by itself. -/
theorem of_brackets {opener closer : UInt8} {inner : List UInt8}
    (hkind : Byte.Enclose opener closer) (hinner : Nested (fun _ ↦ True) inner) :
    Nested p (opener :: (inner ++ [closer])) := .brackets hkind hinner .nil

/-- A scan runs over a member, whatever follows. -/
theorem member_append (h : Nested p bytes) (hp : ∀ b, p b → Byte.IsInner b)
    (read rest : List UInt8) :
    member {} read (bytes ++ rest) = member {} (bytes.reverse ++ read) rest := by
  induction h generalizing read with
  | nil => rfl
  | @byte p b bytes hb hpb _ ih =>
    have hstops : State.stops {} b = false := by
      have hne : b ≠ Byte.comma := hp b hpb
      simp [State.stops, Byte.isDelimiter, Byte.not_isCloser_of_not_structural hb, hne]
    rw [List.cons_append, member, hstops, if_neg Bool.false_ne_true,
      step_of_not_structural rfl hb, ih hp, List.reverse_cons, List.append_assoc]
    rfl
  | @string p body bytes hbody _ ih =>
    rw [← List.cons_append, List.append_assoc, (of_isQuoted hbody).crosses_outside.member_append,
      ih hp, List.reverse_append, List.append_assoc]
  | @brackets p opener closer inner bytes hkind hinner _ _ ih =>
    have hsplit : opener :: (inner ++ closer :: bytes) =
        (opener :: (inner ++ [closer])) ++ bytes := by simp
    rw [hsplit, List.append_assoc, (of_brackets hkind hinner).crosses_outside.member_append, ih hp,
      List.reverse_append, List.append_assoc]

/-! ## Stray bytes -/

/-- The bytes after a solid piece are looked through as if nothing stood before them. -/
theorem stray_append (h : Nested Byte.IsSolid bytes) (i : Nat) (rest : List UInt8) :
    stray {} false i (bytes ++ rest) = stray {} false (i + bytes.length) rest := by
  obtain ⟨blank, hblank, hstray⟩ :=
    h.crosses_outside.stray_append (i := i) fun h : false = true ↦ nomatch h
  cases blank with
  | false => exact hstray rest
  | true => exact nomatch hblank rfl

/-- After a blank, any byte but another blank is stray. -/
theorem stray_cons_of_not_blank (hb : Text.isJsonBlank b = false) {afterBlank : Bool} {i : Nat}
    (h : stray {} afterBlank i (b :: rest) = none) :
    afterBlank = false ∧ stray {} false i (b :: rest) = none := by
  cases afterBlank with
  | false => exact ⟨rfl, h⟩
  | true =>
    rw [stray, hb, if_neg (by simp)] at h
    cases h

/-- Something solid with blanks behind it. -/
def EndsBlank (bytes : List UInt8) : Prop :=
  ∃ solid blanks, bytes = solid ++ blanks ∧ Nested Byte.IsSolid solid ∧ Parsed.IsBlank blanks

theorem EndsBlank.append (h : Nested Byte.IsSolid bytes) (hrest : EndsBlank rest) :
    EndsBlank (bytes ++ rest) := by
  obtain ⟨solid, blanks, rfl, hsolid, hblanks⟩ := hrest
  exact ⟨bytes ++ solid, blanks, (List.append_assoc _ _ _).symm, h.append hsolid, hblanks⟩

/-- Without a stray byte, a solid piece does not follow a blank. -/
theorem endsBlank_append {piece : List UInt8} {afterBlank : Bool} {i : Nat}
    (hpiece : Nested Byte.IsSolid (b :: piece)) (hb : Text.isJsonBlank b = false)
    (ih : ∀ i, stray {} false i rest = none → EndsBlank rest)
    (hstray : stray {} afterBlank i (b :: (piece ++ rest)) = none) :
    (afterBlank = true → Parsed.IsBlank (b :: (piece ++ rest))) ∧
      EndsBlank (b :: (piece ++ rest)) := by
  obtain ⟨rfl, hnone⟩ := stray_cons_of_not_blank hb hstray
  rw [← List.cons_append, hpiece.stray_append] at hnone
  exact ⟨fun h ↦ (nomatch h), .append hpiece (ih _ hnone)⟩

/-- Without a stray byte, blanks outside stand at the end only. -/
theorem endsBlank_of_stray (h : Nested p bytes) (hp : ∀ b, p b → Byte.IsInner b)
    {afterBlank : Bool} {i : Nat} (hstray : stray {} afterBlank i bytes = none) :
    (afterBlank = true → Parsed.IsBlank bytes) ∧ EndsBlank bytes := by
  induction h generalizing afterBlank i with
  | nil => exact ⟨fun _ ↦ Parsed.isBlank_nil, [], [], rfl, .nil, Parsed.isBlank_nil⟩
  | @byte p b bytes hb hpb _ ih =>
    by_cases hblank : Text.isJsonBlank b = true
    · rw [stray, if_pos ⟨rfl, hblank⟩, step_of_blank rfl hblank] at hstray
      have hbytes : Parsed.IsBlank (b :: bytes) := by
        rintro c (_ | ⟨_, hc⟩)
        · exact hblank
        · exact (ih hp hstray).1 rfl c hc
      exact ⟨fun _ ↦ hbytes, [], b :: bytes, rfl, .nil, hbytes⟩
    · replace hblank := Bool.eq_false_iff.mpr hblank
      have hpiece : Nested Byte.IsSolid [b] := .byte hb ⟨hp b hpb, hblank⟩ .nil
      exact endsBlank_append hpiece hblank (fun i h ↦ (ih hp h).2) hstray
  | string hbody _ ih =>
    exact endsBlank_append (of_isQuoted hbody) rfl (fun i h ↦ (ih hp h).2) hstray
  | @brackets p opener closer inner bytes hkind hinner _ _ ih =>
    have hsplit : inner ++ closer :: bytes = (inner ++ [closer]) ++ bytes := by simp
    rw [hsplit] at hstray ⊢
    exact endsBlank_append (of_brackets hkind hinner) hkind.isSolid.1 (fun i h ↦ (ih hp h).2)
      hstray

end Nested

variable {bytes rest : List UInt8} {d : UInt8}

/-- A scan finds the end of a member. -/
theorem IsMember.member_append (h : IsMember bytes) (hd : Byte.isDelimiter d = true) :
    member {} [] (bytes ++ d :: rest) = .ok (bytes, d :: rest) := by
  have hstops : State.stops {} d = true := by
    rw [State.stops, hd]
    rfl
  rw [Nested.member_append h fun _ hb ↦ hb, member, hstops]
  simp

/-- Among the bytes of a member, none is stray exactly if blanks outside stand at the end only. -/
theorem IsMember.stray_eq_none_iff (h : IsMember bytes) :
    stray {} false 0 bytes = none ↔ Nested.EndsBlank bytes := by
  refine ⟨fun hstray ↦ (h.endsBlank_of_stray (fun _ h ↦ h) hstray).2, ?_⟩
  rintro ⟨solid, blanks, rfl, hsolid, hblanks⟩
  rw [hsolid.stray_append]
  exact stray_blanks hblanks _ _

end Scan

end TypedJson
