import TypedJson.Proofs.Decode.Reference
import TypedJson.Proofs.Split.Exact

/-!
# What windows look like

What is told from the first byte of a window, and what the strict reader answers for it, is what the
value in the window is.
-/

namespace TypedJson.Parsed

/-- The text of the value fills the window, and its containers are not nested too deep. -/
structure Fits (tree : Parsed) (w : Window) : Prop where
  isIn : tree.In w
  height : tree.height ≤ Json.nesting

variable {tree : Parsed} {w : Window}

theorem Fits.json (h : tree.Fits w) : w.json = .ok tree.json := by
  have hread : Json.read? w.bytes = some tree.json := Fills.readWithin? h.isIn h.height
  rw [Window.json, hread]

theorem Fits.heightItems (h : tree.Fits w) {items : List Parsed} (hitems : tree.items = .ok items) :
    Parsed.heightItems items ≤ Json.nesting := by
  have hle : Parsed.heightItems items ≤ tree.height := by
    match tree with
    | .list _ items' =>
      obtain rfl := Except.ok.inj hitems
      exact Nat.le_succ _
    | .scalar _ _ value =>
      cases value with
      | null =>
        obtain rfl := Except.ok.inj hitems
        exact Nat.le_refl _
      | _ => exact nomatch hitems
  exact Nat.le_trans hle h.height

theorem Fits.heightEntries (h : tree.Fits w) {entries : List (String × Parsed)}
    (hentries : tree.entries = .ok entries) : Parsed.heightEntries entries ≤ Json.nesting := by
  have hle : Parsed.heightEntries entries ≤ tree.height := by
    match tree with
    | .dict _ entries' =>
      obtain rfl := Except.ok.inj hentries
      exact Nat.le_succ _
    | .scalar _ _ value =>
      cases value with
      | null =>
        obtain rfl := Except.ok.inj hentries
        exact Nat.le_refl _
      | _ => exact nomatch hentries
  exact Nat.le_trans hle h.height

theorem Stands.startsNull_iff {text : List UInt8} (h : tree.Stands text) :
    tree.firstByte = 0x6E ↔ tree.isNull = Bool.true := by
  cases h with
  | @scalar offset literal value h =>
    rw [firstByte, h.startsNull_iff]
    cases value with
    | null => exact ⟨fun _ ↦ rfl, fun _ ↦ rfl⟩
    | _ => exact ⟨fun h ↦ (nomatch h), fun h ↦ (nomatch h)⟩
  | emptyList | list =>
    exact ⟨fun h ↦ absurd h (by decide : Byte.openList ≠ 0x6E), fun h ↦ (nomatch h)⟩
  | emptyDict | dict =>
    exact ⟨fun h ↦ absurd h (by decide : Byte.openDict ≠ 0x6E), fun h ↦ (nomatch h)⟩

theorem In.looksNull (h : tree.In w) : w.looksNull = tree.isNull := by
  obtain ⟨_, text, after, _, _, hstands, _, htrim⟩ := h.exists_text
  obtain ⟨tail, htail⟩ := hstands.head
  rw [Window.looksNull, htrim, htail, Bool.eq_iff_iff, ← hstands.startsNull_iff]
  simp

theorem any_isFractional_blanks {blanks : List UInt8} (h : IsBlank blanks) :
    blanks.any Window.isFractional = Bool.false := by
  rw [List.any_eq_false]
  intro b hb hfractional
  exact Bool.false_ne_true ((not_blank_of hfractional rfl).symm.trans (h b hb))

theorem shape_of_number {b : UInt8} {rest : List UInt8} (htrim : w.trimStart.bytes = b :: rest)
    (hb : b = 0x2D ∨ 0x30 ≤ b ∧ b ≤ 0x39) :
    w.shape = .ok (if w.bytes.any Window.isFractional then "float" else "int") := by
  have hne : ∀ c : UInt8, ¬ (c = 0x2D ∨ 0x30 ≤ c ∧ c ≤ 0x39) → b ≠ c := by
    rintro c hc rfl
    exact hc hb
  have hstarts : Window.startsNumber b = Bool.true := by simpa [Window.startsNumber] using hb
  unfold Window.shape
  simp [htrim, hne 0x6E (by decide), hne 0x74 (by decide), hne 0x66 (by decide),
    hne Byte.quote (by decide), hne Byte.openList (by decide), hne Byte.openDict (by decide),
    hstarts]

theorem In.shape (h : tree.In w) : w.shape = .ok tree.shape := by
  obtain ⟨before, text, after, hbytes, hbefore, hstands, hafter, htrim⟩ := h.exists_text
  have hany : w.bytes.any Window.isFractional = text.any Window.isFractional := by
    rw [hbytes, List.any_append, List.any_append, any_isFractional_blanks hbefore,
      any_isFractional_blanks hafter, Bool.false_or, Bool.or_false]
  cases hstands with
  | @scalar offset literal value hscalar =>
    cases hscalar with
    | number hliteral _ =>
      obtain ⟨b, rest, rfl, hb⟩ := hliteral.head
      rw [shape_of_number (congrArg Window.bytes htrim) hb, hany]
      rfl
    | null | true | false | string =>
      unfold Window.shape
      rw [htrim]
      rfl
  | emptyList | list | emptyDict | dict =>
    unfold Window.shape
    rw [htrim]
    rfl

end TypedJson.Parsed
