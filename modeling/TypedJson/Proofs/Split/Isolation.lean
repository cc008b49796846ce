import Mathlib.Data.List.Forall2
import TypedJson.Proofs.Split.Steps

/-!
# Broken members do not hide others

A container is split at the commas outside brackets and strings, so its text can be taken as the
texts of its members with commas between them, each of them nested in itself but malformed in any
other way. A split answers once for each member, and each answer depends on that member alone:
the trimmed window of its value if the value is solid, and an error otherwise. For a list the value
is the member. For a dictionary it stands behind a key and a colon.

Dictionaries keep this promise only where no member starts with a bracket and no member but the last
is blank. A byte that starts no key is consumed before the rest of the member is skipped: if it is
the comma behind a blank member, the next member is skipped with it (`split_dict_blank`), and if it
opens a bracket, the split goes on inside.
-/

namespace TypedJson

namespace Container

/-- The answer to a window that holds a value under a key, if it holds any: the trimmed window of
the value if that is solid, and an error in all other cases. -/
structure Answers {κ : Type} (holds : Window → κ → Window → Prop) (w : Window)
    (item : Except Failure (Member κ)) : Prop where
  found : ∀ key value, holds w key value → Scan.IsSolid value.trim.bytes →
    item = .ok ⟨key, value.trim⟩
  refused : (¬ ∃ key value, holds w key value ∧ Scan.IsSolid value.trim.bytes) →
    ∃ failure, item = .error failure

/-- A window of a list holds a value. -/
def HoldsValue (w : Window) (_ : Unit) (value : Window) : Prop := value = w

/-- A window of a dictionary holds a key, a colon and the window of a value, with blanks around the
key. -/
inductive HoldsEntry : Window → String → Window → Prop
  | mk {offset : Nat} {before body between value : List UInt8} {key : String}
      (hbefore : Parsed.IsBlank before)
      (hkey : Parsed.IsScalar (Byte.quote :: body) (.string key))
      (hbetween : Parsed.IsBlank between) :
      HoldsEntry ⟨offset, before ++ Byte.quote :: (body ++ (between ++ Byte.colon :: value))⟩ key
        ⟨offset + before.length + body.length + between.length + 2, value⟩

variable {κ : Type} {c : Container κ} {key : κ} {offset : Nat} {m rest : List UInt8} {b d : UInt8}
  {next : Option Window}

/-! ## Members of lists -/

theorem answers_value {w : Window} {item : Except Failure (Member Unit)}
    (hfound : Scan.IsSolid w.trim.bytes → item = .ok ⟨(), w.trim⟩)
    (hrefused : ¬ Scan.IsSolid w.trim.bytes → ∃ failure, item = .error failure) :
    Answers HoldsValue w item where
  found := by
    rintro _ _ rfl hsolid
    exact hfound hsolid
  refused h := hrefused fun hsolid ↦ h ⟨(), w, rfl, hsolid⟩

theorem step_list_member (afterComma : Bool) (hm : Scan.IsMember m)
    (hd : Byte.isDelimiter d = true)
    (hnext : list.delimiter ⟨offset + m.length, d :: rest⟩ = .ok next)
    (hblank : Parsed.IsBlank m → d = Byte.closeList → afterComma = true) :
    ∃ item, list.step afterComma ⟨offset, m ++ d :: rest⟩ = .proceed item next ∧
      Answers HoldsValue ⟨offset, m⟩ item := by
  obtain ⟨blanks, tail, rfl, hblanks, htail⟩ := Window.exists_blanks_append m
  by_cases hlast : tail = [] ∧ d = Byte.closeList
  · -- The closing bracket stands in place of a member.
    obtain ⟨rfl, rfl⟩ := hlast
    rw [List.append_nil] at hblank hnext ⊢
    obtain rfl : none = next :=
      Except.ok.inj ((delimiter_closer (c := list) (by decide)).symm.trans hnext)
    rw [hblank hblanks rfl]
    refine ⟨_, step_blank hblanks rfl, answers_value (fun h ↦ ?_) fun _ ↦ ⟨_, rfl⟩⟩
    rw [Window.trim_blank hblanks] at h
    exact absurd rfl h.1
  · have hfront := trimStart_member hblanks htail hd offset rest
    obtain ⟨first, start, hstart, hfirst⟩ :
        ∃ first start, tail ++ d :: rest = first :: start ∧ first ≠ Byte.closeList := by
      obtain rfl | ⟨b, t, rfl, -⟩ := htail
      · exact ⟨d, rest, rfl, fun h ↦ hlast ⟨rfl, h⟩⟩
      · exact ⟨b, _, rfl, ne_of_isMember (hm.of_blanks_append hblanks) rfl⟩
    rw [List.length_append, ← Nat.add_assoc] at hnext
    obtain ⟨item, hstep, hfound, hrefused⟩ := step_of_read hfront hstart hfirst rfl
      (hm.of_blanks_append hblanks) rfl hd hnext afterComma
    rw [← Window.trim_append hblanks] at hfound hrefused
    exact ⟨item, hstep, answers_value hfound hrefused⟩

/-! ## Members of dictionaries -/

/-- A string literal that is read fills its bytes. -/
theorem isScalar_of_readString? {body : List UInt8} {key : String} (hbody : Scan.IsQuoted body)
    (h : Json.readString? (Byte.quote :: body) = some key) :
    Parsed.IsScalar (Byte.quote :: body) (.string key) := by
  have hread : Json.read? (Byte.quote :: body) = some (.string key) := by
    unfold Json.readString? at h
    split at h
    · next s hs =>
      rw [hs, Option.some.inj h]
    · exact nomatch h
  obtain ⟨tree, hfills, -, hjson⟩ := Parsed.readWithin?_eq_some_iff.mp hread
  generalize hbytes : Byte.quote :: body = bytes at hfills
  obtain @⟨_, _, before, text, after, -, hbefore, hstands, hafter⟩ := hfills
  obtain rfl : before = [] := by
    cases before with
    | nil => rfl
    | cons b before =>
      obtain ⟨rfl, -⟩ := List.cons.inj hbytes
      exact absurd (hbefore _ List.mem_cons_self) (by decide)
  obtain rfl : after = [] := by
    by_contra hne
    have hlast : (Byte.quote :: body).getLast? = some Byte.quote := by
      rw [List.getLast?_cons, hbody.getLast?]
      rfl
    obtain ⟨b, hb⟩ : ∃ b, after.getLast? = some b := ⟨_, List.getLast?_eq_some_getLast hne⟩
    rw [hbytes, List.nil_append, List.getLast?_append, hb] at hlast
    obtain rfl := Option.some.inj hlast
    exact absurd (hafter _ (List.mem_of_getLast? hb)) (by decide)
  rw [List.nil_append, List.append_nil]
  cases hstands with
  | scalar hscalar =>
    obtain rfl : _ = Json.string key := hjson
    exact hscalar
  | emptyList | list | emptyDict | dict => exact nomatch hjson

/-- The key of an entry is read, whatever follows its value. -/
theorem HoldsEntry.readKey {w value : Window} {key : String} (h : HoldsEntry w key value)
    (d : UInt8) (rest : List UInt8) :
    readKey (Window.trimStart ⟨w.offset, w.bytes ++ d :: rest⟩) =
      .read key ⟨value.offset, value.bytes ++ d :: rest⟩ := by
  obtain @⟨offset, before, body, between, value, key, hbefore, hkey, hbetween⟩ := h
  have hread := readKey_append hkey hbetween (offset + before.length) (value ++ d :: rest)
  simp only [List.append_assoc, List.cons_append, Window.trimStart,
    Window.trimFrom_append hbefore, Window.trimFrom_cons (rfl : Text.isJsonBlank Byte.quote = _)]
  exact hread

/-- A text that starts with an opening bracket, after blanks. -/
def StartsBracket (m : List UInt8) : Prop :=
  ∃ blanks opener closer tail, m = blanks ++ opener :: tail ∧ Parsed.IsBlank blanks ∧
    Byte.Enclose opener closer

theorem not_startsBracket {blanks : List UInt8} (hblanks : Parsed.IsBlank blanks)
    (hb : Text.isJsonBlank b = false) (hopener : b ≠ Byte.openList ∧ b ≠ Byte.openDict) :
    ¬ StartsBracket (blanks ++ b :: m) := by
  rintro ⟨blanks', opener, closer, tail, hsplit, hblanks', hkind⟩
  have hstart : Window.trimFrom 0 (blanks ++ b :: m) =
      Window.trimFrom 0 (blanks' ++ opener :: tail) :=
    congrArg (Window.trimFrom 0) hsplit
  rw [Window.trimFrom_append hblanks, Window.trimFrom_append hblanks', Window.trimFrom_cons hb,
    Window.trimFrom_cons hkind.isSolid.1] at hstart
  obtain ⟨rfl, -⟩ := List.cons.inj (Window.mk.inj hstart).2
  exact hkind.elim (fun h ↦ hopener.1 h.1) fun h ↦ hopener.2 h.1

theorem readKey_quoted {body : List UInt8} (hbody : Scan.IsQuoted body) (offset : Nat)
    (rest : List UInt8) :
    readKey ⟨offset, Byte.quote :: (body ++ rest)⟩ =
      match Json.readString? (Byte.quote :: body) with
      | some key => readColon key ⟨offset + 1 + body.length, rest⟩
      | none =>
        .refused (.invalidResource offset "invalid key") ⟨offset + 1 + body.length, rest⟩ := by
  have hstring := Scan.string_append hbody [] rest
  rw [List.reverse_nil, List.nil_append] at hstring
  cases hkey : Json.readString? (Byte.quote :: body) with
  | none => simp only [readKey, ne_eq, not_true_eq_false, if_false, hstring, hkey]
  | some key => simp only [readKey, ne_eq, not_true_eq_false, if_false, hstring, hkey]

/-- Behind a key there is a colon, or reading is refused within the member. -/
theorem readColon_member {left : List UInt8} (hm : Scan.IsMember left)
    (hd : Byte.isDelimiter d = true) (key : String) (offset : Nat) (rest : List UInt8) :
    (∃ failure skipped left', left = skipped ++ left' ∧ Scan.IsMember left' ∧
      readColon key ⟨offset, left ++ d :: rest⟩ =
        .refused failure ⟨offset + skipped.length, left' ++ d :: rest⟩) ∨
    ∃ between value, left = between ++ Byte.colon :: value ∧ Parsed.IsBlank between ∧
      Scan.IsMember value := by
  obtain ⟨between, after, rfl, hbetween, hafter⟩ := Window.exists_blanks_append left
  have hm' : Scan.IsMember after := hm.of_blanks_append hbetween
  have hfront := trimStart_member hbetween hafter hd offset rest
  obtain rfl | ⟨e, value, rfl, -⟩ := hafter
  · have hcolon : d ≠ Byte.colon := by
      rintro rfl
      exact nomatch hd
    refine .inl ⟨Window.unexpected (offset + between.length) d, between, [], rfl, .nil, ?_⟩
    simp only [readColon, hfront, List.nil_append, if_neg hcolon]
  · by_cases hcolon : e = Byte.colon
    · subst hcolon
      exact .inr ⟨between, value, rfl, hbetween, (hm'.of_cons (by decide)).2⟩
    · refine .inl ⟨Window.unexpected (offset + between.length) e, between, e :: value, rfl, hm', ?_⟩
      simp only [readColon, hfront, List.cons_append, if_neg hcolon]

/-- Reading the key of a member either finds an entry or is refused within the member. -/
theorem readKey_member {tail : List UInt8} (hm : Scan.IsMember (b :: tail))
    (hopener : ∀ closer, ¬ Byte.Enclose b closer) (hd : Byte.isDelimiter d = true) (offset : Nat)
    (rest : List UInt8) :
    (∃ failure skipped left, b :: tail = skipped ++ left ∧ Scan.IsMember left ∧
      readKey ⟨offset, b :: tail ++ d :: rest⟩ =
        .refused failure ⟨offset + skipped.length, left ++ d :: rest⟩) ∨
    ∃ key body between value,
      b :: tail = Byte.quote :: (body ++ (between ++ Byte.colon :: value)) ∧
      Parsed.IsScalar (Byte.quote :: body) (.string key) ∧ Parsed.IsBlank between ∧
      Scan.IsMember value := by
  cases hm with
  | byte hb _ h =>
    have hquote : b ≠ Byte.quote := by
      rintro rfl
      exact hb (List.mem_of_elem_eq_true rfl)
    refine .inl ⟨.unexpectedToken offset "expected key", [b], tail, rfl, h, ?_⟩
    simp only [readKey, List.cons_append, if_pos hquote, List.length_singleton]
  | @string _ body left hbody h =>
    have hread := readKey_quoted hbody offset (left ++ d :: rest)
    rw [← List.append_assoc, ← List.cons_append] at hread
    cases hkey : Json.readString? (Byte.quote :: body) with
    | none =>
      rw [hkey] at hread
      refine .inl ⟨.invalidResource offset "invalid key", Byte.quote :: body, left, rfl, h, ?_⟩
      rw [hread, List.length_cons, Nat.add_assoc, Nat.add_comm 1]
    | some key =>
      rw [hkey] at hread
      obtain ⟨failure, skipped, left, rfl, hleft, hcolon⟩ |
          ⟨between, value, rfl, hbetween, hvalue⟩ :=
        readColon_member h hd key (offset + 1 + body.length) rest
      · refine .inl ⟨failure, Byte.quote :: (body ++ skipped), left, ?_, hleft, ?_⟩
        · rw [List.cons_append, List.append_assoc]
        · rw [hread]
          refine hcolon.trans ?_
          rw [List.length_cons, List.length_append]
          congr 2
          omega
      · exact .inr ⟨key, body, between, value, rfl, isScalar_of_readString? hbody hkey, hbetween,
          hvalue⟩
  | brackets hkind => exact absurd hkind (hopener _)

theorem step_dict_member (afterComma : Bool) (hm : Scan.IsMember m)
    (hbracket : ¬ StartsBracket m)
    (hd : Byte.isDelimiter d = true)
    (hnext : dict.delimiter ⟨offset + m.length, d :: rest⟩ = .ok next)
    (hblank : Parsed.IsBlank m → d = Byte.closeDict ∧ afterComma = true) :
    ∃ item, dict.step afterComma ⟨offset, m ++ d :: rest⟩ = .proceed item next ∧
      Answers HoldsEntry ⟨offset, m⟩ item := by
  have hreads : ∀ {key value}, HoldsEntry ⟨offset, m⟩ key value →
      dict.key (Window.trimStart ⟨offset, m ++ d :: rest⟩) =
        .read key ⟨value.offset, value.bytes ++ d :: rest⟩ := fun h ↦ h.readKey d rest
  obtain ⟨blanks, tail, rfl, hblanks, htail⟩ := Window.exists_blanks_append m
  have hfront := trimStart_member hblanks htail hd offset rest
  rw [hfront] at hreads
  obtain rfl | ⟨b, tail, rfl, hb⟩ := htail
  · -- The closing bracket stands in place of a member.
    rw [List.append_nil] at hblank hnext hreads ⊢
    obtain ⟨rfl, rfl⟩ := hblank hblanks
    obtain rfl : none = next :=
      Except.ok.inj ((delimiter_closer (c := dict) (by decide)).symm.trans hnext)
    refine ⟨_, step_blank hblanks rfl, ⟨fun key value h _ ↦ ?_, fun _ ↦ ⟨_, rfl⟩⟩⟩
    have hrefused := hreads h
    simp only [dict, readKey, List.nil_append, if_pos (by decide : Byte.closeDict ≠ Byte.quote)]
      at hrefused
    cases hrefused
  · have hm' : Scan.IsMember (b :: tail) := hm.of_blanks_append hblanks
    have hfirst : b ≠ dict.closer := ne_of_isMember hm' rfl
    have hopener : ∀ closer, ¬ Byte.Enclose b closer := fun closer h ↦
      hbracket ⟨blanks, b, closer, tail, rfl, hblanks, h⟩
    rw [List.length_append, ← Nat.add_assoc] at hnext
    obtain ⟨failure, skipped, left, hsplit, hleft, hkey⟩ |
        ⟨key, body, between, value, hsplit, hscalar, hbetween, hvalue⟩ :=
      readKey_member hm' hopener hd (offset + blanks.length) rest
    · rw [hsplit, List.length_append, ← Nat.add_assoc] at hnext
      refine ⟨.error failure, ?_, ⟨fun key value h _ ↦ ?_, fun _ ↦ ⟨_, rfl⟩⟩⟩
      · unfold step
        simp only [hfront, List.cons_append, if_neg hfirst]
        rw [← List.cons_append, show dict.key = readKey from rfl, hkey]
        exact resume_member hleft hd hnext failure
      · cases hkey.symm.trans (hreads h)
    · have hentry : HoldsEntry ⟨offset, blanks ++ (b :: tail)⟩ key
          ⟨offset + blanks.length + body.length + between.length + 2, value⟩ := by
        rw [hsplit]
        exact .mk hblanks hscalar hbetween
      -- What is read is determined, so the member holds no other entry.
      have hunique : ∀ {key' value'}, HoldsEntry ⟨offset, blanks ++ (b :: tail)⟩ key' value' →
          key' = key ∧
            value' = ⟨offset + blanks.length + body.length + between.length + 2, value⟩ := by
        rintro key' ⟨offset', value'⟩ h
        obtain ⟨hkeys, hwindows⟩ := KeyStep.read.inj ((hreads h).symm.trans (hreads hentry))
        obtain ⟨hoffsets, hbytes⟩ := Window.mk.inj hwindows
        exact ⟨hkeys, congrArg₂ Window.mk hoffsets (List.append_cancel_right hbytes)⟩
      have hlength : offset + blanks.length + (b :: tail).length =
          offset + blanks.length + body.length + between.length + 2 + value.length := by
        rw [hsplit]
        simp only [List.length_cons, List.length_append]
        omega
      rw [hlength] at hnext
      obtain ⟨item, hstep, hfound, hrefused⟩ := step_of_read hfront rfl hfirst (hreads hentry)
        hvalue rfl hd hnext afterComma
      refine ⟨item, hstep, ⟨fun key' value' h hsolid ↦ ?_, fun h ↦ hrefused fun hsolid ↦ ?_⟩⟩
      · obtain ⟨rfl, rfl⟩ := hunique h
        exact hfound hsolid
      · exact h ⟨key, _, hentry, hsolid⟩

/-! ## Members in the grammar -/

end Container

namespace Grammar

theorem IsElement.not_isBlank {text : List UInt8} (h : IsElement text) : ¬ Parsed.IsBlank text := by
  obtain ⟨-, h, -⟩ := h
  exact h.isSolid.not_isBlank

theorem IsEntry.not_isBlank {text : List UInt8} (h : IsEntry text) : ¬ Parsed.IsBlank text := by
  obtain ⟨-, -, -, -⟩ := h
  intro hblank
  exact absurd (hblank Byte.quote (by simp)) (by decide)

theorem IsEntry.not_startsBracket {text : List UInt8} (h : IsEntry text) :
    ¬ Container.StartsBracket text := by
  obtain ⟨hbefore, -, -, -⟩ := h
  exact Container.not_startsBracket hbefore rfl (by decide)

end Grammar

namespace Container

variable {κ : Type} {c : Container κ} {offset : Nat} {m rest : List UInt8} {d : UInt8}
  {next : Option Window}

/-! ## Containers -/

/-- The windows of members with commas between them, from an offset on. -/
def memberWindows (offset : Nat) : List (List UInt8) → List Window
  | [] => []
  | m :: ms => ⟨offset, m⟩ :: memberWindows (offset + m.length + 1) ms

/-- The text of a container with the given texts of members. -/
def text (c : Container κ) (ms : List (List UInt8)) : List UInt8 :=
  Grammar.enclosed c.opener c.closer ms

theorem split_text (c : Container κ) (hopener : Text.isJsonBlank c.opener = false) (offset : Nat)
    (ms : List (List UInt8)) (rest : List UInt8) :
    c.split ⟨offset, c.text ms ++ rest⟩ =
      .ok (c.members false ⟨offset + 1, [Byte.comma].intercalate ms ++ c.closer :: rest⟩) := by
  unfold split text Grammar.enclosed
  simp [Window.trimStart, Window.trimFrom_cons hopener]

/-- Going on behind each delimiter, a split answers for one member after the other. -/
theorem members_answer {holds : Window → κ → Window → Prop} {ms : List (List UInt8)}
    (hne : ms ≠ []) {afterComma : Bool}
    (hinner : ∀ m ∈ ms.dropLast, ∀ afterComma offset rest,
      ∃ item, c.step afterComma ⟨offset, m ++ Byte.comma :: rest⟩ =
        .more item ⟨offset + m.length + 1, rest⟩ ∧ Answers holds ⟨offset, m⟩ item)
    (hlast : ∀ m ∈ ms.getLast?, ∀ afterComma offset rest,
      (Parsed.IsBlank m → afterComma = true) →
      ∃ item, c.step afterComma ⟨offset, m ++ c.closer :: rest⟩ = .last [item] ∧
        Answers holds ⟨offset, m⟩ item)
    (hcount : ∀ m, ms = [m] → Parsed.IsBlank m → afterComma = true) (offset : Nat)
    (rest : List UInt8) :
    List.Forall₂ (Answers holds) (memberWindows offset ms)
      (c.members afterComma ⟨offset, [Byte.comma].intercalate ms ++ c.closer :: rest⟩) := by
  induction ms generalizing afterComma offset with
  | nil => exact absurd rfl hne
  | cons m ms ih =>
    cases ms with
    | nil =>
      obtain ⟨item, hstep, hitem⟩ := hlast m rfl afterComma offset rest (hcount m rfl)
      rw [List.intercalate_singleton, members_eq_of_last hstep]
      exact .cons hitem .nil
    | cons m' ms =>
      obtain ⟨item, hstep, hitem⟩ := hinner m List.mem_cons_self afterComma offset
        ([Byte.comma].intercalate (m' :: ms) ++ c.closer :: rest)
      rw [List.intercalate_cons_cons, List.append_assoc, List.append_assoc,
        List.singleton_append, members_eq_of_more hstep]
      exact .cons hitem (ih (List.cons_ne_nil m' ms)
        (fun m hm ↦ hinner m (List.mem_cons_of_mem _ hm)) hlast (fun _ _ _ ↦ rfl) _)

/-- A container with one blank text between its brackets has no members; in all other containers
each text between commas is one. -/
def HasMembers (ms : List (List UInt8)) : Prop :=
  2 ≤ ms.length ∨ ∃ m, ms = [m] ∧ ¬ Parsed.IsBlank m

variable {ms : List (List UInt8)}

theorem HasMembers.ne_nil (h : HasMembers ms) : ms ≠ [] := by
  rintro rfl
  obtain h | ⟨m, h, -⟩ := h
  · exact absurd h (by decide)
  · exact nomatch h

theorem HasMembers.not_isBlank (h : HasMembers ms) : ms = [m] → ¬ Parsed.IsBlank m := by
  rintro rfl
  obtain h | ⟨m', h, hblank⟩ := h
  · exact absurd h (Nat.not_succ_le_self 1)
  · obtain ⟨rfl, -⟩ := List.cons.inj h
    exact hblank

theorem split_list_answers (hms : ∀ m ∈ ms, Scan.IsMember m) (hcount : HasMembers ms)
    (offset : Nat) (rest : List UInt8) :
    ∃ items, list.split ⟨offset, list.text ms ++ rest⟩ = .ok items ∧
      List.Forall₂ (Answers HoldsValue) (memberWindows (offset + 1) ms) items := by
  refine ⟨_, split_text list rfl offset ms rest, members_answer hcount.ne_nil ?_ ?_
    (fun m hm hblank ↦ absurd hblank (hcount.not_isBlank hm)) _ _⟩
  · intro m hm afterComma offset rest
    exact step_list_member afterComma (hms m (List.dropLast_subset ms hm)) rfl delimiter_comma
      fun _ h ↦ absurd h (by decide)
  · intro m hm afterComma offset rest hblank
    exact step_list_member afterComma (hms m (List.mem_of_getLast? hm)) rfl
      (delimiter_closer (by decide)) fun h _ ↦ hblank h

theorem split_dict_answers (hms : ∀ m ∈ ms, Scan.IsMember m) (hcount : HasMembers ms)
    (hbracket : ∀ m ∈ ms, ¬ StartsBracket m) (hblank : ∀ m ∈ ms.dropLast, ¬ Parsed.IsBlank m)
    (offset : Nat) (rest : List UInt8) :
    ∃ items, dict.split ⟨offset, dict.text ms ++ rest⟩ = .ok items ∧
      List.Forall₂ (Answers HoldsEntry) (memberWindows (offset + 1) ms) items := by
  refine ⟨_, split_text dict rfl offset ms rest, members_answer hcount.ne_nil ?_ ?_
    (fun m hm hblank ↦ absurd hblank (hcount.not_isBlank hm)) _ _⟩
  · intro m hm afterComma offset rest
    have hmem := List.dropLast_subset ms hm
    exact step_dict_member afterComma (hms m hmem) (hbracket m hmem) rfl delimiter_comma
      fun h ↦ absurd h (hblank m hm)
  · intro m hm afterComma offset rest hblank
    have hmem := List.mem_of_getLast? hm
    exact step_dict_member afterComma (hms m hmem) (hbracket m hmem) rfl
      (delimiter_closer (by decide)) fun h ↦ ⟨rfl, hblank h⟩

/-- A split answers once for each member of a container, and each answer depends on its member
alone: in a list for all members, and in a dictionary if no member starts with a bracket and none
but the last is blank. -/
theorem split_isolates (ms : List (List UInt8)) (hms : ∀ m ∈ ms, Scan.IsMember m)
    (hcount : HasMembers ms) (offset : Nat) (rest : List UInt8) :
    (∃ items, list.split ⟨offset, list.text ms ++ rest⟩ = .ok items ∧
      List.Forall₂ (Answers HoldsValue) (memberWindows (offset + 1) ms) items) ∧
    ((∀ m ∈ ms, ¬ StartsBracket m) → (∀ m ∈ ms.dropLast, ¬ Parsed.IsBlank m) →
      ∃ items, dict.split ⟨offset, dict.text ms ++ rest⟩ = .ok items ∧
        List.Forall₂ (Answers HoldsEntry) (memberWindows (offset + 1) ms) items) :=
  ⟨split_list_answers hms hcount offset rest,
    fun hbracket hblank ↦ split_dict_answers hms hcount hbracket hblank offset rest⟩

/-- The members `"a":1` and `2`, of which one is an entry. -/
theorem split_isolates_entry_and_number :
    let ms : List (List UInt8) := [[0x22, 0x61, 0x22, 0x3A, 0x31], [0x32]]
    ∃ items, dict.split ⟨0, dict.text ms⟩ = .ok items ∧
      List.Forall₂ (Answers HoldsEntry) (memberWindows 1 ms) items := by
  intro ms
  have hdigit : ∀ b ∈ [(0x31 : UInt8), 0x32, 0x3A], b ∉ Byte.structural ∧ Byte.IsInner b := by
    simp [Byte.structural, Byte.IsInner, Byte.quote, Byte.openList, Byte.closeList, Byte.openDict,
      Byte.closeDict, Byte.comma]
  have hquoted : Scan.IsQuoted [0x61, 0x22] := .character (by decide) (by decide) .close
  have hms : ∀ m ∈ ms, Scan.IsMember m := by
    intro m hm
    obtain rfl | rfl := List.mem_pair.mp hm
    · have hvalue : Scan.IsMember [0x3A, 0x31] :=
        .byte (hdigit _ (by simp)).1 (hdigit _ (by simp)).2
          (.byte (hdigit _ (by simp)).1 (hdigit _ (by simp)).2 .nil)
      exact .string hquoted hvalue
    · exact .byte (hdigit _ (by simp)).1 (hdigit _ (by simp)).2 .nil
  have hbracket : ∀ m ∈ ms, ¬ StartsBracket m := by
    intro m hm
    obtain rfl | rfl := List.mem_pair.mp hm
    · exact not_startsBracket Parsed.isBlank_nil rfl (by decide)
    · exact not_startsBracket Parsed.isBlank_nil rfl (by decide)
  have hblank : ∀ m ∈ ms.dropLast, ¬ Parsed.IsBlank m := by
    intro m hm h
    obtain rfl := List.mem_singleton.mp hm
    exact absurd (h 0x22 List.mem_cons_self) (by decide)
  have hsplit := (split_isolates ms hms (.inl (Nat.le_refl 2)) 0 []).2 hbracket hblank
  rwa [List.append_nil] at hsplit

/-- A blank member of a dictionary is refused together with the member behind it, whatever that is:
the comma between them is taken for the start of a key. -/
theorem step_dict_blank {blanks : List UInt8} (hblanks : Parsed.IsBlank blanks)
    (hm : Scan.IsMember m) (hd : Byte.isDelimiter d = true)
    (hnext : dict.delimiter ⟨offset + blanks.length + 1 + m.length, d :: rest⟩ = .ok next)
    (afterComma : Bool) :
    dict.step afterComma ⟨offset, blanks ++ Byte.comma :: (m ++ d :: rest)⟩ =
      .proceed (.error (.unexpectedToken (offset + blanks.length) "expected key")) next := by
  have hfront : Window.trimStart ⟨offset, blanks ++ Byte.comma :: (m ++ d :: rest)⟩ =
      ⟨offset + blanks.length, Byte.comma :: (m ++ d :: rest)⟩ := by
    rw [Window.trimStart, Window.trimFrom_append hblanks, Window.trimFrom_cons rfl]
  have hcomma : Byte.comma ≠ dict.closer := by decide
  have hquote : Byte.comma ≠ Byte.quote := by decide
  have hkey : dict.key ⟨offset + blanks.length, Byte.comma :: (m ++ d :: rest)⟩ =
      .refused (.unexpectedToken (offset + blanks.length) "expected key")
        ⟨offset + blanks.length + 1, m ++ d :: rest⟩ := by
    simp only [dict, readKey, if_pos hquote]
  unfold step
  simp only [hfront, if_neg hcomma, hkey]
  exact resume_member hm hd hnext _

/-- Of a blank member and another, only one error is left, whatever the other is. -/
theorem split_dict_blank {blanks : List UInt8} (hblanks : Parsed.IsBlank blanks)
    (hm : Scan.IsMember m) (offset : Nat) (rest : List UInt8) :
    dict.split ⟨offset, dict.text [blanks, m] ++ rest⟩ =
      .ok [.error (.unexpectedToken (offset + 1 + blanks.length) "expected key")] := by
  rw [split_text dict rfl, List.intercalate_cons_cons, List.intercalate_singleton]
  simp only [List.append_assoc, List.singleton_append]
  exact congrArg Except.ok (members_eq_of_last
    (step_dict_blank hblanks hm rfl (delimiter_closer (by decide)) false))

end Container

end TypedJson
