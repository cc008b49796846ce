import TypedJson.Proofs.Split.Isolation

/-!
# How the items of a split lie in a window

A split answers something for whatever bytes it is given. `Container.Laid` says where its items come
from: each item stands for a stretch of the window, a comma is behind every stretch but the last,
and an item that is no error tells where in its stretch the value is. One step of a split lays one
item (`Container.lies_step`), so a whole split lays them all (`Container.laid_members`). Nothing is
assumed of the bytes: brackets may be missing or of the wrong kind, and strings may not end.
-/

namespace TypedJson

namespace Window

/-- Some bytes of a window stand in front of the rest of it. -/
structure Behind (w : Window) (lead : List UInt8) (rest : Window) : Prop where
  bytes : w.bytes = lead ++ rest.bytes
  offset : rest.offset = w.offset + lead.length

variable {u v w : Window} {lead lead' : List UInt8}

theorem Behind.refl (w : Window) : w.Behind [] w := ⟨rfl, rfl⟩

theorem Behind.trans (h : w.Behind lead v) (h' : v.Behind lead' u) :
    w.Behind (lead ++ lead') u := by
  refine ⟨?_, ?_⟩
  · rw [h.bytes, h'.bytes, List.append_assoc]
  · rw [h'.offset, h.offset, List.length_append, Nat.add_assoc]

/-- In front of a trimmed window stand blanks, and it does not start with another. -/
theorem exists_behind_trimStart (w : Window) :
    ∃ blanks, Parsed.IsBlank blanks ∧ w.Behind blanks w.trimStart ∧
      ∀ b ∈ w.trimStart.bytes.head?, Text.isJsonBlank b = false := by
  obtain ⟨offset, bytes⟩ := w
  obtain ⟨blanks, rest, rfl, hblanks, hrest⟩ := exists_blanks_append bytes
  have htrim : trimStart ⟨offset, blanks ++ rest⟩ = ⟨offset + blanks.length, rest⟩ := by
    rw [trimStart, trimFrom_append hblanks]
    obtain rfl | ⟨b, tail, rfl, hb⟩ := hrest
    · rfl
    · exact trimFrom_cons hb _
  refine ⟨blanks, hblanks, ?_, ?_⟩
  · rw [htrim]
    exact ⟨rfl, rfl⟩
  · rw [htrim]
    obtain rfl | ⟨b, tail, rfl, hb⟩ := hrest
    · rintro _ ⟨⟩
    · rintro _ ⟨⟩
      exact hb

/-- In front of a trimmed window stand blanks, and behind it. -/
theorem exists_trim (w : Window) :
    ∃ before after, Parsed.IsBlank before ∧ Parsed.IsBlank after ∧
      w.bytes = before ++ (w.trim.bytes ++ after) ∧
      w.trim.offset = w.offset + before.length := by
  obtain ⟨before, hbefore, hbehind, -⟩ := w.exists_behind_trimStart
  obtain ⟨after, hbytes, hafter⟩ := exists_trimEnd w.trimStart.bytes
  refine ⟨before, after, hbefore, hafter, ?_, hbehind.offset⟩
  rw [hbehind.bytes]
  exact congrArg (before ++ ·) hbytes

/-- A window that neither starts nor ends with a blank, and is not empty. -/
structure IsTrimmed (w : Window) : Prop where
  ne_nil : w.bytes ≠ []
  head : ∀ b ∈ w.bytes.head?, Text.isJsonBlank b = false
  last : ∀ b ∈ w.bytes.getLast?, Text.isJsonBlank b = false

theorem getLast?_trimEnd (bytes : List UInt8) :
    ∀ b ∈ (trimEnd bytes).getLast?, Text.isJsonBlank b = false := by
  intro b hb
  have hhead := List.head?_dropWhile_not Text.isJsonBlank bytes.reverse
  rw [trimEnd, List.getLast?_reverse] at hb
  rwa [Option.mem_def.mp hb] at hhead

theorem isTrimmed_trimEnd {offset : Nat} {b : UInt8} {bytes : List UInt8}
    (hb : Text.isJsonBlank b = false) : IsTrimmed ⟨offset, trimEnd (b :: bytes)⟩ := by
  obtain ⟨blanks, hbytes, hblanks⟩ := exists_trimEnd (b :: bytes)
  -- The first byte is no blank, so it is not among those that were taken away.
  cases htrim : trimEnd (b :: bytes) with
  | nil =>
    rw [htrim, List.nil_append] at hbytes
    exact absurd (hblanks b (hbytes ▸ List.mem_cons_self)) (Bool.eq_false_iff.mp hb)
  | cons c rest =>
    rw [htrim, List.cons_append] at hbytes
    obtain ⟨rfl, -⟩ := List.cons.inj hbytes
    refine ⟨List.cons_ne_nil _ _, ?_, ?_⟩
    · rintro _ ⟨⟩
      exact hb
    · rw [← htrim]
      exact getLast?_trimEnd _

end Window

namespace Scan

/-- A scan runs over bytes without stopping among them. -/
inductive Runs : State → List UInt8 → State → Prop
  | nil {s : State} : Runs s [] s
  | cons {s t : State} {b : UInt8} {bytes : List UInt8} (hstops : s.stops b = false)
      (h : Runs (s.step b) bytes t) : Runs s (b :: bytes) t

variable {s t : State} {read bytes raw rest blanks : List UInt8}

theorem runs_blanks_append (hblanks : Parsed.IsBlank blanks) (h : Runs {} bytes t) :
    Runs {} (blanks ++ bytes) t := by
  induction blanks with
  | nil => exact h
  | cons b blanks ih =>
    have hb := hblanks b List.mem_cons_self
    refine .cons ?_ ?_
    · rw [State.stops, not_isDelimiter_of_blank hb, Bool.and_false]
    · rw [step_of_blank rfl hb]
      exact ih fun c hc ↦ hblanks c (List.mem_cons_of_mem b hc)

/-- A scan that finds the end of a member has run up to a byte that may stand there. -/
theorem exists_of_member (h : member s read bytes = .ok (raw, rest)) :
    ∃ text t d after, raw = read.reverse ++ text ∧ bytes = text ++ rest ∧ rest = d :: after ∧
      Runs s text t ∧ t.stops d = true := by
  induction bytes generalizing s read with
  | nil => exact nomatch h
  | cons b bytes ih =>
    rw [member] at h
    split at h
    · next hstops =>
      obtain ⟨rfl, rfl⟩ := Prod.mk.inj (Except.ok.inj h)
      exact ⟨[], s, b, bytes, (List.append_nil _).symm, rfl, rfl, .nil, hstops⟩
    · next hstops =>
      obtain ⟨text, t, d, after, rfl, rfl, hrest, hruns, hd⟩ := ih h
      refine ⟨b :: text, t, d, after, ?_, rfl, hrest, .cons (Bool.eq_false_iff.mpr hstops) hruns,
        hd⟩
      rw [List.reverse_cons, List.append_assoc]
      rfl

/-- The end of a member is outside brackets and strings. -/
theorem eq_of_stops {d : UInt8} (h : t.stops d = true) : t = {} ∧ Byte.isDelimiter d = true := by
  obtain ⟨hout, hd⟩ := Bool.and_eq_true_iff.mp h
  obtain ⟨closers, mode⟩ := t
  obtain ⟨rfl, rfl⟩ := isOutside_eq_true.mp hout
  exact ⟨rfl, hd⟩

theorem exists_of_string {body : List UInt8} (h : string read bytes = .ok (body, rest)) :
    ∃ text, body = read.reverse ++ text ∧ bytes = text ++ rest ∧ IsQuoted text := by
  fun_induction string read bytes with
  | case1 => cases h
  | case2 read after =>
    obtain ⟨rfl, rfl⟩ := Prod.mk.inj (Except.ok.inj h)
    exact ⟨[Byte.quote], List.reverse_cons, rfl, .close⟩
  | case3 => cases h
  | case4 read escaped after _ ih =>
    obtain ⟨text, rfl, rfl, htext⟩ := ih h
    exact ⟨Byte.backslash :: escaped :: text, by simp, rfl, .escape htext⟩
  | case5 read b after hquote hescape ih =>
    obtain ⟨text, rfl, rfl, htext⟩ := ih h
    exact ⟨b :: text, by simp, rfl, .character hquote hescape htext⟩

end Scan

namespace Container

open Resource (endOfInput)

variable {κ : Type} {c : Container κ} {holds : Window → κ → Window → Prop}

/-! ## Keys -/

/-- A window of a list holds a value behind blanks. -/
def HoldsItem (w : Window) (_ : Unit) (value : Window) : Prop :=
  ∃ blanks, Parsed.IsBlank blanks ∧ w.Behind blanks value

/-- Reading a key answers the window behind it, and whatever follows is held under the key. What is
held is the end of the window that holds it. -/
structure ReadsKeys (c : Container κ) (holds : Window → κ → Window → Prop) : Prop where
  behind : ∀ {w key held}, holds w key held → ∃ lead, w.Behind lead held
  read : ∀ {w rest key}, c.key w = .read key rest → ∃ lead, w.Behind lead rest ∧
    ∀ {front : Window} {blanks : List UInt8}, Parsed.IsBlank blanks → front.Behind blanks w →
      ∀ value, holds ⟨front.offset, blanks ++ (lead ++ value)⟩ key ⟨rest.offset, value⟩
  refused : ∀ {w rest failure}, c.key w = .refused failure rest → ∃ lead, w.Behind lead rest

theorem readsKeys_list : list.ReadsKeys HoldsItem where
  behind h := h.imp fun _ hheld ↦ hheld.2
  read := by
    rintro w _ _ ⟨⟩
    exact ⟨[], .refl w, fun hblanks hfront value ↦ ⟨_, hblanks, rfl, hfront.offset⟩⟩
  refused h := nomatch h

theorem exists_of_readColon {key key' : String} {w rest : Window}
    (h : readColon key w = .read key' rest) :
    key' = key ∧ ∃ between, Parsed.IsBlank between ∧ w.Behind (between ++ [Byte.colon]) rest := by
  obtain ⟨between, hbetween, hbehind, -⟩ := w.exists_behind_trimStart
  unfold readColon at h
  cases hbytes : w.trimStart.bytes with
  | nil => simp [hbytes] at h
  | cons b after =>
    simp only [hbytes] at h
    split at h
    · next hcolon =>
      obtain ⟨rfl, rfl⟩ := KeyStep.read.inj h
      have hstep : w.trimStart.Behind [Byte.colon] ⟨w.trimStart.offset + 1, after⟩ :=
        ⟨by rw [hbytes, hcolon]; rfl, rfl⟩
      exact ⟨rfl, between, hbetween, hbehind.trans hstep⟩
    · exact nomatch h

theorem exists_of_readColon_refused {key : String} {w rest : Window} {failure : Failure}
    (h : readColon key w = .refused failure rest) : ∃ lead, w.Behind lead rest := by
  obtain ⟨between, -, hbehind, -⟩ := w.exists_behind_trimStart
  unfold readColon at h
  cases hbytes : w.trimStart.bytes with
  | nil => simp [hbytes] at h
  | cons b after =>
    simp only [hbytes] at h
    split at h
    · exact nomatch h
    · obtain ⟨-, rfl⟩ := KeyStep.refused.inj h
      exact ⟨between, hbehind⟩

/-- Either a byte that starts no key is taken, or a string that may be a key. -/
theorem readKey_cases (w : Window) :
    (∃ failure, readKey w = .ended failure) ∨
    (∃ failure b after, w.Behind [b] after ∧ readKey w = .refused failure after) ∨
    ∃ body after, w.Behind (Byte.quote :: body) after ∧ Scan.IsQuoted body ∧
      readKey w = match Json.readString? (Byte.quote :: body) with
        | some key => readColon key after
        | none => .refused (.invalidResource w.offset "invalid key") after := by
  obtain ⟨offset, bytes⟩ := w
  cases bytes with
  | nil => exact .inl ⟨_, rfl⟩
  | cons b rest =>
    by_cases hquote : b = Byte.quote
    · subst hquote
      cases hstring : Scan.string [] rest with
      | error cut =>
        refine .inl ⟨endOfInput (Window.stop ⟨offset, Byte.quote :: rest⟩ - cut), ?_⟩
        simp only [readKey, ne_eq, not_true_eq_false, if_false, hstring]
      | ok found =>
        obtain ⟨body, after⟩ := found
        obtain ⟨quoted, hbody, rfl, hquoted⟩ := Scan.exists_of_string hstring
        obtain rfl : body = quoted := hbody
        refine .inr (.inr ⟨body, ⟨offset + 1 + body.length, after⟩, ⟨rfl, ?_⟩, hquoted,
          readKey_quoted hquoted offset after⟩)
        rw [List.length_cons, Nat.add_assoc, Nat.add_comm 1]
    · exact .inr (.inl ⟨_, b, ⟨offset + 1, rest⟩, ⟨rfl, rfl⟩, if_pos hquote⟩)

theorem HoldsEntry.exists_behind {w held : Window} {key : String} (h : HoldsEntry w key held) :
    ∃ lead, w.Behind lead held := by
  obtain @⟨offset, before, body, between, value, key, -, -, -⟩ := h
  refine ⟨before ++ Byte.quote :: (body ++ (between ++ [Byte.colon])), ?_, ?_⟩
  · simp
  · simp only [List.length_append, List.length_cons, List.length_nil]
    omega

theorem readsKeys_dict : dict.ReadsKeys HoldsEntry where
  behind := HoldsEntry.exists_behind
  read := by
    intro w rest key h
    change readKey w = .read key rest at h
    obtain ⟨failure, hended⟩ | ⟨failure, b, after, -, hrefused⟩ |
      ⟨body, after, hbehind, hbody, hread⟩ := readKey_cases w
    · exact nomatch hended.symm.trans h
    · exact nomatch hrefused.symm.trans h
    · rw [hread] at h
      split at h
      · next key' hkey =>
        obtain ⟨rfl, between, hbetween, hcolon⟩ := exists_of_readColon h
        refine ⟨_, hbehind.trans hcolon, fun {front blanks} hblanks hfront value ↦ ?_⟩
        have hscalar := isScalar_of_readString? hbody hkey
        have hoffset : rest.offset =
            front.offset + blanks.length + body.length + between.length + 2 := by
          rw [hcolon.offset, hbehind.offset, hfront.offset]
          simp only [List.length_cons, List.length_append, List.length_nil]
          omega
        have hholds : HoldsEntry ⟨front.offset, _⟩ key ⟨_, value⟩ :=
          .mk hblanks hscalar hbetween
        rw [hoffset]
        simpa using hholds
      · exact nomatch h
  refused := by
    intro w rest failure h
    change readKey w = .refused failure rest at h
    obtain ⟨failure, hended⟩ | ⟨failure, b, after, hbehind, hrefused⟩ |
      ⟨body, after, hbehind, -, hread⟩ := readKey_cases w
    · exact nomatch hended.symm.trans h
    · obtain ⟨-, rfl⟩ := KeyStep.refused.inj (hrefused.symm.trans h)
      exact ⟨[b], hbehind⟩
    · rw [hread] at h
      split at h
      · obtain ⟨lead, hlead⟩ := exists_of_readColon_refused h
        exact ⟨_, hbehind.trans hlead⟩
      · obtain ⟨-, rfl⟩ := KeyStep.refused.inj h
        exact ⟨_, hbehind⟩

/-! ## Steps -/

/-- A member is found in a stretch of bytes: some part of it is held under the key of the member and
is looked through to its end, and the value of the member is that part without the blanks around. -/
structure Found (holds : Window → κ → Window → Prop) (w : Window) (m : Member κ) : Prop where
  exists_held : ∃ held, holds w m.key held ∧ Scan.Runs {} held.bytes {} ∧ m.value = held.trim
  isTrimmed : m.value.IsTrimmed

/-- An item tells where its member is, if it has one. -/
def Tells (holds : Window → κ → Window → Prop) (w : Window) (item : Except Failure (Member κ)) :
    Prop := ∀ m, item = .ok m → Found holds w m

/-- What a step of a split has looked at. -/
inductive Lies (c : Container κ) (holds : Window → κ → Window → Prop) (afterComma : Bool)
    (w : Window) : SplitStep κ → Prop
  | more {front : List UInt8} {item : Except Failure (Member κ)} {rest : Window}
      (hrest : w.Behind (front ++ [Byte.comma]) rest) (hitem : Tells holds ⟨w.offset, front⟩ item) :
      Lies c holds afterComma w (.more item rest)
  | last {front after : List UInt8} {m : Member κ} (hbytes : w.bytes = front ++ c.closer :: after)
      (hm : Found holds ⟨w.offset, front⟩ m) : Lies c holds afterComma w (.last [.ok m])
  /-- No more than one failure for each byte, and one for the end of the bytes. -/
  | broken {failures : List Failure} (hne : failures ≠ [])
      (hlength : failures.length ≤ w.bytes.length + 1) :
      Lies c holds afterComma w (.last (failures.map .error))
  | closed {blanks after : List UInt8} (hfirst : afterComma = false)
      (hblanks : Parsed.IsBlank blanks) (hbytes : w.bytes = blanks ++ c.closer :: after) :
      Lies c holds afterComma w (.last [])

variable {afterComma : Bool} {v w : Window} {lead : List UInt8} {key : κ} {failure : Failure}

theorem tells_error (failure : Failure) : Tells holds w (.error failure) := fun _ h ↦ nomatch h

theorem lies_broken (failure : Failure) : Lies c holds afterComma w (.last [.error failure]) :=
  have hne : [failure] ≠ [] := List.cons_ne_nil _ _
  .broken hne (Nat.le_add_left _ _)

theorem behind_of_delimiter (h : c.delimiter w = .ok (some v)) : w.Behind [Byte.comma] v := by
  unfold delimiter at h
  cases hbytes : w.bytes with
  | nil => simp [hbytes] at h
  | cons b after =>
    simp only [hbytes] at h
    split at h
    · next hcomma =>
      obtain rfl := Option.some.inj (Except.ok.inj h)
      exact ⟨by rw [hbytes, hcomma]; rfl, rfl⟩
    · split at h
      · exact nomatch Except.ok.inj h
      · exact nomatch h

theorem exists_of_delimiter (h : c.delimiter w = .ok none) :
    ∃ after, w.bytes = c.closer :: after := by
  unfold delimiter at h
  cases hbytes : w.bytes with
  | nil => simp [hbytes] at h
  | cons b after =>
    simp only [hbytes] at h
    split at h
    · exact nomatch Except.ok.inj h
    · split at h
      · next hcloser => exact ⟨after, by rw [hcloser]⟩
      · exact nomatch h

/-- Going on behind a failure takes at least the comma that is looked for. -/
theorem lies_resume (h : w.Behind lead v) (hne : w.bytes ≠ []) (failure : Failure) :
    Lies c holds afterComma w (c.resume failure v) := by
  have htwo : ∀ second, Lies c holds afterComma w (.last [.error failure, .error second]) := by
    intro second
    have hfailures : [failure, second] ≠ [] := List.cons_ne_nil _ _
    exact .broken hfailures (Nat.succ_le_succ (List.length_pos_iff.mpr hne))
  unfold resume
  split
  · exact htwo _
  · next raw rest hmember =>
    obtain ⟨text, t, d, after, hraw, hbytes, -, -, -⟩ := Scan.exists_of_member hmember
    obtain rfl : raw = text := hraw
    split
    · exact htwo _
    · exact lies_broken failure
    · next next hnext =>
      have hskipped : v.Behind raw ⟨v.offset + raw.length, rest⟩ := ⟨hbytes, rfl⟩
      have hbehind := (h.trans hskipped).trans (behind_of_delimiter hnext)
      exact .more hbehind (tells_error failure)

/-- The value of a member is what stands behind its key, up to a comma or the closing bracket. -/
theorem lies_value {blanks : List UInt8} {u : Window} (hlead : w.Behind lead u)
    (hblanks : Parsed.IsBlank blanks) (hbehind : u.Behind blanks v) (hne : w.bytes ≠ [])
    (hholds : ∀ value, holds ⟨w.offset, lead ++ value⟩ key ⟨u.offset, value⟩)
    {b : UInt8} {tail : List UInt8} (hv : v.bytes = b :: tail) (hb : Text.isJsonBlank b = false)
    (hcomma : b ≠ Byte.comma) (hcloser : b ≠ c.closer) :
    Lies c holds afterComma w (c.value key v) := by
  unfold value
  split
  · exact lies_broken _
  · next raw rest hmember =>
    obtain ⟨text, t, d, after, hraw, hbytes, rfl, hruns, hstops⟩ := Scan.exists_of_member hmember
    obtain rfl : raw = text := hraw
    obtain ⟨rfl, -⟩ := Scan.eq_of_stops hstops
    have hskipped : v.Behind raw ⟨v.offset + raw.length, d :: after⟩ := ⟨hbytes, rfl⟩
    have hall := (hlead.trans hbehind).trans hskipped
    simp only
    split
    · exact lies_resume hall hne _
    · -- The value is not empty: it would start with the comma or the closing bracket behind it.
      have hfound : d = Byte.comma ∨ d = c.closer →
          Found holds ⟨w.offset, lead ++ (blanks ++ raw)⟩
            ⟨key, v.offset, Window.trimEnd raw⟩ := by
        intro hd
        obtain ⟨raw', rfl⟩ : ∃ raw', raw = b :: raw' := by
          cases raw with
          | nil =>
            obtain ⟨rfl, -⟩ := List.cons.inj (hv.symm.trans hbytes)
            exact (hd.elim hcomma hcloser).elim
          | cons b' raw' =>
            obtain ⟨rfl, -⟩ := List.cons.inj (hv.symm.trans hbytes)
            exact ⟨raw', rfl⟩
        refine ⟨⟨⟨u.offset, blanks ++ (b :: raw')⟩, hholds _,
          Scan.runs_blanks_append hblanks hruns, ?_⟩, Window.isTrimmed_trimEnd hb⟩
        rw [Window.trim_append hblanks, Window.trim_cons hb, hbehind.offset]
      rw [List.append_assoc] at hall
      split
      · exact lies_broken _
      · next hnext =>
        obtain ⟨after', hclose⟩ := exists_of_delimiter hnext
        have hd := (List.cons.inj hclose).1
        have hw : w.bytes = (lead ++ (blanks ++ raw)) ++ c.closer :: after' := by
          rw [hall.bytes, hclose]
        exact .last hw (hfound (.inr hd))
      · next next hnext =>
        have hbehind' := behind_of_delimiter hnext
        have hd := (List.cons.inj hbehind'.bytes).1
        exact .more (hall.trans hbehind') fun m hm ↦ Except.ok.inj hm ▸ hfound (.inl hd)

/-- **One step lays one item.** -/
theorem lies_step (hkeys : c.ReadsKeys holds) (afterComma : Bool) (w : Window) :
    Lies c holds afterComma w (c.step afterComma w) := by
  obtain ⟨blanks, hblanks, hfront, -⟩ := w.exists_behind_trimStart
  unfold step
  simp only
  split
  · exact lies_broken _
  · next b after hbytes =>
    have hne : w.bytes ≠ [] := by
      rw [hfront.bytes, hbytes]
      exact List.append_ne_nil_of_right_ne_nil _ (List.cons_ne_nil _ _)
    split
    · next hcloser =>
      subst hcloser
      cases afterComma with
      | true => exact lies_broken _
      | false =>
        have hw : w.bytes = blanks ++ c.closer :: after := by rw [hfront.bytes, hbytes]
        exact .closed rfl hblanks hw
    · split
      · exact lies_broken _
      · next failure rest hkey =>
        obtain ⟨lead, hlead⟩ := hkeys.refused hkey
        exact lies_resume (hfront.trans hlead) hne failure
      · next key rest hkey =>
        obtain ⟨lead, hlead, hholds⟩ := hkeys.read hkey
        obtain ⟨blanks', hblanks', hstart, hhead⟩ := rest.exists_behind_trimStart
        split
        · exact lies_broken _
        · next b' after' hbytes' =>
          split
          · exact lies_resume ((hfront.trans hlead).trans hstart) hne _
          · next hdelimiter =>
            obtain ⟨hcomma, hcloser⟩ : b' ≠ Byte.comma ∧ b' ≠ c.closer := by simpa using hdelimiter
            refine lies_value (hfront.trans hlead) hblanks' hstart hne (fun value ↦ ?_) hbytes'
              (hhead b' (by rw [hbytes']; rfl)) hcomma hcloser
            rw [List.append_assoc]
            exact hholds hblanks hfront value

/-! ## Runs -/

/-- Where the items of a split come from: each of them stands for some bytes, a comma is behind the
bytes of each but the last, and an item that is no error tells where its value is. -/
inductive Laid (c : Container κ) (holds : Window → κ → Window → Prop) :
    Bool → Window → List (Except Failure (Member κ)) → Prop
  | more {afterComma : Bool} {w rest : Window} {front : List UInt8}
      {item : Except Failure (Member κ)} {items : List (Except Failure (Member κ))}
      (hrest : w.Behind (front ++ [Byte.comma]) rest) (hitem : Tells holds ⟨w.offset, front⟩ item)
      (hitems : Laid c holds true rest items) : Laid c holds afterComma w (item :: items)
  | last {afterComma : Bool} {w : Window} {front after : List UInt8} {m : Member κ}
      (hbytes : w.bytes = front ++ c.closer :: after) (hm : Found holds ⟨w.offset, front⟩ m) :
      Laid c holds afterComma w [.ok m]
  | broken {afterComma : Bool} {w : Window} {failures : List Failure} (hne : failures ≠ [])
      (hlength : failures.length ≤ w.bytes.length + 1) :
      Laid c holds afterComma w (failures.map .error)
  | closed {w : Window} {blanks after : List UInt8} (hblanks : Parsed.IsBlank blanks)
      (hbytes : w.bytes = blanks ++ c.closer :: after) : Laid c holds false w []

/-- **A split lays its items.** -/
theorem laid_members (hkeys : c.ReadsKeys holds) (afterComma : Bool) (w : Window) :
    Laid c holds afterComma w (c.members afterComma w) := by
  fun_induction members c afterComma w with
  | case1 afterComma w items hstep =>
    have h := lies_step hkeys afterComma w
    rw [hstep] at h
    cases h with
    | last hbytes hm => exact .last hbytes hm
    | broken hne hlength => exact .broken hne hlength
    | closed hfirst hblanks hbytes =>
      subst hfirst
      exact .closed hblanks hbytes
  | case2 afterComma w item rest hstep _ ih =>
    have h := lies_step hkeys afterComma w
    rw [hstep] at h
    cases h with
    | more hrest hitem => exact .more hrest hitem ih

end Container

end TypedJson
