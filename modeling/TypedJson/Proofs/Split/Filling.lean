import TypedJson.Proofs.Json.Tidy

/-!
# Members that fill a container

A split does not look behind the closing bracket, and it knows of its members only where they begin
and end. If the bytes are tidy, no more is needed: the values of members are then tidy in turn, and
if all of them are texts of values, then so is the container with whatever stands around it
(`Container.isElement_of_split`).
-/

namespace TypedJson

open Grammar (IsElement IsEntry IsValue Separates)
open Scan (isTidy Watch)

theorem Grammar.IsElement.of_trim {w : Window} (h : IsElement w.trim.bytes) :
    IsElement w.bytes := by
  obtain ⟨before, after, hbefore, hafter, hbytes, -⟩ := w.exists_trim
  rw [hbytes]
  generalize w.trim.bytes = trimmed at h
  obtain @⟨before', text, after', hbefore', htext, hafter'⟩ := h
  have h : IsElement ((before ++ before') ++ (text ++ (after' ++ after))) :=
    .mk (hbefore.append hbefore') htext (hafter'.append hafter)
  simpa only [List.append_assoc] using h

theorem Grammar.IsElement.behind {blanks text : List UInt8} (hblanks : Parsed.IsBlank blanks)
    (h : IsElement text) : IsElement (blanks ++ text) := by
  obtain @⟨before, text, after, hbefore, htext, hafter⟩ := h
  rw [← List.append_assoc]
  exact .mk (hblanks.append hbefore) htext hafter

namespace Container

variable {κ : Type} {c : Container κ} {holds : Window → κ → Window → Prop}
  {p : List UInt8 → Prop} {w : Window} {m : Member κ} {items : List (Except Failure (Member κ))}
  {afterComma : Bool} {u : Watch}

/-- Members that are texts of a kind make the text of a value. A member is of the kind if what is
held in it is the text of a value; a watch goes over what stands in front of that. -/
structure Makes (c : Container κ) (holds : Window → κ → Window → Prop) (p : List UInt8 → Prop) :
    Prop where
  enclose : Byte.Enclose c.opener c.closer
  keys : c.ReadsKeys holds
  member : ∀ {w key held}, holds w key held → ∃ lead, w.bytes = lead ++ held.bytes ∧
    (∀ closers rest, (Watch.between closers false).run (lead ++ rest) =
      (Watch.between closers false).run rest) ∧
    (IsElement held.bytes → p w.bytes)
  empty : ∀ {blanks}, Parsed.IsBlank blanks →
    IsValue (Grammar.enclosed c.opener c.closer [blanks])
  value : ∀ {texts}, texts ≠ [] → (∀ text ∈ texts, p text) →
    IsValue (Grammar.enclosed c.opener c.closer texts)

/-- The item is a member whose value is the text of a value if it is tidy. -/
def IsReadable (item : Except Failure (Member κ)) : Prop :=
  ∃ m, item = .ok m ∧ (isTidy m.value.bytes = true → IsElement m.value.bytes)

/-- What a member is found in is of the kind. -/
theorem Found.isText {offset : Nat} {front rest closers : List UInt8} {d : UInt8}
    (hmakes : c.Makes holds p) (h : Found holds ⟨offset, front⟩ m)
    (hread : isTidy m.value.bytes = true → IsElement m.value.bytes)
    (hd : Byte.isDelimiter d = true)
    (hrun : (Watch.between closers false).run (front ++ d :: rest) = some u) :
    p front ∧ ∃ ended, (Watch.between closers ended).run (d :: rest) = some u := by
  obtain ⟨held, hholds, hruns, hvalue⟩ := h.exists_held
  obtain ⟨lead, hlead, hcross, htext⟩ := hmakes.member hholds
  obtain rfl : front = lead ++ held.bytes := hlead
  rw [List.append_assoc, hcross] at hrun
  obtain ⟨htidy, hrest⟩ := Scan.isTidy_of_runs hruns hd hrun
  rw [hvalue] at hread
  exact ⟨htext (.of_trim (hread (Scan.isTidy_trim htidy))), hrest⟩

/-- Readable members with commas between them fill what stands up to the closing bracket, and behind
that stand blanks. -/
theorem Laid.exists_inner (hmakes : c.Makes holds p) (h : c.Laid holds afterComma w items)
    (hitems : ∀ item ∈ items, IsReadable item)
    (hrun : (Watch.between [c.closer] false).run w.bytes = some u) :
    ∃ inner after, w.bytes = inner ++ c.closer :: after ∧ Parsed.IsBlank after ∧
      (afterComma = false ∧ Parsed.IsBlank inner ∨ Separates p inner) := by
  have hclose : ∀ {ended after}, (Watch.between [c.closer] ended).run (c.closer :: after) = some u →
      Parsed.IsBlank after := by
    intro ended after hrun
    rw [Watch.run, Watch.step_closer hmakes.enclose, Option.bind_some] at hrun
    exact Watch.isBlank_of_run hrun
  have hcloser : Byte.isDelimiter c.closer = true := by
    obtain ⟨-, hcloser⟩ | ⟨-, hcloser⟩ := hmakes.enclose
    · rw [hcloser]
      rfl
    · rw [hcloser]
      rfl
  induction h with
  | @more afterComma w rest front item items hrest hitem _ ih =>
    obtain ⟨⟨m, rfl, hread⟩, hothers⟩ := List.forall_mem_cons.mp hitems
    have hbytes : w.bytes = front ++ Byte.comma :: rest.bytes := by simp [hrest.bytes]
    rw [hbytes] at hrun
    obtain ⟨htext, ended, hrun⟩ := (hitem m rfl).isText hmakes hread rfl hrun
    rw [Watch.run, Watch.step_comma, Option.bind_some] at hrun
    obtain ⟨inner, after, hinner, hafter, ⟨hfirst, -⟩ | hseparates⟩ := ih hothers hrun
    · cases hfirst
    · refine ⟨front ++ Byte.comma :: inner, after, ?_, hafter, .inr (.more htext hseparates)⟩
      rw [hbytes, hinner, List.append_assoc]
      rfl
  | @last afterComma w front after m hbytes hm =>
    obtain ⟨m', hm', hread⟩ := hitems _ List.mem_cons_self
    obtain rfl := Except.ok.inj hm'
    rw [hbytes] at hrun
    obtain ⟨htext, ended, hrun⟩ := hm.isText hmakes hread hcloser hrun
    exact ⟨front, after, hbytes, hclose hrun, .inr (.one htext)⟩
  | broken hne =>
    -- A split that breaks off leaves a failure among the items.
    obtain ⟨failure, failures, rfl⟩ := List.exists_cons_of_ne_nil hne
    obtain ⟨_, hm, -⟩ := hitems _ List.mem_cons_self
    cases hm
  | @closed w blanks after hblanks hbytes =>
    rw [hbytes, Watch.run_append_of (Watch.run_blanks hblanks)] at hrun
    exact ⟨blanks, after, hbytes, hclose hrun, .inl ⟨rfl, hblanks⟩⟩

/-- **Tidy bytes of which all members are readable are the text of a value.** -/
theorem isElement_of_split (hmakes : c.Makes holds p) (h : c.split w = .ok items)
    (hitems : ∀ item ∈ items, IsReadable item) (htidy : isTidy w.bytes = true) :
    IsElement w.bytes := by
  obtain ⟨before, hbefore, hbehind, -⟩ := w.exists_behind_trimStart
  unfold split at h
  dsimp only at h
  split at h
  · cases h
  · next b rest hbytes =>
    split at h
    · next hopener =>
      subst hopener
      obtain rfl := Except.ok.inj h
      obtain ⟨u, hrun, -⟩ := Scan.isTidy_eq_true.mp htidy
      rw [hbehind.bytes, hbytes, Watch.run_append_of (Watch.run_blanks hbefore), Watch.run,
        Watch.step_opener hmakes.enclose, Option.bind_some] at hrun
      obtain ⟨inner, after, hrest, hafter, hinner⟩ :=
        (laid_members hmakes.keys false _).exists_inner hmakes hitems hrun
      obtain rfl : rest = inner ++ c.closer :: after := hrest
      have hvalue : IsValue (c.opener :: (inner ++ [c.closer])) := by
        obtain ⟨-, hblanks⟩ | ⟨texts, hne, rfl, htexts⟩ := hinner
        · have hempty := hmakes.empty hblanks
          rwa [Grammar.enclosed, List.intercalate_singleton] at hempty
        · exact hmakes.value hne htexts
      have helement : IsElement (before ++ (c.opener :: (inner ++ [c.closer]) ++ after)) :=
        .mk hbefore hvalue hafter
      rw [hbehind.bytes, hbytes]
      simpa using helement
    · split at h
      · next hnull =>
        -- The split has checked the word; that nothing follows is known from the watch.
        refine Scan.isElement_of_null ?_ htidy
        rw [hbytes, hnull]
        rfl
      · cases h

end Container

end TypedJson
