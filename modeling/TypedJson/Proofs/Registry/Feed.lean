import Mathlib.Data.List.Basic
import TypedJson.Proofs.Fingerprint
import TypedJson.Proofs.Registry.Discriminators
import TypedJson.Registry.Document

/-!
# What the bytes of a registry tell

A registry feeds one string after another, without marks between its classes, enumerations,
formatters and discriminators. The strings can be read off the bytes. To tell to which section a
string belongs there is only the string itself: classes, enumerations and signatures are JSON texts
that begin differently, names are any strings. So the bytes determine the definitions
(`sameDefinitions_of_feed_eq`) as long as no name is one of these texts, and two classes feed the
same bytes as a discriminator that is named like one for a union written like the other.
-/

namespace TypedJson

/-! ## Sections of a list -/

section Sections

variable {α : Type} {P : α → Prop} {as bs rs ss : List α}

/-- Nothing of a kind stands at the front of the list. -/
def NotFirst (P : α → Prop) (rs : List α) : Prop := ∀ r ∈ rs.head?, ¬P r

theorem NotFirst.of_forall (h : ∀ r ∈ rs, ¬P r) : NotFirst P rs := fun r hr ↦
  h r (List.mem_of_mem_head? hr)

theorem NotFirst.append (has : ∀ a ∈ as, ¬P a) (hrs : NotFirst P rs) : NotFirst P (as ++ rs) := by
  cases as with
  | nil => exact hrs
  | cons a as =>
    rintro _ ⟨⟩
    exact has a List.mem_cons_self

/-- A section of one kind is read off the front of a list up to where another kind follows. -/
theorem section_append_inj (has : ∀ a ∈ as, P a) (hbs : ∀ b ∈ bs, P b) (hrs : NotFirst P rs)
    (hss : NotFirst P ss) (h : as ++ rs = bs ++ ss) : as = bs ∧ rs = ss := by
  induction as generalizing bs with
  | nil =>
    cases bs with
    | nil => exact ⟨rfl, h⟩
    | cons b bs =>
      obtain rfl : rs = b :: (bs ++ ss) := h
      exact (hrs b rfl (hbs b List.mem_cons_self)).elim
  | cons a as ih =>
    cases bs with
    | nil =>
      obtain rfl : a :: (as ++ rs) = ss := h
      exact (hss a rfl (has a List.mem_cons_self)).elim
    | cons b bs =>
      obtain ⟨rfl, hrest⟩ := List.cons.inj h
      obtain ⟨rfl, hrs⟩ := ih (fun c hc ↦ has c (List.mem_cons_of_mem _ hc))
        (fun c hc ↦ hbs c (List.mem_cons_of_mem _ hc)) hrest
      exact ⟨rfl, hrs⟩

/-- Pairs are read off the list of their parts. -/
theorem pairs_inj {ps qs : List (α × α)}
    (h : (ps.flatMap fun p ↦ [p.1, p.2]) = qs.flatMap fun q ↦ [q.1, q.2]) : ps = qs := by
  induction ps generalizing qs with
  | nil =>
    cases qs with
    | nil => rfl
    | cons q qs => cases h
  | cons p ps ih =>
    cases qs with
    | nil => cases h
    | cons q qs =>
      obtain ⟨hfirst, h⟩ := List.cons.inj h
      obtain ⟨hsecond, h⟩ := List.cons.inj h
      exact List.cons_eq_cons.mpr ⟨Prod.ext hfirst hsecond, ih h⟩

end Sections

/-! ## Where a string literal ends -/

namespace Json

/-- The characters behind the first quote that is not escaped. -/
def afterQuote (isEscaped : Bool) : List Char → List Char
  | [] => []
  | c :: rest =>
    if isEscaped then afterQuote false rest
    else if c = '"' then rest
    else afterQuote (decide (c = '\\')) rest

theorem afterQuote_letter (c : Char) (rest : List Char) :
    afterQuote false ('\\' :: c :: rest) = afterQuote false rest := rfl

theorem afterQuote_plain {c : Char} (hquote : c ≠ '"') (hescape : c ≠ '\\') (rest : List Char) :
    afterQuote false (c :: rest) = afterQuote false rest := by
  rw [afterQuote, if_neg Bool.false_ne_true, if_neg hquote, decide_eq_false hescape]

theorem afterQuote_digits {cs : List Char} (h : ∀ c ∈ cs, c ≠ '"' ∧ c ≠ '\\') (rest : List Char) :
    afterQuote false (cs ++ rest) = afterQuote false rest := by
  induction cs with
  | nil => rfl
  | cons c cs ih =>
    obtain ⟨hc, hcs⟩ := List.forall_mem_cons.mp h
    rw [List.cons_append, afterQuote_plain hc.1 hc.2, ih hcs]

theorem afterQuote_unitEscape (unit : Nat) (rest : List Char) :
    afterQuote false (unitEscape unit ++ rest) = afterQuote false rest := by
  have hdigit : ∀ n < 16, Fingerprint.hexDigit n ≠ '"' ∧ Fingerprint.hexDigit n ≠ '\\' := by decide
  have hdigits : ∀ d ∈ (Fingerprint.hex 4 unit).toList, d ≠ '"' ∧ d ≠ '\\' := by
    intro d hd
    rw [Fingerprint.hex, String.toList_ofList] at hd
    obtain ⟨i, -, rfl⟩ := List.mem_map.mp hd
    exact hdigit _ (Nat.mod_lt _ (by decide))
  rw [unitEscape, List.cons_append, List.cons_append, afterQuote_letter]
  exact afterQuote_digits hdigits rest

/-- No character is written with a quote that is not escaped. -/
theorem afterQuote_plainEscape (c : Char) (rest : List Char) :
    afterQuote false (plainEscape c ++ rest) = afterQuote false rest := by
  have hite : ∀ {p : Prop} [Decidable p] {cs ds : List Char},
      afterQuote false (cs ++ rest) = afterQuote false rest →
      (¬p → afterQuote false (ds ++ rest) = afterQuote false rest) →
        afterQuote false ((if p then cs else ds) ++ rest) = afterQuote false rest := by
    intro p _ cs ds hcs hds
    by_cases hp : p
    · rwa [if_pos hp]
    · rw [if_neg hp]
      exact hds hp
  have hletter := fun d ↦ afterQuote_letter d rest
  unfold plainEscape
  refine hite (hletter _) fun hquote ↦ hite (hletter _) fun hescape ↦ hite (hletter _) fun _ ↦
    hite (hletter _) fun _ ↦ hite (hletter _) fun _ ↦ hite (hletter _) fun _ ↦
    hite (hletter _) fun _ ↦ hite (afterQuote_unitEscape _ rest) fun _ ↦
    afterQuote_plain hquote hescape rest

/-- A string literal is read off the front of a text. -/
theorem plainQuote_append_inj {s t x y : String} (h : plainQuote s ++ x = plainQuote t ++ y) :
    plainQuote s = plainQuote t ∧ x = y := by
  have hafter : ∀ s x : String,
      afterQuote false ((plainQuote s ++ x).toList.drop 1) = x.toList := by
    intro s x
    rw [String.toList_append, plainQuote, String.toList_ofList]
    show afterQuote false (s.toList.flatMap plainEscape ++ ['"'] ++ x.toList) = x.toList
    induction s.toList with
    | nil => rfl
    | cons c cs ih =>
      rw [List.flatMap_cons, List.append_assoc, List.append_assoc, afterQuote_plainEscape,
        ← List.append_assoc, ih]
  have hxy : x = y := by
    rw [← String.toList_inj, ← hafter s x, h, hafter]
  rw [hxy] at h
  exact ⟨(String.append_left_inj y).mp h, hxy⟩

/-- The text of a dictionary whose first entry is a string, up to the key of the second entry. -/
theorem exists_compact_dict (key name next : String) (value : Json)
    (entries : List (String × Json)) :
    ∃ tail, (dict ((key, string name) :: (next, value) :: entries)).compact =
      "\x7b" ++ (plainQuote key ++
        (":" ++ (plainQuote name ++ ("," ++ (plainQuote next ++ tail))))) := by
  have hfront : ∀ (text : String) (texts : List String),
      ∃ tail, ",".intercalate (text :: texts) = text ++ tail := by
    intro text texts
    cases texts with
    | nil => exact ⟨"", by simp⟩
    | cons other texts =>
      rw [String.intercalate_cons_cons, String.append_assoc]
      exact ⟨_, rfl⟩
  obtain ⟨tail, htail⟩ := hfront (plainQuote next ++ ":" ++ value.compact) (compactEntries entries)
  refine ⟨":" ++ (value.compact ++ (tail ++ "\x7d")), ?_⟩
  rw [compact, compactEntries, compactEntries, String.intercalate_cons_cons, htail, compact]
  simp only [String.append_assoc]

/-- Two such texts are different if the second keys are written differently. -/
theorem next_eq_of_compact_eq {key name name' next next' : String} {value value' : Json}
    {entries entries' : List (String × Json)}
    (h : (dict ((key, string name) :: (next, value) :: entries)).compact =
      (dict ((key, string name') :: (next', value') :: entries')).compact) :
    plainQuote next = plainQuote next' := by
  obtain ⟨tail, htail⟩ := exists_compact_dict key name next value entries
  obtain ⟨tail', htail'⟩ := exists_compact_dict key name' next' value' entries'
  rw [htail, htail', String.append_right_inj, String.append_right_inj, String.append_right_inj] at h
  have hnext := (plainQuote_append_inj h).2
  rw [String.append_right_inj] at hnext
  exact (plainQuote_append_inj hnext).1

end Json

/-! ## Texts of definitions -/

/-- The string is what some class feeds. -/
def IsClassText (text : String) : Prop := ∃ c : ClassDescriptor, c.toJson.compact = text

/-- The string is what some enumeration feeds. -/
def IsEnumText (text : String) : Prop := ∃ e : EnumDescriptor, e.toJson.compact = text

/-- The string is what some signature feeds. -/
def IsSignatureText (text : String) : Prop := ∃ s : Signature, s.toJson.compact = text

/-- A class goes on with its parameters where an enumeration goes on with its backing. -/
theorem IsEnumText.not_isClassText {text : String} (h : IsEnumText text) : ¬IsClassText text := by
  obtain ⟨e, rfl⟩ := h
  rintro ⟨c, hc⟩
  exact absurd (Json.next_eq_of_compact_eq hc) (by decide)

theorem head_compact_dict (entries : List (String × Json)) :
    (Json.dict entries).compact.toList.head? = some '\x7b' := by
  rw [Json.compact, String.toList_append, String.toList_append]
  rfl

/-- Only strings that begin like a dictionary are texts of definitions. -/
theorem head_of_isText {text : String}
    (h : IsClassText text ∨ IsEnumText text ∨ IsSignatureText text) :
    text.toList.head? = some '\x7b' := by
  rcases h with ⟨c, rfl⟩ | ⟨e, rfl⟩ | ⟨s, rfl⟩
  · exact head_compact_dict _
  · exact head_compact_dict _
  · exact head_compact_dict _

namespace Registry

/-- No name in the registry looks like a definition where one could stand. -/
structure IsPlain (r : Registry) : Prop where
  formatters : ∀ f ∈ r.formatters, ¬IsClassText f.2.name ∧ ¬IsEnumText f.2.name
  unions : ∀ d ∈ r.discriminators, ¬IsClassText d.1 ∧ ¬IsEnumText d.1
  discriminators : ∀ d ∈ r.discriminators, ¬IsSignatureText d.2.name

/-- It is enough that names do not begin like a dictionary. -/
theorem IsPlain.of_head {r : Registry}
    (hformatters : ∀ f ∈ r.formatters, f.2.name.toList.head? ≠ some '\x7b')
    (hdiscriminators : ∀ d ∈ r.discriminators,
      d.1.toList.head? ≠ some '\x7b' ∧ d.2.name.toList.head? ≠ some '\x7b') : r.IsPlain := by
  constructor
  · intro f hf
    exact ⟨fun h ↦ hformatters f hf (head_of_isText (.inl h)),
      fun h ↦ hformatters f hf (head_of_isText (.inr (.inl h)))⟩
  · intro d hd
    exact ⟨fun h ↦ (hdiscriminators d hd).1 (head_of_isText (.inl h)),
      fun h ↦ (hdiscriminators d hd).1 (head_of_isText (.inr (.inl h)))⟩
  · intro d hd h
    exact (hdiscriminators d hd).2 (head_of_isText (.inr (.inr h)))

/-- The definitions of the registries can be told apart by their texts. -/
structure AreTold (r s : Registry) : Prop where
  classes : ∀ c ∈ r.classes, ∀ d ∈ s.classes,
    c.2.toJson.compact = d.2.toJson.compact → c.2 = d.2
  enums : ∀ e ∈ r.enums, ∀ d ∈ s.enums, e.2.toJson.compact = d.2.toJson.compact → e.2 = d.2
  signatures : ∀ f ∈ r.formatters, ∀ g ∈ s.formatters,
    f.2.signature.toJson.compact = g.2.signature.toJson.compact → f.2.signature = g.2.signature

/-- The registries have the same definitions in the same order, as far as the code of formatters and
discriminators is not concerned. -/
structure SameDefinitions (r s : Registry) : Prop where
  classes : r.classes.map (·.2) = s.classes.map (·.2)
  enums : r.enums.map (·.2) = s.enums.map (·.2)
  formatters : r.formatters.map (fun f ↦ (f.2.name, f.2.signature)) =
    s.formatters.map fun f ↦ (f.2.name, f.2.signature)
  discriminators : r.discriminators.map (fun d ↦ (d.1, d.2.name)) =
    s.discriminators.map fun d ↦ (d.1, d.2.name)

/-! ## Reading the definitions off the bytes -/

/-- What the formatters feed, two strings each. -/
def formatterTexts (r : Registry) : List (String × String) :=
  r.formatters.map fun f ↦ (f.2.name, f.2.signature.toJson.compact)

/-- What the discriminators feed, two strings each. -/
def discriminatorTexts (r : Registry) : List (String × String) :=
  r.discriminators.map fun d ↦ (d.1, d.2.name)

/-- The strings that a registry feeds. -/
def texts (r : Registry) : List String :=
  r.classes.map (·.2.toJson.compact) ++ (r.enums.map (·.2.toJson.compact) ++
    (r.formatterTexts ++ r.discriminatorTexts).flatMap fun p ↦ [p.1, p.2])

theorem feed_eq (r : Registry) : r.feed = r.texts.flatMap Fingerprint.text := by
  simp only [feed, texts, formatterTexts, discriminatorTexts, List.flatMap_append, List.flatMap_map,
    List.flatMap_assoc, List.append_assoc, List.flatMap_cons, List.flatMap_nil, List.append_nil]

/-- Lists with the same texts are the same if the texts tell their members apart. -/
theorem map_eq_of_texts {α β γ : Type} {as bs : List α} {text : α → β} {definition : α → γ}
    (htold : ∀ a ∈ as, ∀ b ∈ bs, text a = text b → definition a = definition b)
    (h : as.map text = bs.map text) : as.map definition = bs.map definition := by
  induction as generalizing bs with
  | nil =>
    cases bs with
    | nil => rfl
    | cons b bs => cases h
  | cons a as ih =>
    cases bs with
    | nil => cases h
    | cons b bs =>
      obtain ⟨htext, hrest⟩ := List.cons.inj h
      rw [List.map_cons, List.map_cons, htold a List.mem_cons_self b List.mem_cons_self htext]
      rw [ih (fun c hc d hd ↦ htold c (List.mem_cons_of_mem _ hc) d (List.mem_cons_of_mem _ hd))
        hrest]

/-- Nothing in the pairs of a plain registry stands where a class or an enumeration is expected. -/
theorem IsPlain.notFirst {r : Registry} (h : r.IsPlain) :
    NotFirst IsClassText ((r.formatterTexts ++ r.discriminatorTexts).flatMap fun p ↦ [p.1, p.2]) ∧
      NotFirst IsEnumText
        ((r.formatterTexts ++ r.discriminatorTexts).flatMap fun p ↦ [p.1, p.2]) := by
  have hnames : ∀ p ∈ r.formatterTexts ++ r.discriminatorTexts,
      ¬IsClassText p.1 ∧ ¬IsEnumText p.1 := by
    intro p hp
    rcases List.mem_append.mp hp with hp | hp
    · obtain ⟨f, hf, rfl⟩ := List.mem_map.mp hp
      exact h.formatters f hf
    · obtain ⟨d, hd, rfl⟩ := List.mem_map.mp hp
      exact h.unions d hd
  cases hpairs : r.formatterTexts ++ r.discriminatorTexts with
  | nil => exact ⟨fun _ hmem ↦ (nomatch hmem), fun _ hmem ↦ (nomatch hmem)⟩
  | cons p ps =>
    have hp := hnames p (hpairs ▸ List.mem_cons_self)
    constructor
    · rintro _ ⟨⟩
      exact hp.1
    · rintro _ ⟨⟩
      exact hp.2

/-- Plain registries that feed the same bytes have the same definitions. -/
theorem sameDefinitions_of_feed_eq {r s : Registry} (hr : r.IsPlain) (hs : s.IsPlain)
    (htold : r.AreTold s) (h : r.feed = s.feed) : r.SameDefinitions s := by
  rw [feed_eq, feed_eq] at h
  have htexts : r.texts = s.texts := Fingerprint.flatMap_text_inj h
  have hclass : ∀ t : Registry, ∀ text ∈ t.classes.map (·.2.toJson.compact), IsClassText text :=
    fun t ↦ List.forall_mem_map.mpr fun c _ ↦ ⟨c.2, rfl⟩
  have henum : ∀ t : Registry, ∀ text ∈ t.enums.map (·.2.toJson.compact), IsEnumText text :=
    fun t ↦ List.forall_mem_map.mpr fun e _ ↦ ⟨e.2, rfl⟩
  have hsignature : ∀ t : Registry, ∀ p ∈ t.formatterTexts, IsSignatureText p.2 :=
    fun t ↦ List.forall_mem_map.mpr fun f _ ↦ ⟨f.2.signature, rfl⟩
  have hdiscriminator : ∀ t : Registry, t.IsPlain → ∀ p ∈ t.discriminatorTexts,
      ¬IsSignatureText p.2 := fun t ht ↦ List.forall_mem_map.mpr ht.discriminators
  -- Each section ends where a string of its kind does not follow.
  obtain ⟨hclasses, htexts⟩ := section_append_inj (hclass r) (hclass s)
    (.append (fun text htext ↦ (henum r text htext).not_isClassText) hr.notFirst.1)
    (.append (fun text htext ↦ (henum s text htext).not_isClassText) hs.notFirst.1) htexts
  obtain ⟨henums, htexts⟩ := section_append_inj (henum r) (henum s) hr.notFirst.2 hs.notFirst.2
    htexts
  obtain ⟨hformatters, hdiscriminators⟩ := section_append_inj (hsignature r) (hsignature s)
    (.of_forall (hdiscriminator r hr)) (.of_forall (hdiscriminator s hs)) (pairs_inj htexts)
  refine ⟨map_eq_of_texts htold.classes hclasses, map_eq_of_texts htold.enums henums, ?_,
    hdiscriminators⟩
  refine map_eq_of_texts (fun f hf g hg hpair ↦ ?_) hformatters
  obtain ⟨hname, hsignature⟩ := Prod.mk.inj hpair
  exact Prod.ext hname (htold.signatures f hf g hg hsignature)

/-- A registry with one definition of each kind. The code of the discriminator may be any. -/
def onePerKind (select : Value → Traced (Option String)) : Registry where
  classes := [("Note", ⟨"Note", [], [("text", ⟨"string", []⟩)], []⟩)]
  enums := [("Color", ⟨"Color", .string, []⟩)]
  formatters := [("trim", ⟨"trim", ⟨.static, [.void], .never⟩, fun v _ ↦ return .ok v⟩)]
  discriminators := [("int|string", ⟨"kind", select⟩)]

theorem sameDefinitions_onePerKind :
    (onePerKind fun _ ↦ return none).IsPlain ∧ (onePerKind fun _ ↦ return some "int").IsPlain ∧
      (onePerKind fun _ ↦ return none).AreTold (onePerKind fun _ ↦ return some "int") ∧
      (onePerKind fun _ ↦ return none).feed = (onePerKind fun _ ↦ return some "int").feed ∧
      (onePerKind fun _ ↦ return none).SameDefinitions (onePerKind fun _ ↦ return some "int") := by
  have hplain : ∀ select, (onePerKind select).IsPlain := by
    intro select
    have hnames : "trim".toList.head? ≠ some '\x7b' ∧ "int|string".toList.head? ≠ some '\x7b' ∧
        "kind".toList.head? ≠ some '\x7b' := by decide
    exact .of_head (List.forall_mem_singleton.mpr hnames.1) (List.forall_mem_singleton.mpr hnames.2)
  have htold : (onePerKind fun _ ↦ return none).AreTold (onePerKind fun _ ↦ return some "int") := by
    constructor
    · exact List.forall_mem_singleton.mpr (List.forall_mem_singleton.mpr fun _ ↦ rfl)
    · exact List.forall_mem_singleton.mpr (List.forall_mem_singleton.mpr fun _ ↦ rfl)
    · exact List.forall_mem_singleton.mpr (List.forall_mem_singleton.mpr fun _ ↦ rfl)
  exact ⟨hplain _, hplain _, htold, rfl, sameDefinitions_of_feed_eq (hplain _) (hplain _) htold rfl⟩

/-- Without plain names definitions cannot be told apart: two classes feed what a discriminator
feeds whose union and whose name are their texts. -/
theorem feed_classes_eq_feed_discriminator (c d : ClassDescriptor)
    (select : Value → Traced (Option String)) :
    feed { classes := [(c.name, c), (d.name, d)] } =
      feed { discriminators := [(c.toJson.compact, ⟨d.toJson.compact, select⟩)] } := by
  simp only [feed, List.flatMap_cons, List.flatMap_nil, List.append_nil, List.nil_append]

/-- A discriminator can be registered for such a union. -/
theorem exists_registered_like_classes :
    ∃ r : Registry, addDiscriminator {} (ClassDescriptor.toJson ⟨"P", [], [], []⟩).compact
        (.always (ClassDescriptor.toJson ⟨"Q", [], [], []⟩).compact "P") = .ok r ∧
      r.feed = ((addClass {} ⟨"P", [], [], []⟩).addClass ⟨"Q", [], [], []⟩).feed ∧
      ¬r.SameDefinitions ((addClass {} ⟨"P", [], [], []⟩).addClass ⟨"Q", [], [], []⟩) := by
  have halone : TypeText.alternatives (ClassDescriptor.toJson ⟨"P", [], [], []⟩).compact =
      .ok [(ClassDescriptor.toJson ⟨"P", [], [], []⟩).compact] := by decide
  have hkey : Discriminators.keyOfText (ClassDescriptor.toJson ⟨"P", [], [], []⟩).compact =
      .ok (ClassDescriptor.toJson ⟨"P", [], [], []⟩).compact := by
    rw [Discriminators.keyOfText_eq halone, Discriminators.joinMembers, List.mergeSort_singleton,
      String.intercalate_singleton]
  refine ⟨⟨[], [], [], [((ClassDescriptor.toJson ⟨"P", [], [], []⟩).compact,
    .always (ClassDescriptor.toJson ⟨"Q", [], [], []⟩).compact "P")]⟩, ?_, ?_, ?_⟩
  · unfold addDiscriminator Discriminators.register
    rw [hkey]
    rfl
  · exact (feed_classes_eq_feed_discriminator ⟨"P", [], [], []⟩ ⟨"Q", [], [], []⟩ _).symm
  · intro h
    cases h.classes

end Registry

end TypedJson
