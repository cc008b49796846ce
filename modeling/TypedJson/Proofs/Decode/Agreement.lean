import TypedJson.Proofs.Decode.Following
import TypedJson.Proofs.Decode.Looks
import TypedJson.Proofs.Entries

/-!
# Decoding is parsing and converting

A decoder splits windows inside windows and never sees the value that a text stands for. Still it
comes to what the conversion of the parsed value comes to: the same value and the same collected
failures in the same order, or the same first failure.

The proof goes along the data model. Whatever is in a window, its split finds the members that the
parsed value has (`Container.split_list`, `Container.split_dict`) and its first byte tells what the
parsed value is (`Parsed.In.shape`), so that each node follows its conversion if its parts do.
-/

namespace TypedJson

/-- The plan follows the converter, for every value in a window. -/
structure Plan.Follows (collects : Bool) (shapes : GhostShapes) (part : Plan) (part' : Converter) :
    Prop where
  acceptsNull : part.acceptsNull = part'.acceptsNull
  read : ∀ (tree : Parsed) (w : Window) (place : Place), tree.Fits w →
    TypedJson.Follows collects shapes Eq (part.read w place) (part'.convert tree place)

/-- The property has the same names and formatters, and its plan follows the converter. -/
structure PropertyNode.Follows (collects : Bool) (shapes : GhostShapes) (p : PropertyNode Plan)
    (p' : PropertyNode Converter) : Prop where
  sourceName : p.sourceName = p'.sourceName
  encodedName : p.encodedName = p'.encodedName
  formatters : p.formatters = p'.formatters
  node : p.node.Follows collects shapes p'.node

/-- The candidate has the same key and shape, and its plan follows the converter. -/
structure Candidate.Follows (collects : Bool) (shapes : GhostShapes) (c : Candidate Plan)
    (c' : Candidate Converter) : Prop where
  key : c.key = c'.key
  shape : c.shape = c'.shape
  node : c.node.Follows collects shapes c'.node

/-- The steps have the same names, and each follows its conversion. -/
def FieldSteps.Follow (collects : Bool) (shapes : GhostShapes) (steps : FieldSteps)
    (steps' : Entries String (Conversion Value)) : Prop :=
  List.Forall₂ (fun step step' ↦ step.1 = step'.1 ∧
    TypedJson.Follows collects shapes Eq step.2 step'.2) steps steps'

/-- The windows have the same keys, and the value under each fits its window. -/
def Parsed.FitAll (trees : List (String × Parsed)) (texts : List (String × Window)) : Prop :=
  List.Forall₂ (fun tree text ↦ text.1 = tree.1 ∧ tree.2.Fits text.2) trees texts

theorem Conversion.locate_locate {α : Type} (place : Place) (step : Conversion α) :
    locate place (locate place step) = locate place step := by
  funext errors
  show EStateM.tryCatch (EStateM.tryCatch step _) _ errors = EStateM.tryCatch step _ errors
  unfold EStateM.tryCatch
  cases step errors with
  | ok a errors' => rfl
  | error failure errors' =>
    exact congrArg (EStateM.Result.error · errors') (failure.locate_locate _ _)

namespace Follows

variable {collects : Bool} {shapes : GhostShapes} {α β : Type} {R : α → β → Prop} {tree : Parsed}
  {w : Window} {place : Place} {part : Plan} {part' : Converter}

/-! ## Leaves -/

theorem look_bind {x : Unit → Decode α} {y : Conversion β}
    (h : Follows collects shapes R (x ()) y) :
    Follows collects shapes R (Decode.look w >>= x) y := h.pay_bind

theorem json_bind {x : Json → Decode α} {y : Conversion β} (h : tree.Fits w)
    (hx : Follows collects shapes R (x tree.json) y) :
    Follows collects shapes R (Decode.json w >>= x) y := by
  rw [Decode.json, h.json, bind_assoc]
  exact look_bind hx

theorem scalar (kind : ScalarKind) (h : tree.Fits w) :
    Follows collects shapes Eq (Decode.scalar kind w) (Conversion.scalar kind tree) :=
  json_bind h (found _)

theorem enumCase (registry : Registry) (className : String) (backing : ScalarKind)
    (h : tree.Fits w) :
    Follows collects shapes Eq (Decode.enumCase registry className backing w)
      (Conversion.enumCase registry className backing tree) := by
  unfold Decode.enumCase Conversion.enumCase
  cases Entries.find? registry.enums className with
  | none => exact throw _
  | some e =>
    have hcase : ∀ (c : Value) (value : Json), Follows collects shapes Eq
        (if e.accepts value then Pure.pure (Value.enum className c)
          else MonadExcept.throw (.unexpectedValue s!"case of {className}" value.compact))
        (if e.accepts value then Pure.pure (Value.enum className c)
          else MonadExcept.throw (.unexpectedValue s!"case of {className}" value.compact)) := by
      intro c value
      split
      · exact pure rfl
      · exact throw _
    refine (scalar backing h).bind ?_
    rintro c _ rfl
    cases c with
    | int i => exact hcase _ _
    | string s => exact hcase _ _
    | _ => exact throw _

theorem format (context : DecodeContext) (v : Value) (ref : FormatterRef) :
    Follows collects shapes Eq (Decode.format context v ref) (Conversion.format context v ref) := by
  unfold Decode.format Conversion.format
  refine pay_bind ?_
  refine (found _).bind ?_
  rintro made _ rfl
  exact pure rfl

/-! ## Parts -/

theorem value (hpart : part.Follows collects shapes part') (h : tree.Fits w) (place : Place) :
    Follows collects shapes Eq (Decode.value part w place) (Conversion.value part' tree place) :=
  (hpart.read tree w place h).locate place

theorem locate_value (hpart : part.Follows collects shapes part') (h : tree.Fits w)
    (place : Place) :
    Follows collects shapes Eq (Decode.locate place (Decode.value part w place))
      (Conversion.value part' tree place) := by
  rw [Conversion.value, ← Conversion.locate_locate]
  exact (value hpart h place).locate place

/-! ## Lists and dictionaries -/

theorem members_list (h : tree.Fits w) :
    Follows collects shapes
      (fun ms items ↦ List.Forall₂ (fun item m ↦ item.IsMember () m) items ms ∧
        Parsed.heightItems items ≤ Json.nesting)
      (Decode.members .list w) (Conversion.found tree.items) := by
  have hsplit := Container.split_list h.isIn
  refine look_bind ?_
  cases hitems : tree.items with
  | error failure =>
    rw [hitems] at hsplit
    rw [hsplit]
    exact throw failure
  | ok items =>
    rw [hitems] at hsplit
    obtain ⟨ms, hms, hmembers⟩ := hsplit
    rw [hms]
    exact pure ⟨hmembers, h.heightItems hitems⟩

theorem members_dict (h : tree.Fits w) :
    Follows collects shapes
      (fun ms entries ↦ List.Forall₂ (fun entry m ↦ entry.2.IsMember entry.1 m) entries ms ∧
        Parsed.heightEntries entries ≤ Json.nesting)
      (Decode.members .dict w) (Conversion.found tree.entries) := by
  have hsplit := Container.split_dict h.isIn
  refine look_bind ?_
  cases hentries : tree.entries with
  | error failure =>
    rw [hentries] at hsplit
    rw [hsplit]
    exact throw failure
  | ok entries =>
    rw [hentries] at hsplit
    obtain ⟨ms, hms, hmembers⟩ := hsplit
    rw [hms]
    exact pure ⟨hmembers, h.heightEntries hentries⟩

theorem items (hpart : part.Follows collects shapes part') (place : Place) {trees : List Parsed}
    {ms : List (Except Failure (Member Unit))}
    (h : List.Forall₂ (fun item m ↦ item.IsMember () m) trees ms)
    (hheight : Parsed.heightItems trees ≤ Json.nesting) (i : Nat) :
    Follows collects shapes Eq (Decode.items part place i ms)
      (Conversion.items collects part' place i trees) := by
  induction h generalizing i with
  | nil => exact pure rfl
  | @cons tree m trees ms hm _ ih =>
    obtain ⟨w, rfl, hw⟩ := hm
    have hfits : tree.Fits w := ⟨hw, Nat.le_trans (Nat.le_max_left _ _) hheight⟩
    refine (orRecord (locate_value hpart hfits (.item i :: place))).bind ?_
    rintro first _ rfl
    refine (ih (Nat.le_trans (Nat.le_max_right _ _) hheight) (i + 1)).bind ?_
    rintro others _ rfl
    exact pure rfl

theorem entry (hpart : part.Follows collects shapes part') (kind : ScalarKind) (h : tree.Fits w)
    (key : String) (place : Place) :
    Follows collects shapes Eq
      (Decode.locate (.entry key :: place) do
        let k ← Decode.found (DictKey.ofText kind key)
        return (k, ← Decode.value part w (.entry key :: place)))
      (Conversion.entry kind part' place key tree) := by
  refine locate _ ((found _).bind ?_)
  rintro k _ rfl
  refine (value hpart h _).bind ?_
  rintro v _ rfl
  exact pure rfl

theorem entries (hpart : part.Follows collects shapes part') (kind : ScalarKind) (place : Place)
    {trees : List (String × Parsed)} {ms : List (Except Failure (Member String))}
    (h : List.Forall₂ (fun entry m ↦ entry.2.IsMember entry.1 m) trees ms)
    (hheight : Parsed.heightEntries trees ≤ Json.nesting) (done : Entries DictKey Value) :
    Follows collects shapes Eq (Decode.entries kind part place ms done)
      (Conversion.entries collects kind part' place trees done) := by
  induction h generalizing done with
  | nil => exact pure rfl
  | @cons entry m trees ms hm _ ih =>
    obtain ⟨key, tree⟩ := entry
    obtain ⟨w, rfl, hw⟩ := hm
    have hfits : tree.Fits w := ⟨hw, Nat.le_trans (Nat.le_max_left _ _) hheight⟩
    refine (orRecord (Follows.entry hpart kind hfits key place)).bind ?_
    rintro e _ rfl
    cases e with
    | none => exact ih (Nat.le_trans (Nat.le_max_right _ _) hheight) _
    | some e => exact ih (Nat.le_trans (Nat.le_max_right _ _) hheight) _

/-! ## Objects -/

theorem foldlM_format (context : DecodeContext) (refs : List FormatterRef) (v : Value) :
    Follows collects shapes Eq (refs.foldlM (Decode.format context) v)
      (refs.foldlM (Conversion.format context) v) := by
  induction refs generalizing v with
  | nil => exact pure rfl
  | cons ref refs ih =>
    rw [List.foldlM_cons, List.foldlM_cons]
    refine (format context v ref).bind ?_
    rintro v' _ rfl
    exact ih v'

theorem field (context : DecodeContext) {p : PropertyNode Plan} {p' : PropertyNode Converter}
    (hp : p.Follows collects shapes p') (h : tree.Fits w) (place : Place) :
    Follows collects shapes Eq (Decode.field context p w place)
      (Conversion.field context p' tree place) := by
  refine (value hp.node h place).bind ?_
  rintro v _ rfl
  rw [hp.formatters]
  split
  · exact pure rfl
  · exact locate place (foldlM_format context _ v)

theorem readFields {steps : FieldSteps} {steps' : Entries String (Conversion Value)}
    (h : FieldSteps.Follow collects shapes steps steps') :
    Follows collects shapes Eq (Decode.readFields steps) (Conversion.fields collects steps') := by
  induction h with
  | nil => exact pure rfl
  | @cons step step' _ _ hstep _ ih =>
    obtain ⟨name, x⟩ := step
    obtain ⟨_, y⟩ := step'
    obtain ⟨rfl, hxy⟩ := hstep
    refine (orRecord hxy).bind ?_
    rintro v _ rfl
    refine ih.bind ?_
    rintro others _ rfl
    exact pure rfl

theorem find? {trees : List (String × Parsed)} {texts : List (String × Window)}
    (h : Parsed.FitAll trees texts) (name : String) :
    Option.Rel Parsed.Fits (Entries.find? trees name) (Entries.find? texts name) := by
  induction h with
  | nil => exact .none
  | @cons tree text trees texts ht _ ih =>
    obtain ⟨_, tree⟩ := tree
    obtain ⟨key, w⟩ := text
    obtain ⟨rfl, hfits⟩ := ht
    by_cases hkey : key = name
    · simp only [Entries.find?, if_pos hkey]
      exact .some hfits
    · simp only [Entries.find?, if_neg hkey]
      exact ih

theorem fieldSteps (context : DecodeContext) (place : Place) {trees : List (String × Parsed)}
    {texts : List (String × Window)} (h : Parsed.FitAll trees.reverse texts)
    {properties : List (PropertyNode Plan)} {properties' : List (PropertyNode Converter)}
    (hproperties : List.Forall₂ (PropertyNode.Follows collects shapes) properties properties')
    {steps : FieldSteps} {steps' : Entries String (Conversion Value)}
    (hsteps : FieldSteps.Follow collects shapes steps steps') :
    FieldSteps.Follow collects shapes
      (Decode.fieldSteps context place texts properties steps)
      (Conversion.fieldSteps context place trees properties' steps') := by
  induction hproperties generalizing steps steps' with
  | nil => exact hsteps
  | @cons p p' _ _ hp _ ih =>
    refine ih ?_
    have hfind := find? h p.encodedName
    rw [← hp.encodedName, ← hp.sourceName, ← hp.node.acceptsNull]
    revert hfind
    cases Entries.find? texts p.encodedName with
    | none =>
      cases Entries.find? trees.reverse p.encodedName with
      | none =>
        intro _
        dsimp only
        split
        · exact Entries.forall₂_put hsteps _ (pure rfl)
        · exact hsteps
      | some tree => exact fun h ↦ nomatch h
    | some w =>
      cases Entries.find? trees.reverse p.encodedName with
      | none => exact fun h ↦ nomatch h
      | some tree =>
        rintro ⟨hfits⟩
        exact Entries.forall₂_put hsteps _ (field context hp hfits _)

theorem windows {trees : List (String × Parsed)} {ms : List (Except Failure (Member String))}
    (h : List.Forall₂ (fun entry m ↦ entry.2.IsMember entry.1 m) trees ms)
    (hheight : Parsed.heightEntries trees ≤ Json.nesting) (place : Place)
    {done : List (String × Parsed)} {texts : List (String × Window)}
    (hdone : Parsed.FitAll done texts) :
    ∃ texts', Decode.windows place ms texts = Pure.pure texts' ∧
      Parsed.FitAll (trees.reverse ++ done) texts' := by
  induction h generalizing done texts with
  | nil => exact ⟨texts, rfl, hdone⟩
  | @cons entry m trees ms hm _ ih =>
    obtain ⟨key, tree⟩ := entry
    obtain ⟨w, rfl, hw⟩ := hm
    have hfits : tree.Fits w := ⟨hw, Nat.le_trans (Nat.le_max_left _ _) hheight⟩
    obtain ⟨texts', htexts, hall⟩ := ih (Nat.le_trans (Nat.le_max_right _ _) hheight)
      (List.Forall₂.cons (a := (key, tree)) (b := (key, w)) ⟨rfl, hfits⟩ hdone)
    refine ⟨texts', htexts, ?_⟩
    rw [List.reverse_cons, List.append_assoc]
    exact hall

theorem object (context : DecodeContext) (hcollects : context.config.collectErrors = collects)
    (className : String) (layout : List (String × String))
    {properties : List (PropertyNode Plan)} {properties' : List (PropertyNode Converter)}
    (hproperties : List.Forall₂ (PropertyNode.Follows collects shapes) properties properties')
    (h : tree.Fits w) (place : Place) :
    Follows collects shapes Eq
      (Decode.makeObject false (.decoded place) className layout
        (Decode.loadFields context properties w place))
      (Conversion.object context className properties' tree place) := by
  unfold Decode.makeObject Decode.loadFields Conversion.object
  rw [if_neg Bool.false_ne_true, bind_assoc]
  refine ((members_dict h).locate place).bind ?_
  rintro ms trees ⟨hmembers, hheight⟩
  obtain ⟨texts, htexts, hall⟩ := windows hmembers hheight place (.nil : Parsed.FitAll [] [])
  rw [List.append_nil] at hall
  rw [htexts, pure_bind, pure_bind, hcollects]
  refine (readFields (fieldSteps context place hall hproperties .nil)).bind ?_
  rintro slots _ rfl
  exact pure rfl

/-! ## Unions -/

theorem find?_candidates {candidates : List (Candidate Plan)}
    {candidates' : List (Candidate Converter)}
    (h : List.Forall₂ (Candidate.Follows collects shapes) candidates candidates')
    {p : Candidate Plan → Bool} {q : Candidate Converter → Bool}
    (hpq : ∀ c c', c.Follows collects shapes c' → p c = q c') :
    Option.Rel (Candidate.Follows collects shapes) (candidates.find? p) (candidates'.find? q) := by
  induction h with
  | nil => exact .none
  | @cons c c' _ _ hc _ ih =>
    rw [List.find?_cons, List.find?_cons, hpq c c' hc]
    split
    · exact .some hc
    · exact ih

theorem none_or_some_of_rel {o : Option α} {o' : Option β} (h : Option.Rel R o o') :
    (o = none ∧ o' = none) ∨ ∃ a b, o = some a ∧ o' = some b ∧ R a b := by
  cases h with
  | none => exact .inl ⟨rfl, rfl⟩
  | some h => exact .inr ⟨_, _, rfl, rfl, h⟩

theorem orElse_rel {o₁ o₂ : Option α} {p₁ p₂ : Option β} (h₁ : Option.Rel R o₁ p₁)
    (h₂ : Option.Rel R o₂ p₂) : Option.Rel R (o₁ <|> o₂) (p₁ <|> p₂) := by
  cases h₁ with
  | none => exact h₂
  | some h => exact .some h

theorem choose (registry : Registry) {candidates : List (Candidate Plan)}
    {candidates' : List (Candidate Converter)}
    (hcandidates : List.Forall₂ (Candidate.Follows collects shapes) candidates candidates')
    (discriminator : Option String) (h : tree.Fits w) :
    Follows collects shapes (Candidate.Follows collects shapes)
      (Decode.choose registry candidates discriminator w)
      (Conversion.choose registry candidates' discriminator tree) := by
  obtain ⟨hkeys, hshapes⟩ : candidates.map (·.key) = candidates'.map (·.key) ∧
      candidates.filterMap (·.shape) = candidates'.filterMap (·.shape) := by
    induction hcandidates with
    | nil => exact ⟨rfl, rfl⟩
    | cons hc _ ih =>
      rw [List.map_cons, List.map_cons, List.filterMap_cons, List.filterMap_cons, hc.key, hc.shape,
        ih.1, ih.2]
      exact ⟨rfl, rfl⟩
  have hkey : ∀ key, Option.Rel (Candidate.Follows collects shapes)
      (candidates.find? fun c ↦ decide (c.key = key))
      (candidates'.find? fun c ↦ decide (c.key = key)) :=
    fun key ↦ find?_candidates hcandidates fun c c' hc ↦ by rw [hc.key]
  have hshape : ∀ shape, Option.Rel (Candidate.Follows collects shapes)
      (candidates.find? fun c ↦ decide (c.shape = some shape))
      (candidates'.find? fun c ↦ decide (c.shape = some shape)) :=
    fun shape ↦ find?_candidates hcandidates fun c c' hc ↦ by rw [hc.shape]
  unfold Decode.choose Conversion.choose
  cases discriminator with
  | some name =>
    dsimp only
    cases registry.discriminators.byName? name with
    | none => exact throw _
    | some d =>
      refine json_bind h ?_
      dsimp only
      rw [hkeys]
      cases (d.select (Value.ofJson tree.json) []).1 with
      | none => exact throw _
      | some key =>
        dsimp only
        obtain ⟨hnone, hnone'⟩ | ⟨c, c', hsome, hsome', hc⟩ := none_or_some_of_rel (hkey key)
        · rw [hnone, hnone']
          exact throw _
        · rw [hsome, hsome']
          exact pure hc
  | none =>
    refine look_bind ?_
    rw [h.isIn.shape, Decode.found, pure_bind]
    dsimp only
    have hfloat : Option.Rel (Candidate.Follows collects shapes)
        (if tree.shape = "int" then candidates.find? fun c ↦ decide (c.shape = some "float")
          else none)
        (if tree.shape = "int" then candidates'.find? fun c ↦ decide (c.shape = some "float")
          else none) := by
      split
      · exact hshape "float"
      · exact .none
    obtain ⟨hnone, hnone'⟩ | ⟨c, c', hsome, hsome', hc⟩ :=
      none_or_some_of_rel (orElse_rel (hshape tree.shape) hfloat)
    · rw [hnone, hnone', hshapes]
      exact throw _
    · rw [hsome, hsome']
      exact pure hc

end Follows

/-! ## Nodes -/

section

variable {context : DecodeContext} {collects : Bool} {shapes : GhostShapes}

mutual

/-- Each node follows its conversion. -/
theorem Node.read_follows (hlazy : context.config.lazy = false)
    (hcollects : context.config.collectErrors = collects) (node : Node) (tree : Parsed)
    (w : Window) (place : Place) (h : tree.Fits w) :
    Follows collects shapes Eq (node.read context w place) (node.convert context tree place) := by
  match node with
  | .scalar kind => exact .scalar kind h
  | .null =>
    refine .json_bind h ?_
    unfold Node.convert
    cases tree.json with
    | null => exact .pure rfl
    | _ => exact .throw _
  | .mixed => exact .json_bind h (.pure rfl)
  | .nullable inner =>
    have hinner : Plan.Follows collects shapes ⟨inner.acceptsNull, inner.read context⟩
        ⟨inner.acceptsNull, inner.convert context⟩ :=
      ⟨rfl, inner.read_follows hlazy hcollects⟩
    refine .look_bind ?_
    rw [h.isIn.looksNull]
    unfold Node.convert
    dsimp only
    split
    · exact .pure rfl
    · exact .value hinner h place
  | .list item =>
    have hitem : Plan.Follows collects shapes ⟨item.acceptsNull, item.read context⟩
        ⟨item.acceptsNull, item.convert context⟩ := ⟨rfl, item.read_follows hlazy hcollects⟩
    refine (Follows.members_list h).bind ?_
    rintro ms trees ⟨hmembers, hheight⟩
    rw [hcollects]
    refine (Follows.items hitem place hmembers hheight 0).bind ?_
    rintro values _ rfl
    exact .pure rfl
  | .dict key item =>
    have hitem : Plan.Follows collects shapes ⟨item.acceptsNull, item.read context⟩
        ⟨item.acceptsNull, item.convert context⟩ := ⟨rfl, item.read_follows hlazy hcollects⟩
    refine (Follows.members_dict h).bind ?_
    rintro ms trees ⟨hmembers, hheight⟩
    rw [hcollects]
    refine (Follows.entries hitem key place hmembers hheight []).bind ?_
    rintro values _ rfl
    exact .pure rfl
  | .object className properties =>
    have hproperties : List.Forall₂ (PropertyNode.Follows collects shapes)
        (propertyPlans context properties) (propertyConverters context properties) :=
      propertyPlans_follow hlazy hcollects properties
    unfold Node.read Node.convert
    dsimp only
    rw [hlazy]
    refine (Follows.object context hcollects className _ hproperties h place).bind ?_
    rintro o _ rfl
    exact .pure rfl
  | .union candidates discriminator =>
    have hcandidates : List.Forall₂ (Candidate.Follows collects shapes)
        (candidatePlans context candidates) (candidateConverters context candidates) :=
      candidatePlans_follow hlazy hcollects candidates
    refine (Follows.choose context.registry hcandidates discriminator h).bind ?_
    intro c c' hc
    exact .value hc.node h place
  | .enum className backing => exact .enumCase _ className backing h
  | .dateTime pattern =>
    refine (Follows.scalar .string h).bind ?_
    rintro v _ rfl
    exact .format context v _

theorem propertyPlans_follow (hlazy : context.config.lazy = false)
    (hcollects : context.config.collectErrors = collects) (properties : List (PropertyNode Node)) :
    List.Forall₂ (PropertyNode.Follows collects shapes) (propertyPlans context properties)
      (propertyConverters context properties) := by
  match properties with
  | [] => exact .nil
  | ⟨_, _, _, _, node⟩ :: properties =>
    exact .cons ⟨rfl, rfl, rfl, rfl, node.read_follows hlazy hcollects⟩
      (propertyPlans_follow hlazy hcollects properties)

theorem candidatePlans_follow (hlazy : context.config.lazy = false)
    (hcollects : context.config.collectErrors = collects) (candidates : List (Candidate Node)) :
    List.Forall₂ (Candidate.Follows collects shapes) (candidatePlans context candidates)
      (candidateConverters context candidates) := by
  match candidates with
  | [] => exact .nil
  | ⟨_, _, node⟩ :: candidates =>
    exact .cons ⟨rfl, rfl, rfl, node.read_follows hlazy hcollects⟩
      (candidatePlans_follow hlazy hcollects candidates)

end

end

/-! ## Texts -/

theorem Parsed.exists_isText {bytes : List UInt8} {value : Json}
    (h : Json.read? bytes = some value) :
    ∃ tree : Parsed, tree.IsText bytes ∧ tree.json = value := by
  obtain ⟨tree, hfills, hheight, hjson⟩ := Parsed.readWithin?_eq_some_iff.mp h
  exact ⟨tree, ⟨hfills, hheight⟩, hjson⟩

/-- Decoding a text at once is parsing it and converting what was parsed: with the same value and
the same collected failures in the same order, or the same first failure. -/
theorem Node.decode_eq_decodeParsed (root : Node) (registry : Registry) (config : Config)
    (shapes : GhostShapes) {bytes : List UInt8} {value : Json} (hlazy : config.lazy = false)
    (hread : Json.read? bytes = some value) :
    (∃ tree : Parsed, tree.IsText bytes ∧ tree.json = value) ∧
      ∀ tree : Parsed, tree.IsText bytes →
        ((root.decode registry config shapes bytes).1.map fun decoded ↦
          (decoded.value, decoded.errors)) = root.decodeParsed ⟨registry, config⟩ tree := by
  refine ⟨Parsed.exists_isText hread, fun tree htext ↦ ?_⟩
  have hfits : tree.Fits (Window.whole bytes) := ⟨htext.1, htext.2⟩
  have hcontext : (DecodeContext.mk registry config).config.lazy = false := hlazy
  have hroot : Follows config.collectErrors shapes Eq
      (Decode.locate [] (root.read ⟨registry, config⟩ (Window.whole bytes) []))
      (Conversion.locate [] (root.convert ⟨registry, config⟩ tree [])) :=
    Follows.locate [] (Node.read_follows hcontext rfl root tree _ [] hfits)
  have hstart : DecodeState.Has config.collectErrors shapes
      { collector := { isEnabled := config.collectErrors }, shapes } [] := ⟨rfl, rfl⟩
  have hresult := hroot _ _ hstart
  unfold Node.decode Node.decodeParsed Decode.value Node.plan
  dsimp only
  revert hresult
  cases Decode.locate [] (root.read ⟨registry, config⟩ (Window.whole bytes) [])
      { collector := { isEnabled := config.collectErrors }, shapes } with
  | ok a state =>
    cases Conversion.locate [] (root.convert ⟨registry, config⟩ tree []) [] with
    | ok b errors =>
      rintro ⟨rfl, hs⟩
      show Except.ok (a, state.collector.errors) = .ok (a, errors)
      rw [hs.collector]
    | error failure errors => exact fun h ↦ h.elim
  | error failure state =>
    cases Conversion.locate [] (root.convert ⟨registry, config⟩ tree []) [] with
    | ok b errors => exact fun h ↦ h.elim
    | error failure' errors =>
      rintro ⟨rfl, -⟩
      rfl

/-- The text of a dictionary with a repeated key and a value that is no integer:
`{"a":1, "b":true,"a":2}`. -/
def repeatedKeyText : List UInt8 :=
  [0x7B, 0x22, 0x61, 0x22, 0x3A, 0x31, 0x2C, 0x20, 0x22, 0x62, 0x22, 0x3A, 0x74, 0x72, 0x75, 0x65,
    0x2C, 0x22, 0x61, 0x22, 0x3A, 0x32, 0x7D]

/-- What is parsed of that text. -/
def repeatedKeyTree : Parsed :=
  .dict 0 [("a", .scalar 5 [0x31] (.number (.natural 1))),
    ("b", .scalar 12 [0x74, 0x72, 0x75, 0x65] (.bool true)),
    ("a", .scalar 21 [0x32] (.number (.natural 2)))]

theorem isText_repeatedKeyTree : repeatedKeyTree.IsText repeatedKeyText := by
  have hdigit : ∀ (b : UInt8) (d : Nat) (n : Number), Decimal.digit? b = some d →
      Decimal.Literal.value? ⟨false, [d], none, none⟩ = some n →
        Parsed.IsScalar [b] (.number n) := by
    intro b d n hb hn
    have hliteral : Decimal.IsLiteral ([] ++ ([b] ++ ([] ++ []))) ⟨false, [d], none, none⟩ :=
      .mk .missing (.cons hb .nil) (List.cons_ne_nil d []) (fun _ ↦ rfl) .missing .missing
    exact .number hliteral hn
  have hletter : ∀ b : UInt8, b ≠ 0x22 → ¬ b < 0x20 → b ≠ 0x5C → Json.IsBody [b, 0x22] [b] :=
    fun b hquote hcontrol hescape ↦ .plain hquote hcontrol hescape .close
  have hspace : Parsed.IsBlank [0x20] := by
    intro b hb
    rw [List.mem_singleton.mp hb]
    rfl
  have ha := hletter 0x61 (by decide) (by decide) (by decide)
  have hb := hletter 0x62 (by decide) (by decide) (by decide)
  have hfirst : Parsed.EntryFills "a" (.scalar 5 [0x31] (.number (.natural 1))) 1
      [0x22, 0x61, 0x22, 0x3A, 0x31] :=
    .mk Parsed.isBlank_nil ha rfl Parsed.isBlank_nil
      (Parsed.Stands.scalar (hdigit 0x31 1 _ rfl rfl)).isIn
  have hsecond : Parsed.EntryFills "b" (.scalar 12 [0x74, 0x72, 0x75, 0x65] (.bool true)) 7
      [0x20, 0x22, 0x62, 0x22, 0x3A, 0x74, 0x72, 0x75, 0x65] :=
    .mk hspace hb rfl Parsed.isBlank_nil (Parsed.Stands.scalar .true).isIn
  have hthird : Parsed.EntryFills "a" (.scalar 21 [0x32] (.number (.natural 2))) 17
      [0x22, 0x61, 0x22, 0x3A, 0x32] :=
    .mk Parsed.isBlank_nil ha rfl Parsed.isBlank_nil
      (Parsed.Stands.scalar (hdigit 0x32 2 _ rfl rfl)).isIn
  exact ⟨(Parsed.Stands.dict (.more hfirst (.more hsecond (.one hthird)))).isIn, by decide⟩

/-- The first place of the repeated key is kept, with its last value, and the value that is no
integer is left out. -/
theorem decode_repeatedKey :
    (((Node.dict .string (.scalar .int)).decode {} { collectErrors := true } []
      repeatedKeyText).1.map fun decoded ↦ (decoded.value, decoded.errors)) =
        .ok (.dict [(.string "a", .int 2)],
          [.placed (some "$.b") (.unexpectedValue "int" "bool")]) :=
  have hread : Json.read? repeatedKeyText =
      some (.dict [("a", .number (.natural 2)), ("b", .bool true)]) := rfl
  ((Node.decode_eq_decodeParsed _ {} _ [] rfl hread).2 repeatedKeyTree
    isText_repeatedKeyTree).trans rfl

end TypedJson
