import TypedJson.Proofs.Aligned
import TypedJson.Proofs.Decode.Mirroring
import TypedJson.Proofs.Outcome

/-!
# Making objects later

A lazy decoder makes ghosts in place of objects and reads nothing inside them; all else it reads at
once, as an eager decoder does. Resolving what it answers then reads the objects, each in its own
window, by the steps that the eager decoder would have taken. So the two agree: what the eager
decoder answers is what the lazy decoder's answer resolves to.

There is one thing that the eager decoder sees and the lazy one does not. An entry of a dictionary
is replaced by a later one under its key. If the value that is replaced holds an object that cannot
be read, the eager decoder has failed at it by then, whereas the lazy one never reads it.
-/

namespace TypedJson

/-! ## Nodes and texts -/

/-- The node refers to no formatter by name, and its objects can be made as ghosts: their properties
have distinct names in the text. -/
inductive Node.IsDeferrable : Node → Prop
  | scalar (kind : ScalarKind) : IsDeferrable (.scalar kind)
  | null : IsDeferrable .null
  | mixed : IsDeferrable .mixed
  | nullable {inner : Node} (h : inner.IsDeferrable) : IsDeferrable (.nullable inner)
  | list {item : Node} (h : item.IsDeferrable) : IsDeferrable (.list item)
  | dict {key : ScalarKind} {item : Node} (h : item.IsDeferrable) : IsDeferrable (.dict key item)
  | object {className : String} {properties : List (PropertyNode Node)}
    (hnames : (properties.map (·.encodedName)).Nodup)
    (hformatters : ∀ p ∈ properties, ∀ name, .named name ∉ p.formatters)
    (h : ∀ p ∈ properties, p.node.IsDeferrable) : IsDeferrable (.object className properties)
  | union {candidates : List (Candidate Node)} {discriminator : Option String}
    (h : ∀ c ∈ candidates, c.node.IsDeferrable) : IsDeferrable (.union candidates discriminator)
  | enum (className : String) (backing : ScalarKind) : IsDeferrable (.enum className backing)
  | dateTime (pattern : Option String) : IsDeferrable (.dateTime pattern)

/-- The window of the value of the last member with a name. -/
def lastUnder? (name : String) : List (Except Failure (Member String)) → Option Window
  | [] => none
  | .error _ :: ms => lastUnder? name ms
  | .ok m :: ms => (lastUnder? name ms).or (if m.key = name then some m.value else none)

/-- What a step answers from some state. -/
def Decode.Answers {α : Type} (x : Decode α) (a : α) : Prop :=
  ∃ state state', x state = .ok a state'

/-- Reading the window as the node comes upon an entry of a dictionary that cannot be read and that
a later entry under its key replaces. -/
inductive Node.ReplacesBroken (context : DecodeContext) : Node → Window → Prop
  | here {kind : ScalarKind} {item : Node} {w : Window}
    {before after : List (Except Failure (Member String))} {m m' : Member String} {key : DictKey}
    {place : Place} (hms : Container.dict.split w = .ok (before ++ .ok m :: after))
    (hm' : .ok m' ∈ after) (hkey : DictKey.ofText kind m.key = .ok key)
    (hkey' : DictKey.ofText kind m'.key = .ok key)
    (hbroken : Decode.Fails (item.read context m.value place)) :
    ReplacesBroken context (.dict kind item) w
  | entry {kind : ScalarKind} {item : Node} {w : Window}
    {ms : List (Except Failure (Member String))} {m : Member String}
    (hms : Container.dict.split w = .ok ms) (hm : .ok m ∈ ms)
    (h : ReplacesBroken context item m.value) : ReplacesBroken context (.dict kind item) w
  | item {item : Node} {w : Window} {ms : List (Except Failure (Member Unit))} {m : Member Unit}
    (hms : Container.list.split w = .ok ms) (hm : .ok m ∈ ms)
    (h : ReplacesBroken context item m.value) : ReplacesBroken context (.list item) w
  | nullable {inner : Node} {w : Window} (h : ReplacesBroken context inner w) :
    ReplacesBroken context (.nullable inner) w
  | property {className : String} {properties : List (PropertyNode Node)} {w w' : Window}
    {ms : List (Except Failure (Member String))} {p : PropertyNode Node}
    (hms : Container.dict.split w = .ok ms) (hp : p ∈ properties)
    (hlast : lastUnder? p.encodedName ms = some w') (h : ReplacesBroken context p.node w') :
    ReplacesBroken context (.object className properties) w
  | candidate {candidates : List (Candidate Node)} {discriminator : Option String} {w : Window}
    {c : Candidate Node}
    (hc : (Decode.choose context.registry candidates discriminator w).Answers c)
    (h : ReplacesBroken context c.node w) :
    ReplacesBroken context (.union candidates discriminator) w

/-! ## What steps return -/

namespace Decode

variable {α β : Type}

theorem returns_answers (x : Decode α) : Returns x.Answers x :=
  fun state _ state' h ↦ ⟨state, state', h⟩

theorem returns_found (outcome : Except Failure α) :
    Returns (fun a ↦ outcome = .ok a) (found outcome) := by
  cases outcome with
  | ok a => exact returns_pure rfl
  | error failure => exact returns_throw _

theorem returns_members {κ : Type} (c : Container κ) (w : Window) :
    Returns (fun ms ↦ c.split w = .ok ms) (members c w) := .bind fun _ ↦ returns_found _

/-- What is found under a name is the last member with it. -/
theorem returns_windows (place : Place) (ms : List (Except Failure (Member String)))
    (done : List (String × Window)) :
    Returns (fun texts ↦ ∀ name,
      Entries.find? texts name = (lastUnder? name ms).or (Entries.find? done name))
      (windows place ms done) := by
  induction ms generalizing done with
  | nil => exact returns_pure fun _ ↦ rfl
  | cons m ms ih =>
    cases m with
    | error failure => exact .bind fun _ ↦ ih done
    | ok m =>
      intro state texts state' hrun name
      rw [ih _ state texts state' hrun name, lastUnder?, Option.or_assoc, Entries.find?]
      split <;> rfl

theorem Returns.bind_of_returns {Q : α → Prop} {P : β → Prop} {x : Decode α} {f : α → Decode β}
    (hx : Returns Q x) (hf : ∀ a, Q a → Returns P (f a)) : Returns P (x >>= f) := by
  intro state b state' h
  cases hrun : x state with
  | ok a _ => exact hf a (hx _ _ _ hrun) _ _ _ ((bind_of_ok hrun).symm.trans h)
  | error _ _ => exact nomatch (bind_of_error (f := f) hrun).symm.trans h

theorem Returns.locate {P : α → Prop} {x : Decode α} (hx : Returns P x) (place : Place) :
    Returns P (locate place x) := by
  intro state a state' h
  cases hrun : x state with
  | ok b _ =>
    obtain ⟨rfl, -⟩ := EStateM.Result.ok.inj ((locate_of_ok hrun).symm.trans h)
    exact hx _ _ _ hrun
  | error _ _ => exact nomatch (locate_of_error hrun).symm.trans h

theorem Returns.orRecord {P : α → Prop} {x : Decode α} (hx : Returns P x) :
    Returns (fun o ↦ ∀ a, o = some a → P a) (orRecord x) := by
  intro state o state' h
  cases hrun : x state with
  | ok b _ =>
    obtain ⟨rfl, -⟩ := EStateM.Result.ok.inj ((orRecord_of_ok hrun).symm.trans h)
    rintro _ ⟨⟩
    exact hx _ _ _ hrun
  | error failure after =>
    cases hrecord : after.collector.record? failure with
    | none => exact nomatch (orRecord_of_error hrun hrecord).symm.trans h
    | some collector =>
      obtain ⟨rfl, -⟩ := EStateM.Result.ok.inj ((orRecord_of_recorded hrun hrecord).symm.trans h)
      exact fun _ h ↦ nomatch h

/-- The entry of a member of a dictionary. -/
abbrev entry (kind : ScalarKind) (item : Plan) (place : Place) (m : Member String) :
    Decode (DictKey × Value) :=
  locate (.entry m.key :: place) do
    let key ← found (DictKey.ofText kind m.key)
    return (key, ← value item m.value (.entry m.key :: place))

theorem fails_of_entry {kind : ScalarKind} {item : Plan} {place : Place} {m : Member String}
    {key : DictKey} (hkey : DictKey.ofText kind m.key = .ok key)
    (h : Fails (entry kind item place m)) :
    Fails (item.read m.value (.entry m.key :: place)) := by
  obtain ⟨state, failure, state', hstate, hrun⟩ := h
  cases hread : item.read m.value (.entry m.key :: place) state with
  | error inner after => exact ⟨state, inner, after, hstate, hread⟩
  | ok v after =>
    have hentry : entry kind item place m state = .ok (key, v) after := by
      refine locate_of_ok ?_
      rw [hkey]
      exact bind_of_ok (a := v) (locate_of_ok hread)
    exact nomatch hentry.symm.trans hrun

theorem returns_entry (kind : ScalarKind) (item : Plan) (place : Place) (m : Member String) :
    Returns (fun e ↦ DictKey.ofText kind m.key = .ok e.1) (entry kind item place m) := by
  refine Returns.locate ?_ _
  refine (returns_found _).bind_of_returns fun key hkey ↦ .bind fun v ↦ ?_
  exact returns_pure (P := fun e : DictKey × Value ↦ DictKey.ofText kind m.key = .ok e.1) hkey

/-- An entry is not replaced by entries under other keys. -/
theorem returns_entries {kind : ScalarKind} {item : Plan} {place : Place}
    {ms : List (Except Failure (Member String))} {e : DictKey × Value}
    (hkey : ∀ m, .ok m ∈ ms → DictKey.ofText kind m.key ≠ .ok e.1) {done : Entries DictKey Value}
    (he : e ∈ done) : Returns (e ∈ ·) (entries kind item place ms done) := by
  induction ms generalizing done with
  | nil => exact returns_pure he
  | cons m ms ih =>
    have htail : ∀ {done : Entries DictKey Value}, e ∈ done →
        Returns (e ∈ ·) (entries kind item place ms done) :=
      ih fun m hm ↦ hkey m (List.mem_cons_of_mem _ hm)
    cases m with
    | error failure => exact .bind fun _ ↦ htail he
    | ok m =>
      refine (returns_entry kind item place m).orRecord.bind_of_returns fun o ho ↦ ?_
      cases o with
      | none => exact htail he
      | some e' =>
        refine htail (Entries.mem_put_of_ne he (fun heq ↦ ?_) _)
        exact hkey m List.mem_cons_self (heq ▸ ho e' rfl)

end Decode

/-! ## Containers -/

/-- The steps mirror each other, and what the second one answers resolves to what the first one
does. -/
abbrev MirrorsValue (back : Prop) (x y : Decode Value) : Prop :=
  Mirrors back (fun v w ↦ w.ResolvesTo v) x y

namespace Mirrors

open Decode

variable {back : Prop} {part part' : Plan}

theorem items (hpart : ∀ w place, Keeps DecodeState.IsStrict (part.read w place))
    (hpart' : ∀ w place, Keeps DecodeState.IsStrict (part'.read w place)) (place : Place) (i : Nat)
    {ms : List (Except Failure (Member Unit))}
    (h : ∀ m, .ok m ∈ ms → ∀ place,
      MirrorsValue back (part.read m.value place) (part'.read m.value place)) :
    Mirrors back (List.Forall₂ fun v w ↦ w.ResolvesTo v) (items part place i ms)
      (items part' place i ms) := by
  induction ms generalizing i with
  | nil => exact pure .nil
  | cons m ms ih =>
    have hkeeps : ∀ {part : Plan}, (∀ w place, Keeps DecodeState.IsStrict (part.read w place)) →
        Keeps DecodeState.IsStrict (Decode.locate (.item i :: place) do
          Decode.value part (← found m).value (.item i :: place)) := by
      intro part hpart
      exact ((Keeps.closed DecodeState.isInvariant_isStrict).found m |>.bind fun m ↦
        Keeps.value hpart m.value _).locate _
    have hitem : MirrorsValue back
        (Decode.locate (.item i :: place) do
          Decode.value part (← found m).value (.item i :: place))
        (Decode.locate (.item i :: place) do
          Decode.value part' (← found m).value (.item i :: place)) := by
      refine (bind_same (closed.found m) (returns_found m) fun m' hm' ↦ ?_).locate _
      exact (h m' (hm' ▸ List.mem_cons_self) _).locate _
    have hitems := ih (i + 1) fun m hm ↦ h m (List.mem_cons_of_mem _ hm)
    refine congr (bind hitem (hkeeps hpart) (hkeeps hpart') (fun v w hvw ↦ ?_) fun _ w ↦ ?_)
      (fun s hs ↦ orRecord_bind_of_isStrict (hkeeps hpart) hs _)
      fun t ht ↦ orRecord_bind_of_isStrict (hkeeps hpart') ht _
    · refine bind hitems (Keeps.items DecodeState.isInvariant_isStrict hpart _ _ _)
        (Keeps.items DecodeState.isInvariant_isStrict hpart' _ _ _)
        (fun vs ws hvws ↦ pure (.cons hvw hvws)) fun _ ws ↦ returns_pure fun vs h ↦ ?_
      cases h with
      | cons _ h => exact ⟨_, h⟩
    · refine .bind fun ws ↦ returns_pure fun vs h ↦ ?_
      cases h with
      | cons h _ => exact ⟨_, h⟩

/-- An entry that is read differently by the two decoders is still there at the end, unless a later
entry replaces it. -/
theorem entries (hpart : ∀ w place, Keeps DecodeState.IsStrict (part.read w place))
    (hpart' : ∀ w place, Keeps DecodeState.IsStrict (part'.read w place)) (kind : ScalarKind)
    (place : Place) {ms : List (Except Failure (Member String))}
    (h : ∀ m, .ok m ∈ ms → ∀ place,
      MirrorsValue back (part.read m.value place) (part'.read m.value place))
    (hback : back → ∀ before m after m' key place, ms = before ++ .ok m :: after → .ok m' ∈ after →
      DictKey.ofText kind m.key = .ok key → DictKey.ofText kind m'.key = .ok key →
      ¬ Fails (part.read m.value place))
    {done done' : TypedJson.Entries DictKey Value}
    (hdone : List.Forall₂ (fun v w ↦ v.1 = w.1 ∧ w.2.ResolvesTo v.2) done done') :
    Mirrors back (List.Forall₂ fun v w ↦ v.1 = w.1 ∧ w.2.ResolvesTo v.2)
      (entries kind part place ms done) (entries kind part' place ms done') := by
  induction ms generalizing done done' with
  | nil => exact pure hdone
  | cons m ms ih =>
    have htail : ∀ {done done' : TypedJson.Entries DictKey Value},
        List.Forall₂ (fun v w ↦ v.1 = w.1 ∧ w.2.ResolvesTo v.2) done done' →
        Mirrors back (List.Forall₂ fun v w ↦ v.1 = w.1 ∧ w.2.ResolvesTo v.2)
          (Decode.entries kind part place ms done) (Decode.entries kind part' place ms done') := by
      refine ih (fun m hm ↦ h m (List.mem_cons_of_mem _ hm)) ?_
      intro hb before m after m' key place hms
      exact hback hb (_ :: before) m after m' key place (congrArg _ hms)
    cases m with
    | error failure => exact bind_same (record _) (returns_answers _) fun _ _ ↦ htail hdone
    | ok m =>
      have hkeeps : ∀ {part : Plan}, (∀ w place, Keeps DecodeState.IsStrict (part.read w place)) →
          Keeps DecodeState.IsStrict (entry kind part place m) := by
        intro part hpart
        exact ((Keeps.closed DecodeState.isInvariant_isStrict).found _ |>.bind fun key ↦
          (Keeps.value hpart m.value _).bind fun _ ↦ .pure _).locate _
      have hentry : Mirrors back (fun v w ↦ v.1 = w.1 ∧ w.2.ResolvesTo v.2)
          (entry kind part place m) (entry kind part' place m) := by
        refine (bind_same (closed.found _) (returns_found _) fun key _ ↦ ?_).locate _
        refine bind ((h m List.mem_cons_self _).locate _) (Keeps.value hpart _ _)
          (Keeps.value hpart' _ _) (fun v w hvw ↦ pure ⟨rfl, hvw⟩) fun _ w ↦ ?_
        exact returns_pure fun v hvw ↦ ⟨_, hvw.2⟩
      refine congr (bind_of_returns hentry (hkeeps hpart) (hkeeps hpart') (returns_entry _ _ _ _)
          (fun v w hvw _ ↦ ?_) fun hb hfails w hw ↦ ?_)
        (fun s hs ↦ orRecord_bind_of_isStrict (hkeeps hpart) hs _)
        fun t ht ↦ orRecord_bind_of_isStrict (hkeeps hpart') ht _
      · obtain ⟨key, v⟩ := v
        obtain ⟨_, w⟩ := w
        obtain ⟨rfl, hvw⟩ := hvw
        exact htail (Entries.forall₂_put (R := fun v w : Value ↦ w.ResolvesTo v) hdone key hvw)
      · have hkept : Returns (w ∈ ·)
            (Decode.entries kind part' place ms (Entries.put done' w.1 w.2)) := by
          refine returns_entries (fun m' hm' hkey' ↦ ?_) (Entries.mem_put_self _ _ _)
          exact hback hb [] m ms m' w.1 _ rfl hm' hw hkey' (fails_of_entry hw hfails)
        intro state ws state' hrun vs hvs
        obtain ⟨v, -, hvw⟩ := exists_of_forall₂_right hvs (hkept state ws state' hrun)
        exact ⟨v, hvw⟩

theorem windows (place : Place) (ms : List (Except Failure (Member String)))
    (done : List (String × Window)) : Mirrors back Eq (Decode.windows place ms done)
      (Decode.windows place ms done) := by
  induction ms generalizing done with
  | nil => exact pure rfl
  | cons m ms ih =>
    cases m with
    | error failure => exact bind_same (record _) (returns_answers _) fun _ _ ↦ ih done
    | ok m => exact ih _

end Mirrors

/-! ## Formatters -/

namespace Decode

/-- Formatters that are not looked up by name work on leaves and answer leaves. They depend on
nothing else, and do not see whether a value has been resolved. -/
theorem exists_apply {ref : FormatterRef} (href : ∀ name, ref ≠ .named name) (w : Value) :
    ∃ made : Except Failure Value, (∀ v, made = .ok v → v.IsResolved ∧ w.IsResolved) ∧
      ∀ formatters config, ref.apply formatters config w [] = (made, []) ∧
        ref.apply formatters config w.resolveDeep.1 [] = (made, []) := by
  cases ref with
  | named name => exact absurd rfl (href name)
  | dateTimeFormat pattern =>
    cases w with
    | null =>
      refine ⟨.ok .null, ?_, fun _ _ ↦ ⟨rfl, rfl⟩⟩
      rintro _ ⟨⟩
      exact ⟨.null, .null⟩
    | dateTime t =>
      refine ⟨_, fun v hv ↦ ?_, fun _ _ ↦ ⟨rfl, rfl⟩⟩
      obtain ⟨text, -, rfl⟩ := Outcome.map_eq_ok.mp (Outcome.mapError_eq_ok.mp hv)
      exact ⟨.string text, .dateTime t⟩
    | _ =>
      refine ⟨_, fun v hv ↦ ?_, fun _ _ ↦ ⟨rfl, rfl⟩⟩
      exact nomatch hv
  | dateTimeParse pattern =>
    cases w with
    | null =>
      refine ⟨.ok .null, ?_, fun _ _ ↦ ⟨rfl, rfl⟩⟩
      rintro _ ⟨⟩
      exact ⟨.null, .null⟩
    | string text =>
      refine ⟨_, fun v hv ↦ ?_, fun _ _ ↦ ⟨rfl, rfl⟩⟩
      obtain ⟨t, -, rfl⟩ := Outcome.map_eq_ok.mp (Outcome.mapError_eq_ok.mp hv)
      exact ⟨.dateTime t, .string text⟩
    | _ =>
      refine ⟨_, fun v hv ↦ ?_, fun _ _ ↦ ⟨rfl, rfl⟩⟩
      exact nomatch hv

theorem exists_format {ref : FormatterRef} (href : ∀ name, ref ≠ .named name) (w : Value) :
    ∃ made : Except Failure Value, (∀ v, made = .ok v → v.IsResolved ∧ w.IsResolved) ∧
      ∀ context, format context w ref = (do pay 0; found made) ∧
        format context w.resolveDeep.1 ref = (do pay 0; found made) := by
  obtain ⟨made, hmade, happly⟩ := exists_apply href w
  refine ⟨made, hmade, fun context ↦ ?_⟩
  obtain ⟨hw, hresolved⟩ := happly context.registry.formatters context.config
  unfold format
  rw [hw, hresolved]
  exact ⟨bind_congr fun _ ↦ bind_pure _, bind_congr fun _ ↦ bind_pure _⟩

end Decode

namespace Mirrors

open Decode

variable {back : Prop} {context context' : DecodeContext}

theorem foldlM_format {refs : List FormatterRef} (hrefs : ∀ name, .named name ∉ refs) {v w : Value}
    (hvw : w.ResolvesTo v) :
    MirrorsValue back (refs.foldlM (format context) v) (refs.foldlM (format context') w) := by
  induction refs generalizing v w with
  | nil => exact pure hvw
  | cons ref refs ih =>
    obtain ⟨made, hmade, hformat⟩ :=
      exists_format (fun name heq ↦ hrefs name (heq ▸ List.mem_cons_self)) w
    rw [List.foldlM_cons, List.foldlM_cons, (hformat context').1, ← hvw.1, (hformat context).2]
    refine bind_same (closed.bind (closed.pay 0) fun _ ↦ closed.found made)
      (.bind fun _ ↦ returns_found made) fun v hv ↦ ?_
    exact ih (fun name hname ↦ hrefs name (List.mem_cons_of_mem _ hname)) (hmade v hv).1.resolvesTo

/-- Only a value that is a leaf gets past a formatter. -/
theorem returns_foldlM_format {refs : List FormatterRef} (hrefs : ∀ name, .named name ∉ refs)
    (w : Value) : Returns (fun w' ↦ ∀ v, w'.ResolvesTo v → ∃ v, w.ResolvesTo v)
      (refs.foldlM (format context) w) := by
  cases refs with
  | nil => exact returns_pure fun v h ↦ ⟨v, h⟩
  | cons ref refs =>
    obtain ⟨made, hmade, hformat⟩ :=
      exists_format (fun name heq ↦ hrefs name (heq ▸ List.mem_cons_self)) w
    rw [List.foldlM_cons, (hformat context).1]
    refine Returns.bind_of_returns (.bind fun _ ↦ returns_found made) fun v hv ↦ ?_
    exact fun _ _ _ _ _ _ ↦ ⟨w, (hmade v hv).2.resolvesTo⟩

theorem field {p : PropertyNode Node} (hformatters : ∀ name, .named name ∉ p.formatters)
    {w : Window} {place : Place}
    (hp : MirrorsValue back (p.node.read context w place) (p.node.read context' w place)) :
    MirrorsValue back (field context (p.plan context) w place)
      (field context' (p.plan context') w place) := by
  have hrefs : ∀ name, .named name ∉ p.formatters.reverse :=
    fun name h ↦ hformatters name (List.mem_reverse.mp h)
  have hkeeps : ∀ context, Keeps DecodeState.IsStrict
      (Decode.value (p.node.plan context) w place) := fun context ↦
    (Keeps.node DecodeState.isInvariant_isStrict context p.node w place).locate place
  refine bind (hp.locate place) (hkeeps context) (hkeeps context') (fun v w' hvw ↦ ?_)
    fun _ w' ↦ ?_
  · rw [hvw.isNull_eq]
    split
    · exact pure hvw
    · exact (foldlM_format hrefs hvw).locate place
  · split
    · exact returns_pure fun v h ↦ ⟨v, h⟩
    · exact (returns_foldlM_format hrefs w').locate place

/-! ## Objects -/

/-- The steps have the same names and mirror each other. -/
def Steps (back : Prop) (steps steps' : FieldSteps) : Prop :=
  List.Forall₂ (fun step step' ↦ step.1 = step'.1 ∧ Keeps DecodeState.IsStrict step.2 ∧
    MirrorsValue back step.2 step'.2) steps steps'

theorem fieldSteps {properties : List (PropertyNode Node)}
    (hformatters : ∀ p ∈ properties, ∀ name, .named name ∉ p.formatters) (place : Place)
    {texts : List (String × Window)}
    (h : ∀ p ∈ properties, ∀ w, Entries.find? texts p.encodedName = some w → ∀ place,
      MirrorsValue back (p.node.read context w place) (p.node.read context' w place))
    {steps steps' : FieldSteps} (hsteps : Steps back steps steps') :
    Steps back (fieldSteps context place texts (properties.map (PropertyNode.plan context)) steps)
      (fieldSteps context' place texts (properties.map (PropertyNode.plan context')) steps') := by
  induction properties generalizing steps steps' with
  | nil => exact hsteps
  | cons p properties ih =>
    have hput : ∀ {x y : Decode Value}, Keeps DecodeState.IsStrict x → MirrorsValue back x y →
        Steps back (Entries.put steps p.sourceName x) (Entries.put steps' p.sourceName y) :=
      fun hkeeps hxy ↦ Entries.forall₂_put
        (R := fun x y ↦ Keeps DecodeState.IsStrict x ∧ MirrorsValue back x y) hsteps _ ⟨hkeeps, hxy⟩
    rw [fieldSteps_cons, fieldSteps_cons]
    refine ih (fun p hp ↦ hformatters p (List.mem_cons_of_mem _ hp))
      (fun p hp ↦ h p (List.mem_cons_of_mem _ hp)) ?_
    unfold fieldStep?
    cases hfind : Entries.find? texts p.encodedName with
    | some w =>
      refine hput ?_ (field (hformatters p List.mem_cons_self) (h p List.mem_cons_self w hfind _))
      exact .field DecodeState.isInvariant_isStrict _ _
        (Keeps.node DecodeState.isInvariant_isStrict context p.node) w _
    | none =>
      cases p.node.acceptsNull with
      | true => exact hput (.pure _) (.pure Value.IsResolved.null.resolvesTo)
      | false => exact hsteps

theorem readFields {steps steps' : FieldSteps} (h : Steps back steps steps') :
    Mirrors back (List.Forall₂ fun v w ↦ v.1 = w.1 ∧ w.2.ResolvesTo v.2) (readFields steps)
      (deferFields steps') := by
  induction h with
  | nil => exact pure .nil
  | @cons step step' steps steps' hstep hsteps ih =>
    obtain ⟨name, x⟩ := step
    obtain ⟨_, y⟩ := step'
    obtain ⟨rfl, hkeeps, hxy⟩ := hstep
    have hfields : Keeps.Fields DecodeState.IsStrict steps := by
      intro step hstep
      obtain ⟨_, -, -, hkeeps, -⟩ := exists_of_forall₂_left hsteps hstep
      exact hkeeps
    refine congr (bind hxy.later hkeeps (.later y) (fun v p hvp ↦ ?_) fun _ p ↦ ?_)
      (fun s hs ↦ orRecord_bind_of_isStrict hkeeps hs _) fun _ _ ↦ rfl
    · obtain ⟨w, hw, hvw⟩ := hvp
      refine bind ih (.readFields DecodeState.isInvariant_isStrict hfields) (.deferFields steps')
        (fun vs ws hvws ↦ ?_) fun _ ws ↦ ?_
      · exact pure (.cons ⟨rfl, Slot.resolvesTo_pending.mpr ⟨w, v, hw, rfl, hvw⟩⟩ hvws)
      · refine returns_pure fun vs h ↦ ?_
        cases h with
        | cons _ h => exact ⟨_, h⟩
    · refine .bind fun ws ↦ returns_pure fun vs h ↦ ?_
      cases h with
      | cons h _ =>
        obtain ⟨w, v, hw, -, hvw⟩ := Slot.resolvesTo_pending.mp h.2
        exact ⟨v, w, hw, hvw⟩

theorem object (heager : context.config.lazy = false) (hlazy : context'.config.lazy = true)
    (className : String) {properties : List (PropertyNode Node)}
    (hnames : (properties.map (·.encodedName)).Nodup)
    (hformatters : ∀ p ∈ properties, ∀ name, .named name ∉ p.formatters) {w : Window}
    {place : Place} (h : ∀ ms, Container.dict.split w = .ok ms → ∀ p ∈ properties, ∀ w',
      lastUnder? p.encodedName ms = some w' → ∀ place,
        MirrorsValue back (p.node.read context w' place) (p.node.read context' w' place)) :
    MirrorsValue back ((Node.object className properties).read context w place)
      ((Node.object className properties).read context' w place) := by
  -- Both find the same properties; what is read of them at once is what is put off.
  have hfields : Mirrors back (List.Forall₂ fun v w ↦ v.1 = w.1 ∧ w.2.ResolvesTo v.2)
      (do
        let steps ← loadFields context (properties.map (PropertyNode.plan context)) w place
        Decode.readFields steps)
      (do
        let steps ← loadFields context' (properties.map (PropertyNode.plan context')) w place
        deferFields steps) := by
    unfold loadFields
    simp only [bind_assoc, pure_bind]
    have hmembers : Keeps DecodeState.IsStrict (members .dict w) ∧
        Mirrors back Eq (members .dict w) (members .dict w) := closed.members .dict w
    refine bind_same ⟨hmembers.1.locate place, hmembers.2.locate place⟩
      ((returns_members .dict w).locate place) fun ms hms ↦ ?_
    refine bind_same ⟨.windows DecodeState.isInvariant_isStrict place ms [], windows place ms []⟩
      (returns_windows place ms []) fun texts htexts ↦ ?_
    refine readFields (fieldSteps hformatters place (fun p hp w' hfind ↦ ?_) .nil)
    rw [htexts, Entries.find?_nil, Option.or_none] at hfind
    exact h ms hms p hp w' hfind
  have hkeeps : ∀ p ∈ properties, ∀ w place,
      Keeps DecodeState.IsStrict (p.node.read context w place) :=
    fun p _ ↦ Keeps.node DecodeState.isInvariant_isStrict context p.node
  rw [read_object_of_eager heager, read_object_of_lazy hlazy]
  refine shape_bind ?_ fun shape hshape ↦
    bind hfields.later (.fields DecodeState.isInvariant_isStrict context hkeeps w place)
      (.later _) (fun vs found hvs ↦ ?_) fun _ found ↦ ?_
  · rw [List.map_map]
    exact hnames
  · obtain ⟨ws, hws, hvsws⟩ := hvs
    rw [hshape]
    exact pure (Value.resolvesTo_ghost.mpr ⟨ws, vs, hws, rfl, hvsws⟩)
  · refine returns_pure fun v h ↦ ?_
    obtain ⟨ws, vs, hws, -, hvsws⟩ := Value.resolvesTo_ghost.mp h
    exact ⟨vs, ws, hws, hvsws⟩

end Mirrors

/-! ## Leaves -/

namespace Decode

theorem returns_scalar (kind : ScalarKind) (w : Window) :
    Returns Value.IsResolved (scalar kind w) := by
  refine .bind fun json ↦ ?_
  intro state v state' hrun
  have hv := returns_found _ state v state' hrun
  unfold ScalarKind.ofJson at hv
  dsimp only at hv
  split at hv
  · cases hv
  · split at hv
    · cases hv
      exact .int _
    · cases hv
  · cases hv
    exact .float _
  · cases hv
    exact .bool _
  · cases hv
    exact .string _
  · cases hv

theorem returns_enumCase (registry : Registry) (className : String) (backing : ScalarKind)
    (w : Window) : Returns Value.IsResolved (enumCase registry className backing w) := by
  unfold enumCase
  cases Entries.find? registry.enums className with
  | none => exact returns_throw _
  | some e =>
    refine (returns_scalar backing w).bind_of_returns fun case hcase ↦ ?_
    have haccept : ∀ (value : Json) (refused : Failure), Returns Value.IsResolved
        (if e.accepts value then pure (Value.enum className case) else throw refused) := by
      intro value refused
      split
      · exact returns_pure (.enum hcase)
      · exact returns_throw _
    cases case with
    | int i => exact haccept _ _
    | string s => exact haccept _ _
    | _ => exact returns_throw _

end Decode

/-! ## Nodes -/

/-- The contexts have one registry, and make objects at once and later. -/
structure DecodeContext.Defers (context context' : DecodeContext) : Prop where
  registry : context.registry = context'.registry
  eager : context.config.lazy = false
  lazy : context'.config.lazy = true

namespace Mirrors

open Decode

variable {back : Prop} {context context' : DecodeContext}

/-- What a leaf is read as has nothing left to read. -/
theorem of_leaf {x : Decode Value} (hx : Keeps DecodeState.IsStrict x ∧ Mirrors back Eq x x)
    (hresolved : Returns Value.IsResolved x) : MirrorsValue back x x := by
  rw [← bind_pure x]
  exact bind_same hx hresolved fun v hv ↦ pure hv.resolvesTo

/-- **A lazy decoder mirrors an eager one** on every node, going back unless the eager one fails at
an entry that is replaced. -/
theorem node (hcontext : context.Defers context') {node : Node} (hnode : node.IsDeferrable)
    {w : Window} (hback : back → ¬ node.ReplacesBroken context w) (place : Place) :
    MirrorsValue back (node.read context w place) (node.read context' w place) := by
  have hkeeps : ∀ (context : DecodeContext) (node : Node) (w : Window) (place : Place),
      Keeps DecodeState.IsStrict (node.read context w place) :=
    Keeps.node DecodeState.isInvariant_isStrict
  induction node using Node.induction generalizing w place with
  | scalar kind => exact of_leaf (closed.scalar kind w) (returns_scalar kind w)
  | null =>
    refine bind_same (closed.json w) (returns_answers _) fun json _ ↦ ?_
    cases json with
    | null => exact pure Value.IsResolved.null.resolvesTo
    | _ => exact throw _ _
  | mixed =>
    exact bind_same (closed.json w) (returns_answers _)
      fun json _ ↦ pure (Value.isResolved_ofJson json).resolvesTo
  | nullable inner ih =>
    cases hnode with
    | nullable hinner =>
      refine bind_same (closed.look w) (returns_answers _) fun _ _ ↦ ?_
      split
      · exact pure Value.IsResolved.null.resolvesTo
      · exact (ih hinner (fun hb h ↦ hback hb (.nullable h)) place).locate place
  | list item ih =>
    cases hnode with
    | list hitem =>
      refine bind_same (closed.members .list w) (returns_members .list w) fun ms hms ↦ ?_
      have hitems : Mirrors back (List.Forall₂ fun v w ↦ w.ResolvesTo v)
          (Decode.items (item.plan context) place 0 ms)
          (Decode.items (item.plan context') place 0 ms) :=
        items (hkeeps context item) (hkeeps context' item) place 0
          fun m hm place ↦ ih hitem (fun hb h ↦ hback hb (.item hms hm h)) place
      refine bind hitems (.items DecodeState.isInvariant_isStrict (hkeeps context item) place 0 ms)
        (.items DecodeState.isInvariant_isStrict (hkeeps context' item) place 0 ms)
        (fun vs ws hvws ↦ pure (Value.resolvesTo_list.mpr ⟨vs, rfl, hvws⟩)) fun _ ws ↦ ?_
      refine returns_pure fun v h ↦ ?_
      obtain ⟨vs, -, hvws⟩ := Value.resolvesTo_list.mp h
      exact ⟨vs, hvws⟩
  | dict key item ih =>
    cases hnode with
    | dict hitem =>
      refine bind_same (closed.members .dict w) (returns_members .dict w) fun ms hms ↦ ?_
      have hentries : Mirrors back (List.Forall₂ fun v w ↦ v.1 = w.1 ∧ w.2.ResolvesTo v.2)
          (Decode.entries key (item.plan context) place ms [])
          (Decode.entries key (item.plan context') place ms []) := by
        refine entries (hkeeps context item) (hkeeps context' item) key place
          (fun m hm place ↦ ih hitem (fun hb h ↦ hback hb (.entry hms hm h)) place) ?_ .nil
        exact fun hb before m after m' k place heq hm' hk hk' hfails ↦
          hback hb (.here (heq ▸ hms) hm' hk hk' hfails)
      refine bind hentries
        (.entries DecodeState.isInvariant_isStrict (hkeeps context item) key place ms [])
        (.entries DecodeState.isInvariant_isStrict (hkeeps context' item) key place ms [])
        (fun vs ws hvws ↦ pure (Value.resolvesTo_dict.mpr ⟨vs, rfl, hvws⟩)) fun _ ws ↦ ?_
      refine returns_pure fun v h ↦ ?_
      obtain ⟨vs, -, hvws⟩ := Value.resolvesTo_dict.mp h
      exact ⟨vs, hvws⟩
  | object className properties ih =>
    cases hnode with
    | object hnames hformatters hproperties =>
      exact object hcontext.eager hcontext.lazy className hnames hformatters
        fun ms hms p hp w' hlast place ↦ ih p hp (hproperties p hp)
          (fun hb h ↦ hback hb (.property hms hp hlast h)) place
  | union candidates discriminator ih =>
    cases hnode with
    | union hcandidates =>
      rw [read_union, read_union, ← hcontext.registry]
      refine bind_same (P := fun c ↦ c ∈ candidates ∧ Answers _ c)
        (closed.choose _ candidates discriminator w)
        (fun s c s' hrun ↦ ⟨returns_choose _ _ _ _ s c s' hrun, s, s', hrun⟩) fun c hc ↦ ?_
      exact (ih c hc.1 (hcandidates c hc.1) (fun hb h ↦ hback hb (.candidate hc.2 h))
        place).locate place
  | enum className backing =>
    have henum : MirrorsValue back (Decode.enumCase context.registry className backing w)
        (Decode.enumCase context.registry className backing w) :=
      of_leaf (closed.enumCase _ _ _ _) (returns_enumCase _ _ _ _)
    simp only [Node.read, ← hcontext.registry]
    exact henum
  | dateTime pattern =>
    refine bind_same (closed.scalar .string w) (returns_scalar .string w) fun v hv ↦ ?_
    have hformat : MirrorsValue back ([.dateTimeParse pattern].foldlM (format context) v)
        ([.dateTimeParse pattern].foldlM (format context') v) :=
      foldlM_format (fun name h ↦ by simp at h) hv.resolvesTo
    simpa only [List.foldlM_cons, List.foldlM_nil, bind_pure] using hformat

end Mirrors

/-! ## Texts -/

/-- A lazy decoder reads nothing of an object. -/
theorem Decode.exists_read_object {context : DecodeContext} (hlazy : context.config.lazy = true)
    (className : String) {properties : List (PropertyNode Node)}
    (hnames : (properties.map (·.encodedName)).Nodup) (w : Window) (place : Place)
    {state : DecodeState} (hshapes : state.shapes.IsSound) :
    ∃ v shapes, (Node.object className properties).read context w place state =
      .ok v { state with shapes } := by
  have hlayout : ((properties.map fun p ↦ (p.sourceName, p.encodedName)).map (·.2)).Nodup := by
    rw [List.map_map]
    exact hnames
  obtain ⟨known, -, hshape⟩ := exists_shape hshapes className hlayout
  rw [read_object_of_lazy hlazy, bind_of_ok hshape]
  obtain ⟨found, hlater⟩ := exists_later (do
    let steps ← loadFields context (properties.map (PropertyNode.plan context)) w place
    deferFields steps) _
  rw [bind_of_ok hlater]
  exact ⟨_, _, rfl⟩

/-- **Decoding later comes to the same.** What an eager decoder answers is what the lazy decoder's
answer resolves to. If the lazy decoder's answer resolves to a value, the eager decoder answers it,
unless it fails at an entry of a dictionary that a later entry under the same key replaces. A lazy
decoder of objects always answers one, and reads nothing. -/
theorem Node.decode_lazy {root : Node} (hroot : root.IsDeferrable) (registry : Registry)
    (config : Config) {shapes : GhostShapes} (hshapes : shapes.IsSound) (bytes : List UInt8) :
    let eager : Config := { config with lazy := false, collectErrors := false }
    let eagerly := (root.decode registry eager shapes bytes).1
    let lazily := (root.decode registry { eager with lazy := true } shapes bytes).1
    (∀ v, eagerly.map (·.value) = .ok v →
      ∃ w, lazily.map (·.value) = .ok w ∧ w.ResolvesTo v) ∧
    (¬ root.ReplacesBroken ⟨registry, eager⟩ (Window.whole bytes) →
      ∀ w v, lazily.map (·.value) = .ok w → w.ResolvesTo v → eagerly.map (·.value) = .ok v) ∧
    ∀ className properties, root = .object className properties → ∃ w, lazily = .ok ⟨w, [], 0⟩ := by
  intro eager eagerly lazily
  let begun : DecodeState := { collector := { isEnabled := false }, shapes }
  have hbegun : begun.IsStrict := ⟨rfl, hshapes⟩
  have hdefers : DecodeContext.Defers ⟨registry, eager⟩ ⟨registry, { eager with lazy := true }⟩ :=
    ⟨rfl, rfl, rfl⟩
  have hnode := Mirrors.node hdefers hroot (w := Window.whole bytes) (fun h ↦ h) []
  have hagree : (∀ v, eagerly.map (·.value) = .ok v →
      ∃ w, lazily.map (·.value) = .ok w ∧ w.ResolvesTo v) ∧
      (¬ root.ReplacesBroken ⟨registry, eager⟩ (Window.whole bytes) →
        ∀ w v, lazily.map (·.value) = .ok w → w.ResolvesTo v → eagerly.map (·.value) = .ok v) := by
    cases hnode.locate [] begun begun hbegun hbegun with
    | @alike a b _ _ hx hy hab =>
      have heagerly : eagerly = _ := Node.decode_of_ok hx
      have hlazily : lazily = _ := Node.decode_of_ok hy
      rw [heagerly, hlazily]
      refine ⟨?_, ?_⟩
      · rintro _ ⟨⟩
        exact ⟨b, rfl, hab⟩
      · rintro _ w v ⟨⟩ hv
        exact congrArg Except.ok (hab.1.symm.trans hv.1)
    | broken hx hback =>
      have heagerly : eagerly = _ := Node.decode_of_error hx
      rw [heagerly]
      refine ⟨fun _ h ↦ (nomatch h), fun hb w v hw hv ↦ ?_⟩
      cases hy : Decode.value (root.plan ⟨registry, { eager with lazy := true }⟩)
        (Window.whole bytes) [] begun with
      | ok b t' =>
        have hlazily : lazily = _ := Node.decode_of_ok hy
        rw [hlazily] at hw
        cases hw
        exact absurd hv (hback hb v b t' hy)
      | error failure t' =>
        have hlazily : lazily = _ := Node.decode_of_error hy
        rw [hlazily] at hw
        cases hw
  refine ⟨hagree.1, hagree.2, ?_⟩
  rintro className properties rfl
  cases hroot with
  | object hnames _ _ =>
    obtain ⟨w, shapes', hrun⟩ := Decode.exists_read_object hdefers.lazy className hnames
      (Window.whole bytes) [] hbegun.shapes
    have hlazily : lazily = _ := Node.decode_of_ok (Decode.locate_of_ok hrun)
    exact ⟨w, hlazily⟩

/-- The node of a class with an integer. -/
def pointNode : Node := .object "P" [⟨"x", "x", .field "x", [], .scalar .int⟩]

theorem isDeferrable_pointNode : pointNode.IsDeferrable := by
  refine .object (by decide) (fun p hp name ↦ ?_) fun p hp ↦ ?_
  · cases List.mem_singleton.mp hp
    exact List.not_mem_nil
  · cases List.mem_singleton.mp hp
    exact .scalar .int

/-- An object of that class, made at a place. -/
def pointAt (place : Place) (x : Int64) : Value :=
  .object ⟨.decoded place, "P", .ready [("x", .initialized (.int x))]⟩

theorem isResolved_pointAt (place : Place) (x : Int64) : (pointAt place x).IsResolved :=
  Value.isResolved_ready.mpr fun _ hslot ↦ List.mem_singleton.mp hslot ▸ .int x

/-- The object in `{"x":1}` is made without reading anything, and resolves to the one that an eager
decoder makes. -/
theorem decode_lazy_point :
    let bytes : List UInt8 := [0x7B, 0x22, 0x78, 0x22, 0x3A, 0x31, 0x7D]
    let lazily := (pointNode.decode {} { lazy := true } [] bytes).1
    (∃ w, lazily.map (·.value) = .ok w ∧ w.ResolvesTo (pointAt [] 1)) ∧
    (∀ w v, lazily.map (·.value) = .ok w → w.ResolvesTo v →
      (pointNode.decode {} {} [] bytes).1.map (·.value) = .ok v) ∧
    ∃ w, lazily = .ok ⟨w, [], 0⟩ := by
  intro bytes lazily
  have hintact : ¬ pointNode.ReplacesBroken ⟨{}, {}⟩ (Window.whole bytes) := by
    intro h
    rw [pointNode] at h
    cases h with
    | property _ hp _ h =>
      cases List.mem_singleton.mp hp
      cases h
  obtain ⟨hresolves, hback, hreads⟩ :=
    Node.decode_lazy isDeferrable_pointNode {} {} GhostShapes.isSound_nil bytes
  exact ⟨hresolves _ (by with_unfolding_all rfl), hback hintact, hreads _ _ rfl⟩

/-- In `{"a":{"x":true},"a":{"x":1}}` the first entry is broken. The eager decoder fails at it; the
lazy decoder has put the second entry in its place before anything is read. -/
theorem decode_lazy_replaced :
    let root := Node.dict .string pointNode
    let bytes : List UInt8 := [0x7B, 0x22, 0x61, 0x22, 0x3A,
      0x7B, 0x22, 0x78, 0x22, 0x3A, 0x74, 0x72, 0x75, 0x65, 0x7D, 0x2C, 0x22, 0x61, 0x22, 0x3A,
      0x7B, 0x22, 0x78, 0x22, 0x3A, 0x31, 0x7D, 0x7D]
    root.IsDeferrable ∧
    (root.decode {} {} [] bytes).1 =
      .error (.placed (some "$.a.x") (.unexpectedValue "int" "bool")) ∧
    ∃ w, (root.decode {} { lazy := true } [] bytes).1.map (·.value) = .ok w ∧
      w.ResolvesTo (.dict [(.string "a", pointAt [.entry "a"] 1)]) := by
  refine ⟨.dict isDeferrable_pointNode, by with_unfolding_all rfl, _, by with_unfolding_all rfl,
    by with_unfolding_all rfl, .dict fun entry hentry ↦ ?_⟩
  cases List.mem_singleton.mp hentry
  exact isResolved_pointAt _ _

end TypedJson
