import TypedJson.Proofs.Model.Keeping
import TypedJson.Proofs.Serializer.Calls

/-!
# Replacing the stages

Two caches stand between the stages and an artifact. An artifact is kept under bytes that name the
stages, so that one that other stages have led to is not found again. Loaded properties are kept
under bytes that do not name them, so that those of other stages are found, and go into the
artifacts that are built from then on.

Apart from that, replacing the stages takes effect: as long as the properties that are kept are
those that the new stages load, a serializer answers like a new one (`answers_withPipeline`). It
always does if it has been cleared (`answers_withPipeline_clear`).
-/

namespace TypedJson

/-! ## Caches that grow -/

namespace MetadataCache

/-- The second cache has whatever the first one has. -/
def Extends (m n : MetadataCache) : Prop :=
  ∀ feed properties, Entries.find? m feed = some properties →
    Entries.find? n feed = some properties

theorem Extends.refl (m : MetadataCache) : m.Extends m := fun _ _ h ↦ h

theorem Extends.trans {m n o : MetadataCache} (h : m.Extends n) (h' : n.Extends o) : m.Extends o :=
  fun feed properties hfind ↦ h' feed properties (h feed properties hfind)

/-- What is kept for a request is not loaded again. -/
theorem Extends.load {m n : MetadataCache} (h : m.Extends n) (pipeline : Pipeline)
    (request : MetadataRequest) : m.Extends (n.load pipeline request).2 := by
  intro feed properties hfind
  unfold MetadataCache.load
  cases hfound : Entries.find? n request.feed with
  | some found => exact h feed properties hfind
  | none =>
    cases pipeline.load request with
    | error error => exact h feed properties hfind
    | ok loaded =>
      have hne : request.feed ≠ feed := by
        rintro rfl
        rw [h _ _ hfind] at hfound
        cases hfound
      exact (Entries.find?_put_of_ne _ _ hne).trans (h feed properties hfind)

variable {r : Registry} {used : Config → Prop} {pipeline : Pipeline}

theorem IsCurrent.of_extends {m n : MetadataCache} (hn : n.IsCurrent r used pipeline)
    (h : m.Extends n) : m.IsCurrent r used pipeline :=
  fun p hp properties hfind ↦ hn p hp properties (h _ _ hfind)

end MetadataCache

/-- The call asks for an encoder or a decoder, of a type and with options of a kind. -/
def Call.Asks (P : DataType → Config → Prop) : Call → Prop
  | .encoder t config | .decoder t config => P t config
  | .warmUp _ | .clear | .purge => False

theorem Call.Asks.mono {P Q : DataType → Config → Prop} {call : Call} (h : call.Asks P)
    (hPQ : ∀ t c, P t c → Q t c) : call.Asks Q := by
  cases call with
  | encoder t config | decoder t config => exact hPQ t config h
  | warmUp | clear | purge => exact h.elim

theorem Call.Asks.exists_artifact {P : DataType → Config → Prop} {call : Call} (h : call.Asks P) :
    ∃ t direction c, P t c ∧ ∀ s : Serializer,
      s.call call = (.artifact (s.artifact t direction c).1, (s.artifact t direction c).2) := by
  cases call with
  | encoder t config => exact ⟨t, .encode, config, h, fun _ ↦ rfl⟩
  | decoder t config => exact ⟨t, .decode, config, h, fun _ ↦ rfl⟩
  | warmUp | clear | purge => exact h.elim

namespace Serializer

open Fingerprint

variable {r : Registry} {p : Pipeline} {s s' : Serializer} {c d : Config} {t u : DataType}
  {direction other : Direction}

/-- The serializer after calls, each of which is made with stages of its own. -/
def afterCalls (s : Serializer) (steps : List (Pipeline × Call)) : Serializer :=
  steps.foldl (fun s step ↦ ((s.withPipeline step.1).call step.2).2) s

theorem afterCalls_cons (s : Serializer) (step : Pipeline × Call) (steps : List (Pipeline × Call)) :
    s.afterCalls (step :: steps) = ((s.withPipeline step.1).call step.2).2.afterCalls steps := rfl

/-! ## Keys name the stages -/

theorem eq_of_stage_name {a b : Stage} (h : a.name = b.name) : a = b := by
  cases a <;> cases b <;> first | rfl | exact absurd h (by decide)

theorem stages_inj {p q : Pipeline} (h : (p.flatMap fun stage ↦ text stage.name) =
    q.flatMap fun stage ↦ text stage.name) : p = q := by
  have hnames : (p.map Stage.name).flatMap text = (q.map Stage.name).flatMap text := by
    rw [List.flatMap_map, List.flatMap_map]
    exact h
  exact List.map_injective_iff.mpr (fun _ _ ↦ eq_of_stage_name) (flatMap_text_inj hnames)

/-- What a key determines, if it is one for options without hooks. -/
theorem key_inj (hc : c.IsProper) (hd : d.IsHookless)
    (h : s.key t direction c = s'.key u other d) :
    c.IsHookless ∧ t.text = u.text ∧ direction = other ∧ c.feed = d.feed ∧
      s.pipeline = s'.pipeline := by
  have hhooks : c.hooks.isEmpty = true := (congrArg CodecKey.isDurable h).trans hd.hooks
  have hfeed : s.feed t direction c = s'.feed u other d := congrArg CodecKey.id h
  simp only [feed, List.append_assoc] at hfeed
  -- One part after another is read off the front. The hooks, which have no end of their own, are
  -- none on either side.
  obtain ⟨htext, hfeed⟩ := text_append_inj hfeed
  obtain ⟨hdir, hfeed⟩ := text_append_inj hfeed
  obtain ⟨hconfig, hfeed⟩ :=
    Config.feed_append_inj_of_isEmpty hc.groups hd.proper.groups hhooks hd.hooks hfeed
  obtain ⟨-, hfeed⟩ := word_append_inj hfeed
  exact ⟨⟨hc, hhooks⟩, htext, Direction.eq_of_name hdir, hconfig, stages_inj hfeed⟩

/-! ## Building over current properties -/

/-- What bytes tell apart over a registry and stages, if there are no hooks. -/
structure IsRegular (r : Registry) (p : Pipeline) : Prop where
  closes : p.Closes
  formatters : r.HasSettledFormatters

theorem IsRegular.paired (h : IsRegular r p) (hc : c.IsHookless) (hd : d.IsHookless)
    (hfeed : c.feed = d.feed) : Config.Paired r p Config.IsHookless c d where
  loads _ _ hp hq := hp.load_eq_of_isEmpty hq hp.config.hooks hq.config.hooks
    Config.areSeparate_isHookless
  types _ _ hp := hp.hasTypes h.closes h.formatters
  formatters _ name input output htypes :=
    have hboth := h.formatters name input output htypes
    ⟨fun _ ↦ hboth.1, fun _ ↦ hboth.2⟩
  hooks hook hmem := by
    rw [List.isEmpty_iff.mp (Bool.and_eq_true_iff.mp hc.hooks).1] at hmem
    exact absurd hmem List.not_mem_nil
  left := hc
  right := hd
  agrees := Config.areSeparate_isHookless.agrees hc hd hfeed

/-- Over properties that the stages load, what is built is what a new serializer builds, also for
other options with the same bytes. -/
theorem build_eq_built (h : IsRegular r p) (hs : s.registry = r ∧ s.pipeline = p)
    (ht : r.Denotes t) (hc : c.IsHookless) (hd : d.IsHookless) (hfeed : c.feed = d.feed)
    (direction : Direction) {m : MetadataCache} (hm : m.IsCurrent r Config.IsHookless p) :
    (s.build t direction c m).1 = built r p t direction d ∧
      (s.build t direction c m).2.IsCurrent r Config.IsHookless p := by
  have hpaired := h.paired hc hd hfeed
  exact build_eq s (fresh r p) hs ⟨rfl, rfl⟩ Config.areSeparate_isHookless hpaired
    (MetadataCache.answersLike_isCurrent hpaired.loads) ht direction hm
    MetadataCache.isCurrent_nil

/-! ## Artifacts for the new stages -/

/-- Whatever artifact is kept for the stages `p` is what a new serializer builds. Nothing is said of
the properties that are kept, nor of artifacts for other stages. -/
structure HoldsFor (r : Registry) (p : Pipeline) (s : Serializer) : Prop where
  registry : s.registry = r
  directory : s.codecs.directory = none
  codecs : ∀ t direction c a, r.Denotes t → c.IsHookless →
    Entries.find? s.codecs.memory ((fresh r p).key t direction c) = some a →
      built r p t direction c = .ok a

theorem holdsFor_fresh (before p : Pipeline) : HoldsFor r p (fresh r before) where
  registry := rfl
  directory := rfl
  codecs _ _ _ _ _ _ h := nomatch h

/-- Asking for an artifact keeps the artifacts for `p`. Under `p` itself the type has to be one of
the registry, and the properties have to be those that `p` loads; under other stages anything may be
asked for. -/
theorem HoldsFor.artifact (hs : HoldsFor r p s) (h : IsRegular r p) (hc : c.IsProper)
    (hsame : s.pipeline = p → r.Denotes t ∧ s.metadata.IsCurrent r Config.IsHookless p)
    (direction : Direction) : HoldsFor r p (s.artifact t direction c).2 := by
  rw [artifact_eq hs.directory]
  cases Entries.find? s.codecs.memory (s.key t direction c) with
  | some a => exact hs
  | none =>
    rcases hbuild : s.build t direction c s.metadata with ⟨failure | a, metadata⟩
    · exact ⟨hs.registry, hs.directory, hs.codecs⟩
    refine ⟨hs.registry, hs.directory, fun u other d found hu hd hfind ↦ ?_⟩
    change Entries.find? (Entries.put s.codecs.memory (s.key t direction c) a) _ = _ at hfind
    by_cases hkey : s.key t direction c = (fresh r p).key u other d
    · -- The new artifact is the one that is found, so it was built under the new stages.
      rw [hkey, Entries.find?_put_self] at hfind
      obtain ⟨hcHooks, htext, rfl, hfeed, hpipeline⟩ := key_inj hc hd hkey
      obtain ⟨ht, hcurrent⟩ := hsame hpipeline
      obtain rfl : t = u := ht.eq_of_text hu htext
      rw [← (build_eq_built h ⟨hs.registry, hpipeline⟩ ht hcHooks hd hfeed direction hcurrent).1,
        hbuild, Option.some.inj hfind]
    · rw [Entries.find?_put_of_ne _ _ hkey] at hfind
      exact hs.codecs u other d found hu hd hfind

/-- Asking for an artifact forgets no properties. -/
theorem extends_artifact (hdirectory : s.codecs.directory = none) (t : DataType)
    (direction : Direction) (c : Config) :
    (s.artifact t direction c).2.codecs.directory = none ∧
      s.metadata.Extends (s.artifact t direction c).2.metadata := by
  have hbuild : s.metadata.Extends (s.build t direction c s.metadata).2 := by
    unfold build
    cases c.circularPolicy with
    | error error => exact .refl _
    | ok policy =>
      exact buildNode_keeps s.registry c direction (fun _ _ h ↦ h.load _ _) (.refl _) policy t
  rw [artifact_eq hdirectory]
  cases Entries.find? s.codecs.memory (s.key t direction c) with
  | some a => exact ⟨hdirectory, .refl _⟩
  | none =>
    rcases hb : s.build t direction c s.metadata with ⟨failure | a, metadata⟩
    · rw [hb] at hbuild
      exact ⟨hdirectory, hbuild⟩
    · rw [hb] at hbuild
      exact ⟨hdirectory, hbuild⟩

/-! ## Histories -/

theorem extends_afterCalls {steps : List (Pipeline × Call)} (hdirectory : s.codecs.directory = none)
    (hsteps : ∀ step ∈ steps, step.2.Asks fun _ _ ↦ True) :
    s.metadata.Extends (s.afterCalls steps).metadata := by
  induction steps generalizing s with
  | nil => exact .refl _
  | cons step steps ih =>
    obtain ⟨hstep, hsteps⟩ := List.forall_mem_cons.mp hsteps
    obtain ⟨t, direction, c, -, hcall⟩ := hstep.exists_artifact
    obtain ⟨hafter, hgrows⟩ :=
      extends_artifact (s := s.withPipeline step.1) hdirectory t direction c
    rw [afterCalls_cons, hcall]
    exact hgrows.trans (ih hafter hsteps)

/-- A call under stages of its own that a history may hold. -/
def MayPrecede (r : Registry) (p : Pipeline) (step : Pipeline × Call) : Prop :=
  step.2.Asks fun t c ↦ c.IsProper ∧ (step.1 = p → ∃ text, r.resolve text [] = .ok t)

/-- A history leaves artifacts for `p` that a new serializer builds, if the properties that it
leaves are those that `p` loads. -/
theorem HoldsFor.afterCalls (hs : HoldsFor r p s) (h : IsRegular r p)
    {steps : List (Pipeline × Call)} (hsteps : ∀ step ∈ steps, MayPrecede r p step)
    (hcurrent : (s.afterCalls steps).metadata.IsCurrent r Config.IsHookless p) :
    HoldsFor r p (s.afterCalls steps) := by
  induction steps generalizing s with
  | nil => exact hs
  | cons step steps ih =>
    -- Nothing is forgotten on the way, so what is current at the end has been from the start.
    have hstart : s.metadata.IsCurrent r Config.IsHookless p :=
      hcurrent.of_extends (extends_afterCalls hs.directory fun step hstep ↦
        (hsteps step hstep).mono fun _ _ _ ↦ trivial)
    obtain ⟨hstep, hsteps⟩ := List.forall_mem_cons.mp hsteps
    obtain ⟨t, direction, c, ⟨hc, htype⟩, hcall⟩ := hstep.exists_artifact
    have hbegun : HoldsFor r p (s.withPipeline step.1) := ⟨hs.registry, hs.directory, hs.codecs⟩
    rw [afterCalls_cons, hcall] at hcurrent ⊢
    refine ih (hbegun.artifact h hc (fun hsame ↦ ?_) direction) hsteps hcurrent
    obtain ⟨text, ht⟩ := htype hsame
    exact ⟨Registry.denotes_of_resolve ht, hstart⟩

/-! ## Answers -/

/-- A serializer with the stages `p` whose properties are those that `p` loads answers a call like a
new one, and stays like that. -/
theorem HoldsFor.answer (hs : HoldsFor r p s) (h : IsRegular r p) (hpipeline : s.pipeline = p)
    (hcurrent : s.metadata.IsCurrent r Config.IsHookless p) (ht : r.Denotes t) (hc : c.IsHookless)
    (direction : Direction) :
    (s.artifact t direction c).1 = built r p t direction c ∧
      (s.artifact t direction c).2.pipeline = p ∧
        (s.artifact t direction c).2.metadata.IsCurrent r Config.IsHookless p := by
  have hkey : s.key t direction c = (fresh r p).key t direction c := by
    unfold key feed
    rw [hs.registry, hpipeline]
    rfl
  obtain ⟨hbuild, hkept⟩ :=
    build_eq_built h ⟨hs.registry, hpipeline⟩ ht hc hc rfl direction hcurrent
  rw [artifact_eq hs.directory]
  cases hfind : Entries.find? s.codecs.memory (s.key t direction c) with
  | some a =>
    rw [hkey] at hfind
    exact ⟨(hs.codecs t direction c a ht hc hfind).symm, hpipeline, hcurrent⟩
  | none =>
    rcases hb : s.build t direction c s.metadata with ⟨failure | a, metadata⟩
    · rw [hb] at hbuild hkept
      exact ⟨hbuild, hpipeline, hkept⟩
    · rw [hb] at hbuild hkept
      exact ⟨hbuild, hpipeline, hkept⟩

/-- A call for a type of the registry, without hooks. -/
def IsAnswered (r : Registry) : Call → Prop :=
  Call.Asks fun t c ↦ (∃ text, r.resolve text [] = .ok t) ∧ c.IsHookless

theorem HoldsFor.answers (hs : HoldsFor r p s) (h : IsRegular r p) (hpipeline : s.pipeline = p)
    (hcurrent : s.metadata.IsCurrent r Config.IsHookless p) {calls : List Call}
    (hcalls : ∀ call ∈ calls, IsAnswered r call) :
    s.answers calls = calls.map fun call ↦ ((fresh r p).call call).1 := by
  induction calls generalizing s with
  | nil => rfl
  | cons call calls ih =>
    obtain ⟨hcall, hcalls⟩ := List.forall_mem_cons.mp hcalls
    obtain ⟨t, direction, c, ⟨⟨text, ht⟩, hc⟩, hartifact⟩ := hcall.exists_artifact
    have hden := Registry.denotes_of_resolve ht
    obtain ⟨hanswer, hpipeline', hcurrent'⟩ := hs.answer h hpipeline hcurrent hden hc direction
    have hnew : HoldsFor r p (fresh r p) := holdsFor_fresh p p
    obtain ⟨hfresh, -⟩ := hnew.answer h rfl MetadataCache.isCurrent_nil hden hc direction
    have hs' := hs.artifact h hc.proper (fun _ ↦ ⟨hden, hcurrent⟩) direction
    rw [Serializer.answers, List.map_cons, hartifact, hartifact, hanswer, hfresh,
      ih hs' hpipeline' hcurrent' hcalls]

/-- Replacing the stages takes effect, whatever has been asked for under whichever stages, as long
as the properties that are kept for requests without hooks are those that the new stages load. -/
theorem answers_withPipeline {before : Pipeline} (h : IsRegular r p)
    {earlier : List (Pipeline × Call)} (hearlier : ∀ step ∈ earlier, MayPrecede r p step)
    (hkept : ((fresh r before).afterCalls earlier).metadata.IsCurrent r Config.IsHookless p)
    {later : List Call} (hlater : ∀ call ∈ later, IsAnswered r call) :
    (((fresh r before).afterCalls earlier).withPipeline p).answers later =
      later.map fun call ↦ ((fresh r p).call call).1 := by
  -- Replacing the stages leaves both caches as they are.
  have hafter := (holdsFor_fresh before p).afterCalls h hearlier hkept
  have hreplaced : HoldsFor r p (((fresh r before).afterCalls earlier).withPipeline p) :=
    ⟨hafter.registry, hafter.directory, hafter.codecs⟩
  exact hreplaced.answers h rfl hkept hlater

/-- A class whose property has another name in the text. -/
def renamedNote : Registry where
  classes := [("Note", ⟨"Note", [], [("id", ⟨"int", [.rename "_id"]⟩)], []⟩)]

theorem resolve_renamedNote : ∃ text, renamedNote.resolve text [] = .ok (.object "Note" []) := by
  have hfree : TypeText.IsFree "Note" := by constructor <;> decide
  have hset : DataType.Settled ⟨renamedNote.lookup, []⟩ (.object "Note" []) :=
    .object false hfree List.not_mem_nil (by decide) rfl fun t ht ↦ absurd ht List.not_mem_nil
  exact ⟨_, hset.resolve_text⟩

theorem isHookless_default : Config.IsHookless {} where
  proper := ⟨by decide, fun n h ↦ (nomatch h), ⟨_, rfl⟩, by decide, by decide⟩
  hooks := rfl

/-- What an encoder of the class leaves of its properties, under all stages. -/
theorem metadata_renamedNote :
    ((fresh renamedNote Stage.standard).afterCalls
        [(Stage.standard, .encoder (.object "Note" []) {})]).metadata =
      [(MetadataRequest.feed ⟨"Note", .encode, renamedNote, {}, ⟨[], [("Note", 1)]⟩⟩,
        [("id", { Property.plain "id" (.scalar .int) with encodedName := "_id" })])] := rfl

/-- The theorem for stages that give the property the same name. -/
theorem answers_withPipeline_renamedNote :
    let stages : Pipeline := [.base, .rename]
    let earlier : List (Pipeline × Call) := [(Stage.standard, .encoder (.object "Note" []) {})]
    let later : List Call := [.encoder (.object "Note" []) {}, .decoder (.object "Note" []) {}]
    let left := (fresh renamedNote Stage.standard).afterCalls earlier
    IsRegular renamedNote stages ∧ (∀ step ∈ earlier, MayPrecede renamedNote stages step) ∧
      left.metadata.IsCurrent renamedNote Config.IsHookless stages ∧
      (∀ call ∈ later, IsAnswered renamedNote call) ∧
      (left.withPipeline stages).answers later =
        later.map fun call ↦ ((fresh renamedNote stages).call call).1 := by
  intro stages earlier later left
  have hregular : IsRegular renamedNote stages :=
    ⟨fun h ↦ absurd h (by decide), fun _ _ _ h ↦ (nomatch h)⟩
  have hearlier : ∀ step ∈ earlier, MayPrecede renamedNote stages step :=
    List.forall_mem_singleton.mpr ⟨isHookless_default.proper, fun _ ↦ resolve_renamedNote⟩
  have hlater : ∀ call ∈ later, IsAnswered renamedNote call :=
    List.forall_mem_cons.mpr ⟨⟨resolve_renamedNote, isHookless_default⟩,
      List.forall_mem_singleton.mpr ⟨resolve_renamedNote, isHookless_default⟩⟩
  have hkept : left.metadata.IsCurrent renamedNote Config.IsHookless stages := by
    intro q hq properties hfind
    rw [show left.metadata = _ from metadata_renamedNote] at hfind
    obtain ⟨hfeed, rfl⟩ := Prod.mk.inj (List.mem_singleton.mp (Entries.mem_of_find? hfind))
    have hasked : MetadataRequest.IsRegular renamedNote Config.IsHookless
        (stages.Admits renamedNote)
        ⟨"Note", .encode, renamedNote, {}, ⟨[], [("Note", 1)]⟩⟩ := by
      refine ⟨rfl, isHookless_default, ⟨[], [], rfl, rfl, rfl, ?_⟩, ?_⟩
      · exact fun t ht ↦ absurd ht List.not_mem_nil
      · exact List.forall_mem_singleton.mpr ⟨by decide, by decide⟩
    rw [hq.load_eq_of_isEmpty hasked hq.config.hooks rfl Config.areSeparate_isHookless hfeed]
    rfl
  exact ⟨hregular, hearlier, hkept, hlater, answers_withPipeline hregular hearlier hkept hlater⟩

/-- The text that an encoder writes first. -/
def Answer.opening : Answer → String
  | .artifact (.ok (.encoder ⟨.writeLiteral s :: _, _⟩)) => s
  | _ => ""

/-- Otherwise it need not take effect: a property keeps the name that a stage has given it when the
stage is gone. -/
theorem answers_withPipeline_ne :
    let left := (fresh renamedNote Stage.standard).afterCalls
      [(Stage.standard, .encoder (.object "Note" []) {})]
    (left.withPipeline [.base]).answers [.encoder (.object "Note" []) {}] ≠
      [((fresh renamedNote [.base]).call (.encoder (.object "Note" []) {})).1] := by
  intro left h
  -- The one begins with `"_id"`, the other with `"id"`.
  have hopening := congrArg (List.map Answer.opening) h
  exact absurd hopening (by decide +kernel)

/-- A serializer without a directory that is cleared when its stages are replaced answers like a new
one, whatever it has kept. -/
theorem answers_withPipeline_clear (hdirectory : s.codecs.directory = none)
    (h : IsRegular s.registry p) {later : List Call}
    (hlater : ∀ call ∈ later, IsAnswered s.registry call) :
    (s.withPipeline p).clear.answers later =
      later.map fun call ↦ ((fresh s.registry p).call call).1 := by
  have hcleared : HoldsFor s.registry p (s.withPipeline p).clear :=
    ⟨rfl, hdirectory, fun _ _ _ _ _ _ hfind ↦ nomatch hfind⟩
  exact hcleared.answers h rfl MetadataCache.isCurrent_nil hlater

end Serializer

end TypedJson
