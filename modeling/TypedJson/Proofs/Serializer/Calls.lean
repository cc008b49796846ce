import TypedJson.Proofs.Model.Build
import TypedJson.Serializer

/-!
# What is kept between calls does not show

A serializer without a directory answers every call as if it had just been made, whatever has been
asked of it before. This holds for options in use that are separate, and fails without: options that
are refused feed the same bytes as options that are not, so that an artifact is answered in the
place of the error.

Two caches are behind an answer. The artifacts are sound if each was built by a new serializer for a
type, a direction and options with the bytes it is kept under; those bytes determine the type, since
it is one of the registry, the direction, and the options up to agreement, and building depends on
nothing else. The properties are sound in the sense of `MetadataCache.IsSound`, and building over
them is building over nothing.
-/

namespace TypedJson

/-! ## Calls -/

/-- A call that asks for artifacts, or drops them. -/
inductive Call where
  | encoder (t : DataType) (config : Config)
  | decoder (t : DataType) (config : Config)
  | warmUp (config : Config)
  | clear
  | purge

/-- What a call answers. -/
inductive Answer where
  | artifact (artifact : Except Failure Artifact)
  | warmed (count : Except Failure Nat)
  | done

namespace Serializer

/-- The answer to a call, and the serializer afterwards. -/
def call (s : Serializer) : Call → Answer × Serializer
  | .encoder t config => (s.encoder t config).map .artifact id
  | .decoder t config => (s.decoder t config).map .artifact id
  | .warmUp config => (s.warmUp config).map .warmed id
  | .clear => (.done, s.clear)
  | .purge => (.done, s.purge)

/-- The answers to calls one after another. -/
def answers (s : Serializer) : List Call → List Answer
  | [] => []
  | call :: calls => (s.call call).1 :: answers (s.call call).2 calls

end Serializer

/-- The call is about a type that a type string denotes, and options in use. -/
def Call.IsWithin (r : Registry) (used : Config → Prop) : Call → Prop
  | .encoder t config | .decoder t config => (∃ text, r.resolve text [] = .ok t) ∧ used config
  | .warmUp config => used config
  | .clear | .purge => True

/-! ## Keys -/

namespace Serializer

open Fingerprint

variable {r : Registry} {pipeline : Pipeline} {used : Config → Prop} {c d : Config}
  {t u : DataType} {direction other : Direction}

/-- A serializer that has not been asked for anything. -/
def fresh (r : Registry) (pipeline : Pipeline) : Serializer := { registry := r, pipeline }

/-- What the bytes of an artifact determine. -/
theorem feed_inj {s : Serializer} (ht : s.registry.Denotes t) (hu : s.registry.Denotes u)
    (h : s.feed t direction c = s.feed u other d) :
    t = u ∧ direction = other ∧ c.feed = d.feed := by
  simp only [feed, List.append_assoc] at h
  obtain ⟨htext, h⟩ := text_append_inj h
  obtain ⟨hdir, h⟩ := text_append_inj h
  refine ⟨?_, Direction.eq_of_name hdir, List.append_cancel_right h⟩
  exact ht.eq_of_text hu htext

/-! ## Building -/

theorem maxOpen_le (hsep : Config.AreSeparate used) (hc : used c) {policy : CircularPolicy}
    (h : c.circularPolicy = .ok policy) : Build.maxOpen policy ≤ 2 ^ 64 := by
  unfold Config.circularPolicy at h
  split at h
  · cases h
  · next n hn =>
    cases h
    exact hsep.maxDepth c hc _ hn
  · split at h <;> cases h
    exact Nat.one_le_two_pow

theorem artifactOf_congr (h : c.Agrees d) (direction : Direction) :
    artifactOf direction c = artifactOf direction d := by
  funext root
  unfold artifactOf
  rw [h.jsonFlags]

/-- Building answers the same over caches of a kind that answer like the pipeline, and leaves
one. -/
theorem build_eq (s s' : Serializer) (hs : s.registry = r ∧ s.pipeline = pipeline)
    (hs' : s'.registry = r ∧ s'.pipeline = pipeline)
    (hsep : Config.AreSeparate used) (hcd : Config.Paired r pipeline used c d)
    {K : MetadataCache → Prop} (hK : MetadataCache.AnswersLike r used pipeline K) (ht : r.Denotes t)
    (direction : Direction) {m n : MetadataCache} (hm : K m) (hn : K n) :
    (s.build t direction c m).1 = (s'.build t direction d n).1 ∧ K (s.build t direction c m).2 := by
  obtain ⟨rfl, rfl⟩ := hs
  unfold build
  rw [hs'.1, hs'.2, ← hcd.agrees.policy]
  cases hpolicy : c.circularPolicy with
  | error error => exact ⟨rfl, hm⟩
  | ok policy =>
    have hbound := maxOpen_le hsep hcd.left hpolicy
    obtain ⟨hsame, hkept⟩ := buildNode_eq_of_answersLike hcd hK hbound (fun _ ↦ ht) direction hm hn
    refine ⟨?_, hkept⟩
    dsimp only
    rw [hsame, artifactOf_congr hcd.agrees]

/-- Without a directory an artifact comes from memory, or is built and kept there. -/
theorem artifact_eq {s : Serializer} (hdirectory : s.codecs.directory = none) (t : DataType)
    (direction : Direction) (c : Config) :
    s.artifact t direction c =
      match Entries.find? s.codecs.memory (s.key t direction c) with
      | some a => (.ok a, s)
      | none =>
        match s.build t direction c s.metadata with
        | (.error failure, metadata) => (.error failure, { s with metadata })
        | (.ok a, metadata) =>
          (.ok a, { s with codecs := s.codecs.keep (s.key t direction c) a, metadata }) := by
  have hfetch : s.codecs.fetch Fingerprint.hash (s.key t direction c) = (none, s.codecs) := by
    unfold CodecCache.fetch
    rw [hdirectory]
    cases (s.key t direction c).isDurable <;> rfl
  have hstore : ∀ a, s.codecs.store Fingerprint.hash (s.key t direction c) a = s.codecs := by
    intro a
    unfold CodecCache.store
    rw [hdirectory]
    cases (s.key t direction c).isDurable <;> rfl
  unfold Serializer.artifact CodecCache.load
  cases Entries.find? s.codecs.memory (s.key t direction c) with
  | some a => rfl
  | none =>
    simp only [hfetch]
    rcases s.build t direction c s.metadata with ⟨failure | a, metadata⟩
    · rfl
    · simp only [hstore]

/-! ## The invariant -/

/-- The serializer is made of a registry and a pipeline, and what it keeps is what a new one would
make. -/
structure IsSound (r : Registry) (p : Pipeline) (used : Config → Prop) (s : Serializer) :
    Prop where
  registry : s.registry = r
  pipeline : s.pipeline = p
  metadata : MetadataCache.IsSound r used p s.metadata
  directory : s.codecs.directory = none
  codecs : ∀ key artifact, Entries.find? s.codecs.memory key = some artifact →
    ∃ t direction c, r.Denotes t ∧ used c ∧ key = (fresh r p).key t direction c ∧
      ((fresh r p).build t direction c []).1 = .ok artifact

theorem isSound_fresh : IsSound r pipeline used (fresh r pipeline) where
  registry := rfl
  pipeline := rfl
  metadata := MetadataCache.isSound_nil
  directory := rfl
  codecs _ _ h := nomatch h

theorem IsSound.key_eq {s : Serializer} (hs : IsSound r pipeline used s) (t : DataType)
    (direction : Direction) (c : Config) :
    s.key t direction c = (fresh r pipeline).key t direction c := by
  unfold key feed
  rw [hs.registry, hs.pipeline]
  rfl

/-- What calls need so that keys tell them apart: a settled registry and pipeline, options in use
that are separate, and hooks that give properties types of the registry. -/
structure Separates (r : Registry) (p : Pipeline) (used : Config → Prop) : Prop where
  settled : p.IsSettled r
  configs : Config.AreSeparate used
  hooks : ∀ c, used c → c.hooks.KeepTypes (p.Admits r)

theorem Separates.paired (h : Separates r pipeline used) (hc : used c) (hd : used d)
    (hfeed : c.feed = d.feed) : Config.Paired r pipeline used c d where
  loads _ _ hp hq := hp.load_eq hq h.settled h.configs
  types _ _ hp := hp.hasTypes h.settled.closes h.settled.formatters
  formatters _ name input output htypes :=
    have hboth := h.settled.formatters name input output htypes
    ⟨fun _ ↦ hboth.1, fun _ ↦ hboth.2⟩
  hooks := h.hooks c hc
  left := hc
  right := hd
  agrees := h.configs.agrees hc hd hfeed

/-- The artifact that a new serializer builds. -/
def built (r : Registry) (p : Pipeline) (t : DataType) (direction : Direction) (c : Config) :
    Except Failure Artifact :=
  ((fresh r p).build t direction c []).1

/-- An artifact is what a new serializer builds, and keeping it keeps the serializer sound. -/
theorem IsSound.artifact {s : Serializer} (hs : IsSound r pipeline used s)
    (hsep : Separates r pipeline used) (ht : r.Denotes t) (hc : used c) (direction : Direction) :
    (s.artifact t direction c).1 = built r pipeline t direction c ∧
      IsSound r pipeline used (s.artifact t direction c).2 := by
  have hK := MetadataCache.answersLike_isSound (hsep.paired hc hc rfl).loads
  obtain ⟨hbuild, hmetadata⟩ := build_eq s (fresh r pipeline)
    ⟨hs.registry, hs.pipeline⟩ ⟨rfl, rfl⟩ hsep.configs (hsep.paired hc hc rfl) hK ht direction
    hs.metadata MetadataCache.isSound_nil
  rw [artifact_eq hs.directory]
  cases hfind : Entries.find? s.codecs.memory (s.key t direction c) with
  | some a =>
    refine ⟨?_, hs⟩
    obtain ⟨u, other, d, hu, hd, hkey, hother⟩ := hs.codecs _ _ hfind
    rw [hs.key_eq] at hkey
    obtain ⟨rfl, rfl, hfeed⟩ := feed_inj (s := fresh r pipeline) ht hu (congrArg CodecKey.id hkey)
    have hsame := (build_eq (fresh r pipeline) (fresh r pipeline) ⟨rfl, rfl⟩ ⟨rfl, rfl⟩
      hsep.configs (hsep.paired hd hc hfeed.symm) hK ht direction MetadataCache.isSound_nil
      MetadataCache.isSound_nil).1
    rw [built, ← hsame, hother]
  | none =>
    rcases hb : s.build t direction c s.metadata with ⟨answer, metadata⟩
    rw [hb] at hbuild hmetadata
    cases answer with
    | error failure => exact ⟨hbuild, hs.registry, hs.pipeline, hmetadata, hs.directory, hs.codecs⟩
    | ok a =>
      refine ⟨hbuild, hs.registry, hs.pipeline, hmetadata, hs.directory, ?_⟩
      exact Entries.forall_find?_put hs.codecs
        ⟨t, direction, c, ht, hc, hs.key_eq _ _ _, hbuild.symm⟩

/-! ## Answers -/

/-- Two calls end alike and leave sound serializers. -/
def AnswersAlike {α : Type} (r : Registry) (p : Pipeline) (used : Config → Prop)
    (x y : α × Serializer) : Prop :=
  x.1 = y.1 ∧ IsSound r p used x.2 ∧ IsSound r p used y.2

variable {s s' : Serializer}

theorem IsSound.artifact_alike (hs : IsSound r pipeline used s) (hs' : IsSound r pipeline used s')
    (hsep : Separates r pipeline used) (ht : r.Denotes t) (hc : used c) (direction : Direction) :
    AnswersAlike r pipeline used (s.artifact t direction c) (s'.artifact t direction c) := by
  obtain ⟨hbuilt, hsound⟩ := hs.artifact hsep ht hc direction
  obtain ⟨hbuilt', hsound'⟩ := hs'.artifact hsep ht hc direction
  exact ⟨hbuilt.trans hbuilt'.symm, hsound, hsound'⟩

theorem IsSound.warm (hs : IsSound r pipeline used s) (hs' : IsSound r pipeline used s')
    (hsep : Separates r pipeline used) (hc : used c) (className : String) :
    AnswersAlike r pipeline used (s.warm c className) (s'.warm c className) := by
  have hresolve : s.resolve className = s'.resolve className := by
    rw [resolve, resolve, hs.registry, hs'.registry]
  unfold Serializer.warm
  rw [hresolve]
  cases ht : s'.resolve className with
  | error failure => exact ⟨rfl, hs, hs'⟩
  | ok t =>
    have hden : r.Denotes t := by
      unfold resolve at ht
      rw [hs'.registry] at ht
      cases htype : r.resolve className [] with
      | error error =>
        rw [htype] at ht
        cases ht
      | ok u =>
        rw [htype] at ht
        cases ht
        exact Registry.denotes_of_resolve htype
    obtain ⟨hfirst, hs₁, hs₁'⟩ := hs.artifact_alike hs' hsep hden hc .encode
    dsimp only [encoder, decoder]
    rcases hx : s.artifact t .encode c with ⟨answer, s₁⟩
    rcases hy : s'.artifact t .encode c with ⟨answer', s₁'⟩
    rw [hx, hy] at hfirst
    rw [hx] at hs₁
    rw [hy] at hs₁'
    obtain rfl : answer = answer' := hfirst
    cases answer with
    | error failure => exact ⟨rfl, hs₁, hs₁'⟩
    | ok _ =>
      obtain ⟨hsecond, hs₂, hs₂'⟩ := hs₁.artifact_alike hs₁' hsep hden hc .decode
      exact ⟨congrArg (Except.map fun _ ↦ ()) hsecond, hs₂, hs₂'⟩

theorem IsSound.warmEach (hs : IsSound r pipeline used s) (hs' : IsSound r pipeline used s')
    (hsep : Separates r pipeline used) (hc : used c) (count : Nat) (classes : List String) :
    AnswersAlike r pipeline used (Serializer.warmEach c count s classes)
      (Serializer.warmEach c count s' classes) := by
  induction classes generalizing s s' count with
  | nil => exact ⟨rfl, hs, hs'⟩
  | cons className classes ih =>
    obtain ⟨hfirst, hs₁, hs₁'⟩ := hs.warm hs' hsep hc className
    unfold Serializer.warmEach
    rcases hx : s.warm c className with ⟨answer, s₁⟩
    rcases hy : s'.warm c className with ⟨answer', s₁'⟩
    rw [hx, hy] at hfirst
    rw [hx] at hs₁
    rw [hy] at hs₁'
    obtain rfl : answer = answer' := hfirst
    cases answer with
    | error failure => exact ⟨rfl, hs₁, hs₁'⟩
    | ok _ => exact ih hs₁ hs₁' (count + 1)

theorem IsSound.clear (hs : IsSound r pipeline used s) : IsSound r pipeline used s.clear where
  registry := hs.registry
  pipeline := hs.pipeline
  metadata := MetadataCache.isSound_nil
  directory := hs.directory
  codecs _ _ h := nomatch h

theorem IsSound.purge (hs : IsSound r pipeline used s) : IsSound r pipeline used s.purge where
  registry := hs.registry
  pipeline := hs.pipeline
  metadata := MetadataCache.isSound_nil
  directory := congrArg (Option.map Directory.purge) hs.directory
  codecs _ _ h := nomatch h

/-- One call is answered alike by any two sound serializers, and leaves them sound. -/
theorem IsSound.call (hs : IsSound r pipeline used s) (hs' : IsSound r pipeline used s')
    (hsep : Separates r pipeline used) {call : Call} (hcall : call.IsWithin r used) :
    AnswersAlike r pipeline used (s.call call) (s'.call call) := by
  cases call with
  | encoder t config =>
    obtain ⟨⟨text, ht⟩, hc⟩ := hcall
    obtain ⟨hanswer, hs₁, hs₁'⟩ :=
      hs.artifact_alike hs' hsep (Registry.denotes_of_resolve ht) hc .encode
    exact ⟨congrArg Answer.artifact hanswer, hs₁, hs₁'⟩
  | decoder t config =>
    obtain ⟨⟨text, ht⟩, hc⟩ := hcall
    obtain ⟨hanswer, hs₁, hs₁'⟩ :=
      hs.artifact_alike hs' hsep (Registry.denotes_of_resolve ht) hc .decode
    exact ⟨congrArg Answer.artifact hanswer, hs₁, hs₁'⟩
  | warmUp config =>
    have hwarmable : s.warmable = s'.warmable := by
      rw [warmable, warmable, hs.registry, hs'.registry]
    have hleft : s.warmUp config = Serializer.warmEach config 0 s s'.warmable := by
      rw [← hwarmable]
      rfl
    obtain ⟨hanswer, hs₁, hs₁'⟩ := hs.warmEach hs' hsep hcall 0 s'.warmable
    rw [← hleft] at hanswer hs₁
    exact ⟨congrArg Answer.warmed hanswer, hs₁, hs₁'⟩
  | clear => exact ⟨rfl, hs.clear, hs'.clear⟩
  | purge => exact ⟨rfl, hs.purge, hs'.purge⟩

/-- A sound serializer answers calls one after another as a new one answers each of them. -/
theorem IsSound.answers (hs : IsSound r pipeline used s) (hsep : Separates r pipeline used)
    {calls : List Call} (hcalls : ∀ call ∈ calls, call.IsWithin r used) :
    s.answers calls = calls.map fun call ↦ ((fresh r pipeline).call call).1 := by
  induction calls generalizing s with
  | nil => rfl
  | cons call calls ih =>
    obtain ⟨hanswer, hs₁, -⟩ :=
      hs.call isSound_fresh hsep (hcalls call List.mem_cons_self)
    rw [Serializer.answers, List.map_cons, hanswer,
      ih hs₁ fun other hother ↦ hcalls other (List.mem_cons_of_mem _ hother)]

/-- What a serializer without a directory keeps does not show: whatever it has been asked before, it
answers every call like a new one. -/
theorem answers_eq_fresh (hsep : Separates r pipeline used) {calls : List Call}
    (hcalls : ∀ call ∈ calls, call.IsWithin r used) :
    (fresh r pipeline).answers calls = calls.map fun call ↦ ((fresh r pipeline).call call).1 :=
  isSound_fresh.answers hsep hcalls

/-- The theorem for a class with a template parameter, under two options. -/
theorem answers_eq_fresh_box :
    let r : Registry :=
      { classes := [("Box", ⟨"Box", ["T"], [("item", ⟨"T", []⟩)], []⟩)] }
    let deep : Config := { maxDepth := some 1 }
    let calls : List Call :=
      [.encoder (.object "Box" [.scalar .int]) {}, .decoder (.object "Box" [.scalar .string]) deep,
        .warmUp deep, .clear, .encoder (.object "Box" [.scalar .int]) deep]
    Separates r Stage.standard (fun c ↦ c = {} ∨ c = deep) ∧
      (fresh r Stage.standard).answers calls =
        calls.map fun call ↦ ((fresh r Stage.standard).call call).1 := by
  intro r deep calls
  have hbox : ∀ kind, ∃ text, r.resolve text [] = .ok (.object "Box" [.scalar kind]) := by
    intro kind
    have hfree : TypeText.IsFree "Box" := by constructor <;> decide
    have hset : DataType.Settled ⟨r.lookup, []⟩ (.object "Box" [.scalar kind]) :=
      .object false hfree List.not_mem_nil (by decide) rfl fun t ht ↦ by
        rw [List.mem_singleton.mp ht]
        exact .scalar kind false
    exact ⟨_, hset.resolve_text⟩
  have hplain : MetadataRequest.HasPlainTemplates r := by
    intro className templates h name hname
    obtain ⟨found, hfound, h⟩ := Outcome.bind_eq_ok.mp h
    have hclass : found = ⟨"Box", ["T"], [("item", ⟨"T", []⟩)], []⟩ := by
      unfold Registry.findClass at hfound
      split at hfound
      · next c hc =>
        cases hfound
        exact congrArg Prod.snd (List.mem_singleton.mp (Entries.mem_of_find? hc))
      · cases hfound
    cases h
    rw [hclass, List.mem_singleton] at hname
    rw [hname]
    rintro ⟨key, hkey | hkey⟩
    · have hlist := congrArg String.toList hkey
      rw [String.toList_append] at hlist
      have hhead : 'T' = 'o' := (List.cons.inj hlist).1
      exact absurd hhead (by decide)
    · have hlist := congrArg String.toList hkey
      rw [String.toList_append] at hlist
      have hhead : 'T' = 'p' := (List.cons.inj hlist).1
      exact absurd hhead (by decide)
  have hproper : ∀ c, c = {} ∨ c = deep → c.IsProper := by
    rintro c (rfl | rfl)
    · exact ⟨by decide, fun n h ↦ (nomatch h), ⟨_, rfl⟩, by decide, by decide⟩
    · refine ⟨by decide, fun n h ↦ ?_, ⟨_, rfl⟩, by decide, by decide⟩
      cases h
      decide
  have hsep : Separates r Stage.standard (fun c ↦ c = {} ∨ c = deep) := by
    refine ⟨⟨Stage.closes_standard, fun _ _ _ h ↦ (nomatch h), hplain⟩,
      Config.areSeparate_of_isProper hproper ?_ ?_, ?_⟩
    · rintro c d (rfl | rfl) _ hook hhook <;> cases hhook
    · rintro c d (rfl | rfl) _ hook hhook <;> cases hhook
    · rintro c (rfl | rfl) hook hhook <;> cases hhook
  have hcalls : ∀ call ∈ calls, call.IsWithin r (fun c ↦ c = {} ∨ c = deep) := by
    simp only [calls, List.mem_cons, List.not_mem_nil, or_false]
    rintro call (rfl | rfl | rfl | rfl | rfl)
    · exact ⟨hbox .int, .inl rfl⟩
    · exact ⟨hbox .string, .inr rfl⟩
    · exact .inr rfl
    · trivial
    · exact ⟨hbox .int, .inr rfl⟩
  exact ⟨hsep, answers_eq_fresh hsep hcalls⟩

/-! ## Options that feed the same bytes -/

/-- An artifact that is answered is kept. -/
theorem memory_load {ι σ : Type} [DecidableEq ι] {cache : CodecCache ι} {hash : ι → UInt64}
    {key : CodecKey ι} {build : σ → Except Failure Artifact × σ} {x : σ} {a : Artifact}
    (h : (cache.load hash key build x).1 = .ok a) :
    Entries.find? (cache.load hash key build x).2.1.memory key = some a := by
  unfold CodecCache.load at h ⊢
  split
  · next kept hkept =>
    rw [hkept] at h ⊢
    exact congrArg some (Except.ok.inj h)
  next hnone =>
  rw [hnone] at h
  dsimp only at h
  split
  · next kept later hfetch =>
    rw [hfetch] at h
    cases h
    exact Entries.find?_put_self _ _ _
  next later hfetch =>
  rw [hfetch] at h
  dsimp only at h
  split
  · next failure x' hbuild =>
    rw [hbuild] at h
    cases h
  · next built x' hbuild =>
    rw [hbuild] at h
    cases h
    exact Entries.find?_put_self _ _ _

/-- An artifact that is kept is answered for whatever has its key, be it refused otherwise. -/
theorem artifact_of_key_eq {s : Serializer} {a : Artifact}
    (h : (s.artifact t direction c).1 = .ok a) (hkey : s.key t direction c = s.key u other d) :
    ((s.artifact t direction c).2.artifact u other d).1 = .ok a := by
  have hkept : Entries.find? (s.artifact t direction c).2.codecs.memory
      ((s.artifact t direction c).2.key u other d) = some a := by
    show Entries.find? _ (s.key u other d) = _
    rw [← hkey]
    exact memory_load h
  generalize (s.artifact t direction c).2 = after at hkept ⊢
  unfold artifact CodecCache.load
  rw [hkept]

/-- Without separate options the theorem fails: a greatest depth of zero is refused, unless what it
asks for has been built without. -/
theorem answers_ne_fresh :
    let s := fresh {} Stage.standard
    let calls : List Call :=
      [.encoder (.scalar .int) {}, .encoder (.scalar .int) { maxDepth := some 0 }]
    s.answers calls ≠ calls.map fun call ↦ (s.call call).1 := by
  intro s calls h
  obtain ⟨a, ha⟩ : ∃ a, (s.artifact (.scalar .int) .encode {}).1 = .ok a := ⟨_, rfl⟩
  have hkept := artifact_of_key_eq (u := .scalar .int) (d := { maxDepth := some 0 }) ha rfl
  have hrefused : (s.artifact (.scalar .int) .encode { maxDepth := some 0 }).1 =
      .error (.configuration (.invalidOption "maxDepth" "must be at least 1")) := rfl
  have hsecond := Answer.artifact.inj (List.cons.inj (List.cons.inj h).2).1
  have hanswer := hkept.symm.trans (hsecond.trans hrefused)
  cases hanswer

end Serializer

end TypedJson
