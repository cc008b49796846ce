import TypedJson.Proofs.Metadata.Load

/-!
# Cached properties are the loaded ones

The cache is sound if whatever it holds was loaded for a regular request with those bytes. Regular
requests with the same bytes are loaded alike, so a sound cache answers a regular request like the
pipeline itself, and stays sound.

Loading depends on the bindings of template parameters if a stage replaces them, while the bytes
hold their texts only. So the types in use have to be types of the registry, unless no stage
replaces anything.
-/

namespace TypedJson

/-- The types that requests bind template parameters to. -/
def Pipeline.Admits (pipeline : Pipeline) (r : Registry) (t : DataType) : Prop :=
  .generics ∈ pipeline → r.Denotes t

/-- What a registry and a pipeline need so that requests can be told apart by their bytes. -/
structure Pipeline.IsSettled (pipeline : Pipeline) (r : Registry) : Prop where
  closes : pipeline.Closes
  formatters : r.HasSettledFormatters
  templates : MetadataRequest.HasPlainTemplates r

/-- Types of the registry bind the template parameters that they are put for. -/
theorem Registry.binds_ofList {r : Registry} {templates : List String} {types : List DataType}
    (hlen : templates.length = types.length) (htypes : ∀ t ∈ types, r.Denotes t) :
    DataType.Binds ⟨r.lookup, templates⟩ (Entries.ofList (templates.zip types)) := by
  refine ⟨fun name hname ↦ Entries.find?_ofList_of_mem ?_, fun name t ht ↦ ?_⟩
  · rwa [← List.unzip_fst, List.unzip_zip hlen]
  · exact denotes_iff.mp
      (htypes t (List.of_mem_zip (Entries.mem_ofList (Entries.mem_of_find? ht))).2)

/-- Bindings to types of the registry are known by their names and texts. -/
theorem Registry.bindings_eq {r : Registry} {as bs : Entries String DataType}
    (has : ∀ entry ∈ as, r.Denotes entry.2) (hbs : ∀ entry ∈ bs, r.Denotes entry.2)
    (hnames : as.map (·.1) = bs.map (·.1)) (htexts : as.map (·.2.text) = bs.map (·.2.text)) :
    as = bs := by
  induction as generalizing bs with
  | nil => exact (List.map_eq_nil_iff.mp hnames.symm).symm
  | cons a as ih =>
    cases bs with
    | nil => cases hnames
    | cons b bs =>
      obtain ⟨hname, hnames⟩ := List.cons.inj hnames
      obtain ⟨htext, htexts⟩ := List.cons.inj htexts
      have hfirst : a.2 = b.2 := (has a (by simp)).eq_of_text (hbs b (by simp)) htext
      rw [ih (fun e he ↦ has e (by simp [he])) (fun e he ↦ hbs e (by simp [he])) hnames htexts,
        Prod.ext hname hfirst]

namespace MetadataRequest

variable {r : Registry} {used : Config → Prop} {pipeline : Pipeline} {p q : MetadataRequest}

theorem IsRegular.generics_eq (hp : IsRegular r used (pipeline.Admits r) p)
    (hq : IsRegular r used (pipeline.Admits r) q) (hgen : .generics ∈ pipeline)
    (hnames : p.context.generics.map (·.1) = q.context.generics.map (·.1))
    (htexts : p.context.generics.map (·.2.text) = q.context.generics.map (·.2.text)) :
    p.context.generics = q.context.generics :=
  Registry.bindings_eq (fun entry h ↦ hp.bound entry h hgen)
    (fun entry h ↦ hq.bound entry h hgen) hnames htexts

/-- Regular requests are loaded alike if they agree on what the bytes are about. -/
theorem IsRegular.load_congr (hp : IsRegular r used (pipeline.Admits r) p)
    (hq : IsRegular r used (pipeline.Admits r) q) (hclass : p.className = q.className)
    (hdir : p.direction = q.direction) (hagree : p.config.Agrees q.config)
    (hcontext : p.context.generics.map (·.1) = q.context.generics.map (·.1) ∧
      p.context.generics.map (·.2.text) = q.context.generics.map (·.2.text) ∧
      p.context.depths = q.context.depths) : pipeline.load p = pipeline.load q := by
  obtain ⟨hnames, htexts, hdepths⟩ := hcontext
  refine pipeline.load_congr ⟨hclass, hdir, hp.registry.trans hq.registry.symm, hagree, hdepths⟩ ?_
  exact fun hgen ↦ hp.generics_eq hq hgen hnames htexts

/-- Regular requests with the same bytes are loaded alike. -/
theorem IsRegular.load_eq (hp : IsRegular r used (pipeline.Admits r) p)
    (hq : IsRegular r used (pipeline.Admits r) q) (hset : pipeline.IsSettled r)
    (hused : Config.AreSeparate used) (h : p.feed = q.feed) :
    pipeline.load p = pipeline.load q := by
  obtain ⟨hclass, hdir, hagree, hcontext⟩ := hp.feed_inj hq hset.templates hused h
  exact hp.load_congr hq hclass hdir hagree hcontext

/-- So are those without hooks, over any registry. -/
theorem IsRegular.load_eq_of_isEmpty (hp : IsRegular r used (pipeline.Admits r) p)
    (hq : IsRegular r used (pipeline.Admits r) q) (hpHooks : p.config.hooks.isEmpty = true)
    (hqHooks : q.config.hooks.isEmpty = true) (hused : Config.AreSeparate used)
    (h : p.feed = q.feed) : pipeline.load p = pipeline.load q := by
  obtain ⟨hclass, hdir, hagree, hcontext⟩ := hp.feed_inj_of_isEmpty hq hpHooks hqHooks hused h
  exact hp.load_congr hq hclass hdir hagree hcontext

/-- So are those under the same options, over any registry. -/
theorem IsRegular.load_eq_of_config (hp : IsRegular r used (pipeline.Admits r) p)
    (hq : IsRegular r used (pipeline.Admits r) q) (hconfig : p.config = q.config)
    (h : p.feed = q.feed) : pipeline.load p = pipeline.load q := by
  obtain ⟨hclass, hdir, hcontext⟩ := hp.feed_inj_of_config hq hconfig h
  exact hp.load_congr hq hclass hdir (hconfig ▸ .refl _) hcontext

/-- The properties of a regular request have types of the registry again. -/
theorem IsRegular.hasTypes (hp : IsRegular r used (pipeline.Admits r) p)
    (hcloses : pipeline.Closes) (hform : r.HasSettledFormatters) {properties : PropertyMap}
    (h : pipeline.load p = .ok properties) : properties.HasTypes (pipeline.Admits r) := by
  intro entry hentry hgen
  obtain ⟨templates, types, htemplates, hlen, hgenerics, htypes⟩ := hp.templates
  obtain ⟨className, direction, registry, config, context⟩ := p
  obtain rfl : registry = r := hp.registry
  have hbinds : DataType.Binds ⟨registry.lookup, templates⟩ context.generics := by
    rw [show context.generics = _ from hgenerics]
    exact Registry.binds_ofList hlen fun t ht ↦ htypes t ht hgen
  exact Pipeline.hasTypes_load hcloses hgen hform htemplates hbinds h entry hentry

end MetadataRequest

namespace MetadataCache

variable {r : Registry} {used : Config → Prop} {pipeline : Pipeline}

/-- Whatever the cache holds was loaded for a regular request with those bytes, its template
parameters bound to types of a kind. -/
def Holds (r : Registry) (used : Config → Prop) (P : DataType → Prop) (pipeline : Pipeline)
    (cache : MetadataCache) : Prop :=
  ∀ feed properties, Entries.find? cache feed = some properties →
    ∃ p : MetadataRequest, p.IsRegular r used P ∧ p.feed = feed ∧ pipeline.load p = .ok properties

theorem holds_nil {P : DataType → Prop} : Holds r used P pipeline [] := by
  intro feed properties h
  cases h

/-- A regular request is answered with what was loaded for one with the same bytes. -/
theorem Holds.load {P : DataType → Prop} {cache : MetadataCache}
    (h : cache.Holds r used P pipeline) {p : MetadataRequest} (hp : p.IsRegular r used P) :
    (cache.load pipeline p).2.Holds r used P pipeline ∧
      ∀ properties, (cache.load pipeline p).1 = .ok properties →
        ∃ q : MetadataRequest, q.IsRegular r used P ∧ q.feed = p.feed ∧
          pipeline.load q = .ok properties := by
  unfold MetadataCache.load
  split
  · next found hfind => exact ⟨h, fun properties hok ↦ Except.ok.inj hok ▸ h _ _ hfind⟩
  · split
    · next loaded hload =>
      exact ⟨Entries.forall_find?_put h ⟨p, hp, rfl, hload⟩,
        fun properties hok ↦ ⟨p, hp, rfl, hload.trans hok⟩⟩
    · exact ⟨h, fun properties hok ↦ nomatch hok⟩

/-- What the cache holds was loaded with types of the registry. -/
def IsSound (r : Registry) (used : Config → Prop) (pipeline : Pipeline) (cache : MetadataCache) :
    Prop :=
  cache.Holds r used (pipeline.Admits r) pipeline

theorem isSound_nil : IsSound r used pipeline [] := holds_nil

/-- A sound cache answers like the pipeline, and stays sound, if requests with the same bytes are
loaded alike. -/
theorem IsSound.load {cache : MetadataCache} (h : IsSound r used pipeline cache)
    {p : MetadataRequest} (hp : p.IsRegular r used (pipeline.Admits r))
    (hsame : ∀ q : MetadataRequest, q.IsRegular r used (pipeline.Admits r) → p.feed = q.feed →
      pipeline.load p = pipeline.load q) :
    (cache.load pipeline p).1 = pipeline.load p ∧
      IsSound r used pipeline (cache.load pipeline p).2 := by
  refine ⟨?_, (Holds.load h hp).1⟩
  unfold MetadataCache.load
  split
  · next properties hfind =>
    obtain ⟨q, hq, hfeed, hload⟩ := h _ _ hfind
    rw [hsame q hq hfeed.symm, hload]
  · split
    · next properties hload => exact hload.symm
    · next error hload => exact hload.symm

/-- Caches of a kind answer regular requests like the pipeline, and stay of that kind. -/
def AnswersLike (r : Registry) (used : Config → Prop) (pipeline : Pipeline)
    (K : MetadataCache → Prop) : Prop :=
  ∀ cache, K cache → ∀ p : MetadataRequest, p.IsRegular r used (pipeline.Admits r) →
    (cache.load pipeline p).1 = pipeline.load p ∧ K (cache.load pipeline p).2

/-- Whatever the cache has for a regular request is what the pipeline loads, wherever it comes
from. -/
def IsCurrent (r : Registry) (used : Config → Prop) (pipeline : Pipeline) (cache : MetadataCache) :
    Prop :=
  ∀ p : MetadataRequest, p.IsRegular r used (pipeline.Admits r) → ∀ properties,
    Entries.find? cache p.feed = some properties → pipeline.load p = .ok properties

theorem isCurrent_nil : IsCurrent r used pipeline [] := by
  intro p _ properties h
  cases h

/-- Requests with the same bytes are loaded alike. -/
def LoadsByFeed (r : Registry) (used : Config → Prop) (pipeline : Pipeline) : Prop :=
  ∀ p q : MetadataRequest, p.IsRegular r used (pipeline.Admits r) →
    q.IsRegular r used (pipeline.Admits r) → p.feed = q.feed → pipeline.load p = pipeline.load q

theorem answersLike_isSound (hload : LoadsByFeed r used pipeline) :
    AnswersLike r used pipeline (IsSound r used pipeline) :=
  fun _ h _ hp ↦ h.load hp fun q hq ↦ hload _ q hp hq

theorem answersLike_isCurrent (hload : LoadsByFeed r used pipeline) :
    AnswersLike r used pipeline (IsCurrent r used pipeline) := by
  intro cache h p hp
  unfold MetadataCache.load
  cases hfind : Entries.find? cache p.feed with
  | some properties => exact ⟨(h p hp properties hfind).symm, h⟩
  | none =>
    cases hloaded : pipeline.load p with
    | error error => exact ⟨rfl, h⟩
    | ok properties =>
      refine ⟨rfl, fun q hq found hfound ↦ ?_⟩
      by_cases hfeed : p.feed = q.feed
      · rw [← hfeed, Entries.find?_put_self] at hfound
        rw [← hload p q hp hq hfeed, hloaded, Option.some.inj hfound]
      · rw [Entries.find?_put_of_ne _ _ hfeed] at hfound
        exact h q hq found hfound

end MetadataCache

end TypedJson
