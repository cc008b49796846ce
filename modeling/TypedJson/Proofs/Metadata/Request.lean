import Mathlib.Data.List.Induction
import TypedJson.Metadata.Cache
import TypedJson.Proofs.Config.Feed
import TypedJson.Proofs.DataType.Text

/-!
# What the bytes of a request tell

A request for the properties of a class is known by its bytes. They hold the options, then the bound
template parameters, then the depths, none of which says how long it is. Where the options end shows
because no template parameter is called like a hook, and where the parameters end shows because the
class determines how many there are. A count is at least one and at most one above a limit of 64
bits, so it is not lost when it is reduced to 64 bits either.
-/

namespace TypedJson

/-! ## Depths -/

namespace Depths

theorem mem_insert {depths : Depths} {c : String} {n : Nat} {entry : String × Nat}
    (h : entry ∈ depths.insert c n) : entry = (c, n) ∨ entry ∈ depths := by
  induction depths with
  | nil => exact .inl (List.mem_singleton.mp h)
  | cons first rest ih =>
    obtain ⟨d, m⟩ := first
    rw [insert] at h
    split at h
    · next hd =>
      rcases List.mem_cons.mp h with rfl | h
      · exact .inl (by rw [hd])
      · exact .inr (List.mem_cons_of_mem _ h)
    · split at h
      · rcases List.mem_cons.mp h with rfl | h
        · exact .inl rfl
        · exact .inr h
      · rcases List.mem_cons.mp h with rfl | h
        · exact .inr List.mem_cons_self
        · exact (ih h).imp id (List.mem_cons_of_mem _)

/-- A class is counted at least once, and no more often than it is open. -/
def Counts (depths : Depths) (classes : List String) : Prop :=
  ∀ entry ∈ depths, 1 ≤ entry.2 ∧ entry.2 ≤ classes.count entry.1

theorem counts_ofStack (classes : List String) : (ofStack classes).Counts classes := by
  have key : ∀ (later earlier : List String) (depths : Depths), depths.Counts earlier →
      (later.foldl (fun depths c ↦ depths.insert c (depths.count c + 1)) depths).Counts
        (earlier ++ later) := by
    intro later
    induction later with
    | nil =>
      intro earlier depths h
      rwa [List.append_nil]
    | cons c later ih =>
      intro earlier depths h
      rw [List.foldl_cons, List.append_cons]
      refine ih _ _ fun entry hentry ↦ ?_
      rw [List.count_append]
      rcases mem_insert hentry with rfl | hentry
      · refine ⟨Nat.le_add_left 1 _, ?_⟩
        have hcount : depths.count c ≤ earlier.count c := by
          rw [count]
          cases hfind : Entries.find? depths c with
          | none => exact Nat.zero_le _
          | some n => exact (h _ (Entries.mem_of_find? hfind)).2
        simp
        omega
      · have hold := h entry hentry
        exact ⟨hold.1, Nat.le_trans hold.2 (Nat.le_add_right _ _)⟩
  exact key classes [] [] fun _ h ↦ absurd h List.not_mem_nil

theorem count_insert_self (depths : Depths) (c : String) (n : Nat) :
    (depths.insert c n).count c = n := by
  have hfind : Entries.find? (depths.insert c n) c = some n := by
    induction depths with
    | nil => simp [insert, Entries.find?]
    | cons first rest ih =>
      obtain ⟨d, m⟩ := first
      rw [insert]
      split
      · next hd => simp [Entries.find?, hd]
      · next hd =>
        split
        · simp [Entries.find?]
        · simp [Entries.find?, hd, ih]
  rw [count, hfind]
  rfl

theorem count_insert_of_ne (depths : Depths) {c d : String} (n : Nat) (h : c ≠ d) :
    (depths.insert c n).count d = depths.count d := by
  have hfind : Entries.find? (depths.insert c n) d = Entries.find? depths d := by
    induction depths with
    | nil => simp [insert, Entries.find?, h]
    | cons first rest ih =>
      obtain ⟨e, m⟩ := first
      rw [insert]
      split
      · next he =>
        subst he
        simp [Entries.find?, h]
      · split
        · simp [Entries.find?, h]
        · simp [Entries.find?, ih]
  rw [count, count, hfind]

theorem ofStack_concat (S : List String) (c : String) :
    ofStack (S ++ [c]) = (ofStack S).insert c ((ofStack S).count c + 1) := by
  rw [ofStack, List.foldl_append]
  rfl

/-- The depths of open classes count them. -/
theorem count_ofStack (S : List String) (c : String) : (ofStack S).count c = S.count c := by
  induction S using List.reverseRecOn with
  | nil => rfl
  | append_singleton S d ih =>
    rw [ofStack_concat, List.count_append]
    by_cases hd : d = c
    · subst hd
      rw [count_insert_self, ih]
      simp
    · rw [count_insert_of_ne _ _ hd, ih]
      simp [hd]

theorem ofStack_concat_congr {S S' : List String} (h : ofStack S = ofStack S') (c : String) :
    ofStack (S ++ [c]) = ofStack (S' ++ [c]) := by
  rw [ofStack_concat, ofStack_concat, h]

/-- The same depths stand for the same classes in some order. -/
theorem perm_of_ofStack {S S' : List String} (h : ofStack S = ofStack S') : S.Perm S' :=
  List.perm_iff_count.mpr fun c ↦ by rw [← count_ofStack, ← count_ofStack, h]

end Depths

/-! ## Requests -/

open Fingerprint

/-- The template parameters with their bindings. -/
def boundFeed (generics : Entries String DataType) : List UInt8 :=
  generics.flatMap fun (name, t) ↦ text name ++ text t.text

theorem MetadataContext.feed_eq (context : MetadataContext) :
    context.feed = boundFeed context.generics ++ (word 0 ++ numbered context.depths) := by
  rw [← List.append_assoc]
  rfl

/-- Bindings of known names are read off the front of a stream. -/
theorem boundFeed_append_inj {as bs : Entries String DataType} {r s : List UInt8}
    (hnames : as.map (·.1) = bs.map (·.1)) (h : boundFeed as ++ r = boundFeed bs ++ s) :
    as.map (·.2.text) = bs.map (·.2.text) ∧ r = s := by
  induction as generalizing bs with
  | nil =>
    rw [List.map_eq_nil_iff.mp hnames.symm] at h ⊢
    exact ⟨rfl, h⟩
  | cons a as ih =>
    cases bs with
    | nil => cases hnames
    | cons b bs =>
      replace h : text a.1 ++ (text a.2.text ++ (boundFeed as ++ r)) =
          text b.1 ++ (text b.2.text ++ (boundFeed bs ++ s)) := by
        simpa [boundFeed] using h
      obtain ⟨-, h⟩ := text_append_inj h
      obtain ⟨htext, h⟩ := text_append_inj h
      obtain ⟨hrest, hrs⟩ := ih (List.cons.inj hnames).2 h
      exact ⟨by rw [List.map_cons, List.map_cons, htext, hrest], hrs⟩

theorem depths_eq_of_code {as bs : Depths} (ha : ∀ entry ∈ as, 1 ≤ entry.2 ∧ entry.2 ≤ 2 ^ 64)
    (hb : ∀ entry ∈ bs, 1 ≤ entry.2 ∧ entry.2 ≤ 2 ^ 64) (h : as.map code = bs.map code) :
    as = bs := by
  induction as generalizing bs with
  | nil => exact (List.map_eq_nil_iff.mp h.symm).symm
  | cons a as ih =>
    cases bs with
    | nil => cases h
    | cons b bs =>
      obtain ⟨hfirst, hrest⟩ := List.cons.inj h
      obtain ⟨hname, hnumber⟩ := Prod.mk.inj hfirst
      have hwrap := congrArg UInt64.toNat hnumber
      simp only [UInt64.toNat_ofNat'] at hwrap
      have hcount : a.2 = b.2 := by
        have ha' := ha a (by simp)
        have hb' := hb b (by simp)
        omega
      rw [ih (fun e he ↦ ha e (by simp [he])) (fun e he ↦ hb e (by simp [he])) hrest,
        Prod.ext hname hcount]

theorem Direction.eq_of_name {d e : Direction} (h : d.name = e.name) : d = e := by
  cases d <;> cases e <;> first | rfl | exact absurd h (by decide)

namespace MetadataRequest

/-- What every request of a build satisfies: its options are in use, its class's template
parameters are bound to types of a kind, and its depths are counts of open classes. -/
structure IsRegular (r : Registry) (used : Config → Prop) (P : DataType → Prop)
    (request : MetadataRequest) : Prop where
  registry : request.registry = r
  config : used request.config
  templates : ∃ templates types, r.templates request.className = .ok templates ∧
    templates.length = types.length ∧
    request.context.generics = Entries.ofList (templates.zip types) ∧ ∀ t ∈ types, P t
  depths : ∀ entry ∈ request.context.depths, 1 ≤ entry.2 ∧ entry.2 ≤ 2 ^ 64

/-- No template parameter is called like a hook. -/
def HasPlainTemplates (registry : Registry) : Prop :=
  ∀ className templates, registry.templates className = .ok templates →
    ∀ name ∈ templates, ¬Hooks.IsKey name

variable {registry : Registry} {used : Config → Prop} {P : DataType → Prop}
  {p q : MetadataRequest}

theorem IsRegular.bound (hp : IsRegular registry used P p) :
    ∀ entry ∈ p.context.generics, P entry.2 := by
  obtain ⟨templates, types, -, -, hgenerics, htypes⟩ := hp.templates
  intro entry hentry
  rw [hgenerics] at hentry
  exact htypes _ (List.of_mem_zip (Entries.mem_ofList hentry)).2

theorem IsRegular.names (hp : IsRegular registry used P p) (hq : IsRegular registry used P q)
    (hclass : p.className = q.className) :
    p.context.generics.map (·.1) = q.context.generics.map (·.1) := by
  obtain ⟨templates, types, htemplates, hlen, hgenerics, -⟩ := hp.templates
  obtain ⟨templates', types', htemplates', hlen', hgenerics', -⟩ := hq.templates
  rw [hclass, htemplates'] at htemplates
  obtain rfl := Except.ok.inj htemplates
  rw [hgenerics, hgenerics', Entries.keys_ofList, Entries.keys_ofList, ← List.unzip_fst,
    ← List.unzip_fst, List.unzip_zip hlen, List.unzip_zip hlen']

theorem IsRegular.endHooks (hp : IsRegular registry used P p)
    (hplain : HasPlainTemplates registry) : Hooks.EndHooks p.context.feed := by
  rw [MetadataContext.feed_eq]
  cases hgen : p.context.generics with
  | nil => exact Hooks.endHooks_zero _
  | cons first rest =>
    obtain ⟨templates, types, htemplates, -, hgenerics, -⟩ := hp.templates
    have hmem : first ∈ templates.zip types := by
      refine Entries.mem_ofList ?_
      rw [← hgenerics, hgen]
      exact List.mem_cons_self
    have hname : first.1 ∈ templates := (List.of_mem_zip hmem).1
    have hfeed : boundFeed (first :: rest) ++ (word 0 ++ numbered p.context.depths) =
        text first.1 ++ (text first.2.text ++ (boundFeed rest ++
          (word 0 ++ numbered p.context.depths))) := by
      simp [boundFeed]
    rw [hfeed]
    exact Hooks.endHooks_text (hplain _ _ htemplates _ hname) _

/-- What the bytes of a context determine, if the class is known. -/
theorem IsRegular.context_inj (hp : IsRegular registry used P p) (hq : IsRegular registry used P q)
    (hclass : p.className = q.className) (h : p.context.feed = q.context.feed) :
    p.context.generics.map (·.1) = q.context.generics.map (·.1) ∧
      p.context.generics.map (·.2.text) = q.context.generics.map (·.2.text) ∧
      p.context.depths = q.context.depths := by
  rw [MetadataContext.feed_eq, MetadataContext.feed_eq] at h
  have hnames := hp.names hq hclass
  obtain ⟨htexts, h⟩ := boundFeed_append_inj hnames h
  obtain ⟨-, h⟩ := word_append_inj h
  obtain ⟨hcodes, -⟩ := numbered_append_inj (P := fun _ ↦ True) (fun _ _ ↦ trivial)
    (fun _ _ ↦ trivial) (ends_nil _) (ends_nil _) (congrArg (· ++ []) h)
  exact ⟨hnames, htexts, depths_eq_of_code hp.depths hq.depths hcodes⟩

/-- What the bytes of a request determine. -/
theorem IsRegular.feed_inj (hp : IsRegular registry used P p) (hq : IsRegular registry used P q)
    (hplain : HasPlainTemplates registry) (hused : Config.AreSeparate used)
    (h : p.feed = q.feed) :
    p.className = q.className ∧ p.direction = q.direction ∧ p.config.Agrees q.config ∧
      p.context.generics.map (·.1) = q.context.generics.map (·.1) ∧
      p.context.generics.map (·.2.text) = q.context.generics.map (·.2.text) ∧
      p.context.depths = q.context.depths := by
  simp only [feed, List.append_assoc] at h
  obtain ⟨hclass, h⟩ := text_append_inj h
  obtain ⟨hdir, h⟩ := text_append_inj h
  obtain ⟨hfeed, h⟩ := Config.feed_append_inj (hused.groups _ hp.config)
    (hused.groups _ hq.config) (hp.endHooks hplain) (hq.endHooks hplain) h
  exact ⟨hclass, Direction.eq_of_name hdir, hused.agrees hp.config hq.config hfeed,
    hp.context_inj hq hclass h⟩

/-- Without hooks the bytes determine the same, whatever template parameters are called. -/
theorem IsRegular.feed_inj_of_isEmpty (hp : IsRegular registry used P p)
    (hq : IsRegular registry used P q) (hpHooks : p.config.hooks.isEmpty = true)
    (hqHooks : q.config.hooks.isEmpty = true) (hused : Config.AreSeparate used)
    (h : p.feed = q.feed) :
    p.className = q.className ∧ p.direction = q.direction ∧ p.config.Agrees q.config ∧
      p.context.generics.map (·.1) = q.context.generics.map (·.1) ∧
      p.context.generics.map (·.2.text) = q.context.generics.map (·.2.text) ∧
      p.context.depths = q.context.depths := by
  simp only [feed, List.append_assoc] at h
  obtain ⟨hclass, h⟩ := text_append_inj h
  obtain ⟨hdir, h⟩ := text_append_inj h
  obtain ⟨hfeed, h⟩ := Config.feed_append_inj_of_isEmpty (hused.groups _ hp.config)
    (hused.groups _ hq.config) hpHooks hqHooks h
  exact ⟨hclass, Direction.eq_of_name hdir, hused.agrees hp.config hq.config hfeed,
    hp.context_inj hq hclass h⟩

/-- Under the same options the bytes determine the rest of a request, whatever template parameters
are called. -/
theorem IsRegular.feed_inj_of_config (hp : IsRegular registry used P p)
    (hq : IsRegular registry used P q) (hconfig : p.config = q.config) (h : p.feed = q.feed) :
    p.className = q.className ∧ p.direction = q.direction ∧
      p.context.generics.map (·.1) = q.context.generics.map (·.1) ∧
      p.context.generics.map (·.2.text) = q.context.generics.map (·.2.text) ∧
      p.context.depths = q.context.depths := by
  simp only [feed, List.append_assoc, hconfig] at h
  obtain ⟨hclass, h⟩ := text_append_inj h
  obtain ⟨hdir, h⟩ := text_append_inj h
  exact ⟨hclass, Direction.eq_of_name hdir, hp.context_inj hq hclass (List.append_cancel_left h)⟩

end MetadataRequest

end TypedJson
