import TypedJson.Config.Basic
import TypedJson.Proofs.Config.Hooks
import TypedJson.Proofs.Fingerprint

/-!
# What the bytes of options tell

The bytes that options feed to a cache key determine the active groups, the flags, and the numbers
of the hooks. They do not determine everything an artifact depends on: options that are refused feed
the same bytes as options that are not, an empty pattern the same as none, and a hook is reduced to
its number. `Config.AreSeparate` says of the options in use that none of this happens among them,
and `Config.Agrees` collects what two options with the same bytes then have in common, which is all
that building an artifact looks at.
-/

namespace TypedJson

/-! ## Options that agree -/

/-- The options agree on everything that building an artifact looks at. -/
structure Config.Agrees (c d : Config) : Prop where
  policy : c.circularPolicy = d.circularPolicy
  dateTimeFormat : c.dateTimeFormat = d.dateTimeFormat
  maxDepthFormatter : c.maxDepthFormatter = d.maxDepthFormatter
  groups : ∀ name, name ∈ c.groups ↔ name ∈ d.groups
  jsonFlags : c.jsonFlags = d.jsonFlags
  objectHook : ∀ className, (c.hooks.objectHook? className).map (·.run) =
    (d.hooks.objectHook? className).map (·.run)
  propertyHook : ∀ className property, (c.hooks.propertyHook? className property).map (·.run) =
    (d.hooks.propertyHook? className property).map (·.run)

theorem Config.Agrees.refl (c : Config) : c.Agrees c :=
  ⟨rfl, rfl, rfl, fun _ ↦ Iff.rfl, rfl, fun _ ↦ rfl, fun _ _ ↦ rfl⟩

/-- Options of which no two with the same bytes differ in what the bytes leave out. -/
structure Config.AreSeparate (used : Config → Prop) : Prop where
  groups : ∀ c, used c → c.groups.length < 2 ^ 64
  maxDepth : ∀ c, used c → ∀ n, c.maxDepth = some n → n < 2 ^ 64
  policy : ∀ c d, used c → used d → c.feed = d.feed → c.circularPolicy = d.circularPolicy
  dateTimeFormat : ∀ c d, used c → used d → c.feed = d.feed →
    c.dateTimeFormat = d.dateTimeFormat
  maxDepthFormatter : ∀ c d, used c → used d → c.feed = d.feed →
    c.maxDepthFormatter = d.maxDepthFormatter
  objectHooks : ∀ c d, used c → used d → ∀ hook ∈ c.hooks.object, ∀ other ∈ d.hooks.object,
    UInt64.ofNat hook.2.id = UInt64.ofNat other.2.id → hook.2.run = other.2.run
  propertyHooks : ∀ c d, used c → used d → ∀ hook ∈ c.hooks.property, ∀ other ∈ d.hooks.property,
    UInt64.ofNat hook.2.id = UInt64.ofNat other.2.id → hook.2.run = other.2.run

open Fingerprint

/-! ## Groups -/

theorem mem_eraseReps_loop {α : Type} [BEq α] [LawfulBEq α] {x a : α} {as acc : List α} :
    x ∈ List.eraseRepsBy.loop (· == ·) a as acc ↔ x = a ∨ x ∈ as ∨ x ∈ acc := by
  induction as generalizing a acc with
  | nil => simp [List.eraseRepsBy.loop, or_comm]
  | cons b as ih =>
    rw [List.eraseRepsBy.loop]
    split
    · next hab =>
      rw [ih, beq_iff_eq.mp hab, List.mem_cons]
      grind
    · rw [ih, List.mem_cons, List.mem_cons]
      grind

theorem mem_eraseReps {α : Type} [BEq α] [LawfulBEq α] {x : α} {as : List α} :
    x ∈ as.eraseReps ↔ x ∈ as := by
  cases as with
  | nil => rfl
  | cons a as =>
    show x ∈ List.eraseRepsBy.loop (· == ·) a as [] ↔ _
    rw [mem_eraseReps_loop, List.mem_cons]
    simp

theorem length_eraseReps_loop {α : Type} [BEq α] {a : α} {as acc : List α} :
    (List.eraseRepsBy.loop (· == ·) a as acc).length ≤ as.length + acc.length + 1 := by
  induction as generalizing a acc with
  | nil => simp [List.eraseRepsBy.loop]
  | cons b as ih =>
    rw [List.eraseRepsBy.loop]
    split
    · exact Nat.le_trans ih (by simp)
    · exact Nat.le_trans ih (by simp; omega)

namespace Config

theorem mem_sortedGroups {c : Config} {name : String} :
    name ∈ c.sortedGroups ↔ name ∈ c.groups := by
  rw [sortedGroups, mem_eraseReps, List.mem_mergeSort]

theorem length_sortedGroups (c : Config) : c.sortedGroups.length ≤ c.groups.length := by
  have hlen : (c.groups.mergeSort fun a b ↦ !decide (b < a)).length = c.groups.length :=
    List.length_mergeSort _
  rw [← hlen, sortedGroups]
  cases c.groups.mergeSort fun a b ↦ !decide (b < a) with
  | nil => exact Nat.le_refl 0
  | cons a as => exact length_eraseReps_loop

end Config

/-! ## Hooks -/

namespace Hooks

/-- What follows the hooks in a stream and is none. -/
abbrev EndHooks (stream : List UInt8) : Prop := Ends IsKey stream

theorem endHooks_text {name : String} (h : ¬IsKey name) (rest : List UInt8) :
    EndHooks (text name ++ rest) := by
  intro other others hother heq
  rw [(text_append_inj heq).1] at h
  exact h hother

theorem endHooks_zero (rest : List UInt8) : EndHooks (word 0 ++ rest) := by
  rintro name others ⟨key, hkey⟩ heq
  have hhead : (word 0 ++ rest).head? = some 0 := rfl
  rw [heq] at hhead
  rcases hkey with rfl | rfl
  · rw [text, Utf8.encode, String.toList_append, List.flatMap_append] at hhead
    have hbyte : some (0x6F : UInt8) = some 0 := hhead
    exact absurd hbyte (by decide)
  · rw [text, Utf8.encode, String.toList_append, List.flatMap_append] at hhead
    have hbyte : some (0x70 : UInt8) = some 0 := hhead
    exact absurd hbyte (by decide)

/-- The code of the hook that is found under a key. -/
theorem find?_code (entries : Entries String Nat) (key : String) :
    Entries.find? (entries.map code) key = (Entries.find? entries key).map UInt64.ofNat :=
  Entries.find?_map_snd UInt64.ofNat entries key

end Hooks

/-! ## Options -/

namespace Config

/-- What the bytes tell of the policy for classes that contain themselves. -/
def depthWord (c : Config) : Nat :=
  match c.circularPolicy with
  | .ok (.maxDepth n) => n + 1
  | _ => 0

/-- The bytes in front of the hooks. -/
def optionFeed (c : Config) : List UInt8 :=
  word (UInt64.ofNat c.sortedGroups.length) ++ c.sortedGroups.flatMap text ++
    word (UInt64.ofNat c.depthWord) ++ text (c.dateTimeFormat.getD "") ++
    text (c.maxDepthFormatter.getD "") ++ word c.jsonFlags.bits.toUInt64

theorem feed_eq (c : Config) : c.feed = c.optionFeed ++ numbered c.hooks.identities := rfl

/-- What the bytes in front of the hooks determine. -/
structure SameOptions (c d : Config) : Prop where
  groups : c.sortedGroups = d.sortedGroups
  depth : UInt64.ofNat c.depthWord = UInt64.ofNat d.depthWord
  dateTimeFormat : c.dateTimeFormat.getD "" = d.dateTimeFormat.getD ""
  maxDepthFormatter : c.maxDepthFormatter.getD "" = d.maxDepthFormatter.getD ""
  jsonFlags : c.jsonFlags = d.jsonFlags

theorem optionFeed_append_inj {c d : Config} (hc : c.groups.length < 2 ^ 64)
    (hd : d.groups.length < 2 ^ 64) {r s : List UInt8}
    (h : c.optionFeed ++ r = d.optionFeed ++ s) : SameOptions c d ∧ r = s := by
  simp only [optionFeed, List.append_assoc] at h
  obtain ⟨hlen, h⟩ := word_append_inj h
  have hsame : c.sortedGroups.length = d.sortedGroups.length :=
    ofNat_inj (Nat.lt_of_le_of_lt c.length_sortedGroups hc)
      (Nat.lt_of_le_of_lt d.length_sortedGroups hd) hlen
  obtain ⟨hgroups, h⟩ := flatMap_text_append_inj hsame h
  obtain ⟨hdepth, h⟩ := word_append_inj h
  obtain ⟨hformat, h⟩ := text_append_inj h
  obtain ⟨hformatter, h⟩ := text_append_inj h
  obtain ⟨hflags, hrest⟩ := word_append_inj h
  refine ⟨⟨hgroups, hdepth, hformat, hformatter, ?_⟩, hrest⟩
  have hbits : c.jsonFlags.bits = d.jsonFlags.bits := UInt32.toUInt64_inj.mp hflags
  rw [← JsonFlags.mk.injEq] at hbits
  exact hbits

/-- Options are read off the front of a stream that does not go on like a hook. -/
theorem feed_append_inj {c d : Config} (hc : c.groups.length < 2 ^ 64)
    (hd : d.groups.length < 2 ^ 64) {r s : List UInt8} (hr : Hooks.EndHooks r)
    (hs : Hooks.EndHooks s) (h : c.feed ++ r = d.feed ++ s) : c.feed = d.feed ∧ r = s := by
  have hall := h
  rw [feed_eq, feed_eq, List.append_assoc, List.append_assoc] at hall
  obtain ⟨-, hall⟩ := optionFeed_append_inj hc hd hall
  obtain ⟨-, hrest⟩ := numbered_append_inj (fun _ ↦ Hooks.isKey_of_mem_identities)
    (fun _ ↦ Hooks.isKey_of_mem_identities) hr hs hall
  rw [hrest] at h
  exact ⟨List.append_cancel_right h, hrest⟩

theorem feed_of_isEmpty {c : Config} (h : c.hooks.isEmpty = true) : c.feed = c.optionFeed := by
  have hnone : c.hooks.identities = [] := by
    obtain ⟨hobject, hproperty⟩ := Bool.and_eq_true_iff.mp h
    rw [Hooks.identities, List.isEmpty_iff.mp hobject, List.isEmpty_iff.mp hproperty]
    exact List.mergeSort_nil
  rw [feed_eq, hnone]
  exact List.append_nil _

/-- Options without hooks are read off the front of any stream. -/
theorem feed_append_inj_of_isEmpty {c d : Config} (hc : c.groups.length < 2 ^ 64)
    (hd : d.groups.length < 2 ^ 64) (hcHooks : c.hooks.isEmpty = true)
    (hdHooks : d.hooks.isEmpty = true) {r s : List UInt8} (h : c.feed ++ r = d.feed ++ s) :
    c.feed = d.feed ∧ r = s := by
  have hall := h
  rw [feed_of_isEmpty hcHooks, feed_of_isEmpty hdHooks] at hall
  obtain ⟨-, rfl⟩ := optionFeed_append_inj hc hd hall
  exact ⟨List.append_cancel_right h, rfl⟩

end Config

namespace Hooks

theorem map_orElse {α β : Type} (x y : Option α) (f : α → β) :
    (x <|> y).map f = (x.map f <|> y.map f) := by
  cases x <;> rfl

/-- Of two look-ups that find the same codes, either both fail or both find hooks that do the
same. -/
theorem map_run_eq {α β : Type} {xs ys : Entries String α} {key : String} (number : α → Nat)
    {run : α → β}
    (hcode : ((Entries.find? xs key).map number).map UInt64.ofNat =
      ((Entries.find? ys key).map number).map UInt64.ofNat)
    (hsame : ∀ x ∈ xs, ∀ y ∈ ys,
      UInt64.ofNat (number x.2) = UInt64.ofNat (number y.2) → run x.2 = run y.2) :
    (Entries.find? xs key).map run = (Entries.find? ys key).map run := by
  cases hx : Entries.find? xs key with
  | none =>
    cases hy : Entries.find? ys key with
    | none => rfl
    | some y => simp [hx, hy] at hcode
  | some x =>
    cases hy : Entries.find? ys key with
    | none => simp [hx, hy] at hcode
    | some y =>
      simp only [hx, hy, Option.map_some, Option.some.injEq] at hcode
      rw [Option.map_some, Option.map_some,
        hsame _ (Entries.mem_of_find? hx) _ (Entries.mem_of_find? hy) hcode]

end Hooks

/-- Options in use with the same bytes agree. -/
theorem Config.AreSeparate.agrees {used : Config → Prop} (h : AreSeparate used) {c d : Config}
    (hc : used c) (hd : used d) (hfeed : c.feed = d.feed) : c.Agrees d := by
  have hoption := hfeed
  rw [feed_eq, feed_eq] at hoption
  obtain ⟨hsame, hhooks⟩ :=
    optionFeed_append_inj (h.groups c hc) (h.groups d hd) hoption
  obtain ⟨hcodes, -⟩ := numbered_append_inj (fun _ ↦ Hooks.isKey_of_mem_identities)
    (fun _ ↦ Hooks.isKey_of_mem_identities) (ends_nil _) (ends_nil _)
    (congrArg (· ++ []) hhooks)
  have hfind : ∀ key, (Entries.find? c.hooks.identities key).map UInt64.ofNat =
      (Entries.find? d.hooks.identities key).map UInt64.ofNat := by
    intro key
    rw [← Hooks.find?_code, ← Hooks.find?_code, hcodes]
  have hobject : ∀ key, (Entries.find? c.hooks.object key).map (·.run) =
      (Entries.find? d.hooks.object key).map (·.run) := by
    intro key
    refine Hooks.map_run_eq (·.id) ?_ (h.objectHooks c d hc hd)
    rw [← Hooks.find?_object, ← Hooks.find?_object, hfind]
  have hproperty : ∀ key, (Entries.find? c.hooks.property key).map (·.run) =
      (Entries.find? d.hooks.property key).map (·.run) := by
    intro key
    refine Hooks.map_run_eq (·.id) ?_ (h.propertyHooks c d hc hd)
    rw [← Hooks.find?_property, ← Hooks.find?_property, hfind]
  refine ⟨h.policy c d hc hd hfeed, h.dateTimeFormat c d hc hd hfeed,
    h.maxDepthFormatter c d hc hd hfeed, fun name ↦ ?_, hsame.jsonFlags, fun className ↦ ?_,
    fun className property ↦ ?_⟩
  · rw [← mem_sortedGroups, hsame.groups, mem_sortedGroups]
  · rw [Hooks.objectHook?, Hooks.objectHook?, Hooks.map_orElse, Hooks.map_orElse, hobject, hobject]
  · rw [Hooks.propertyHook?, Hooks.propertyHook?, Hooks.map_orElse, Hooks.map_orElse, hproperty,
      hproperty]

/-! ## Options that are accepted -/

/-- Options that are accepted and say nothing by an empty string. -/
structure Config.IsProper (c : Config) : Prop where
  groups : c.groups.length < 2 ^ 64
  maxDepth : ∀ n, c.maxDepth = some n → n + 1 < 2 ^ 64
  policy : ∃ policy, c.circularPolicy = .ok policy
  dateTimeFormat : c.dateTimeFormat ≠ some ""
  maxDepthFormatter : c.maxDepthFormatter ≠ some ""

namespace Config

theorem eq_of_getD {x y : Option String} (hx : x ≠ some "") (hy : y ≠ some "")
    (h : x.getD "" = y.getD "") : x = y := by
  cases x with
  | none =>
    cases y with
    | none => rfl
    | some t => exact (hy (congrArg some h.symm)).elim
  | some s =>
    cases y with
    | none => exact (hx (congrArg some h)).elim
    | some t => exact congrArg some h

/-- An accepted policy and what the bytes tell of it. -/
theorem IsProper.policy_cases {c : Config} (h : c.IsProper) :
    (c.circularPolicy = .ok .reject ∧ c.depthWord = 0) ∨
      ∃ n, c.circularPolicy = .ok (.maxDepth n) ∧ c.depthWord = n + 1 ∧ n + 1 < 2 ^ 64 := by
  obtain ⟨policy, hpolicy⟩ := h.policy
  cases policy with
  | reject =>
    refine .inl ⟨hpolicy, ?_⟩
    rw [depthWord, hpolicy]
  | maxDepth n =>
    refine .inr ⟨n, hpolicy, by rw [depthWord, hpolicy], ?_⟩
    unfold circularPolicy at hpolicy
    split at hpolicy
    · cases hpolicy
    · next m hm =>
      cases hpolicy
      exact h.maxDepth _ hm
    · split at hpolicy <;> cases hpolicy

/-- Proper options are separate, as long as hooks with the same number are the same. -/
theorem areSeparate_of_isProper {used : Config → Prop} (h : ∀ c, used c → c.IsProper)
    (hobject : ∀ c d, used c → used d → ∀ hook ∈ c.hooks.object, ∀ other ∈ d.hooks.object,
      UInt64.ofNat hook.2.id = UInt64.ofNat other.2.id → hook.2.run = other.2.run)
    (hproperty : ∀ c d, used c → used d → ∀ hook ∈ c.hooks.property,
      ∀ other ∈ d.hooks.property,
        UInt64.ofNat hook.2.id = UInt64.ofNat other.2.id → hook.2.run = other.2.run) :
    AreSeparate used := by
  have hsame : ∀ c d, used c → used d → c.feed = d.feed → SameOptions c d := by
    intro c d hc hd hfeed
    rw [feed_eq, feed_eq] at hfeed
    exact (optionFeed_append_inj (h c hc).groups (h d hd).groups hfeed).1
  refine ⟨fun c hc ↦ (h c hc).groups, fun c hc n hn ↦ ?_, fun c d hc hd hfeed ↦ ?_,
    fun c d hc hd hfeed ↦ ?_, fun c d hc hd hfeed ↦ ?_, hobject, hproperty⟩
  · have := (h c hc).maxDepth n hn
    omega
  · have hdepth := (hsame c d hc hd hfeed).depth
    obtain ⟨hp, hpw⟩ | ⟨n, hp, hpw, hpn⟩ := (h c hc).policy_cases
    · obtain ⟨hq, hqw⟩ | ⟨m, hq, hqw, hqm⟩ := (h d hd).policy_cases
      · rw [hp, hq]
      · rw [hpw, hqw] at hdepth
        exact absurd (ofNat_inj (by omega) hqm hdepth) (by omega)
    · obtain ⟨hq, hqw⟩ | ⟨m, hq, hqw, hqm⟩ := (h d hd).policy_cases
      · rw [hpw, hqw] at hdepth
        exact absurd (ofNat_inj hpn (by omega) hdepth) (by omega)
      · rw [hpw, hqw] at hdepth
        have hnm : n = m := Nat.succ.inj (ofNat_inj hpn hqm hdepth)
        rw [hp, hq, hnm]
  · exact eq_of_getD (h c hc).dateTimeFormat (h d hd).dateTimeFormat
      (hsame c d hc hd hfeed).dateTimeFormat
  · exact eq_of_getD (h c hc).maxDepthFormatter (h d hd).maxDepthFormatter
      (hsame c d hc hd hfeed).maxDepthFormatter

/-- Proper options without hooks. -/
structure IsHookless (c : Config) : Prop where
  proper : c.IsProper
  hooks : c.hooks.isEmpty = true

theorem areSeparate_isHookless : AreSeparate IsHookless := by
  refine areSeparate_of_isProper (fun c hc ↦ hc.proper) ?_ ?_
  · intro c d hc _ hook hhook
    rw [List.isEmpty_iff.mp (Bool.and_eq_true_iff.mp hc.hooks).1] at hhook
    exact absurd hhook List.not_mem_nil
  · intro c d hc _ hook hhook
    rw [List.isEmpty_iff.mp (Bool.and_eq_true_iff.mp hc.hooks).2] at hhook
    exact absurd hhook List.not_mem_nil

end Config

end TypedJson
