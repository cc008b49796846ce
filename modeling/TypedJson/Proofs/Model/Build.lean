import TypedJson.Proofs.Metadata.Cache
import TypedJson.Proofs.Model.Nodes

/-!
# Builds do not depend on what is cached

For options in use that agree, and types of the registry, two builds are in step over caches that
answer like the pipeline. So the node of a type, or the failure to build it, is the same whatever
earlier builds have left in the metadata cache.
-/

namespace TypedJson

/-! ## Types that are met -/

namespace Pipeline

open DataType

variable {pipeline : Pipeline} {r : Registry}

theorem Admits.generics {className : String} {generics : List DataType} {nullable : Bool}
    (h : pipeline.Admits r (mk (.object className generics) nullable)) :
    ∀ t ∈ generics, pipeline.Admits r t :=
  fun t ht hgen ↦ (h hgen).generics t ht

theorem isHereditary_admits : IsHereditary (pipeline.Admits r) where
  item h hgen := (h hgen).item
  value h hgen := (h hgen).value
  members h m hm hgen := (h hgen).members m hm

end Pipeline

/-! ## The setting -/

/-- Object hooks give properties types of a kind if the properties have such types already. -/
def Hooks.KeepTypes (P : DataType → Prop) (hooks : Hooks) : Prop :=
  ∀ hook ∈ hooks.object, ∀ t properties context changed context',
    PropertyMap.HasTypes P properties →
      hook.2.run t properties context = .ok (some changed) context' → changed.HasTypes P

theorem Hooks.mem_of_objectHook? {hooks : Hooks} {className : String} {hook : ObjectHook}
    (h : hooks.objectHook? className = some hook) : ∃ key, (key, hook) ∈ hooks.object := by
  unfold Hooks.objectHook? at h
  cases hown : Entries.find? hooks.object className with
  | some own =>
    rw [hown] at h
    obtain rfl := Option.some.inj h
    exact ⟨className, Entries.mem_of_find? hown⟩
  | none =>
    rw [hown] at h
    exact ⟨anyObject, Entries.mem_of_find? h⟩

theorem Hooks.ne_nil_of_propertyHook? {hooks : Hooks} {className property : String}
    {hook : PropertyHook} (h : hooks.propertyHook? className property = some hook) :
    hooks.property ≠ [] := by
  intro hnil
  rw [Hooks.propertyHook?, hnil] at h
  cases h

/-- Options in use that agree, over a registry and a pipeline for which bytes tell requests apart
and whose properties have types of the registry. -/
structure Config.Paired (r : Registry) (pipeline : Pipeline) (used : Config → Prop) (c d : Config) :
    Prop where
  loads : ∀ p q : MetadataRequest, p.IsRegular r used (pipeline.Admits r) →
    q.IsRegular r used (pipeline.Admits r) → p.feed = q.feed → pipeline.load p = pipeline.load q
  types : ∀ (p : MetadataRequest) (properties : PropertyMap),
    p.IsRegular r used (pipeline.Admits r) → pipeline.load p = .ok properties →
      properties.HasTypes (pipeline.Admits r)
  /-- Hooks may put a formatter in. -/
  formatters : c.hooks.property ≠ [] → ∀ name input output,
    r.formatters.types name = .ok (input, output) →
      pipeline.Admits r input ∧ pipeline.Admits r output
  hooks : c.hooks.KeepTypes (pipeline.Admits r)
  left : used c
  right : used d
  agrees : c.Agrees d

/-- What builds over different cached properties have in common: they remember the same classes, and
whatever is cached is sound. -/
structure BuildMemory.Agrees (K : MetadataCache → Prop) (m m' : BuildMemory) : Prop where
  memo : m.memo = m'.memo
  hooks : m.hooks = m'.hooks
  left : K m.metadata
  right : K m'.metadata

/-- Builds over different cached properties. They fail alike. -/
def Lockstep.cached (K : MetadataCache → Prop) : Lockstep := ⟨BuildMemory.Agrees K, Eq⟩

namespace Build

variable {r : Registry} {pipeline : Pipeline} {used : Config → Prop} {c d : Config}
  {direction : Direction} {policy : CircularPolicy} {S : List String} {K : MetadataCache → Prop}

/-- The builds are in step over caches of a kind. -/
abbrev AreInStep {α : Type} (K : MetadataCache → Prop) (S : List String) (P : α → Prop)
    (x y : Build α) : Prop := InStep (.cached K) S S P x y

/-! ## Loading -/

/-- Caches that answer like the pipeline answer alike. -/
theorem load_eq_of_answersLike (hcd : Config.Paired r pipeline used c d)
    (hK : MetadataCache.AnswersLike r used pipeline K) {m n : MetadataCache} (hm : K m) (hn : K n)
    {className : String} {metadata : MetadataContext}
    (hreg : ∀ e, used e → MetadataRequest.IsRegular r used (pipeline.Admits r)
      ⟨className, direction, r, e, metadata⟩) :
    let left := m.load pipeline ⟨className, direction, r, c, metadata⟩
    let right := n.load pipeline ⟨className, direction, r, d, metadata⟩
    left.1 = right.1 ∧ left.1 = pipeline.load ⟨className, direction, r, c, metadata⟩ ∧
      K left.2 ∧ K right.2 := by
  obtain ⟨hleft, hkept⟩ := hK m hm _ (hreg c hcd.left)
  obtain ⟨hright, hkept'⟩ := hK n hn _ (hreg d hcd.right)
  have hsame : pipeline.load ⟨className, direction, r, c, metadata⟩ =
      pipeline.load ⟨className, direction, r, d, metadata⟩ :=
    pipeline.load_congr ⟨rfl, rfl, rfl, hcd.agrees, rfl⟩ fun _ ↦ rfl
  exact ⟨hleft.trans (hsame.trans hright.symm), hleft, hkept, hkept'⟩

/-- The properties of a class have types of the registry. -/
theorem loadMetadata_areInStep (hcd : Config.Paired r pipeline used c d)
    (hK : MetadataCache.AnswersLike r used pipeline K) {className : String}
    {metadata : MetadataContext}
    (hreg : ∀ e, used e → MetadataRequest.IsRegular r used (pipeline.Admits r)
      ⟨className, direction, r, e, metadata⟩) :
    AreInStep K S (PropertyMap.HasTypes (pipeline.Admits r))
      (loadMetadata ⟨r, c, direction, pipeline, policy⟩ className metadata)
      (loadMetadata ⟨r, d, direction, pipeline, policy⟩ className metadata) := by
  refine loadMetadata_inStep fun m m' hm ↦ ?_
  obtain ⟨hsame, hload, hkept, hkept'⟩ := load_eq_of_answersLike hcd hK hm.left hm.right hreg
  refine ⟨hsame, ⟨hm.memo, hm.hooks, hkept, hkept'⟩, fun properties h ↦ ?_, fun _ _ ↦ rfl⟩
  exact hcd.types _ _ (hreg c hcd.left) (hload.symm.trans h)

/-! ## Hooks -/

theorem override_areInStep
    (hform : ∀ name input output, r.formatters.types name = .ok (input, output) →
      pipeline.Admits r input ∧ pipeline.Admits r output) {p : Property}
    (hp : pipeline.Admits r p.type) (o : PropertyOverride) :
    AreInStep K S (fun changed ↦ ∀ p, changed = some p → pipeline.Admits r p.type)
      (override ⟨r, c, direction, pipeline, policy⟩ p o)
      (override ⟨r, d, direction, pipeline, policy⟩ p o) := by
  unfold override
  split
  · exact .pure fun p h ↦ nomatch h
  dsimp only
  split
  · refine .pure fun q hq ↦ ?_
    rw [← Option.some.inj hq]
    exact hp
  · next name hname =>
    refine .bind (.lift (P := fun types ↦ pipeline.Admits r types.1 ∧ pipeline.Admits r types.2) ?_
      fun _ _ ↦ rfl) fun types htypes ↦ ?_
    · intro types htypes
      exact hform name types.1 types.2 htypes
    · cases direction with
      | encode =>
        refine .pure fun q hq ↦ ?_
        rw [← Option.some.inj hq]
        exact htypes.2
      | decode =>
        refine .pure fun q hq ↦ ?_
        rw [← Option.some.inj hq]
        exact htypes.1

/-- The same hook runs on both sides. -/
theorem runHook_areInStep {α : Type} {P : α → Prop} {action : HookAction α}
    (h : ∀ hooks a hooks', action hooks = .ok a hooks' → P a) :
    AreInStep K S P (runHook action) (runHook action) := by
  intro s s' hs
  have hmemory := hs.memory
  unfold runHook
  rw [hmemory.hooks]
  cases haction : action s'.hooks with
  | ok a hooks =>
    exact ⟨rfl, h _ _ _ haction, hs.left, hs.right, hmemory.memo, rfl, hmemory.left, hmemory.right⟩
  | error error hooks =>
    exact ⟨rfl, hs.left, hs.right, hmemory.memo, rfl, hmemory.left, hmemory.right⟩

theorem hooked_areInStep (hcd : Config.Paired r pipeline used c d) {className key : String}
    {p : Property} (hp : pipeline.Admits r p.type) :
    AreInStep K S (fun changed ↦ ∀ p, changed = some p → pipeline.Admits r p.type)
      (hooked ⟨r, c, direction, pipeline, policy⟩ className key p)
      (hooked ⟨r, d, direction, pipeline, policy⟩ className key p) := by
  have hkept : ∀ q, some p = some q → pipeline.Admits r q.type := by
    intro q hq
    rw [← Option.some.inj hq]
    exact hp
  have hrun := hcd.agrees.propertyHook className key
  unfold hooked
  dsimp only
  cases hleft : c.hooks.propertyHook? className key with
  | none =>
    rw [hleft] at hrun
    rw [Option.map_eq_none_iff.mp hrun.symm]
    exact .pure hkept
  | some hook =>
    rw [hleft] at hrun
    obtain ⟨other, hright, hsame⟩ := Option.map_eq_some_iff.mp hrun.symm
    rw [hright]
    dsimp only
    rw [hsame]
    refine .bind (runHook_areInStep (P := fun _ ↦ True) fun _ _ _ _ ↦ trivial) fun o _ ↦ ?_
    cases o with
    | none => exact .pure hkept
    | some o => exact override_areInStep (hcd.formatters (Hooks.ne_nil_of_propertyHook? hleft)) hp o

theorem properties_areInStep (hcd : Config.Paired r pipeline used c d)
    (hK : MetadataCache.AnswersLike r used pipeline K) (t : DataType) {className : String}
    {metadata : MetadataContext}
    (hreg : ∀ e, used e → MetadataRequest.IsRegular r used (pipeline.Admits r)
      ⟨className, direction, r, e, metadata⟩) :
    AreInStep K S (PropertyMap.HasTypes (pipeline.Admits r))
      (properties ⟨r, c, direction, pipeline, policy⟩ t className metadata)
      (properties ⟨r, d, direction, pipeline, policy⟩ t className metadata) := by
  refine .bind (loadMetadata_areInStep hcd hK hreg) fun loaded hloaded ↦ ?_
  refine .bind (.modify fun s s' hs ↦ ?_) fun _ _ ↦ ?_
  · have hmemory := hs.memory
    refine ⟨hs.left, hs.right, hmemory.memo, ?_, hmemory.left, hmemory.right⟩
    dsimp only
    rw [hmemory.hooks, hs.left, hs.right]
  have hrun := hcd.agrees.objectHook className
  dsimp only
  cases hleft : c.hooks.objectHook? className with
  | none =>
    rw [hleft] at hrun
    rw [Option.map_eq_none_iff.mp hrun.symm]
    exact .pure hloaded
  | some hook =>
    rw [hleft] at hrun
    obtain ⟨other, hright, hsame⟩ := Option.map_eq_some_iff.mp hrun.symm
    rw [hright]
    dsimp only
    rw [hsame]
    refine .bind (runHook_areInStep (P := fun changed ↦
      ∀ properties, changed = some properties → properties.HasTypes (pipeline.Admits r)) ?_)
      fun changed hchanged ↦ ?_
    · rintro context changed context' hchanged properties rfl
      obtain ⟨key, hmem⟩ := Hooks.mem_of_objectHook? hleft
      exact hcd.hooks _ hmem t loaded context properties context' hloaded hchanged
    · cases changed with
      | none => exact .pure hloaded
      | some changed => exact .pure (hchanged changed rfl)

/-! ## Open classes -/

/-- How often a class can be open under a policy. -/
def maxOpen : CircularPolicy → Nat
  | .reject => 1
  | .maxDepth limit => limit + 1

/-- No class is open more often than the policy allows. -/
def IsWithin (policy : CircularPolicy) (stack : List String) : Prop :=
  ∀ className, stack.count className ≤ maxOpen policy

theorem isWithin_nil (policy : CircularPolicy) : IsWithin policy [] :=
  fun _ ↦ Nat.zero_le _

theorem count_concat_le {stack : List String} {k : Nat} (h : ∀ x, stack.count x ≤ k)
    {className : String} (hclass : stack.count className < k) (x : String) :
    (stack ++ [className]).count x ≤ k := by
  rw [List.count_append, List.count_singleton]
  split
  · next heq =>
    obtain rfl := eq_of_beq heq
    exact hclass
  · exact h x

/-- A class that is not too deep is open less often than the policy allows. -/
theorem count_lt_of_isTooDeep {stack : List String} {className : String}
    (hdeep : isTooDeep policy stack className = false) :
    stack.count className < maxOpen policy := by
  cases policy with
  | reject =>
    have hnone : stack.count className = 0 := List.count_eq_zero.mpr fun hmem ↦ by
      rw [isTooDeep, List.contains_iff_mem.mpr hmem] at hdeep
      cases hdeep
    rw [hnone]
    exact Nat.zero_lt_one
  | maxDepth limit => exact Nat.lt_succ_of_le (Nat.le_of_not_lt (of_decide_eq_false hdeep))

/-- Opening a class that is not too deep stays within the policy. -/
theorem IsWithin.open {stack : List String} (h : IsWithin policy stack) {className : String}
    (hdeep : isTooDeep policy stack className = false) :
    IsWithin policy (stack ++ [className]) :=
  count_concat_le h (count_lt_of_isTooDeep hdeep)

/-- The request of a class that may be opened is regular. -/
theorem isRegular_of_isWithin {P : DataType → Prop} (hbound : maxOpen policy ≤ 2 ^ 64)
    (hstack : IsWithin policy S) {className : String} {templates : List String}
    {generics : List DataType} (htemplates : r.templates className = .ok templates)
    (hlen : templates.length = generics.length) (hgen : ∀ g ∈ generics, P g) :
    ∀ e, used e → MetadataRequest.IsRegular r used P
      ⟨className, direction, r, e, metadataFor templates generics S⟩ := by
  intro e he
  refine ⟨rfl, he, ⟨templates, generics, htemplates, hlen, rfl, hgen⟩, fun entry hentry ↦ ?_⟩
  have hcount := Depths.counts_ofStack S entry hentry
  exact ⟨hcount.1, Nat.le_trans hcount.2 (Nat.le_trans (hstack _) hbound)⟩

/-- What builds over caches of a kind carry along. -/
theorem carries_admits : (Lockstep.cached K).Carries r (pipeline.Admits r) fun _ ↦ True :=
  ⟨Pipeline.isHereditary_admits, Node.isInherited_true, fun _ _ ↦ rfl⟩

theorem alike_of_paired (hcd : Config.Paired r pipeline used c d) (direction : Direction)
    (policy : CircularPolicy) : BuildContext.Alike ⟨r, c, direction, pipeline, policy⟩
      ⟨r, d, direction, pipeline, policy⟩ :=
  ⟨rfl, rfl, hcd.agrees.dateTimeFormat.symm⟩

/-- Classes are entered in step. -/
theorem enter_areInStep (hcd : Config.Paired r pipeline used c d)
    (hK : MetadataCache.AnswersLike r used pipeline K)
    (hbound : maxOpen policy ≤ 2 ^ 64) (fuel : Nat) (hstack : IsWithin policy S) (t : DataType)
    (className : String) {generics : List DataType} (hgen : ∀ g ∈ generics, pipeline.Admits r g) :
    AreInStep K S (fun _ ↦ True)
      (enter ⟨r, c, direction, pipeline, policy⟩ fuel t className generics)
      (enter ⟨r, d, direction, pipeline, policy⟩ fuel t className generics) := by
  induction fuel generalizing S t className generics with
  | zero => exact enter_zero_inStep rfl
  | succ fuel ih =>
    unfold enter
    refine enterStep_inStep ?_ ?_ ?_ ?_ ?_ (fun _ h ↦ h) fun hopen ↦ ?_
    · rfl
    · exact fun _ ↦ rfl
    · exact fun m m' hm key ↦ by rw [hm.memo]
    · exact fun _ _ _ _ _ ↦ trivial
    · exact fun m m' node hm _ ↦ ⟨by rw [hm.memo], hm.hooks, hm.left, hm.right⟩
    have hopened : IsWithin policy (S ++ [className]) := hstack.open hopen
    refine classNode_inStep (alike_of_paired hcd direction policy) (fun _ _ ↦ rfl)
      (fun _ _ _ ↦ rfl) (fun templates htemplates hlen ↦ properties_areInStep hcd hK t
        (isRegular_of_isWithin hbound hopened htemplates hlen hgen)) fun map hmap ↦ ?_
    refine .mono (fun _ _ ↦ trivial) (propertyNodes_inStep (N := fun _ ↦ True)
      (fun entry hentry ↦ hooked_areInStep hcd (hmap entry hentry)) fun u hu ↦ ?_)
    exact toNode_inStep (alike_of_paired hcd direction policy) carries_admits
      (fun _ _ _ _ ht ↦ ih hopened _ _ ht.generics) u hu

/-- The node of a type is built in step. -/
theorem node_areInStep (direction : Direction) (hcd : Config.Paired r pipeline used c d)
    (hK : MetadataCache.AnswersLike r used pipeline K)
    (hbound : maxOpen policy ≤ 2 ^ 64) {t : DataType} (ht : pipeline.Admits r t) :
    AreInStep K [] (fun _ ↦ True)
      (node ⟨r, c, direction, pipeline, policy⟩ t) (node ⟨r, d, direction, pipeline, policy⟩ t) :=
  toNode_inStep (alike_of_paired hcd direction policy) carries_admits
    (fun className _ _ _ ht ↦ enter_areInStep hcd hK hbound _ (isWithin_nil policy) _ className
      ht.generics) t ht

end Build

/-- A build answers the same over caches of a kind that answer like the pipeline, and leaves one. -/
theorem buildNode_eq_of_answersLike {r : Registry} {pipeline : Pipeline} {used : Config → Prop}
    {c d : Config} {policy : CircularPolicy} (hcd : Config.Paired r pipeline used c d)
    {K : MetadataCache → Prop} (hK : MetadataCache.AnswersLike r used pipeline K)
    (hbound : Build.maxOpen policy ≤ 2 ^ 64) {t : DataType} (ht : pipeline.Admits r t)
    (direction : Direction) {m n : MetadataCache} (hm : K m) (hn : K n) :
    (buildNode r c direction pipeline m policy t).1 =
        (buildNode r d direction pipeline n policy t).1 ∧
      K (buildNode r c direction pipeline m policy t).2 := by
  have hstep := Build.node_areInStep direction hcd hK hbound ht
    { metadata := m, hooks := { direction } } { metadata := n, hooks := { direction } }
    ⟨rfl, rfl, rfl, rfl, hm, hn⟩
  unfold buildNode
  dsimp only
  split at hstep
  · next hx hy =>
    rw [hx, hy]
    exact ⟨by rw [hstep.1], hstep.2.2.memory.left⟩
  · next hx hy =>
    rw [hx, hy]
    exact ⟨by rw [hstep.1], hstep.2.memory.left⟩
  · exact hstep.elim

/-- A build answers the same over any sound cache, and leaves a sound cache. -/
theorem buildNode_eq {r : Registry} {pipeline : Pipeline} {used : Config → Prop} {c d : Config}
    {policy : CircularPolicy} (hcd : Config.Paired r pipeline used c d)
    (hbound : Build.maxOpen policy ≤ 2 ^ 64) {t : DataType} (ht : pipeline.Admits r t)
    (direction : Direction) {m n : MetadataCache}
    (hm : MetadataCache.IsSound r used pipeline m) (hn : MetadataCache.IsSound r used pipeline n) :
    (buildNode r c direction pipeline m policy t).1 =
        (buildNode r d direction pipeline n policy t).1 ∧
      MetadataCache.IsSound r used pipeline (buildNode r c direction pipeline m policy t).2 :=
  buildNode_eq_of_answersLike hcd (MetadataCache.answersLike_isSound hcd.loads) hbound ht direction
    hm hn

end TypedJson
