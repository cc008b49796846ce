import TypedJson.Proofs.Model.Build
import TypedJson.Proofs.Model.Typing

/-!
# What is remembered does not show

A builder remembers the node of a class under the text of its type and the number of times that each
class is open. The node was built while classes were open in some order, and it is found again while
they are open in any other: this is right because the order shows in failures only, which are never
remembered. So a builder answers every call like a builder that has just been made and remembers
nothing at all.

The two are shown to be in step while the same classes are open equally often. `p` says whether they
are open in the same order as well, for only then do failures name the same chain.
-/

namespace TypedJson

open DataType

namespace Build

/-- The order of open classes does not decide whether one more may be opened. -/
theorem isTooDeep_congr {S S' : List String} (h : S.Perm S') (policy : CircularPolicy)
    (className : String) : isTooDeep policy S className = isTooDeep policy S' className := by
  cases policy with
  | reject => exact h.contains_eq
  | maxDepth limit =>
    unfold isTooDeep
    dsimp only
    rw [h.count_eq]

/-! ## Builders that remember nothing -/

/-- The node of a class, whatever has been built before. -/
def anewStep (context : BuildContext) (enter : DataType → String → List DataType → Build Node)
    (t : DataType) (className : String) (generics : List DataType) : Build Node :=
  guarding context.policy className
    (classNode context (DataType.toNode context enter) t className generics)

/-- The node of a class, if at most `fuel` classes have to be opened inside each other. -/
def enterAnew (context : BuildContext) :
    Nat → DataType → String → List DataType → Build Node
  | 0 => fun _ className _ ↦ do throw (circular (← get).stack className)
  | fuel + 1 => anewStep context (enterAnew context fuel)

/-- The node of a type, on a builder that remembers no classes. -/
def nodeAnew (context : BuildContext) (t : DataType) : Build Node :=
  t.toNode context (enterAnew context (fuelFor context))

/-- What a builder answers that has just been made and remembers no classes. -/
def anew (context : BuildContext) (metadata : MetadataCache) (t : DataType) :
    Except Failure Node :=
  match nodeAnew context t { metadata, hooks := { direction := context.direction } } with
  | .ok node _ => .ok node
  | .error failure _ => .error failure

/-- What one builder answers to calls one after another, failed ones included, with the state that
each of them leaves. -/
def calls (context : BuildContext) :
    BuildState → List DataType → List (Except Failure Node × BuildState)
  | _, [] => []
  | s, t :: types =>
    match node context t s with
    | .ok built after => (.ok built, after) :: calls context after types
    | .error failure after => (.error failure, after) :: calls context after types

/-! ## Builders in step -/

/-- The cached properties were loaded for requests under the options of the build. -/
abbrev IsFilled (c : BuildContext) (cache : MetadataCache) : Prop :=
  MetadataCache.IsSound c.registry (· = c.config) c.pipeline cache

/-- Whenever the classes of `S` are open, the build answers the node, and closes what it opens. -/
def Answers (c : BuildContext) (S : List String) (x : Build Node) (node : Node) : Prop :=
  ∀ s : BuildState, s.stack = S → IsFilled c s.metadata →
    ∃ after, x s = .ok node after ∧ after.stack = S ∧ IsFilled c after.metadata

/-- The node under a key is what a builder answers that remembers nothing, for the class that the
key is for and while classes are open as often as the key says. -/
structure IsRight (c : BuildContext) (key : String × Depths) (node : Node) (className : String)
    (generics : List DataType) : Prop where
  denotes : c.registry.Denotes (mk (.object className generics) false)
  text : key.1 = (mk (.object className generics) false).text
  answers : ∀ (S : List String) (fuel : Nat) (t : DataType),
    fuel + 1 + S.length = fuelFor c → Depths.ofStack (S ++ [className]) = key.2 →
      Answers c S (classNode c (DataType.toNode c (enterAnew c fuel)) t className generics) node

/-- What a builder remembers beside one that remembers nothing. -/
structure IsBeside (c : BuildContext) (m m' : BuildMemory) : Prop where
  left : IsFilled c m.metadata
  right : IsFilled c m'.metadata
  memo : ∀ key node, Entries.find? m.memo key = some node →
    ∃ className generics, IsRight c key node className generics

/-- A builder beside one that remembers nothing. They fail alike if `p`. -/
def beside (c : BuildContext) (p : Prop) : Lockstep := ⟨IsBeside c, fun e e' ↦ p → e = e'⟩

variable {c : BuildContext} {p : Prop} {S S' : List String}

theorem IsBeside.put {m m' : BuildMemory} (h : IsBeside c m m') {key : String × Depths}
    {node : Node} {className : String} {generics : List DataType}
    (hright : IsRight c key node className generics) :
    IsBeside c { m with memo := Entries.put m.memo key node } m' :=
  ⟨h.left, h.right, Entries.forall_find?_put h.memo ⟨className, generics, hright⟩⟩

/-- A build beside one that answers a node answers it too. -/
theorem answers_of_inStep {x y : Build Node}
    (h : InStep (beside c False) S S' (fun _ ↦ True) x y) {s after : BuildState} {m' : BuildMemory}
    {node : Node} (hstack : s.stack = S) (hs : IsBeside c s.toBuildMemory m')
    (hx : x s = .ok node after) : Answers c S' y node := by
  intro s' hstack' hfilled
  have hstep := h s s' ⟨hstack, hstack', hs.left, hfilled, hs.memo⟩
  rw [hx] at hstep
  cases hy : y s' with
  | error e after' =>
    rw [hy] at hstep
    exact hstep.elim
  | ok built after' =>
    rw [hy] at hstep
    obtain ⟨rfl, -, hafter⟩ := hstep
    exact ⟨after', rfl, hafter.right, hafter.memory.right⟩

theorem carries_beside : (beside c p).Carries c.registry c.registry.Denotes fun _ ↦ True :=
  ⟨c.registry.isHereditary_denotes, Node.isInherited_true, fun _ _ _ ↦ rfl⟩

theorem properties_beside (hc : c.IsPlain) (hbound : maxOpen c.policy ≤ 2 ^ 64) (t u : DataType)
    {className : String} {templates : List String}
    (htemplates : c.registry.templates className = .ok templates)
    {generics : List DataType} (hlen : templates.length = generics.length)
    (hgenerics : ∀ g ∈ generics, c.registry.Denotes g) {stack : List String}
    (hstack : IsWithin c.policy stack) :
    InStep (beside c p) S S' (PropertyMap.HasTypes c.registry.Denotes)
      (properties c t className (metadataFor templates generics stack))
      (properties c u className (metadataFor templates generics stack)) := by
  refine properties_inStep_of_isEmpty hc.hooks hc.hooks
    (fun s s' hs ↦ ⟨hs.left, hs.right, hs.memory.left, hs.memory.right, hs.memory.memo⟩) ?_
  refine loadMetadata_inStep fun m m' hm ↦ ?_
  have hreg : MetadataRequest.IsRegular c.registry (· = c.config) (c.pipeline.Admits c.registry)
      (c.request className (metadataFor templates generics stack)) :=
    isRegular_of_isWithin hbound hstack htemplates hlen (fun g hg _ ↦ hgenerics g hg) _ rfl
  obtain ⟨hleft, hfilled⟩ := hm.left.load hreg fun q hq hfeed ↦
    hreg.load_eq_of_config hq hq.config.symm hfeed
  obtain ⟨hright, hfilled'⟩ := hm.right.load hreg fun q hq hfeed ↦
    hreg.load_eq_of_config hq hq.config.symm hfeed
  refine ⟨hleft.trans hright.symm, ⟨hfilled, hfilled', hm.memo⟩, fun properties h ↦ ?_,
    fun _ _ _ ↦ rfl⟩
  exact hasTypes_load_request hc htemplates hlen hgenerics stack
    (hleft.symm.trans h)

/-- Given classes that are entered in step, a class is built in step. -/
theorem classNode_beside (hc : c.IsPlain) (hbound : maxOpen c.policy ≤ 2 ^ 64) (t u : DataType)
    {className : String} {generics : List DataType}
    (hgenerics : ∀ g ∈ generics, c.registry.Denotes g)
    (hstack : IsWithin c.policy (S ++ [className]))
    (hdepths : Depths.ofStack (S ++ [className]) = Depths.ofStack (S' ++ [className]))
    {enter enter' : DataType → String → List DataType → Build Node}
    (henter : ∀ inner generics nullable, inner ∉ dateTimeClasses →
      c.registry.Denotes (mk (.object inner generics) nullable) →
        InStep (beside c p) (S ++ [className]) (S' ++ [className]) (fun _ ↦ True)
          (enter (mk (.object inner generics) nullable) inner generics)
          (enter' (mk (.object inner generics) nullable) inner generics)) :
    InStep (beside c p) S S' (fun _ ↦ True)
      (classNode c (DataType.toNode c enter) t className generics)
      (classNode c (DataType.toNode c enter') u className generics) := by
  refine classNode_inStep (.refl c) (Q := PropertyMap.HasTypes c.registry.Denotes) ?_ ?_ ?_ ?_
  · exact fun _ _ _ ↦ rfl
  · exact fun _ _ _ _ ↦ rfl
  · intro templates htemplates hlen
    rw [metadataFor, metadataFor, ← hdepths]
    exact properties_beside hc hbound t u htemplates hlen hgenerics hstack
  intro map hmap
  refine .mono (fun _ _ ↦ trivial) (propertyNodes_inStep_of_isEmpty (N := fun _ ↦ True) hc.hooks
    hc.hooks hmap fun v hv ↦ ?_)
  exact toNode_inStep (.refl c) carries_beside henter v hv

/-- A class is entered in step with a builder that remembers nothing, while the same classes are
open equally often. -/
theorem enter_beside (hc : c.IsPlain) (hbound : maxOpen c.policy ≤ 2 ^ 64) {fuel : Nat}
    (hfuel : fuel + S.length = fuelFor c) (hstack : IsWithin c.policy S)
    (hdepths : Depths.ofStack S = Depths.ofStack S') (hp : p → S = S') {className : String}
    {generics : List DataType} {nullable : Bool}
    (ht : c.registry.Denotes (mk (.object className generics) nullable)) :
    InStep (beside c p) S S' (fun _ ↦ True)
      (enter c fuel (mk (.object className generics) nullable) className generics)
      (enterAnew c fuel (mk (.object className generics) nullable) className generics) := by
  induction fuel generalizing S S' p className generics nullable with
  | zero =>
    refine .get_bind fun s s' hs ↦ .throw fun hsame ↦ ?_
    rw [hs.left, hs.right, hp hsame]
  | succ fuel ih =>
    have hplain : c.registry.Denotes (mk (.object className generics) false) := ht.nonNull
    unfold enter enterAnew enterStep anewStep
    refine .guarding (isTooDeep_congr (Depths.perm_of_ofStack hdepths) _ _)
      (fun _ hsame ↦ by rw [hp hsame]) fun hopen ↦ .get_bind_left fun s s' hs ↦ ?_
    have hopened : IsWithin c.policy (S ++ [className]) := hstack.open hopen
    -- The class is built in step with itself from any stack with the same depths.
    have hclass : ∀ {p : Prop} {T : List String} (t u : DataType), (p → S = T) →
        Depths.ofStack (S ++ [className]) = Depths.ofStack (T ++ [className]) →
          InStep (beside c p) S T (fun _ ↦ True)
            (classNode c (DataType.toNode c (enter c fuel)) t className generics)
            (classNode c (DataType.toNode c (enterAnew c fuel)) u className generics) := by
      intro p T t u hp hdepths
      refine classNode_beside hc hbound t u ht.generics hopened hdepths
        fun inner others nullable _ hu ↦ ?_
      refine ih ?_ hopened hdepths (fun h ↦ by rw [hp h]) hu
      rw [List.length_append, List.length_singleton]
      omega
    have hconcat := Depths.ofStack_concat_congr hdepths className
    rw [hs.left]
    refine .remembering_left (fun σ σ' node hσ hfind ↦ ?_) (fun σ σ' node τ τ' hσ hx hy hτ ↦ ?_)
      (hclass _ _ hp hconcat)
    · obtain ⟨other, generics', hright⟩ := hσ.memory.memo _ _ hfind
      have hsame := hplain.eq_of_text hright.denotes hright.text
      cases hsame
      have hlen := (Depths.perm_of_ofStack hdepths).length_eq
      obtain ⟨τ, hτ, hstackτ, hfilled⟩ := hright.answers S' fuel _ (by omega) hconcat.symm σ'
        hσ.right hσ.memory.right
      exact ⟨τ, hτ, trivial, hσ.left, hstackτ, hσ.memory.left, hfilled, hσ.memory.memo⟩
    · refine hτ.memory.put ⟨hplain, rfl, fun T fuel' u hfuel' hT ↦ ?_⟩
      have hlen := (Depths.perm_of_ofStack hT).length_eq
      simp only [List.length_append, List.length_singleton] at hlen
      obtain rfl : fuel' = fuel := by omega
      exact answers_of_inStep (hclass (p := False) _ u False.elim hT.symm) hσ.left hσ.memory hx

/-- The node of a type is built in step with a builder that remembers nothing. -/
theorem node_beside (hc : c.IsPlain) (hbound : maxOpen c.policy ≤ 2 ^ 64) {t : DataType}
    (ht : c.registry.Denotes t) :
    InStep (beside c True) [] [] (fun _ ↦ True) (node c t) (nodeAnew c t) :=
  toNode_inStep (.refl c) carries_beside
    (fun _ _ _ _ hu ↦ enter_beside hc hbound (Nat.add_zero _) (isWithin_nil _) rfl (fun _ ↦ rfl) hu)
    t ht

/-- One call is answered as if it were the first one and nothing were remembered. Whether it fails
or not, it leaves no class open. -/
theorem call_eq_anew (hc : c.IsPlain) (hbound : maxOpen c.policy ≤ 2 ^ 64) {t : DataType}
    (ht : c.registry.Denotes t) {n : MetadataCache} {s : BuildState} (hstack : s.stack = [])
    (hs : IsBeside c s.toBuildMemory { metadata := n, hooks := { direction := c.direction } }) :
    match node c t s with
    | .ok built after => anew c n t = .ok built ∧ after.stack = [] ∧
      IsBeside c after.toBuildMemory { metadata := n, hooks := { direction := c.direction } }
    | .error failure after => anew c n t = .error failure ∧ after.stack = [] ∧
      IsBeside c after.toBuildMemory { metadata := n, hooks := { direction := c.direction } } := by
  have hstep := node_beside hc hbound ht s
    { metadata := n, hooks := { direction := c.direction } } ⟨hstack, rfl, hs⟩
  unfold anew
  split at hstep
  · next hx hy =>
    rw [hx, hy]
    obtain ⟨rfl, -, hafter⟩ := hstep
    exact ⟨rfl, hafter.left, hafter.memory.left, hs.right, hafter.memory.memo⟩
  · next hx hy =>
    rw [hx, hy]
    obtain ⟨hsame, hafter⟩ := hstep
    obtain rfl := hsame trivial
    exact ⟨rfl, hafter.left, hafter.memory.left, hs.right, hafter.memory.memo⟩
  · exact hstep.elim

/-- Whatever one builder is asked for, one call after another, and whichever calls fail: each is
answered like the only call of a builder that remembers nothing, with the same node or the same
failure, and no class is left open. -/
theorem calls_eq_anew (hc : c.IsPlain) (hbound : maxOpen c.policy ≤ 2 ^ 64)
    {types : List DataType} (htypes : ∀ t ∈ types, ∃ text, c.registry.resolve text [] = .ok t)
    {m n : MetadataCache} (hm : IsFilled c m) (hn : IsFilled c n) :
    let builder : BuildState := { metadata := m, hooks := { direction := c.direction } }
    (calls c builder types).map (·.1) = types.map (anew c n) ∧
      ∀ call ∈ calls c builder types, call.2.stack = [] := by
  have key : ∀ s : BuildState, s.stack = [] →
      IsBeside c s.toBuildMemory { metadata := n, hooks := { direction := c.direction } } →
        (calls c s types).map (·.1) = types.map (anew c n) ∧
          ∀ call ∈ calls c s types, call.2.stack = [] := by
    induction types with
    | nil => exact fun _ _ _ ↦ ⟨rfl, fun _ h ↦ absurd h List.not_mem_nil⟩
    | cons t types ih =>
      intro s hstack hs
      obtain ⟨text, htext⟩ := htypes t List.mem_cons_self
      have hcall := call_eq_anew hc hbound (Registry.denotes_of_resolve htext) hstack hs
      have hrest := ih fun u hu ↦ htypes u (List.mem_cons_of_mem _ hu)
      unfold calls
      cases hnode : node c t s with
      | ok built after | error failure after =>
        rw [hnode] at hcall
        obtain ⟨hanew, hclosed, hafter⟩ := hcall
        obtain ⟨hanswers, hstacks⟩ := hrest after hclosed hafter
        dsimp only
        rw [List.map_cons, List.map_cons, hanswers, hanew]
        exact ⟨rfl, List.forall_mem_cons.mpr ⟨hclosed, hstacks⟩⟩
  exact key _ rfl ⟨hm, hn, fun key node hfind ↦ nomatch hfind⟩

/-- The first and the last call fail, and the second one meets the class that they fail for. -/
theorem calls_eq_anew_failing :
    let person : ClassDescriptor :=
      ⟨"Person", [], [("name", ⟨"string", []⟩), ("boss", ⟨"?Person", []⟩)], []⟩
    let pair : ClassDescriptor :=
      ⟨"Pair", ["T"], [("left", ⟨"T", []⟩), ("right", ⟨"T", []⟩)], []⟩
    let c : BuildContext :=
      ⟨{ classes := [("Person", person), ("Pair", pair)] }, {}, .decode, Stage.standard, .reject⟩
    let types : List DataType := [.object "Person" [], .object "Pair" [.list (.scalar .int)],
      .object "Pair" [.object "Person" []]]
    let builder : BuildState := { metadata := [], hooks := { direction := c.direction } }
    c.IsPlain ∧ (∀ t ∈ types, ∃ text, c.registry.resolve text [] = .ok t) ∧
      (calls c builder types).map (·.1) = types.map (anew c []) ∧
        ∀ call ∈ calls c builder types, call.2.stack = [] := by
  intro person pair c types builder
  have hperson : Settled ⟨c.registry.lookup, []⟩ (.object "Person" []) :=
    .object false (by constructor <;> decide) List.not_mem_nil (by decide) rfl fun u hu ↦
      absurd hu List.not_mem_nil
  have hpair : ∀ u, Settled ⟨c.registry.lookup, []⟩ u →
      Settled ⟨c.registry.lookup, []⟩ (.object "Pair" [u]) := fun u hu ↦
    .object false (by constructor <;> decide) List.not_mem_nil (by decide) rfl fun v hv ↦ by
      rw [List.mem_singleton.mp hv]
      exact hu
  have htypes : ∀ t ∈ types, ∃ text, c.registry.resolve text [] = .ok t := by
    intro t ht
    have hset : Settled ⟨c.registry.lookup, []⟩ t := by
      simp only [types, List.mem_cons, List.not_mem_nil, or_false] at ht
      rcases ht with rfl | rfl | rfl
      · exact hperson
      · exact hpair _ (.list false (.scalar .int false))
      · exact hpair _ hperson
    exact ⟨t.text, hset.resolve_text⟩
  have hc : c.IsPlain := ⟨rfl, fun _ _ _ h ↦ (nomatch h), Stage.closes_standard, by decide⟩
  have hbound : maxOpen c.policy ≤ 2 ^ 64 := Nat.one_le_two_pow
  exact ⟨hc, htypes,
    calls_eq_anew hc hbound htypes MetadataCache.isSound_nil MetadataCache.isSound_nil⟩

end Build

end TypedJson
