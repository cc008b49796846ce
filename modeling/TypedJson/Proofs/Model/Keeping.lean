import TypedJson.Proofs.Model.Nodes

/-!
# What a build keeps

A build touches the metadata cache in one place, where it loads properties. So whatever loading
keeps of a cache, a build keeps, also one that fails, and whatever its hooks do.
-/

namespace TypedJson

namespace Build

variable {M : MetadataCache → Prop} {c : BuildContext} {S : List String} {className : String}

/-- A build beside itself, over caches of a kind, whatever it answers. -/
abbrev KeepsCache {α : Type} (M : MetadataCache → Prop) (S : List String) (x : Build α) : Prop :=
  InStep (.alone (fun m ↦ M m.metadata) fun _ ↦ True) S S (fun _ ↦ True) x x

theorem keepsCache_runHook {α : Type} (action : HookAction α) :
    KeepsCache M S (runHook action) := by
  intro s s' hs
  obtain rfl := hs.eq
  unfold runHook
  cases action s.hooks with
  | ok a hooks => exact ⟨rfl, trivial, hs.left, hs.right, rfl, hs.memory.2⟩
  | error error hooks => exact ⟨⟨rfl, trivial⟩, hs.left, hs.right, rfl, hs.memory.2⟩

theorem keepsCache_lift {α : Type} (x : Except ConfigError α) : KeepsCache M S (lift x) :=
  .lift (fun _ _ ↦ trivial) fun _ _ ↦ ⟨rfl, trivial⟩

theorem keepsCache_override (p : Property) (o : PropertyOverride) :
    KeepsCache M S (override c p o) := by
  unfold override
  split
  · exact .pure trivial
  dsimp only
  split
  · exact .pure trivial
  · refine .bind (keepsCache_lift _) fun types _ ↦ ?_
    cases c.direction with
    | encode => exact .pure trivial
    | decode => exact .pure trivial

theorem keepsCache_hooked (key : String) (p : Property) :
    KeepsCache M S (hooked c className key p) := by
  unfold hooked
  split
  · exact .pure trivial
  · refine .bind (keepsCache_runHook _) fun o _ ↦ ?_
    cases o with
    | none => exact .pure trivial
    | some o => exact keepsCache_override p o

theorem keepsCache_properties
    (hM : ∀ cache request, M cache → M (cache.load c.pipeline request).2) (t : DataType)
    (metadata : MetadataContext) : KeepsCache M S (properties c t className metadata) := by
  refine .bind (loadMetadata_alone (Q := fun _ ↦ True) fun m hm ↦ ?_) fun loaded _ ↦
    .bind (.modify fun s s' hs ↦ ?_) fun _ _ ↦ ?_
  · exact ⟨hM _ _ hm, fun _ _ ↦ trivial, fun _ _ ↦ trivial⟩
  · obtain rfl := hs.eq
    exact ⟨hs.left, hs.right, rfl, hs.memory.2⟩
  · cases c.config.hooks.objectHook? className with
    | none => exact .pure trivial
    | some hook => exact .bind (keepsCache_runHook _) fun _ _ ↦ .pure trivial

theorem carries_keepsCache :
    (Lockstep.alone (fun m ↦ M m.metadata) fun _ ↦ True).Carries c.registry (fun _ ↦ True)
      fun _ ↦ True :=
  Lockstep.carries_alone ⟨fun _ ↦ trivial, fun _ ↦ trivial, fun _ _ _ ↦ trivial⟩
    Node.isInherited_true fun _ _ _ _ ↦ trivial

theorem keepsCache_enter (hM : ∀ cache request, M cache → M (cache.load c.pipeline request).2)
    (fuel : Nat) (t : DataType) (className : String) (generics : List DataType) :
    KeepsCache M S (enter c fuel t className generics) := by
  induction fuel generalizing S t className generics with
  | zero => exact enter_zero_inStep ⟨rfl, trivial⟩
  | succ fuel ih =>
    unfold enter
    refine enterStep_alone (B := fun _ ↦ True) (fun _ ↦ trivial) (fun _ _ _ _ ↦ trivial)
      (fun _ _ hm _ ↦ hm) (fun _ _ ↦ trivial) fun _ ↦ ?_
    refine classNode_inStep (.refl c) (Q := fun _ ↦ True) ?_ ?_ ?_ fun map _ ↦ ?_
    · exact fun _ _ ↦ ⟨rfl, trivial⟩
    · exact fun _ _ _ ↦ ⟨rfl, trivial⟩
    · exact fun _ _ _ ↦ keepsCache_properties hM t _
    refine .mono (fun _ _ ↦ trivial) (propertyNodes_inStep (T := fun _ ↦ True) (N := fun _ ↦ True)
      (fun entry _ ↦ .mono (fun _ _ _ _ ↦ trivial) (keepsCache_hooked entry.1 entry.2))
      fun u _ ↦ ?_)
    exact toNode_inStep (.refl c) carries_keepsCache (fun _ _ _ _ _ ↦ ih _ _ _) u trivial

theorem keepsCache_node (hM : ∀ cache request, M cache → M (cache.load c.pipeline request).2)
    (t : DataType) : KeepsCache M [] (node c t) :=
  toNode_inStep (.refl c) carries_keepsCache (fun _ _ _ _ _ ↦ keepsCache_enter hM _ _ _ _) t trivial

end Build

/-- A build keeps whatever loading properties keeps, also if it fails. -/
theorem buildNode_keeps {M : MetadataCache → Prop} (r : Registry) (c : Config)
    (direction : Direction) {pipeline : Pipeline}
    (hM : ∀ cache request, M cache → M (cache.load pipeline request).2) {m : MetadataCache}
    (hm : M m) (policy : CircularPolicy) (t : DataType) :
    M (buildNode r c direction pipeline m policy t).2 := by
  have hrun := (Build.keepsCache_node (c := ⟨r, c, direction, pipeline, policy⟩) hM t).run
    (s := { metadata := m, hooks := { direction } }) rfl hm
  unfold buildNode
  dsimp only
  split at hrun
  · next hx =>
    rw [hx]
    exact hrun.2.2
  · next hx =>
    rw [hx]
    exact hrun.2.2

end TypedJson
