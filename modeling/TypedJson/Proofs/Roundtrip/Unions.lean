import TypedJson.Proofs.Roundtrip.Nodes

/-!
# Unions that write and read

A union without a discriminator goes by shapes: those of values when writing, and those of the text
when reading. The shapes of the members are distinct on either side, so the member that a value is
of is found again. A number without fraction and exponent is taken for a double only if no member
is an integer.
-/

namespace TypedJson

/-- With distinct shapes, the first member of a shape is the only one. -/
theorem find?_of_shapesDistinct {α : Type} {shape? : α → Option String} {members : List α}
    (hdistinct : shapesDistinct (members.map shape?) = true) {m : α} (hm : m ∈ members)
    {shape : String} (hshape : shape? m = some shape) :
    members.find? (fun c ↦ decide (shape? c = some shape)) = some m := by
  induction members with
  | nil => exact absurd hm List.not_mem_nil
  | cons first members ih =>
    rw [List.map_cons] at hdistinct
    cases hfirst : shape? first with
    | none =>
      rw [hfirst] at hdistinct
      cases hdistinct
    | some other =>
      rw [hfirst, shapesDistinct, Bool.and_eq_true, Bool.not_eq_true'] at hdistinct
      rcases List.mem_cons.mp hm with rfl | hm
      · exact List.find?_cons_of_pos (decide_eq_true hshape)
      · have hne : shape? first ≠ some shape := by
          intro heq
          have hmem : some other ∈ members.map shape? :=
            List.mem_map.mpr ⟨m, hm, by rw [hshape, ← heq, hfirst]⟩
          rw [List.contains_iff_mem.mpr hmem] at hdistinct
          cases hdistinct.1
        rw [List.find?_cons_of_neg (by simpa using hne)]
        exact ih hdistinct.2 hm

/-- The first candidate that is right writes. -/
theorem writeFirst_of_find? {context : RunContext} {isRight : String → Option String → Bool}
    {candidates : List (Candidate Node)} {c : Candidate Node}
    (h : candidates.find? (fun c ↦ isRight c.key c.shape) = some c) (value : Value)
    (otherwise : Run Unit) :
    writeFirst context isRight candidates value otherwise =
      c.node.writeDirect context (.ofValue value) := by
  induction candidates with
  | nil => cases h
  | cons first candidates ih =>
    obtain ⟨key, shape, node⟩ := first
    rw [writeFirst]
    dsimp only
    cases hright : isRight key shape with
    | true =>
      simp only [List.find?_cons, hright, Option.some.injEq] at h
      rw [if_pos rfl, ← h]
    | false =>
      simp only [List.find?_cons, hright] at h
      rw [if_neg Bool.false_ne_true]
      exact ih h

/-- A text is read as the candidate that its shape finds. -/
theorem Decode.gives_choose {ν : Type} {registry : Registry} {candidates : List (Candidate ν)}
    {c : Candidate ν} {tree : Parsed} {w : Window} (hw : tree.In w)
    (h : candidates.find? (fun c ↦ decide (c.shape = some tree.shape)) = some c ∨
      tree.shape = "int" ∧ candidates.find? (fun c ↦ decide (c.shape = some "int")) = none ∧
        candidates.find? (fun c ↦ decide (c.shape = some "float")) = some c) :
    (Decode.choose registry candidates none w).Gives (· = c) := by
  refine .look_bind (.bind (.found hw.shape rfl) ?_)
  rintro _ rfl
  dsimp only
  rcases h with hfind | ⟨hint, hnone, hfloat⟩
  · rw [hfind]
    exact .pure rfl
  · rw [if_pos hint, hint, hnone, hfloat]
    exact .pure rfl

namespace RoundTrips

variable {wr r : Registry} {config : Config} {v : Value}

/-- A union round-trips the values of a member, if the shapes of values and of texts find it. -/
theorem union {pairs : List ((DataType × Node) × (DataType × Node))}
    {pair : (DataType × Node) × (DataType × Node)} (hpair : pair ∈ pairs)
    (hwriting : shapesDistinct (pairs.map fun p ↦ p.1.2.shape? .encode) = true)
    (hreading : shapesDistinct (pairs.map fun p ↦ p.2.2.shape? .decode) = true)
    (hvalue : pair.1.2.shape? .encode = some (Run.shapeOf v))
    (htext : ∀ shape, v.HasShape config.jsonFlags shape →
      pair.2.2.shape? .decode = some shape ∨
        shape = "int" ∧ pair.2.2.shape? .decode = some "float" ∧
          ∀ p ∈ pairs, p.2.2.shape? .decode ≠ some "int")
    (h : RoundTrips ⟨wr, config⟩ ⟨r, config⟩ pair.1.2 pair.2.2 v) :
    RoundTrips ⟨wr, config⟩ ⟨r, config⟩
      (.union ((pairs.map (·.1)).map (memberCandidate .encode)) none)
      (.union ((pairs.map (·.2)).map (memberCandidate .decode)) none) v := by
  intro source hsource
  refine .look_bind hsource ?_
  have hfirst : ((pairs.map (·.1)).map (memberCandidate .encode)).find?
      (fun c ↦ decide (c.shape = some (Run.shapeOf v))) =
        some (memberCandidate .encode pair.1) := by
    rw [List.map_map, List.find?_map]
    exact congrArg _ (find?_of_shapesDistinct hwriting hpair hvalue)
  dsimp only
  rw [@writeFirst_of_find? _ (fun _ s ↦ decide (s = some (Run.shapeOf v))) _ _ hfirst]
  refine (h (.ofValue v) rfl).mono fun tree htree ↦ ⟨htree.shape, fun w place hw ↦ ?_⟩
  let plan (p : (DataType × Node) × (DataType × Node)) : Candidate Plan :=
    (memberCandidate .decode p.2).plan ⟨r, config⟩
  unfold Node.plan Node.read
  dsimp only
  rw [candidatePlans_eq_map, List.map_map, List.map_map]
  have hfind : ∀ shape, pair.2.2.shape? .decode = some shape →
      (pairs.map plan).find? (fun c ↦ decide (c.shape = some shape)) = some (plan pair) := by
    intro shape hshape
    rw [List.find?_map]
    exact congrArg _ (find?_of_shapesDistinct hreading hpair hshape)
  have hchoose : (Decode.choose r (pairs.map plan) none w).Gives (· = plan pair) := by
    refine Decode.gives_choose hw ?_
    rcases htext _ htree.shape with hshape | ⟨hint, hfloat, hnone⟩
    · exact .inl (hfind _ hshape)
    · refine .inr ⟨hint, ?_, hfind _ hfloat⟩
      refine List.find?_eq_none.mpr fun c hc ↦ ?_
      obtain ⟨p, hp, rfl⟩ := List.mem_map.mp hc
      exact fun hshape ↦ hnone p hp (of_decide_eq_true hshape)
  refine hchoose.bind ?_
  rintro _ rfl
  exact htree.reads.value hw place

end RoundTrips

end TypedJson
