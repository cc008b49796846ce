import TypedJson.Proofs.DataType.Substitution
import TypedJson.Proofs.Metadata.Load

/-!
# The chain of formatters of a property

Each stage but the first changes properties one by one and keeps their order, so a property that is
loaded stands where it is declared. A stage that appends a formatter gives the property the type
that the formatter has in the text: what it returns when a value is written, and what it takes when
one is read. Behind it the type changes in two ways only. Bound template parameters are replaced in
it, for a formatter may have such a parameter in its signature. And a depth limit gives a property
that is read the type of another formatter, which only writing calls.
-/

namespace TypedJson

/-! ## What a stage makes of a property -/

namespace Stage

/-- What a stage makes of the property of a name, unless it drops the property. -/
inductive Makes (request : MetadataRequest) (key : String) : Stage → Property → Property → Prop
  | rename (p : Property) {directives : List Directive}
    (hdirectives : request.registry.propertyDirectives request.className key = directives) :
    Makes request key .rename p { p with encodedName := renamed directives p.encodedName }
  | formatter {p p' : Property}
    (hattach : attach request (request.registry.propertyDirectives request.className key) p =
      .ok p') :
    Makes request key .formatter p p'
  | dateTime (p : Property) : Makes request key .dateTime p (asText request p)
  | generics (p : Property) :
    Makes request key .generics p { p with type := p.type.substitute request.context.generics }
  /-- Without a limit the property is as before. -/
  | unlimited (p : Property) : Makes request key .maxDepth p p
  | limited {p p' : Property} {n : Nat}
    (hpolicy : request.config.circularPolicy = .ok (.maxDepth n))
    (hlimit : limit request n (request.registry.propertyDirectives request.className key) p =
      .ok (some p')) :
    Makes request key .maxDepth p p'
  | groups (p : Property) : Makes request key .groups p p

/-- The properties come from others one by one and in the same order, each in a certain way. -/
structure Follows (made : String → Property → Property → Prop)
    (properties changed : PropertyMap) : Prop where
  keys : (changed.map (·.1)).Sublist (properties.map (·.1))
  entry : ∀ key p', (key, p') ∈ changed → ∃ p, (key, p) ∈ properties ∧ made key p p'

variable {request : MetadataRequest} {properties changed : PropertyMap}
  {made : String → Property → Property → Prop}

end Stage

/-! ## Formatters in the text -/

/-- In a direction, a formatter has values of a type on the side of the text. -/
inductive FormatterRef.HasText (formatters : Formatters) :
    Direction → FormatterRef → DataType → Prop
  | written {name : String} {input output : DataType}
    (htypes : formatters.types name = .ok (input, output)) :
    HasText formatters .encode (.named name) output
  | read {name : String} {input output : DataType}
    (htypes : formatters.types name = .ok (input, output)) :
    HasText formatters .decode (.named name) input
  | dateTimeFormat (pattern : Option String) :
    HasText formatters .encode (.dateTimeFormat pattern) (.scalar .string)
  | dateTimeParse (pattern : Option String) :
    HasText formatters .decode (.dateTimeParse pattern) (.scalar .string)

namespace MetadataRequest

/-- The type is the one that a formatter has in the text, with the bound template parameters
replaced, or as it is up to `null`. All names that are bound are replaced, also those of classes
that are called like a template parameter; without such classes a closed type stays as it is
(`Fits.exists_nullableIf`). -/
def Fits (request : MetadataRequest) (type : DataType) (ref : FormatterRef) : Prop :=
  ∃ t, ref.HasText request.registry.formatters request.direction t ∧
    (type = t.substitute request.context.generics ∨ ∃ nullable, type = t.nullableIf nullable)

/-- If the types of a formatter are closed and their classes are kept, the type is one of them up to
`null`. -/
theorem Fits.exists_nullableIf {request : MetadataRequest} {type : DataType} {ref : FormatterRef}
    (h : request.Fits type ref)
    (hclosed : ∀ t, ref.HasText request.registry.formatters request.direction t →
      DataType.WellFormed t ∧ t.isClosed = true ∧
        ∀ name, t.MentionsClass name → DataType.Keeps request.context.generics name) :
    ∃ t, ref.HasText request.registry.formatters request.direction t ∧
      ∃ nullable, type = t.nullableIf nullable := by
  obtain ⟨t, htext, rfl | hnullable⟩ := h
  · obtain ⟨hwf, hclosed, hkeeps⟩ := hclosed t htext
    refine ⟨t, htext, false, ?_⟩
    exact hwf.substitute_of_isClosed hclosed hkeeps
  · exact ⟨t, htext, hnullable⟩

end MetadataRequest

namespace Stage

variable {request : MetadataRequest} {key : String} {stage : Stage} {p p' : Property}
  {directives : List Directive}

/-- Replacing template parameters leaves strings alone. -/
theorem Makes.fits (h : Stage.generics.Makes request key p p') {ref : FormatterRef}
    (hp : ref.HasText request.registry.formatters request.direction p.type ∨
      ref.HasText request.registry.formatters request.direction (.scalar .string) ∧
        ∃ nullable, p.type = (DataType.scalar .string).nullableIf nullable) :
    request.Fits p'.type ref := by
  cases h with
  | generics =>
    obtain htext | ⟨htext, nullable, htype⟩ := hp
    · exact ⟨p.type, htext, .inl rfl⟩
    · refine ⟨_, htext, .inr ⟨nullable, ?_⟩⟩
      rw [← DataType.substitute_scalar .string nullable request.context.generics, ← htype]

end Stage

/-! ## The standard order -/

end TypedJson
