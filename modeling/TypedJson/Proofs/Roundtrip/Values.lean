import TypedJson.Decode.Leaf
import TypedJson.Json.Scalar
import TypedJson.Json.Tree
import TypedJson.Proofs.Value.Same

/-!
# Values of types

`Value.IsOf` says what a value of a type is: an integer of 64 bits, a double, a list of values of
the item type, an object of the class with exactly the declared fields, and so on. Class names and
cases mean what the registry says.

Three leaves carry a condition on their text, since reading is not always exact.

* A double has to be read back from its text. The reader computes with doubles and misses some by
  one unit in the last place.
* Where an integer may stand as well, the text of a double must not be taken for that of an integer.
  A union goes by the looks of the text, which has to keep a fraction or an exponent. Where any type
  will do, the text has to be read as a double.
* A point in time has to be restored by the pattern that it is written with.
-/

namespace TypedJson

/-! ## Leaves -/

/-- The text of the double is read as a number equal to it. -/
def ReadsBack (flags : JsonFlags) (f : Float) : Prop :=
  ∃ text n, Json.floatText? flags f = some text ∧
    Json.read? (Utf8.encode text) = some (.number n) ∧ sameFloat n.toFloat f = true

/-- The text of the double is read as an integer of 64 bits. -/
def ReadsAsInt (flags : JsonFlags) (f : Float) : Prop :=
  ∃ text n i, Json.floatText? flags f = some text ∧
    Json.read? (Utf8.encode text) = some (.number n) ∧ n.toInt64? = some i

/-- The text of the double has a fraction or an exponent. -/
def StaysFloat (flags : JsonFlags) (f : Float) : Prop :=
  ∀ text, Json.floatText? flags f = some text →
    (Utf8.encode text).any Window.isFractional = true

/-- The text of the point in time is read as the same instant. -/
def DateTime.IsRestored (pattern : Option String) (t : DateTime) : Prop :=
  ∃ text t', t.write pattern = .ok text ∧ DateTime.read text pattern = .ok t' ∧
    t'.sameInstant t = true

/-- The key is of a kind. -/
def DictKey.IsOf : ScalarKind → DictKey → Prop
  | .int, .int _ | .string, .string _ => True
  | _, _ => False

/-- The value backs a case of the enumeration. -/
def EnumDescriptor.HasCase (e : EnumDescriptor) : Value → Prop
  | .int i => e.backing = .int ∧ e.accepts (.int i) = true
  | .string s => e.backing = .string ∧ e.accepts (.string s) = true
  | _ => False

/-- The shape of the text of a case that is backed by the value. -/
def Value.caseShape : Value → String
  | .int _ => "int"
  | _ => "string"

/-- The shape of the text of the value. The text of a double may look like that of an integer. -/
def Value.HasShape (flags : JsonFlags) : Value → String → Prop
  | .null, shape => shape = "null"
  | .bool _, shape => shape = "bool"
  | .int _, shape => shape = "int"
  | .float f, shape => shape = "float" ∨ shape = "int" ∧ ¬StaysFloat flags f
  | .string _, shape | .dateTime _, shape => shape = "string"
  | .list _, shape => shape = "array"
  | .dict _, shape | .object _, shape => shape = "object"
  | .enum _ case, shape => shape = case.caseShape

/-! ## Values of any type -/

/-- A value that JSON has a form for, with at most `depth` containers inside each other. -/
inductive Value.IsPlain (flags : JsonFlags) : Nat → Value → Prop
  | null {depth : Nat} : IsPlain flags depth .null
  | bool {depth : Nat} (b : Bool) : IsPlain flags depth (.bool b)
  | int {depth : Nat} (i : Int64) : IsPlain flags depth (.int i)
  | float {depth : Nat} {f : Float} (hback : ReadsBack flags f) (hint : ¬ReadsAsInt flags f) :
    IsPlain flags depth (.float f)
  | string {depth : Nat} (s : String) : IsPlain flags depth (.string s)
  | list {depth : Nat} {items : List Value} (h : ∀ item ∈ items, IsPlain flags depth item) :
    IsPlain flags (depth + 1) (.list items)
  | dict {depth : Nat} {entries : List (DictKey × Value)}
    (hkeys : ∀ entry ∈ entries, entry.1.IsOf .string) (hdistinct : (entries.map (·.1)).Nodup)
    (h : ∀ entry ∈ entries, IsPlain flags depth entry.2) :
    IsPlain flags (depth + 1) (.dict entries)

/-! ## Fields of classes -/

/-- A declared field of a class, with its type in the scope of the class's template parameters. -/
def Registry.field (r : Registry) (className name : String) :
    Except ConfigError (String × DataType) :=
  (r.propertyType className name).map fun t ↦ (name, t)

/-- The declared fields of a class. -/
def Registry.fields (r : Registry) (className : String) :
    Except ConfigError (List (String × DataType)) := do
  (← r.propertyNames className).mapM (r.field className)

/-- What the template parameters of a class are bound to. -/
def Registry.bindings (r : Registry) (className : String) (generics : List DataType) :
    Except ConfigError (Entries String DataType) := do
  return Entries.ofList ((← r.templates className).zip generics)

/-! ## Values of types -/

open DataType

/-- Integers may stand in the text where values of the type do. -/
def DataType.IsReadAsInt : DataType → Prop
  | mk (.scalar .int) _ | mk (.enum _ .int) _ => True
  | _ => False

/-- The value is of a type, over the definitions of a registry and with the options of a
configuration. -/
inductive Value.IsOf (r : Registry) (config : Config) : DataType → Value → Prop
  | null {kind : TypeKind DataType} : IsOf r config (mk kind true) .null
  | mixed {nullable : Bool} {value : Value} (h : value.IsPlain config.jsonFlags Json.nesting) :
    IsOf r config (mk .mixed nullable) value
  | int {nullable : Bool} (i : Int64) : IsOf r config (mk (.scalar .int) nullable) (.int i)
  | float {nullable : Bool} {f : Float} (h : ReadsBack config.jsonFlags f) :
    IsOf r config (mk (.scalar .float) nullable) (.float f)
  | bool {nullable : Bool} (b : Bool) : IsOf r config (mk (.scalar .bool) nullable) (.bool b)
  | string {nullable : Bool} (s : String) :
    IsOf r config (mk (.scalar .string) nullable) (.string s)
  | list {nullable : Bool} {t : DataType} {items : List Value}
    (h : ∀ item ∈ items, IsOf r config t item) :
    IsOf r config (mk (.list t) nullable) (.list items)
  | dict {nullable : Bool} {kind : ScalarKind} {t : DataType} {entries : List (DictKey × Value)}
    (hkeys : ∀ entry ∈ entries, entry.1.IsOf kind) (hdistinct : (entries.map (·.1)).Nodup)
    (h : ∀ entry ∈ entries, IsOf r config t entry.2) :
    IsOf r config (mk (.dict (.scalar kind) t) nullable) (.dict entries)
  | dateTime {nullable : Bool} {className : String} {generics : List DataType} {t : DateTime}
    (hclass : className ∈ dateTimeClasses) (h : t.IsRestored config.dateTimeFormat) :
    IsOf r config (mk (.object className generics) nullable) (.dateTime t)
  | object {nullable : Bool} {generics : List DataType} {o : Object Value}
    {fields : List (String × DataType)} {bindings : Entries String DataType}
    {value : String → Value} (hclass : o.className ∉ dateTimeClasses)
    (hfields : r.fields o.className = .ok fields)
    (hbindings : r.bindings o.className generics = .ok bindings)
    (hnames : o.HasFields (fields.map (·.1)))
    (hvalue : ∀ field ∈ fields, (o.get field.1).result = .ok (some (value field.1)))
    (h : ∀ field ∈ fields, IsOf r config (field.2.substitute bindings) (value field.1)) :
    IsOf r config (mk (.object o.className generics) nullable) (.object o)
  | enum {nullable : Bool} {className : String} {backing : ScalarKind} {e : EnumDescriptor}
    {case : Value} (hfind : r.findEnum className = .ok e) (hcase : e.HasCase case) :
    IsOf r config (mk (.enum className backing) nullable) (.enum className case)
  | member {nullable : Bool} {members : List DataType} {t : DataType} {value : Value}
    (hmem : t ∈ members) (h : IsOf r config t value)
    (hfloat : ∀ f, value = .float f → (∃ m ∈ members, m.IsReadAsInt) →
      StaysFloat config.jsonFlags f) :
    IsOf r config (mk (.union members) nullable) value

end TypedJson
