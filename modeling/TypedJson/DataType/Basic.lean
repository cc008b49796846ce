/-!
# Data types

A `DataType` describes the shape of a value: a kind, and whether `null` is accepted as well. The
types that the resolver and the operations below build are well formed: a union has at least two
members, none of them a union and none nullable but `null` and `mixed`, and is nullable exactly if
`null` is a member. Types can also be given from outside, without these invariants, so none of the
definitions relies on them.

Equality ignores the order of union members. It is defined as `same flipped a b`, which is
`a == b`, or `b == a` if `flipped`: looking a member up in the other union compares the other
union's members with it, which swaps the two sides at every level of nesting.
-/

namespace TypedJson

/-- The kinds of scalars. -/
inductive ScalarKind where
  | int
  | float
  | bool
  | string
  deriving DecidableEq

/-- The name of a scalar kind in type strings and errors. -/
def ScalarKind.name : ScalarKind → String
  | int => "int"
  | float => "float"
  | bool => "bool"
  | string => "string"

/-- The scalar kinds by name. -/
def ScalarKind.byName : List (String × ScalarKind) :=
  [int, float, bool, string].map fun kind ↦ (kind.name, kind)

/-- What a type describes, over the types `τ` of its parts. -/
inductive TypeKind (τ : Type) where
  | scalar (kind : ScalarKind)
  | null
  | mixed
  | list (item : τ)
  | dict (key value : τ)
  | object (className : String) (generics : List τ)
  | enum (className : String) (backing : ScalarKind)
  | union (members : List τ)
  /-- A template parameter without a binding. -/
  | template (name : String)

/-- A type: its kind, and whether it accepts `null` as well. -/
inductive DataType where
  | mk (kind : TypeKind DataType) (nullable : Bool)

namespace DataType

/-- What the type describes. -/
def kind : DataType → TypeKind DataType
  | mk kind _ => kind

/-- Whether the type accepts `null`. -/
def isNullable : DataType → Bool
  | mk _ nullable => nullable

/-! ## Constructors -/

/-- A scalar type. -/
def scalar (kind : ScalarKind) : DataType := mk (.scalar kind) false

/-- The type of `null`. -/
def null : DataType := mk .null true

/-- The type of everything. -/
def mixed : DataType := mk .mixed true

/-- The type of lists. -/
def list (item : DataType) : DataType := mk (.list item) false

/-- The type of dictionaries. -/
def dict (key value : DataType) : DataType := mk (.dict key value) false

/-- The type of the objects of a class, with the class's template parameters bound. -/
def object (className : String) (generics : List DataType) : DataType :=
  mk (.object className generics) false

/-- The type of the cases of an enumeration. -/
def enum (className : String) (backing : ScalarKind) : DataType :=
  mk (.enum className backing) false

/-- A template parameter. -/
def template (name : String) : DataType := mk (.template name) false

/-! ## Equality -/

mutual

/-- Equality of types: `a == b`, or `b == a` if `flipped`. -/
def same (flipped : Bool) : DataType → DataType → Bool
  | mk a m, mk b n => m == n && sameKind flipped a b
termination_by structural a => a

/-- Equality of kinds. -/
def sameKind (flipped : Bool) : TypeKind DataType → TypeKind DataType → Bool
  | .scalar a, .scalar b => a == b
  | .null, .null => true
  | .mixed, .mixed => true
  | .list a, .list b => same flipped a b
  | .dict ka va, .dict kb vb => same flipped ka kb && same flipped va vb
  | .object ca as, .object cb bs => ca == cb && sameAll flipped as bs
  | .enum ca ba, .enum cb bb => ca == cb && ba == bb
  | .union as, .union bs =>
    as.length == bs.length &&
      (if flipped then bs.all fun b ↦ anySame as b else allFound as bs)
  | .template a, .template b => a == b
  | _, _ => false
termination_by structural a => a

/-- Equality of lists of types, one by one. -/
def sameAll (flipped : Bool) : List DataType → List DataType → Bool
  | [], [] => true
  | a :: as, b :: bs => same flipped a b && sameAll flipped as bs
  | _, _ => false
termination_by structural as => as

/-- Whether each of the first types equals one of the second. -/
def allFound : List DataType → List DataType → Bool
  | [], _ => true
  | a :: as, bs => (bs.any fun b ↦ same true a b) && allFound as bs
termination_by structural as => as

/-- Whether one of the types equals `b`. -/
def anySame : List DataType → DataType → Bool
  | [], _ => false
  | a :: as, b => same false a b || anySame as b
termination_by structural as => as

end

/-- Each member of one union is looked up in the other. -/
theorem sameKind_union (flipped : Bool) (as bs : List DataType) :
    sameKind flipped (.union as) (.union bs) =
      (as.length == bs.length &&
        (if flipped then bs.all fun b ↦ anySame as b else allFound as bs)) := by
  rw [sameKind]

instance : BEq DataType := ⟨same false⟩

/-! ## Unions -/

/-- Whether the kind is `null`. -/
def isNull (t : DataType) : Bool :=
  match t.kind with
  | .null => true
  | _ => false

/-- A list with a type at its end, unless an equal one is there. -/
def pushNew (flat : List DataType) (t : DataType) : List DataType :=
  if flat.any (· == t) then flat else flat ++ [t]

/-- The types without those that equal an earlier one. -/
def distinct (types : List DataType) : List DataType := types.foldl pushNew []

mutual

/-- The members that a type contributes to a union: those of a union, and `X` and `null` for a
nullable `X`. -/
def leaves : DataType → List DataType
  | mk (.union members) _ => distinct (leavesOfAll members)
  | mk .null nullable => [mk .null nullable]
  | mk .mixed nullable => [mk .mixed nullable]
  | mk kind nullable => if nullable then [mk kind false, null] else [mk kind false]

/-- The members that several types contribute. -/
def leavesOfAll : List DataType → List DataType
  | [] => []
  | t :: types => leaves t ++ leavesOfAll types

end

/-- The distinct members of a union of types. -/
def flatten (members : List DataType) : List DataType := distinct (leavesOfAll members)

/-- A union of members as they are. It is nullable exactly if `null` is one of them. -/
def unionOf (members : List DataType) : DataType := mk (.union members) (members.any isNull)

/-- The union of types that have at least two distinct members. -/
def union? (members : List DataType) : Option DataType :=
  let flat := flatten members
  if flat.length < 2 then none else some (unionOf flat)

/-- The union of types, which may turn out to be a single type, or anything if there is none. -/
def unionOrMember (members : List DataType) : DataType :=
  match flatten members with
  | [] => mixed
  | [t] => t
  | flat => unionOf flat

/-- The type that accepts `null` as well. -/
def orNull : DataType → DataType
  | mk (.union members) _ =>
    unionOf (if members.any isNull then members else members ++ [null])
  | mk kind _ => mk kind true

/-- The type that accepts `null` as well, if asked for. -/
def nullableIf (t : DataType) (flag : Bool) : DataType := if flag then t.orNull else t

/-- The type without `null`. -/
def nonNull : DataType → DataType
  | mk (.union members) _ => unionOrMember (members.filter fun m ↦ !m.isNull)
  | mk .null nullable => mk .null nullable
  | mk .mixed nullable => mk .mixed nullable
  | mk kind _ => mk kind false

/-! ## Queries -/

/-- The members of a union, or the type alone. -/
def members (t : DataType) : List DataType :=
  match t.kind with
  | .union members => members
  | _ => [t]

/-- The classes whose values are points in time. -/
def dateTimeClasses : List String := ["DateTime", "DateTimeImmutable", "DateTimeInterface"]

/-- Whether the values are points in time. -/
def isDateTime (t : DataType) : Bool :=
  match t.kind with
  | .object className _ => dateTimeClasses.contains className
  | _ => false

mutual

/-- Whether no template parameter is left. -/
def isClosed : DataType → Bool
  | mk (.template _) _ => false
  | mk (.list item) _ => item.isClosed
  | mk (.dict key value) _ => key.isClosed && value.isClosed
  | mk (.object _ generics) _ => allClosed generics
  | mk (.union members) _ => allClosed members
  | _ => true

/-- Whether no template parameter is left in any of the types. -/
def allClosed : List DataType → Bool
  | [] => true
  | t :: types => t.isClosed && allClosed types

end

mutual

/-- The classes of objects that a value can hold without entering other classes, each once and
after those already `seen`. Dictionary keys hold none. -/
def classesAfter (seen : List String) : DataType → List String
  | mk (.object className generics) _ =>
    classesOfAll (if seen.contains className then seen else seen ++ [className]) generics
  | mk (.list item) _ => item.classesAfter seen
  | mk (.dict _ value) _ => value.classesAfter seen
  | mk (.union members) _ => classesOfAll seen members
  | _ => seen

/-- The classes of several types, after those already `seen`. -/
def classesOfAll (seen : List String) : List DataType → List String
  | [] => seen
  | t :: types => classesOfAll (t.classesAfter seen) types

end

/-- The classes of objects that a value can hold without entering other classes. -/
def referencedClasses (t : DataType) : List String := t.classesAfter []

/-! ## Text -/

mutual

/-- The canonical text of a type. -/
def text : DataType → String
  | mk (.union members) _ => "|".intercalate (textOfAll members)
  | mk .null _ => "null"
  | mk .mixed _ => "mixed"
  | mk kind nullable => (if nullable then "?" else "") ++ kindText kind

/-- The text of a kind that is neither a union nor `null` nor `mixed`. -/
def kindText : TypeKind DataType → String
  | .scalar kind => kind.name
  | .list item => "list<" ++ text item ++ ">"
  | .dict key value => "dict<" ++ text key ++ ", " ++ text value ++ ">"
  | .object className [] => className
  | .object className (t :: types) =>
    className ++ "<" ++ ", ".intercalate (text t :: textOfAll types) ++ ">"
  | .enum className _ => className
  | .template name => name
  | .union _ | .null | .mixed => ""

/-- The texts of several types. -/
def textOfAll : List DataType → List String
  | [] => []
  | t :: types => text t :: textOfAll types

end

end DataType

end TypedJson
