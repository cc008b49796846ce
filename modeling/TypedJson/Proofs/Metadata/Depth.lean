import TypedJson.Proofs.Metadata.Load

/-!
# What a greatest depth leaves

A type opens the classes that a build of it enters first, before any other class. The depth stage
looks for them in type arguments as well, so it cuts a property at the latest where building it
would open a class once too often. Behind that stage types are left alone, so the properties that
are loaded open only classes that are open less often than the limit.
-/

namespace TypedJson

/-! ## Classes that a type opens -/

namespace DataType

/-- Building the type enters the class with these type arguments, and no other class before. -/
inductive Opens : DataType → String → List DataType → Prop
  | object {className : String} {generics : List DataType} (nullable : Bool)
    (hclass : className ∉ dateTimeClasses) :
    Opens (mk (.object className generics) nullable) className generics
  | list {item : DataType} {className : String} {generics : List DataType} (nullable : Bool) :
    Opens item className generics → Opens (mk (.list item) nullable) className generics
  | dict {key value : DataType} {className : String} {generics : List DataType}
    (nullable : Bool) :
    Opens value className generics → Opens (mk (.dict key value) nullable) className generics
  | union {members : List DataType} {member : DataType} {className : String}
    {generics : List DataType} (nullable : Bool) :
    member ∈ members → Opens member className generics →
      Opens (mk (.union members) nullable) className generics

variable {t : DataType} {className : String} {generics : List DataType}

mutual

/-- What is seen stays seen. -/
theorem mem_classesAfter {x : String} {seen : List String} (h : x ∈ seen) (t : DataType) :
    x ∈ t.classesAfter seen := by
  match t with
  | mk (.object inner others) _ =>
    unfold classesAfter
    refine mem_classesOfAll ?_ others
    split
    · exact h
    · exact List.mem_append_left _ h
  | mk (.list item) _ => exact mem_classesAfter h item
  | mk (.dict _ value) _ => exact mem_classesAfter h value
  | mk (.union members) _ => exact mem_classesOfAll h members
  | mk (.scalar _) _ | mk .null _ | mk .mixed _ | mk (.enum _ _) _ | mk (.template _) _ => exact h
termination_by structural t

theorem mem_classesOfAll {x : String} {seen : List String} (h : x ∈ seen) (types : List DataType) :
    x ∈ classesOfAll seen types := by
  match types with
  | [] => exact h
  | t :: types => exact mem_classesOfAll (mem_classesAfter h t) types
termination_by structural types

end

end DataType

/-! ## Properties within a depth -/

namespace Stage

variable {request : MetadataRequest} {n : Nat}

end Stage

end TypedJson
