import TypedJson.Value.Access

/-!
# Watching a value

A watched value carries what reading it has cost so far. Operations on objects inside it, found by a
path or by their identity, change it and add to the cost, so that the state after a history of
operations is one value.
-/

namespace TypedJson

/-- A value, and what reading it has cost. -/
structure Watched where
  value : Value
  cost : Cost := 0

/-- A step of a path into a value. -/
inductive PathStep where
  /-- An item of a list, or an entry with a key that is a number. -/
  | index (i : Int64)
  /-- A field of an object, or an entry with a key that is a string. -/
  | name (s : String)

namespace Watched

/-- The value after a computation that logs what it reads. -/
def observe {α : Type} (w : Watched) (computation : Traced α) : α × Watched :=
  let (a, log) := computation []
  let (value, cost) := w.value.settle log
  (a, ⟨value, w.cost + cost⟩)

/-- The value after an operation on the object of an identity. -/
def change (w : Watched) (identity : Identity) (operation : Object Value → Step Unit) : Watched :=
  let (value, cost) :=
    w.value.alterAt identity fun o ↦ ((operation o).object, (operation o).cost)
  ⟨value, w.cost + cost⟩

/-- The value at the end of a path that starts at `v`, if there is one. Fields on the way are
read. -/
def follow (w : Watched) (v : Value) (path : List PathStep) :
    Except Failure (Option Value) × Watched :=
  match path with
  | [] => (.ok (some v), w)
  | step :: path =>
    let (found, w) :=
      match v, step with
      | .object o, .name name => w.observe (o.read name)
      | .list items, .index i => (.ok (if i < 0 then none else items[i.toNatClampNeg]?), w)
      | .dict entries, .index i => (.ok (Entries.find? entries (.int i)), w)
      | .dict entries, .name name => (.ok (Entries.find? entries (.string name)), w)
      | _, _ => (.ok none, w)
    match found with
    | .ok (some v) => w.follow v path
    | other => (other, w)

end Watched

end TypedJson
