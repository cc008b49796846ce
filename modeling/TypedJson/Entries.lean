/-!
# Entries in insertion order

A dictionary whose order shows is a list of pairs with distinct keys. Putting a value under a key
that is already there keeps the key's place and takes the new value; a new key goes to the end.
-/

namespace TypedJson

/-- Pairs of a key and a value, in insertion order. -/
abbrev Entries (κ α : Type) := List (κ × α)

namespace Entries

variable {κ α β : Type} [DecidableEq κ]

/-- The value under `key`. -/
def find? (entries : Entries κ α) (key : κ) : Option α :=
  match entries with
  | [] => none
  | (k, v) :: rest => if k = key then some v else find? rest key

/-- Whether `key` has a value. -/
def has (entries : Entries κ α) (key : κ) : Bool := (entries.find? key).isSome

/-- The entries with `value` under `key`. -/
def put (entries : Entries κ α) (key : κ) (value : α) : Entries κ α :=
  match entries with
  | [] => [(key, value)]
  | (k, v) :: rest => if k = key then (key, value) :: rest else (k, v) :: put rest key value

/-- The entries without `key`. -/
def erase (entries : Entries κ α) (key : κ) : Entries κ α :=
  entries.filter fun entry ↦ decide (entry.1 ≠ key)

/-- Putting pairs one after another, so that the last value of a repeated key wins. -/
def ofList (pairs : List (κ × α)) : Entries κ α :=
  pairs.foldl (fun entries pair ↦ entries.put pair.1 pair.2) []

@[simp] theorem find?_nil (key : κ) : find? ([] : Entries κ α) key = none := rfl

@[simp] theorem find?_put_self (entries : Entries κ α) (key : κ) (value : α) :
    find? (put entries key value) key = some value := by
  induction entries with
  | nil => simp [put, find?]
  | cons entry rest ih =>
    obtain ⟨k, v⟩ := entry
    by_cases h : k = key
    · simp [put, find?, h]
    · simp [put, find?, h, ih]

theorem find?_put_of_ne (entries : Entries κ α) {key other : κ} (value : α) (h : key ≠ other) :
    find? (put entries key value) other = find? entries other := by
  induction entries with
  | nil => simp [put, find?, h]
  | cons entry rest ih =>
    obtain ⟨k, v⟩ := entry
    by_cases hk : k = key
    · subst hk
      simp [put, find?, h]
    · by_cases ho : k = other
      · subst ho
        simp [put, find?, hk]
      · simp [put, find?, hk, ho, ih]

end Entries

end TypedJson
