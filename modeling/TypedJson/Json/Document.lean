import TypedJson.Json.Tree

/-!
# Reading documents

A document is a JSON text with a prescribed form. A `Reader` turns a scanned value into a value of
the form, or answers the path of the place where the text first leaves it. An item belongs to its
own place from its first character on; commas, colons and closing brackets belong to the container,
and what should be a key belongs to a place that cannot be named. Records may also be written as the
list of their fields in order; a variant without content may be written as its bare name.
-/

namespace TypedJson.Json

/-- One step from a value to a value inside it. -/
inductive Segment where
  /-- The value of a key, or the content of a variant. -/
  | key (name : String)
  /-- An item of a list. -/
  | index (i : Nat)
  /-- A dictionary entry whose key cannot be read. -/
  | unreadable
  deriving DecidableEq

/-- A place in a document, from the root on. -/
abbrev Path := List Segment

/-- A path as text: keys are joined by points, and the root is a single point. -/
def Path.text (path : Path) : String :=
  match path with
  | [] => "."
  | first :: rest =>
    let piece : Segment → String
      | .key name => name
      | .index i => "[" ++ toString i ++ "]"
      | .unreadable => "?"
    let joined : Segment → String
      | .index i => piece (.index i)
      | segment => "." ++ piece segment
    piece first ++ String.join (rest.map joined)

/-- Reads a value at a path, below which `depth` more containers may be open. -/
abbrev Reader (α : Type) := (depth : Nat) → (path : Path) → Tree → Except Path α

namespace Reader

/-- A string. -/
def string : Reader String
  | _, _, .string (some s) => .ok s
  | _, path, _ => .error path

/-- A truth value. -/
def bool : Reader Bool
  | _, _, .bool b => .ok b
  | _, path, _ => .error path

/-- A natural number of at most `bound`, written as an integer. -/
def natural (bound : Nat) : Reader Nat
  | _, path, .number (some (.natural n)) => if n.toNat ≤ bound then .ok n.toNat else .error path
  | _, path, _ => .error path

/-- Any value. A failure within it is reported where it occurs. -/
def within (path : Path) : Nat → Tree → Path
  | _, .broken => path
  | _, .absent => path
  | 0, _ => path
  | depth + 1, .list items _ => withinItems depth path 0 items
  | depth + 1, .dict entries _ => withinEntries depth path entries
  | _, _ => path
where
  /-- The place of the first failure among items from index `i` on, or after them. -/
  withinItems (depth : Nat) (path : Path) (i : Nat) : List Tree → Path
    | [] => path
    | item :: items =>
      match item.toJson? depth with
      | none => within (path ++ [.index i]) depth item
      | some _ => withinItems depth path (i + 1) items
  /-- The place of the first failure among entries, or after them. -/
  withinEntries (depth : Nat) (path : Path) : List (Option String × Tree) → Path
    | [] => path ++ [.unreadable]
    | (none, _) :: _ => path ++ [.unreadable]
    | (some _, .absent) :: _ => path
    | (some key, value) :: entries =>
      match value.toJson? depth with
      | none => within (path ++ [.key key]) depth value
      | some _ => withinEntries depth path entries

/-- Any value. A failure within it is reported where it occurs. -/
def json : Reader Json := fun depth path tree ↦
  match tree.toJson? depth with
  | some value => .ok value
  | none => .error (within path depth tree)

/-- A value, or `null` for nothing. -/
def option (r : Reader α) : Reader (Option α)
  | _, _, .null => .ok none
  | depth, path, tree => (r depth path tree).map some

/-- The items of a list from index `i` on. -/
def items (r : Reader α) (depth : Nat) (path : Path) (i : Nat) :
    List Tree → Except Path (List α)
  | [] => .ok []
  | item :: rest => do
    let a ← r depth (path ++ [.index i]) item
    let as ← items r depth path (i + 1) rest
    return a :: as

/-- A list. -/
def list (r : Reader α) : Reader (List α)
  | depth + 1, path, .list trees closed => do
    let as ← items r depth path 0 trees
    if closed then return as else throw path
  | _, path, _ => .error path

/-- The entries of a dictionary, put after those already read. -/
def pairs (r : Reader α) (depth : Nat) (path : Path) :
    List (Option String × Tree) → Entries String α → Except Path (Entries String α)
  | [], done => .ok done
  | (none, _) :: _, _ => .error (path ++ [.unreadable])
  | (some _, .absent) :: _, _ => .error path
  | (some key, value) :: rest, done => do
    let a ← r depth (path ++ [.key key]) value
    pairs r depth path rest (done.put key a)

/-- A dictionary with values of one form. -/
def dict (r : Reader α) : Reader (Entries String α)
  | depth + 1, path, .dict trees closed => do
    let done ← pairs r depth path trees []
    if closed then return done else throw (path ++ [.unreadable])
  | _, path, _ => .error path

/-! ## Records -/

/-- How the fields of a record are read into a draft. -/
structure Fields (σ : Type) where
  /-- The fields in order: the name, and the reader of its value as a change of the draft. -/
  fields : List (String × Reader (σ → σ))
  /-- The names that have to be given. -/
  required : List String
  /-- The names that have to be given in a list of the fields. -/
  listed : List String := required
  /-- Whether other names are refused; otherwise their values are skipped. -/
  strict : Bool := false

/-- A reader of values that are changed. -/
def map (r : Reader α) (f : α → β) : Reader β := fun depth path tree ↦ (r depth path tree).map f

/-- The value of a field as a change of a draft. -/
def set (r : Reader α) (change : α → σ → σ) : Reader (σ → σ) := r.map change

/-- The entries of a record. No name may be given twice. -/
def Fields.readEntries (f : Fields σ) (depth : Nat) (path : Path) :
    List (Option String × Tree) → List String → σ → Except Path (List String × σ)
  | [], given, draft => .ok (given, draft)
  | (none, _) :: _, _, _ => .error (path ++ [.unreadable])
  | (some name, value) :: rest, given, draft =>
    match Entries.find? f.fields name, value with
    | some _, .absent => .error path
    | some r, value =>
      if given.contains name then .error path
      else
        match r depth (path ++ [.key name]) value with
        | .error place => .error place
        | .ok change => f.readEntries depth path rest (name :: given) (change draft)
    | none, value =>
      if f.strict then .error (path ++ [.key name])
      else
        match value with
        | .absent => .error path
        | value =>
          if value.wellFormed then f.readEntries depth path rest given draft
          else .error (path ++ [.key name])

/-- The fields of a record written as a list; a list may end before its optional fields. -/
def Fields.readItems (f : Fields σ) (depth : Nat) (path : Path) (i : Nat) :
    List (String × Reader (σ → σ)) → List Tree → Bool → σ → Except Path σ
  | [], [], closed, draft => if closed then .ok draft else .error path
  | [], _ :: _, _, _ => .error path
  | (name, _) :: fields, [], closed, draft =>
    if !closed then .error path
    else if ((name :: fields.map (·.1)).any f.listed.contains) then .error path
    else .ok draft
  | (_, r) :: fields, item :: rest, closed, draft =>
    match r depth (path ++ [.index i]) item with
    | .error place => .error place
    | .ok change => f.readItems depth path (i + 1) fields rest closed (change draft)

/-- A record, starting from a draft of it. -/
def record (f : Fields σ) (draft : σ) : Reader σ
  | depth + 1, path, .dict entries closed =>
    match f.readEntries depth path entries [] draft with
    | .error place => .error place
    | .ok (given, draft) =>
      if !closed then .error (path ++ [.unreadable])
      else if f.required.all given.contains then .ok draft
      else .error path
  | depth + 1, path, .list items closed => f.readItems depth path 0 f.fields items closed draft
  | _, path, _ => .error path

/-- A record of two values, given what they are where a draft needs them. -/
def pair {α β : Type} (first : String) (r : Reader α) (a : α) (second : String) (s : Reader β)
    (b : β) : Reader (α × β) :=
  record
    { fields := [
        (first, r.set fun v d ↦ (v, d.2)),
        (second, s.set fun v d ↦ (d.1, v))]
      required := [first, second] }
    (a, b)

/-! ## Variants -/

/-- The content of a variant. -/
inductive Content (α : Type) where
  /-- No content: the bare name, or `null`. -/
  | bare (a : α)
  /-- A value. -/
  | value (r : Reader α)

/-- One of several named variants: a dictionary of exactly one entry, or a bare name. -/
def variant (cases : List (String × Content α)) : Reader α
  | _, path, .string (some name) =>
    match Entries.find? cases name with
    | some (.bare a) => .ok a
    | some (.value _) => .error (path ++ [.key name])
    | none => .error path
  | depth + 1, path, .dict ((some name, tree) :: rest) closed =>
    match Entries.find? cases name, tree with
    | none, _ | _, .absent => .error path
    | some content, tree =>
      let a : Except Path _ :=
        match content, tree with
        | .bare a, .null => .ok a
        | .bare _, _ => .error (path ++ [.key name])
        | .value r, tree => r depth (path ++ [.key name]) tree
      match a with
      | .error place => .error place
      | .ok a => if closed && rest.isEmpty then .ok a else .error path
  | _, path, _ => .error path

/-- The value of a document at the start of a text, whatever follows it. -/
def run (r : Reader α) (text : String) : Except Path α :=
  r nesting [] (Tree.scan (Utf8.encode text)).1

/-- The value of a document that fills the bytes. -/
def runAll? (r : Reader α) (bytes : List UInt8) : Option α :=
  let (tree, rest) := Tree.scan bytes
  if (skipBlanks rest).isEmpty then (r nesting [] tree).toOption else none

end Reader

end TypedJson.Json
