import TypedJson.Json.Tree
import TypedJson.Split.Scan

/-!
# Splitting containers

A list or a dictionary is split into the windows of its members without reading them. A member that
is broken is an error in its place, and the split goes on behind the next comma; a text that ends
too early or closes the wrong bracket ends the split.

`Container` holds what lists and dictionaries differ in: the brackets, and the key in front of each
value. Reading a key never makes a window longer, which is why a split ends.
-/

namespace TypedJson

/-- A member of a container. -/
structure Member (κ : Type) where
  key : κ
  value : Window

/-- What reading the key of a member comes to. -/
inductive KeyStep (κ : Type) where
  | read (key : κ) (rest : Window)
  /-- The member is broken, which is known before the rest. -/
  | refused (failure : Failure) (rest : Window)
  /-- The text ends. -/
  | ended (failure : Failure)

/-- How many bytes follow. -/
def KeyStep.length {κ : Type} : KeyStep κ → Nat
  | read _ rest | refused _ rest => rest.bytes.length
  | ended _ => 0

/-- A kind of container whose members have keys of a type. -/
structure Container (κ : Type) where
  opener : UInt8
  closer : UInt8
  /-- Reads the key of a member at the front of a window that does not start with a blank. -/
  key : Window → KeyStep κ
  length_key : ∀ w, (key w).length ≤ w.bytes.length

/-! ## Keys -/

open Resource (endOfInput)

/-- The failure of a byte that may not stand where it does. -/
def Window.unexpected (offset : Nat) (b : UInt8) : Failure :=
  .unexpectedToken offset (Byte.text b)

/-- The colon after a key. -/
def readColon (key : String) (w : Window) : KeyStep String :=
  let next := w.trimStart
  match next.bytes with
  | [] => .ended (endOfInput w.offset)
  | b :: rest =>
    if b = Byte.colon then .read key ⟨next.offset + 1, rest⟩
    else .refused (Window.unexpected next.offset b) next

/-- The key of an entry, with the colon behind it. A byte that does not start a key is consumed. The
message about a string that is no key leaves out the reason, which a reader of strings would
append. -/
def readKey (w : Window) : KeyStep String :=
  match w.bytes with
  | [] => .ended (endOfInput w.offset)
  | b :: rest =>
    if b ≠ Byte.quote then .refused (.unexpectedToken w.offset "expected key") ⟨w.offset + 1, rest⟩
    else
      match Scan.string [] rest with
      | .error cut => .ended (endOfInput (w.stop - cut))
      | .ok (body, rest) =>
        let after : Window := ⟨w.offset + 1 + body.length, rest⟩
        match Json.readString? (Byte.quote :: body) with
        | some key => readColon key after
        | none => .refused (.invalidResource w.offset "invalid key") after

theorem length_readColon (key : String) (w : Window) :
    (readColon key w).length ≤ w.bytes.length := by
  have h := w.length_trimStart_le
  unfold readColon
  cases hb : w.trimStart.bytes with
  | nil => simp [hb, KeyStep.length]
  | cons b rest =>
    rw [hb] at h
    simp only [hb]
    split
    · exact Nat.le_trans (Nat.le_succ _) h
    · simpa [KeyStep.length, hb] using h

theorem length_readKey (w : Window) : (readKey w).length ≤ w.bytes.length := by
  unfold readKey
  cases hb : w.bytes with
  | nil => simp [KeyStep.length]
  | cons b rest =>
    simp only
    split
    · simp [KeyStep.length]
    · split
      · simp [KeyStep.length]
      · rename_i body rest' hs
        have h : rest'.length ≤ rest.length := Scan.length_of_string hs
        split
        · refine Nat.le_trans (length_readColon _ _) ?_
          simp only [List.length_cons]
          omega
        · simp only [KeyStep.length, List.length_cons]
          omega

/-! ## Members -/

/-- One step of a split. -/
inductive SplitStep (κ : Type) where
  /-- A member with a comma behind it. -/
  | more (item : Except Failure (Member κ)) (rest : Window)
  /-- Whatever is left, without anything behind it. -/
  | last (items : List (Except Failure (Member κ)))

namespace Container

/-- Lists, whose members have no keys. -/
def list : Container Unit where
  opener := Byte.openList
  closer := Byte.closeList
  key w := .read () w
  length_key _ := Nat.le_refl _

/-- Dictionaries. -/
def dict : Container String where
  opener := Byte.openDict
  closer := Byte.closeDict
  key := readKey
  length_key := length_readKey

variable {κ : Type}

/-- What stands behind a member: the window after a comma, or nothing after the closing bracket. -/
def delimiter (c : Container κ) (w : Window) : Except Failure (Option Window) :=
  match w.bytes with
  | [] => .error (endOfInput w.offset)
  | b :: rest =>
    if b = Byte.comma then .ok (some ⟨w.offset + 1, rest⟩)
    else if b = c.closer then .ok none
    else .error (Window.unexpected w.offset b)

/-- A broken member, and the split behind it. -/
def resume (c : Container κ) (failure : Failure) (w : Window) : SplitStep κ :=
  match Scan.member {} [] w.bytes with
  | .error cut => .last [.error failure, .error (endOfInput (w.stop - cut))]
  | .ok (raw, rest) =>
    match c.delimiter ⟨w.offset + raw.length, rest⟩ with
    | .error second => .last [.error failure, .error second]
    | .ok none => .last [.error failure]
    | .ok (some rest) => .more (.error failure) rest

/-- The value of a member, at the front of a window that does not start with a blank. -/
def value (c : Container κ) (key : κ) (w : Window) : SplitStep κ :=
  match Scan.member {} [] w.bytes with
  | .error cut => .last [.error (endOfInput (w.stop - cut))]
  | .ok (raw, rest) =>
    let after : Window := ⟨w.offset + raw.length, rest⟩
    match Scan.stray {} false 0 raw with
    | some (i, b) => c.resume (Window.unexpected (w.offset + i) b) after
    | none =>
      match c.delimiter after with
      | .error failure => .last [.error failure]
      | .ok none => .last [.ok ⟨key, w.offset, Window.trimEnd raw⟩]
      | .ok (some rest) => .more (.ok ⟨key, w.offset, Window.trimEnd raw⟩) rest

/-- The next member. A closing bracket may not follow a comma. -/
def step (c : Container κ) (afterComma : Bool) (w : Window) : SplitStep κ :=
  let front := w.trimStart
  match front.bytes with
  | [] => .last [.error (endOfInput w.offset)]
  | b :: _ =>
    if b = c.closer then
      .last (if afterComma then [.error (Window.unexpected front.offset b)] else [])
    else
      match c.key front with
      | .ended failure => .last [.error failure]
      | .refused failure rest => c.resume failure rest
      | .read key rest =>
        let start := rest.trimStart
        match start.bytes with
        | [] => .last [.error (endOfInput rest.offset)]
        | b :: _ =>
          if b = Byte.comma || b = c.closer then
            c.resume (Window.unexpected start.offset b) start
          else c.value key start

/-! ## A split ends -/

theorem length_of_delimiter {c : Container κ} {w rest : Window}
    (h : c.delimiter w = .ok (some rest)) : rest.bytes.length < w.bytes.length := by
  unfold delimiter at h
  split at h
  · simp at h
  · rename_i hb
    split at h
    · simp only [Except.ok.injEq, Option.some.injEq] at h
      rw [← h, hb]
      exact Nat.lt_succ_self _
    · split at h <;> simp at h

theorem length_of_resume {c : Container κ} {failure : Failure} {w rest : Window}
    {item : Except Failure (Member κ)} (h : c.resume failure w = .more item rest) :
    rest.bytes.length < w.bytes.length := by
  unfold resume at h
  split at h
  · simp at h
  · rename_i hm
    split at h
    · simp at h
    · simp at h
    · rename_i hd
      simp only [SplitStep.more.injEq] at h
      rw [← h.2]
      exact Nat.lt_of_lt_of_le (length_of_delimiter hd) (Scan.length_of_member hm)

theorem length_of_value {c : Container κ} {key : κ} {w rest : Window}
    {item : Except Failure (Member κ)} (h : c.value key w = .more item rest) :
    rest.bytes.length < w.bytes.length := by
  unfold value at h
  split at h
  · simp at h
  · rename_i hm
    have hle := Scan.length_of_member hm
    simp only at h
    split at h
    · exact Nat.lt_of_lt_of_le (length_of_resume h) hle
    · split at h
      · simp at h
      · simp at h
      · rename_i hd
        simp only [SplitStep.more.injEq] at h
        rw [← h.2]
        exact Nat.lt_of_lt_of_le (length_of_delimiter hd) hle

theorem length_of_step {c : Container κ} {afterComma : Bool} {w rest : Window}
    {item : Except Failure (Member κ)} (h : c.step afterComma w = .more item rest) :
    rest.bytes.length < w.bytes.length := by
  have hw := w.length_trimStart_le
  have hk := c.length_key w.trimStart
  unfold step at h
  simp only at h
  split at h
  · simp at h
  · split at h
    · simp at h
    · split at h
      · simp at h
      · rename_i hkey
        rw [hkey] at hk
        exact Nat.lt_of_lt_of_le (length_of_resume h) (Nat.le_trans hk hw)
      · rename_i keyRest hkey
        rw [hkey] at hk
        have hs := keyRest.length_trimStart_le
        have hle : keyRest.trimStart.bytes.length ≤ w.bytes.length :=
          Nat.le_trans hs (Nat.le_trans hk hw)
        split at h
        · simp at h
        · split at h
          · exact Nat.lt_of_lt_of_le (length_of_resume h) hle
          · exact Nat.lt_of_lt_of_le (length_of_value h) hle

/-! ## The split -/

/-- The members of a container whose opening bracket is consumed. -/
def members (c : Container κ) (afterComma : Bool) (w : Window) :
    List (Except Failure (Member κ)) :=
  match h : c.step afterComma w with
  | .last items => items
  | .more item rest =>
    have := length_of_step h
    item :: c.members true rest
termination_by w.bytes.length

/-- Checks the letters of a word at the front of a window, which starts at `start`. -/
def checkWord (start : Nat) (word : List UInt8) (w : Window) : Except Failure Unit :=
  match word, w.bytes with
  | [], _ => .ok ()
  | _ :: _, [] => .error (endOfInput start)
  | c :: word, b :: rest =>
    if b = c then checkWord start word ⟨w.offset + 1, rest⟩
    else .error (Window.unexpected w.offset b)

/-- The members of the container at the front of a window; `null` has none. What follows the
container is not looked at. -/
def split (c : Container κ) (w : Window) : Except Failure (List (Except Failure (Member κ))) :=
  let front := w.trimStart
  match front.bytes with
  | [] => .error (endOfInput w.offset)
  | b :: rest =>
    if b = c.opener then .ok (c.members false ⟨front.offset + 1, rest⟩)
    else if b = 0x6E then
      (checkWord front.offset [0x6E, 0x75, 0x6C, 0x6C] front).map fun _ ↦ []
    else .error (Window.unexpected front.offset b)

end Container

end TypedJson
