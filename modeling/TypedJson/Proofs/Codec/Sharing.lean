import Mathlib.Logic.Function.Basic
import Mathlib.Tactic.Common
import TypedJson.Codec.Cache
import TypedJson.Proofs.Entries
import TypedJson.Proofs.Fingerprint

/-!
# Caches that share a directory

Several caches, each with a memory of its own, work on one directory. Files are cut off or deleted
while they do. What a cache answers is still what compiling would, and after its first success it
compiles a key no more until its memory is emptied.

Two things hold at any time and carry all of this. Memories hold what compiling gives. A file that
can be read holds what compiling gives for the one key that is stored under its name, since a file
is only made from a compiled artifact and is never changed into another one (`IsConsistent`).
-/

namespace TypedJson

namespace CodecKey

/-- If hashes do not collide, the name of a file tells all of its key but whether the artifact may
be stored. -/
theorem fileName_inj {ι : Type} {hash : ι → UInt64} (hhash : Function.Injective hash)
    {a b : CodecKey ι} (h : a.fileName hash = b.fileName hash)
    (hdurable : a.isDurable = b.isDurable) : a = b := by
  let tail (d : Direction) (lazy : Bool) : List Char := ".".toList ++ (d.name.toList ++
    (".json.".toList ++ ((if lazy then "lazy" else "eager").toList ++
      (".".toList ++ extension.toList))))
  obtain ⟨m, d, lazy, durable⟩ := a
  obtain ⟨n, d', lazy', durable'⟩ := b
  obtain rfl : durable = durable' := hdurable
  have hlist := congrArg String.toList h
  simp only [fileName, String.toList_append, List.append_assoc] at hlist
  obtain ⟨hhex, hrest⟩ := List.append_inj hlist (by simp)
  obtain rfl : m = n := hhash (Fingerprint.hex64_inj (String.toList_inj.mp hhex))
  have key : ∀ (d d' : Direction) (lazy lazy' : Bool), tail d lazy = tail d' lazy' →
      d = d' ∧ lazy = lazy' := by
    intro d d' lazy lazy'
    cases d <;> cases d' <;> cases lazy <;> cases lazy' <;> decide
  obtain ⟨rfl, rfl⟩ := key d d' lazy lazy' hrest
  rfl

end CodecKey

namespace Directory

/-- A directory gives an artifact of a file and stays as it is, or the file is gone then. -/
theorem artifact?_cases (d : Directory) (name : String) (direction : Direction) :
    (∃ bytes a, (name, bytes) ∈ d ∧ Artifact.ofBytes? bytes = some a ∧
      d.artifact? name direction = (some a, d)) ∨
    ∃ rest : Directory, rest.Sublist d ∧ Entries.has rest name = false ∧
      d.artifact? name direction = (none, rest) := by
  have herase : (Entries.erase d name).Sublist d ∧
      Entries.has (Entries.erase d name) name = false :=
    ⟨List.filter_sublist, by simp [Entries.has, Entries.erase, Entries.find?_eq_none]⟩
  unfold artifact?
  split
  · next hnone => exact .inr ⟨d, List.Sublist.refl d, by simp [Entries.has, hnone], rfl⟩
  · next bytes hfind =>
    split
    · exact .inr ⟨_, herase.1, herase.2, rfl⟩
    · next a ha =>
      split
      · exact .inl ⟨bytes, a, Entries.mem_of_find? hfind, ha, rfl⟩
      · exact .inr ⟨_, herase.1, herase.2, rfl⟩

end Directory

/-- Caches, by number, that share a directory. -/
structure SharedCaches where
  directory : Directory
  memory : Nat → Entries (CodecKey UInt64) Artifact := fun _ ↦ []

namespace SharedCaches

variable {f : CodecKey UInt64 → Except Failure Artifact} {s : SharedCaches}

/-- One of the caches. -/
def cache (s : SharedCaches) (i : Nat) : CodecCache UInt64 :=
  { memory := s.memory i, directory := some s.directory }

/-- The caches with another one in the place of one of them. -/
def put (s : SharedCaches) (i : Nat) (cache : CodecCache UInt64) : SharedCaches where
  directory := cache.directory.getD s.directory
  memory := Function.update s.memory i cache.memory

@[simp] theorem cache_memory (s : SharedCaches) (i : Nat) : (s.cache i).memory = s.memory i := rfl

@[simp] theorem cache_directory (s : SharedCaches) (i : Nat) :
    (s.cache i).directory = some s.directory := rfl

@[simp] theorem put_mk (s : SharedCaches) (i : Nat) (memory : Entries (CodecKey UInt64) Artifact)
    (d : Directory) : s.put i { memory, directory := some d } =
      { directory := d, memory := Function.update s.memory i memory } := rfl

@[simp] theorem put_cache (s : SharedCaches) (i : Nat) : s.put i (s.cache i) = s := by
  simp [put, cache]

/-- What one of the caches answers for a key, and whether it compiled it. -/
def get (f : CodecKey UInt64 → Except Failure Artifact) (s : SharedCaches) (i : Nat)
    (key : CodecKey UInt64) : (Except Failure Artifact × Bool) × SharedCaches :=
  let (answer, cache, compiled) := (s.cache i).load id key (fun _ ↦ (f key, true)) false
  ((answer, compiled), s.put i cache)

/-- What happens to caches. -/
inductive Event
  /-- A cache is asked for a key. -/
  | get (i : Nat) (key : CodecKey UInt64)
  /-- The memory of a cache is emptied. -/
  | clear (i : Nat)
  /-- The memory of a cache is emptied, and the directory. -/
  | purge (i : Nat)
  /-- A file is cut off. -/
  | truncate (name : String) (length : Nat)
  /-- A file is deleted. -/
  | delete (name : String)

/-- Whether an event empties the memory of a cache. -/
def Event.Forgets (i : Nat) : Event → Prop
  | clear j | purge j => j = i
  | get .. | truncate .. | delete .. => False

/-- The directory with a file cut off, if what is left of it cannot be read. -/
def truncate (directory : Directory) (name : String) (length : Nat) : Directory :=
  match Entries.find? directory name with
  | none => directory
  | some bytes =>
    let bytes := bytes.take length
    if (Artifact.ofBytes? bytes).isNone then Entries.put directory name bytes else directory

/-- The caches after an event. -/
def step (f : CodecKey UInt64 → Except Failure Artifact) (s : SharedCaches) : Event → SharedCaches
  | .get i key => (get f s i key).2
  | .clear i => s.put i (s.cache i).clear
  | .purge i => s.put i (s.cache i).purge
  | .truncate name length => { s with directory := truncate s.directory name length }
  | .delete name => { s with directory := Entries.erase s.directory name }

/-- The caches after events. -/
def run (f : CodecKey UInt64 → Except Failure Artifact) (s : SharedCaches) (events : List Event) :
    SharedCaches :=
  events.foldl (step f) s

/-- The cache that compiles with success in an event, and the key. -/
def compiled? (f : CodecKey UInt64 → Except Failure Artifact) (s : SharedCaches) :
    Event → Option (Nat × CodecKey UInt64)
  | .get i key =>
    match get f s i key with
    | ((.ok _, true), _) => some (i, key)
    | _ => none
  | .clear _ | .purge _ | .truncate .. | .delete _ => none

/-- How often a cache compiles a key with success while events happen. -/
def compilations (f : CodecKey UInt64 → Except Failure Artifact) (i : Nat)
    (key : CodecKey UInt64) : SharedCaches → List Event → Nat
  | _, [] => 0
  | s, e :: events =>
    (if compiled? f s e = some (i, key) then 1 else 0) + compilations f i key (step f s e) events

/-! ## One call -/

/-- The caches with an artifact in the memory of one of them. -/
def remember (s : SharedCaches) (i : Nat) (key : CodecKey UInt64) (a : Artifact) : SharedCaches :=
  { s with memory := Function.update s.memory i (Entries.put (s.memory i) key a) }

/-- A cache has to compile a key. The files of `rest` are left in the directory. -/
structure Misses (s : SharedCaches) (i : Nat) (key : CodecKey UInt64) (rest : Directory) :
    Prop where
  memory : Entries.find? (s.memory i) key = none
  sublist : rest.Sublist s.directory

/-- What a call answers, whether it compiles, and what it leaves. -/
inductive Call (f : CodecKey UInt64 → Except Failure Artifact) (s : SharedCaches) (i : Nat)
    (key : CodecKey UInt64) : (Except Failure Artifact × Bool) × SharedCaches → Prop
  | remembered {a : Artifact} : Entries.find? (s.memory i) key = some a →
    Call f s i key ((.ok a, false), s)
  | read {bytes : List UInt8} {a : Artifact} : Entries.find? (s.memory i) key = none →
    key.isDurable = true → (key.fileName id, bytes) ∈ s.directory →
      Artifact.ofBytes? bytes = some a → Call f s i key ((.ok a, false), s.remember i key a)
  | failed {rest : Directory} {failure : Failure} : s.Misses i key rest → f key = .error failure →
    Call f s i key ((.error failure, true), { s with directory := rest })
  | transient {a : Artifact} : s.Misses i key s.directory → key.isDurable = false → f key = .ok a →
    Call f s i key ((.ok a, true), s.remember i key a)
  | stored {rest : Directory} {a : Artifact} : s.Misses i key rest → key.isDurable = true →
    f key = .ok a → Call f s i key ((.ok a, true),
      { s.remember i key a with directory := Entries.put rest (key.fileName id) a.toBytes })

theorem call_get (f : CodecKey UInt64 → Except Failure Artifact) (s : SharedCaches) (i : Nat)
    (key : CodecKey UInt64) : Call f s i key (get f s i key) := by
  -- A cache looks into its memory, then for a file, and compiles at last.
  cases hfind : Entries.find? (s.memory i) key with
  | some a =>
    have hget : get f s i key = ((.ok a, false), s) := by
      simp [get, CodecCache.load, hfind]
    exact hget ▸ .remembered hfind
  | none =>
    cases hdurable : key.isDurable with
    | false =>
      have hfetch : (s.cache i).fetch id key = (none, s.cache i) := by
        simp [CodecCache.fetch, hdurable]
      have hmiss : s.Misses i key s.directory := ⟨hfind, List.Sublist.refl _⟩
      cases hf : f key with
      | error failure =>
        simpa [get, CodecCache.load, hfind, hfetch, hf] using Call.failed hmiss hf
      | ok a =>
        simpa [get, CodecCache.load, hfind, hfetch, hf, CodecCache.store, hdurable,
          CodecCache.keep, remember] using Call.transient hmiss hdurable hf
    | true =>
      rcases s.directory.artifact?_cases (key.fileName id) key.direction with
        ⟨bytes, a, hmem, ha, hread⟩ | ⟨rest, hsub, hfree, hread⟩
      · have hfetch : (s.cache i).fetch id key =
            (some a, { s.cache i with directory := some s.directory }) := by
          simp [CodecCache.fetch, hdurable, hread]
        have hget : get f s i key = ((.ok a, false), s.remember i key a) := by
          simp [get, CodecCache.load, hfind, hfetch, CodecCache.keep, remember]
        exact hget ▸ .read hfind hdurable hmem ha
      · have hfetch : (s.cache i).fetch id key =
            (none, { s.cache i with directory := some rest }) := by
          simp [CodecCache.fetch, hdurable, hread]
        have hmiss : s.Misses i key rest := ⟨hfind, hsub⟩
        cases hf : f key with
        | error failure =>
          simpa [get, CodecCache.load, hfind, hfetch, hf] using Call.failed hmiss hf
        | ok a =>
          simpa [get, CodecCache.load, hfind, hfetch, hf, CodecCache.store, hdurable,
            Directory.store, hfree, CodecCache.keep, remember] using Call.stored hmiss hdurable hf

/-! ## What holds at any time -/

/-- Memories hold what compiling gives, and a file that can be read holds what compiling gives for
the key that is stored under its name. -/
structure IsConsistent (f : CodecKey UInt64 → Except Failure Artifact) (s : SharedCaches) :
    Prop where
  memory : ∀ i key a, Entries.find? (s.memory i) key = some a → f key = .ok a
  directory : ∀ file ∈ s.directory, ∀ a, Artifact.ofBytes? file.2 = some a →
    ∀ key, key.isDurable = true → key.fileName id = file.1 → f key = .ok a

namespace IsConsistent

theorem of_sublist (h : IsConsistent f s) {directory : Directory}
    (hsub : directory.Sublist s.directory) : IsConsistent f { s with directory } :=
  ⟨h.memory, fun file hfile ↦ h.directory file (hsub.subset hfile)⟩

theorem put_unreadable (h : IsConsistent f s) (name : String) {bytes : List UInt8}
    (hbytes : Artifact.ofBytes? bytes = none) :
    IsConsistent f { s with directory := Entries.put s.directory name bytes } := by
  refine ⟨h.memory, fun file hfile a ha ↦ ?_⟩
  rcases Entries.mem_put hfile with rfl | hfile
  · rw [hbytes] at ha
    cases ha
  · exact h.directory file hfile a ha

theorem put_artifact (h : IsConsistent f s) {key : CodecKey UInt64} {a : Artifact}
    (hkey : key.isDurable = true) (ha : f key = .ok a)
    (hread : ∀ b, Artifact.ofBytes? a.toBytes = some b → b = a) :
    IsConsistent f
      { s with directory := Entries.put s.directory (key.fileName id) a.toBytes } := by
  refine ⟨h.memory, fun file hfile b hb other hother hname ↦ ?_⟩
  rcases Entries.mem_put hfile with rfl | hfile
  · -- Both keys may be stored, so the name of the file leaves no other key.
    obtain rfl := CodecKey.fileName_inj Function.injective_id hname (hother.trans hkey.symm)
    rw [ha, hread b hb]
  · exact h.directory file hfile b hb other hother hname

theorem withMemory (h : IsConsistent f s) (i : Nat) {memory : Entries (CodecKey UInt64) Artifact}
    (hmemory : ∀ key a, Entries.find? memory key = some a → f key = .ok a) :
    IsConsistent f { s with memory := Function.update s.memory i memory } := by
  refine ⟨?_, h.directory⟩
  exact (Function.forall_update_iff s.memory
    fun _ memory ↦ ∀ key a, Entries.find? memory key = some a → f key = .ok a).mpr
      ⟨hmemory, fun j _ ↦ h.memory j⟩

theorem remember (h : IsConsistent f s) (i : Nat) {key : CodecKey UInt64} {a : Artifact}
    (ha : f key = .ok a) : IsConsistent f (s.remember i key a) :=
  h.withMemory i (Entries.forall_find?_put (h.memory i) ha)

/-- What can be read in a file is what its key compiles to. -/
theorem eq_of_mem (h : IsConsistent f s) {key : CodecKey UInt64} {bytes : List UInt8}
    {a : Artifact} (hkey : key.isDurable = true) (hmem : (key.fileName id, bytes) ∈ s.directory)
    (ha : Artifact.ofBytes? bytes = some a) : f key = .ok a :=
  h.directory _ hmem a ha key hkey rfl

end IsConsistent

namespace Call

variable {i : Nat} {key : CodecKey UInt64} {r : (Except Failure Artifact × Bool) × SharedCaches}

/-- A call answers what compiling gives. -/
theorem answer_eq (h : IsConsistent f s) (hcall : Call f s i key r) : r.1.1 = f key := by
  cases hcall with
  | remembered hfind => exact (h.memory i key _ hfind).symm
  | read _ hkey hmem ha => exact (h.eq_of_mem hkey hmem ha).symm
  | failed _ hf | transient _ _ hf | stored _ _ hf => exact hf.symm

theorem isConsistent (h : IsConsistent f s)
    (hread : ∀ a b, f key = .ok a → Artifact.ofBytes? a.toBytes = some b → b = a)
    (hcall : Call f s i key r) : IsConsistent f r.2 := by
  cases hcall with
  | remembered => exact h
  | read _ hkey hmem ha => exact h.remember i (h.eq_of_mem hkey hmem ha)
  | failed hmiss => exact h.of_sublist hmiss.sublist
  | transient _ _ hf => exact h.remember i hf
  | stored hmiss hkey hf =>
    exact ((h.of_sublist hmiss.sublist).put_artifact hkey hf (hread _ · hf)).remember i hf

/-- A call whose compiling fails adds nothing. -/
theorem of_error (h : IsConsistent f s) {failure : Failure} (hf : f key = .error failure)
    (hcall : Call f s i key r) :
    r.2.memory = s.memory ∧ r.2.directory.Sublist s.directory := by
  cases hcall with
  | remembered hfind =>
    rw [h.memory i key _ hfind] at hf
    cases hf
  | read _ hkey hmem ha =>
    rw [h.eq_of_mem hkey hmem ha] at hf
    cases hf
  | failed hmiss => exact ⟨rfl, hmiss.sublist⟩
  | transient _ _ hok | stored _ _ hok =>
    rw [hok] at hf
    cases hf

/-- A call keeps what is in memory. -/
theorem find?_memory (hcall : Call f s i key r) {j : Nat} {other : CodecKey UInt64} {a : Artifact}
    (hfind : Entries.find? (s.memory j) other = some a) :
    Entries.find? (r.2.memory j) other = some a := by
  -- A cache remembers only what it did not have, so nothing in memory is replaced.
  have hput (b : Artifact) (hnone : Entries.find? (s.memory i) key = none) :
      Entries.find? ((s.remember i key b).memory j) other = some a := by
    rw [remember]
    rcases eq_or_ne j i with rfl | hne
    · have hother : key ≠ other := by
        rintro rfl
        rw [hfind] at hnone
        cases hnone
      simpa [Entries.find?_put_of_ne _ _ hother] using hfind
    · simpa [Function.update_of_ne hne] using hfind
  cases hcall with
  | remembered | failed => exact hfind
  | read hnone => exact hput _ hnone
  | transient hmiss | stored hmiss => exact hput _ hmiss.memory

/-- What a call answers is in memory then. -/
theorem find?_memory_self (hcall : Call f s i key r) {a : Artifact} (ha : r.1.1 = .ok a) :
    Entries.find? (r.2.memory i) key = some a := by
  have hput (b : Artifact) (hb : Except.ok (ε := Failure) b = .ok a) :
      Entries.find? ((s.remember i key b).memory i) key = some a := by
    cases hb
    simp [remember]
  cases hcall with
  | remembered hfind => exact hfind.trans (congrArg some (Except.ok.inj ha))
  | failed => cases ha
  | read | transient | stored => exact hput _ ha

theorem not_compiled (hcall : Call f s i key r) {a : Artifact}
    (hfind : Entries.find? (s.memory i) key = some a) : r.1.2 = false := by
  cases hcall with
  | remembered | read => rfl
  | failed hmiss | transient hmiss | stored hmiss => cases hfind.symm.trans hmiss.memory

end Call

/-! ## Steps and runs -/

theorem IsConsistent.truncate (h : IsConsistent f s) (name : String) (length : Nat) :
    IsConsistent f { s with directory := truncate s.directory name length } := by
  unfold SharedCaches.truncate
  split
  · exact h
  · next bytes _ =>
    by_cases hnone : (Artifact.ofBytes? (bytes.take length)).isNone = true
    · simpa only [if_pos hnone] using h.put_unreadable name (Option.isNone_iff_eq_none.mp hnone)
    · simpa only [if_neg hnone] using h

theorem IsConsistent.step (h : IsConsistent f s)
    (hread : ∀ key a b, f key = .ok a → Artifact.ofBytes? a.toBytes = some b → b = a) (e : Event) :
    IsConsistent f (step f s e) := by
  cases e with
  | get i key => exact (call_get f s i key).isConsistent h (hread key)
  | clear i => exact h.withMemory i fun key a ha ↦ nomatch ha
  | purge i =>
    exact (h.of_sublist List.filter_sublist).withMemory i fun key a ha ↦ nomatch ha
  | truncate name length => exact h.truncate name length
  | delete name => exact h.of_sublist List.filter_sublist

theorem IsConsistent.run (h : IsConsistent f s)
    (hread : ∀ key a b, f key = .ok a → Artifact.ofBytes? a.toBytes = some b → b = a)
    (events : List Event) : IsConsistent f (run f s events) := by
  induction events generalizing s with
  | nil => exact h
  | cons e events ih => exact ih (h.step hread e)

/-- What is in memory stays there until the memory is emptied. -/
theorem find?_memory_step {i : Nat} {key : CodecKey UInt64} {a : Artifact} {e : Event}
    (he : ¬e.Forgets i) (hfind : Entries.find? (s.memory i) key = some a) :
    Entries.find? ((step f s e).memory i) key = some a := by
  cases e with
  | get j other => exact (call_get f s j other).find?_memory hfind
  | clear j | purge j =>
    have hne : i ≠ j := fun heq ↦ he heq.symm
    simpa [step, put, Function.update_of_ne hne] using hfind
  | truncate | delete => exact hfind

theorem eq_get_of_compiled? {i : Nat} {key : CodecKey UInt64} {e : Event}
    (h : compiled? f s e = some (i, key)) :
    e = .get i key ∧ (get f s i key).1.2 = true ∧ ∃ a, (get f s i key).1.1 = .ok a := by
  cases e with
  | get j other =>
    rw [compiled?] at h
    split at h
    · next a s' hget =>
      obtain ⟨rfl, rfl⟩ := Prod.mk.inj (Option.some.inj h)
      exact ⟨rfl, by rw [hget], a, by rw [hget]⟩
    · cases h
  | clear | purge | truncate | delete => cases h

/-- A cache does not compile what its memory holds. -/
theorem compilations_of_find? {i : Nat} {key : CodecKey UInt64} {a : Artifact}
    {events : List Event} (hkept : ∀ e ∈ events, ¬e.Forgets i)
    (hfind : Entries.find? (s.memory i) key = some a) : compilations f i key s events = 0 := by
  induction events generalizing s with
  | nil => rfl
  | cons e events ih =>
    obtain ⟨he, hkept⟩ := List.forall_mem_cons.mp hkept
    have hnot : compiled? f s e ≠ some (i, key) := by
      intro h
      obtain ⟨-, htrue, -⟩ := eq_get_of_compiled? h
      rw [(call_get f s i key).not_compiled hfind] at htrue
      cases htrue
    rw [compilations, if_neg hnot, ih hkept (find?_memory_step he hfind)]

theorem compilations_le_one {i : Nat} {key : CodecKey UInt64} {events : List Event}
    (hkept : ∀ e ∈ events, ¬e.Forgets i) : compilations f i key s events ≤ 1 := by
  induction events generalizing s with
  | nil => exact Nat.zero_le 1
  | cons e events ih =>
    have hrest := (List.forall_mem_cons.mp hkept).2
    rw [compilations]
    split
    · next h =>
      -- The key is in memory from here on.
      obtain ⟨rfl, -, a, ha⟩ := eq_get_of_compiled? h
      have hfind := (call_get f s i key).find?_memory_self ha
      exact Nat.le_of_eq (congrArg (1 + ·) (compilations_of_find? hrest hfind))
    · simpa using ih hrest

/-- The answer for a key that stays in memory does not depend on the directory, and the directory
does not change. -/
theorem get_withDirectory {key : CodecKey UInt64} (hkey : key.isDurable = false)
    (s : SharedCaches) (i : Nat) (d : Directory) :
    get f { s with directory := d } i key =
      ((get f s i key).1, { (get f s i key).2 with directory := d }) := by
  unfold get CodecCache.load
  cases hfind : Entries.find? (s.memory i) key with
  | some a => simp [cache, hfind, put]
  | none =>
    cases hf : f key <;>
      simp [cache, hfind, put, CodecCache.fetch, CodecCache.store, CodecCache.keep, hkey]

/-- Caches that start empty, on a directory without a readable file, and reading that gives back
what was written. Whatever happens, each call answers what compiling gives, and while the memory of
a cache is not emptied, it compiles a key with success at most once. A call whose compiling fails
adds nothing to memory or directory, and one for a key that stays in memory neither looks at the
directory nor changes it. -/
theorem get_after_run {f : CodecKey UInt64 → Except Failure Artifact} {directory : Directory}
    (hread : ∀ key a b, f key = .ok a → Artifact.ofBytes? a.toBytes = some b → b = a)
    (hdirectory : ∀ file ∈ directory, Artifact.ofBytes? file.2 = none) (events : List Event)
    (i : Nat) (key : CodecKey UInt64) :
    let s := run f { directory } events
    (get f s i key).1.1 = f key ∧
    (∀ more, (∀ e ∈ more, ¬e.Forgets i) → compilations f i key s more ≤ 1) ∧
    (∀ failure, f key = .error failure → (get f s i key).2.memory = s.memory ∧
      (get f s i key).2.directory.Sublist s.directory) ∧
    (key.isDurable = false → ∀ d, get f { s with directory := d } i key =
      ((get f s i key).1, { (get f s i key).2 with directory := d })) := by
  intro s
  have hstart : IsConsistent f { directory } := by
    refine ⟨fun _ _ _ hfind ↦ (nomatch hfind), fun file hfile a ha ↦ ?_⟩
    rw [hdirectory file hfile] at ha
    cases ha
  have hs : IsConsistent f s := hstart.run hread events
  exact ⟨(call_get f s i key).answer_eq hs, fun more hkept ↦ compilations_le_one hkept,
    fun failure hf ↦ (call_get f s i key).of_error hs hf,
    fun hkey d ↦ get_withDirectory hkey s i d⟩

/-- Whether the artifact is the encoder without instructions. -/
def writesNothing : Artifact → Bool
  | .encoder ⟨[], slots⟩ => decide (slots = 1)
  | _ => false

theorem eq_of_writesNothing {a : Artifact} (h : writesNothing a = true) : a = .encoder ⟨[], 1⟩ := by
  rcases a with ⟨_ | _, slots⟩ | root
  · rw [of_decide_eq_true h]
  · cases h
  · cases h

/-- A file with the start of an artifact is there first. It is removed, and compiled anew. The file
made then is cut off, and the memory emptied. -/
theorem get_after_run_cut :
    let a : Artifact := .encoder ⟨[], 1⟩
    let f (key : CodecKey UInt64) : Except Failure Artifact :=
      if key.id = 0 then .error .storage else .ok a
    let key : CodecKey UInt64 := { id := 3, direction := .encode }
    let failing : CodecKey UInt64 := { id := 0, direction := .encode }
    let transient : CodecKey UInt64 := { id := 3, direction := .encode, isDurable := false }
    let name := key.fileName id
    let directory : Directory := [(name, a.toBytes.take 11)]
    let events : List Event := [.get 0 key, .get 1 key, .truncate name 11, .clear 1]
    ∃ s, s = run f { directory } events ∧
    (get f s 1 key).1.1 = .ok a ∧
    compilations f 1 key s [.get 1 key, .delete name, .get 1 key, .get 0 key] ≤ 1 ∧
    ((get f s 1 failing).2.memory = s.memory ∧
      (get f s 1 failing).2.directory.Sublist s.directory) ∧
    get f { s with directory := [] } 1 transient =
      ((get f s 1 transient).1, { (get f s 1 transient).2 with directory := [] }) := by
  intro a f key failing transient name directory events
  have ha : Artifact.ofBytes? a.toBytes = some a := by
    have hcheck : (Artifact.ofBytes? a.toBytes).any writesNothing = true := by decide +kernel
    obtain ⟨b, hb, hnothing⟩ := (Option.any_eq_true _ _).mp hcheck
    rw [hb, eq_of_writesNothing hnothing]
  have hread : ∀ key b c, f key = .ok b → Artifact.ofBytes? b.toBytes = some c → c = b := by
    intro key b c hb hc
    have hba : b = a := by
      by_cases hkey : key.id = 0
      · simp [f, hkey] at hb
      · simpa [f, hkey, eq_comm] using hb
    rw [hba, ha] at hc
    rw [hba, Option.some.inj hc]
  have hcut : ∀ file ∈ directory, Artifact.ofBytes? file.2 = none := by
    have hnone : (Artifact.ofBytes? (a.toBytes.take 11)).isNone = true := by decide +kernel
    simpa [directory] using hnone
  have h := get_after_run hread hcut events 1
  have hkey : f key = .ok a := if_neg (by decide)
  have hfailing : f failing = .error .storage := if_pos rfl
  exact ⟨_, rfl, (h key).1.trans hkey, (h key).2.1 _ (by simp [Event.Forgets]),
    (h failing).2.2.1 .storage hfailing, (h transient).2.2.2 rfl []⟩

end SharedCaches

end TypedJson
