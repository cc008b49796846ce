import TypedJson.Proofs.Value.Awake

/-!
# Comparing ghosts

Comparing two objects reads all fields of both, and logs that, and what a ghost answers depends on
the log. If ghosts declare their slots only the order of fields does, and that does not count. So
two values compare alike whatever has been read before, and whichever of their ghosts have been.
-/

namespace TypedJson

open ResolvedObject

namespace Resolved

/-- The values compare as they do after every ghost in them has been read, whatever has been read
before in either case. -/
def ComparesAwake (a b : Resolved) : Prop :=
  ∀ log log', (a.same b log).1 = (a.awake.same b.awake log').1

theorem ComparesAwake.eq_nil {a b : Resolved} (h : a.ComparesAwake b) (log : List Access) :
    (a.same b log).1 = (a.same b []).1 := (h log []).trans (h [] []).symm

theorem ComparesAwake.awake_eq_nil {a b : Resolved} (h : a.ComparesAwake b) (log : List Access) :
    (a.awake.same b.awake log).1 = (a.awake.same b.awake []).1 := (h [] log).symm.trans (h [] [])

/-! ## Lists and dictionaries -/

/-- A comparison of first parts that decides whether the others are compared at all. -/
theorem compare_ite {x y x' y' : Traced Bool} (hx : ∀ log log', (x log).1 = (x' log').1)
    (hy : ∀ log log', (y log).1 = (y' log').1) (log log' : List Access) :
    ((do if ← x then y else return false : Traced Bool) log).1 =
      ((do if ← x' then y' else return false : Traced Bool) log').1 := by
  show ((if (x log).1 = true then y else pure false : Traced Bool) (x log).2).1 =
    ((if (x' log').1 = true then y' else pure false : Traced Bool) (x' log').2).1
  rw [hx log log']
  split
  · exact hy _ _
  · rfl

theorem sameItems_awake {as bs : List Resolved} (h : ∀ a ∈ as, ∀ b ∈ bs, a.ComparesAwake b)
    (log log' : List Access) :
    (sameItems as bs log).1 = (sameItems (awakeItems as) (awakeItems bs) log').1 := by
  induction as generalizing bs log log' with
  | nil => cases bs <;> rfl
  | cons a as ih =>
    cases bs with
    | nil => rfl
    | cons b bs =>
      refine compare_ite (h a List.mem_cons_self b List.mem_cons_self) (ih fun c hc d hd ↦ ?_) log
        log'
      exact h c (List.mem_cons_of_mem _ hc) d (List.mem_cons_of_mem _ hd)

theorem sameEntries_awake {as bs : List (DictKey × Resolved)}
    (h : ∀ a ∈ as, ∀ b ∈ bs, a.2.ComparesAwake b.2) (log log' : List Access) :
    (sameEntries as bs log).1 = (sameEntries (awakeEntries as) (awakeEntries bs) log').1 := by
  induction as generalizing log log' with
  | nil => rfl
  | cons a as ih =>
    obtain ⟨key, a⟩ := a
    have hrest := ih fun c hc ↦ h c (List.mem_cons_of_mem _ hc)
    have hfind : Entries.find? (awakeEntries bs) key = (Entries.find? bs key).map awake := by
      rw [awakeEntries_eq_map, Entries.find?_map_snd]
    rw [awakeEntries, sameEntries, sameEntries, hfind]
    cases hb : Entries.find? bs key with
    | none => rfl
    | some b =>
      exact compare_ite (h _ List.mem_cons_self _ (Entries.mem_of_find? hb)) hrest log log'

/-! ## Objects -/

theorem comparedObject_eq_map (o : ResolvedObject Resolved) :
    comparedObject o = o.map Resolved.same := by
  have hslots : ∀ slots : List (String × Except Failure Resolved),
      comparedSlots slots = slots.map fun slot ↦ (slot.1, slot.2.map Resolved.same) := by
    intro slots
    induction slots with
    | nil => rfl
    | cons slot slots ih =>
      match slot with
      | (_, .ok _) | (_, .error _) =>
        rw [comparedSlots, ih, List.map_cons]
        rfl
  obtain ⟨identity, className, declared, failure | slots⟩ := o
  · rfl
  · show (⟨_, _, _, .ok (comparedSlots slots)⟩ : ResolvedObject _) = _
    rw [hslots]
    rfl

/-- Fields have the values of those of another object if each of them has, provided that comparing
values does not depend on what has been read. -/
theorem sameFields_iff {others fields : List (String × Resolved)}
    (h : ∀ a ∈ fields, ∀ b ∈ others, ∀ log, (a.2.same b.2 log).1 = (a.2.same b.2 []).1)
    (log : List Access) :
    (sameFields others (fields.map fun field ↦ (field.1, field.2.same)) log).1 = true ↔
      ∀ a ∈ fields, ∃ b, Entries.find? others a.1 = some b ∧ (a.2.same b []).1 = true := by
  induction fields generalizing log with
  | nil => exact iff_of_true rfl (List.forall_mem_nil _)
  | cons a fields ih =>
    have hrest := ih fun c hc ↦ h c (List.mem_cons_of_mem _ hc)
    rw [List.map_cons, sameFields, List.forall_mem_cons]
    cases hfind : Entries.find? others a.1 with
    | none =>
      refine iff_of_false Bool.false_ne_true ?_
      rintro ⟨⟨_, ⟨⟩, -⟩, -⟩
    | some b =>
      show ((if (a.2.same b log).1 = true then _ else pure false : Traced Bool) _).1 = true ↔ _
      have hsame := h a List.mem_cons_self _ (Entries.mem_of_find? hfind) log
      by_cases hb : (a.2.same b []).1 = true
      · rw [if_pos (hsame.trans hb), hrest]
        exact (and_iff_right ⟨b, rfl, hb⟩).symm
      · rw [if_neg fun hlog ↦ hb (hsame.symm.trans hlog)]
        refine iff_of_false Bool.false_ne_true ?_
        rintro ⟨⟨_, ⟨⟩, hb'⟩, -⟩
        exact hb hb'

end Resolved

namespace ResolvedObject

variable {o p : ResolvedObject Resolved} {fields others : List (String × Resolved)}

theorem DeclaresSlots.nodup (h : o.DeclaresSlots) (hfields : o.Shows fields) :
    (fields.map (·.1)).Nodup := by
  cases hfields with
  | slots hslots hperm =>
    have hkeys : (known fields).map (·.1) = fields.map (·.1) := by
      rw [known, List.map_map]
      rfl
    exact hkeys ▸ (hperm.map _).nodup_iff.mp (h.distinct _ hslots)
  | unread => exact List.nodup_nil

/-- Each field is found under its name in another object, with the same value. -/
def Agree (fields others : List (String × Resolved)) : Prop :=
  fields.length = others.length ∧
    ∀ a ∈ fields, ∃ b, Entries.find? others a.1 = some b ∧ (a.2.same b []).1 = true

theorem Agree.of_perm {fields' others' : List (String × Resolved)} (h : Agree fields others)
    (hfields : fields.Perm fields') (hothers : others.Perm others')
    (hdistinct : (others.map (·.1)).Nodup) : Agree fields' others' := by
  constructor
  · rw [← hfields.length_eq, h.1, hothers.length_eq]
  · intro a ha
    rw [← Entries.find?_perm hothers hdistinct]
    exact h.2 a (hfields.mem_iff.mpr ha)

/-- Whether fields that have been read have the same values, unless one of the readings failed. -/
def sameRead : Except Failure (List (String × (Resolved → Traced Bool))) →
    Except Failure (List (String × Resolved)) → Traced Bool
  | .ok as, .ok bs => if as.length = bs.length then sameFields bs as else return false
  | _, _ => return false

/-- Two objects that declare their slots are the same if they have one class and the same fields. -/
theorem same_object_iff (ho : o.DeclaresSlots) (hp : p.DeclaresSlots)
    (h : ∀ fields others, o.Shows fields → p.Shows others → ∀ a ∈ fields, ∀ b ∈ others,
      ∀ log, (a.2.same b.2 log).1 = (a.2.same b.2 []).1) (log : List Access) :
    ((Resolved.object o).same (.object p) log).1 = true ↔
      o.className = p.className ∧
        ∃ fields others, o.Shows fields ∧ p.Shows others ∧ Agree fields others := by
  show ((if (comparedObject o).className = p.className then
    (do sameRead (← (comparedObject o).read) (← p.read)) else return false : Traced Bool) log).1 =
      true ↔ _
  rw [Resolved.comparedObject_eq_map]
  show ((if o.className = p.className then _ else return false : Traced Bool) log).1 = true ↔ _
  by_cases hclass : o.className = p.className
  · rw [if_pos hclass, and_iff_right hclass]
    show (sameRead ((o.map Resolved.same).read log).1
      (p.read ((o.map Resolved.same).read log).2).1 _).1 = true ↔ _
    rw [read_map]
    obtain ⟨fields, hread, hfields⟩ | ⟨⟨failure, hread⟩, hnone⟩ := ho.read log
    · obtain ⟨others, hread', hothers⟩ | ⟨⟨failure, hread'⟩, hnone⟩ := hp.read (o.read log).2
      · -- Both are read, and what one of them shows agrees however it is ordered.
        rw [hread, hread']
        show ((if (fields.map _).length = others.length then sameFields others (fields.map _)
          else return false : Traced Bool) _).1 = true ↔ _
        rw [List.length_map]
        have hsame := Resolved.sameFields_iff (h fields others hfields hothers)
        by_cases hlength : fields.length = others.length
        · rw [if_pos hlength, hsame]
          constructor
          · intro hall
            exact ⟨fields, others, hfields, hothers, hlength, hall⟩
          · rintro ⟨fields', others', hfields', hothers', hagree⟩
            exact (hagree.of_perm (hfields'.perm hfields) (hothers'.perm hothers)
              (hp.nodup hothers')).2
        · rw [if_neg hlength]
          refine iff_of_false Bool.false_ne_true ?_
          rintro ⟨fields', others', hfields', hothers', hagree⟩
          refine hlength ?_
          rw [← (hfields'.perm hfields).length_eq, ← (hothers'.perm hothers).length_eq, hagree.1]
      · rw [hread, hread']
        refine iff_of_false Bool.false_ne_true ?_
        rintro ⟨-, others, -, hothers, -⟩
        exact hnone others hothers
    · rw [hread]
      refine iff_of_false Bool.false_ne_true ?_
      rintro ⟨fields, -, hfields, -⟩
      exact hnone fields hfields
  · rw [if_neg hclass]
    exact iff_of_false Bool.false_ne_true fun hboth ↦ hclass hboth.1

/-- Fields agree as they do after every ghost in them has been read. -/
theorem agree_awake_iff (h : ∀ a ∈ fields, ∀ b ∈ others, a.2.ComparesAwake b.2) :
    Agree (fields.map fun field ↦ (field.1, field.2.awake))
      (others.map fun field ↦ (field.1, field.2.awake)) ↔ Agree fields others := by
  unfold Agree
  rw [List.length_map, List.length_map, List.forall_mem_map]
  refine and_congr_right fun _ ↦ forall₂_congr fun a ha ↦ ?_
  rw [Entries.find?_map_snd]
  cases hfind : Entries.find? others a.1 with
  | none => exact iff_of_false (fun ⟨_, hb, _⟩ ↦ nomatch hb) fun ⟨_, hb, _⟩ ↦ nomatch hb
  | some b =>
    have hsame := h a ha _ (Entries.mem_of_find? hfind) [] []
    constructor
    · rintro ⟨_, ⟨⟩, hb⟩
      exact ⟨b, rfl, hsame.trans hb⟩
    · rintro ⟨_, ⟨⟩, hb⟩
      exact ⟨b.awake, rfl, hsame.symm.trans hb⟩

/-- Objects compare as they do after every ghost in them has been read, if their fields do. -/
theorem comparesAwake_object (ho : o.DeclaresSlots) (hp : p.DeclaresSlots)
    (h : ∀ fields others, o.Shows fields → p.Shows others → ∀ a ∈ fields, ∀ b ∈ others,
      a.2.ComparesAwake b.2) : (Resolved.object o).ComparesAwake (.object p) := by
  intro log log'
  have hnow := same_object_iff ho hp (fun fields others hfields hothers a ha b hb ↦
    (h fields others hfields hothers a ha b hb).eq_nil) log
  have hawake := same_object_iff ho.awake hp.awake (fun shown shown' hshown hshown' ↦ ?_) log'
  · rw [Bool.eq_iff_iff, hnow]
    refine Iff.trans ?_ hawake.symm
    rw [className_awake, className_awake]
    refine and_congr_right fun _ ↦ ?_
    constructor
    · rintro ⟨fields, others, hfields, hothers, hagree⟩
      exact ⟨_, _, hfields.awake, hothers.awake,
        (agree_awake_iff (h fields others hfields hothers)).mpr hagree⟩
    · rintro ⟨shown, shown', hshown, hshown', hagree⟩
      obtain ⟨fields, hfields, hperm⟩ := exists_of_shows_awake hshown
      obtain ⟨others, hothers, hperm'⟩ := exists_of_shows_awake hshown'
      refine ⟨fields, others, hfields, hothers, ?_⟩
      refine (agree_awake_iff (h fields others hfields hothers)).mp ?_
      exact hagree.of_perm hperm.symm hperm'.symm (hp.awake.nodup hshown')
  · -- Every field that is shown awake is the awake form of one that is shown before.
    obtain ⟨fields, hfields, hperm⟩ := exists_of_shows_awake hshown
    obtain ⟨others, hothers, hperm'⟩ := exists_of_shows_awake hshown'
    intro a ha b hb log
    obtain ⟨c, hc, rfl⟩ := List.mem_map.mp (hperm.mem_iff.mpr ha)
    obtain ⟨d, hd, rfl⟩ := List.mem_map.mp (hperm'.mem_iff.mpr hb)
    exact (h fields others hfields hothers c hc d hd).awake_eq_nil log

end ResolvedObject

namespace Resolved

/-! ## Values -/

/-- Values whose ghosts declare their slots compare alike whatever has been read of them. -/
theorem IsDeclared.comparesAwake {a b : Resolved} (ha : a.IsDeclared) (hb : b.IsDeclared) :
    a.ComparesAwake b := by
  induction ha generalizing b with
  | null | bool | int | float | string | dateTime => cases b <;> exact fun _ _ ↦ rfl
  | @list items _ ih =>
    cases hb with
    | @list others hothers =>
      intro log log'
      have hitems := sameItems_awake fun a ha b hb ↦ ih a ha (hothers b hb)
      show ((if items.length = others.length then sameItems items others
          else return false : Traced Bool) log).1 =
        ((if (awakeItems items).length = (awakeItems others).length
          then sameItems (awakeItems items) (awakeItems others)
          else return false : Traced Bool) log').1
      rw [awakeItems_eq_map, awakeItems_eq_map] at hitems ⊢
      rw [List.length_map, List.length_map]
      split
      · exact hitems log log'
      · rfl
    | _ => exact fun _ _ ↦ rfl
  | @dict entries _ ih =>
    cases hb with
    | @dict others hothers =>
      intro log log'
      have hentries := sameEntries_awake fun a ha b hb ↦ ih a ha (hothers b hb)
      show ((if entries.length = others.length then sameEntries entries others
          else return false : Traced Bool) log).1 =
        ((if (awakeEntries entries).length = (awakeEntries others).length
          then sameEntries (awakeEntries entries) (awakeEntries others)
          else return false : Traced Bool) log').1
      rw [awakeEntries_eq_map, awakeEntries_eq_map] at hentries ⊢
      rw [List.length_map, List.length_map]
      split
      · exact hentries log log'
      · rfl
    | _ => exact fun _ _ ↦ rfl
  | @enum className case _ ih =>
    cases hb with
    | @enum className' case' hcase =>
      intro log log'
      show ((if className = className' then case.same case'
          else return false : Traced Bool) log).1 =
        ((if className = className' then case.awake.same case'.awake
          else return false : Traced Bool) log').1
      split
      · exact ih hcase log log'
      · rfl
    | _ => exact fun _ _ ↦ rfl
  | object hslots _ ih =>
    cases hb with
    | object hslots' hvalues' =>
      refine comparesAwake_object hslots hslots' fun fields others hfields hothers a ha b hb ↦ ?_
      obtain ⟨slots, heq, hmem⟩ := hfields.mem ha
      obtain ⟨slots', heq', hmem'⟩ := hothers.mem hb
      exact ih slots heq _ _ hmem (hvalues' slots' heq' _ _ hmem')
    | _ => exact fun _ _ ↦ rfl

end Resolved

/-- Reading ghosts in values does not change whether the values are the same. -/
theorem Value.Wakes.same {v v' w w' : Value} (h : v.Wakes v') (hw : w.Wakes w')
    (hv : v.resolved.IsDeclared) (hdeclared : w.resolved.IsDeclared) : v'.same w' = v.same w := by
  have hbefore := hv.comparesAwake hdeclared [] []
  have hafter := (h.isDeclared hv).comparesAwake (hw.isDeclared hdeclared) [] []
  rw [h.awake, hw.awake] at hafter
  exact hafter.trans hbefore.symm

end TypedJson
