import TypedJson.DataType.Basic
import TypedJson.Proofs.Aligned

/-!
# Equal types

Equality ignores the order of the members of unions, at any depth. It looks the members of one union
up in the other, and each look-up compares the other way round; `same_flip` says that this is no
more than swapping the sides. So two types are equal if they are unions of which one is found in the
other, or if they differ at most in their parts and these are equal one by one (`beq_union`,
`beq_of_head`). Equality is reflexive and transitive on all types. It is symmetric only on
well-formed ones: the union of `int` and `int` has its members found in `int|string`.
-/

namespace TypedJson

/-! ## Kinds and their parts -/

namespace TypeKind

variable {τ : Type}

/-- The types that a kind is made of. -/
def parts : TypeKind τ → List τ
  | list item => [item]
  | dict key value => [key, value]
  | object _ generics => generics
  | union members => members
  | _ => []

/-- What a kind is without its parts. -/
def head : TypeKind τ → TypeKind Unit
  | scalar kind => scalar kind
  | null => null
  | mixed => mixed
  | list _ => list ()
  | dict _ _ => dict () ()
  | object className _ => object className []
  | enum className backing => enum className backing
  | union _ => union []
  | template name => template name

/-- The kind of a union. -/
def IsUnion : TypeKind τ → Prop
  | union _ => True
  | _ => False

theorem isUnion_of_head {a b : TypeKind τ} (h : a.head = b.head) : a.IsUnion ↔ b.IsUnion := by
  cases a <;> cases b <;> first | exact Iff.rfl | cases h

end TypeKind

namespace DataType

/-- What holds of a type if it holds of its parts holds of every type. -/
theorem parts_induction {P : DataType → Prop}
    (mk : ∀ kind nullable, (∀ t ∈ kind.parts, P t) → P (mk kind nullable)) (t : DataType) :
    P t := by
  refine DataType.rec (motive_1 := P) (motive_2 := fun kind ↦ ∀ t ∈ kind.parts, P t)
    (motive_3 := fun types ↦ ∀ t ∈ types, P t) mk ?_ ?_ ?_ ?_ ?_ ?_ ?_ ?_ ?_ ?_ ?_ t
  all_goals simp_all [TypeKind.parts]

/-! ## Comparing -/

variable {a b : TypeKind DataType} {m n : Bool}

theorem beq_mk : (mk a m == mk b n) = (m == n && sameKind false a b) := rfl

theorem same_false (t u : DataType) : same false t u = (t == u) := rfl

theorem allFound_eq_all (as bs : List DataType) :
    allFound as bs = as.all fun a ↦ bs.any fun b ↦ same true a b := by
  induction as with
  | nil => rfl
  | cons a as ih => rw [allFound, ih, List.all_cons]

theorem anySame_eq_any (as : List DataType) (b : DataType) :
    anySame as b = as.any fun a ↦ same false a b := by
  induction as with
  | nil => rfl
  | cons a as ih => rw [anySame, ih, List.any_cons]

theorem sameAll_iff {as bs : List DataType} :
    sameAll false as bs = true ↔ List.Forall₂ (fun a b ↦ (a == b) = true) as bs := by
  induction as generalizing bs with
  | nil => cases bs <;> simp [sameAll]
  | cons a as ih =>
    cases bs with
    | nil => simp [sameAll]
    | cons b bs =>
      rw [sameAll, Bool.and_eq_true, ih, List.forall₂_cons]
      exact Iff.rfl

/-- A flipped comparison is the comparison with its sides swapped. -/
theorem same_flip (t : DataType) : ∀ flipped u, same flipped t u = same (!flipped) u t := by
  induction t using parts_induction with
  | mk kind m ih =>
    rintro flipped ⟨other, n⟩
    have hall : ∀ as bs, (∀ a ∈ as, a ∈ kind.parts) →
        sameAll flipped as bs = sameAll (!flipped) bs as := by
      intro as bs has
      induction as generalizing bs with
      | nil => cases bs <;> rfl
      | cons a as iha =>
        cases bs with
        | nil => rfl
        | cons b bs =>
          rw [sameAll, sameAll, ih a (has a (by simp)),
            iha bs fun x hx ↦ has x (by simp [hx])]
    have hkind : sameKind flipped kind other = sameKind (!flipped) other kind := by
      cases kind <;> cases other <;> try rfl
      case union.union as bs =>
        rw [sameKind_union, sameKind_union, allFound_eq_all, allFound_eq_all]
        congr 1
        · exact BEq.comm
        -- The side that is looked up in the other is flipped once more.
        · rw [Bool.eq_iff_iff]
          cases flipped <;> simp only [anySame_eq_any, Bool.not_false, Bool.not_true, if_true,
            if_false, Bool.false_eq_true, List.all_eq_true, List.any_eq_true]
          · refine forall₂_congr fun a ha ↦ exists_congr fun b ↦ and_congr_right fun _ ↦ ?_
            rw [ih a ha true b, Bool.not_true]
          · refine forall₂_congr fun b _ ↦ exists_congr fun a ↦ and_congr_right fun ha ↦ ?_
            rw [ih a ha false b, Bool.not_false]
      all_goals rw [sameKind, sameKind]
      case scalar.scalar => exact BEq.comm
      case template.template => exact BEq.comm
      case enum.enum =>
        congr 1 <;> exact BEq.comm
      case list.list item other => exact ih item (by simp [TypeKind.parts]) flipped other
      case dict.dict key value key' value' =>
        congr 1
        · exact ih key (by simp [TypeKind.parts]) flipped key'
        · exact ih value (by simp [TypeKind.parts]) flipped value'
      case object.object =>
        congr 1
        · exact BEq.comm
        · exact hall _ _ fun _ h ↦ h
    rw [same, same, hkind]
    congr 1
    exact BEq.comm

/-- Types that are no unions are equal if they differ at most in their parts, and these are
equal. -/
theorem beq_of_head (h : ¬a.IsUnion) :
    (mk a m == mk b n) = true ↔
      m = n ∧ a.head = b.head ∧ List.Forall₂ (fun t u ↦ (t == u) = true) a.parts b.parts := by
  rw [beq_mk, Bool.and_eq_true, beq_iff_eq]
  refine and_congr_right fun _ ↦ ?_
  cases a <;> cases b
  case union.union => exact (h trivial).elim
  case object.object =>
    rw [sameKind, Bool.and_eq_true, sameAll_iff]
    simp [TypeKind.head, TypeKind.parts]
  all_goals simp [TypeKind.head, TypeKind.parts, sameKind, same_false]

/-- Unions are equal if they have as many members and each of the first is found in the second. -/
theorem beq_union {as bs : List DataType} :
    (mk (.union as) m == mk (.union bs) n) = true ↔
      m = n ∧ as.length = bs.length ∧ ∀ a ∈ as, ∃ b ∈ bs, (b == a) = true := by
  have hflip : ∀ a b, same true a b = (b == a) := fun a b ↦ same_flip a true b
  rw [beq_mk, sameKind_union, if_neg Bool.false_ne_true, allFound_eq_all]
  simp only [hflip, Bool.and_eq_true, beq_iff_eq, List.all_eq_true, List.any_eq_true]

/-- Equal types are two unions, or no unions at all. -/
theorem beq_cases {P : Prop} (h : (mk a m == mk b n) = true)
    (union : ∀ as bs, a = .union as → b = .union bs → m = n → as.length = bs.length →
      (∀ x ∈ as, ∃ y ∈ bs, (y == x) = true) → P)
    (other : ¬a.IsUnion → ¬b.IsUnion → m = n → a.head = b.head →
      List.Forall₂ (fun t u ↦ (t == u) = true) a.parts b.parts → P) : P := by
  by_cases ha : a.IsUnion
  · cases a with
    | union as =>
      cases b with
      | union bs =>
        obtain ⟨hn, hlen, hall⟩ := beq_union.mp h
        exact union as bs rfl rfl hn hlen hall
      | _ => simp [beq_mk, sameKind] at h
    | _ => exact ha.elim
  · obtain ⟨hn, hhead, hparts⟩ := (beq_of_head ha).mp h
    exact other ha (fun hb ↦ ha ((TypeKind.isUnion_of_head hhead).mpr hb)) hn hhead hparts

/-! ## Reflexivity and transitivity -/

theorem beq_refl (t : DataType) : (t == t) = true := by
  induction t using parts_induction with
  | mk kind nullable ih =>
    by_cases hunion : kind.IsUnion
    · cases kind with
      | union members => exact beq_union.mpr ⟨rfl, rfl, fun a ha ↦ ⟨a, ha, ih a ha⟩⟩
      | _ => exact hunion.elim
    · exact (beq_of_head hunion).mpr ⟨rfl, rfl, List.forall₂_same.mpr ih⟩

/-- The induction is on the type in the middle, which a look-up leaves there while it swaps the
other two. -/
theorem beq_trans {u : DataType} :
    ∀ {t v : DataType}, (t == u) = true → (u == v) = true → (t == v) = true := by
  induction u using parts_induction with
  | mk kind nullable ih =>
    rintro ⟨a, m⟩ ⟨c, n⟩ hab hbc
    refine beq_cases hab ?_ ?_
    · rintro as bs rfl rfl rfl hlen hall
      refine beq_cases hbc ?_ fun hb ↦ (hb trivial).elim
      rintro _ cs ⟨⟩ rfl rfl hlen' hall'
      refine beq_union.mpr ⟨rfl, hlen.trans hlen', fun x hx ↦ ?_⟩
      obtain ⟨y, hy, hyx⟩ := hall x hx
      obtain ⟨z, hz, hzy⟩ := hall' y hy
      exact ⟨z, hz, ih y hy hzy hyx⟩
    · rintro ha hb rfl hhead hparts
      refine beq_cases hbc (fun as _ h ↦ (hb (h ▸ trivial)).elim) ?_
      rintro - - rfl hhead' hparts'
      refine (beq_of_head ha).mpr ⟨rfl, hhead.trans hhead', ?_⟩
      have hmid := forall₂_imp_of_mem hparts fun _ _ y hy h ↦ And.intro hy h
      refine (forall₂_trans hmid hparts').imp ?_
      rintro x z ⟨y, ⟨hy, hxy⟩, hyz⟩
      exact ih y hy hxy hyz

end DataType

end TypedJson
