import ConstFun.Proofs.Constants
import Mathlib.Algebra.Order.Ring.Abs
import Mathlib.Algebra.Order.Ring.Int
import Mathlib.Data.List.Perm.Subperm

namespace ConstFun

/-- The greatest integer that has a kind. -/
def greatestInteger (exact : Bool) : ℤ := if exact then 2 ^ 64 - 1 else 2 ^ 64

theorem two_pow_le_greatestInteger (exact : Bool) : 2 ^ 63 ≤ greatestInteger exact := by
  cases exact <;> decide

/-- An integer with so many binary digits at most, and then zeros. -/
def HasSignificand (bits : ℕ) (v : ℤ) : Prop :=
  ∃ (m : ℤ) (zeros : ℕ), |m| < 2 ^ bits ∧ v = m * 2 ^ zeros

/-- The first integer with a digit too many has only zeros behind its first digit. -/
theorem hasSignificand_of_natAbs_le {bits : ℕ} (some_bits : 0 < bits) {v : ℤ}
    (small : v.natAbs ≤ 2 ^ bits) : HasSignificand bits v := by
  have size : |v| ≤ 2 ^ bits := by
    rw [Int.abs_eq_natAbs]
    exact_mod_cast small
  rcases lt_or_eq_of_le size with below | top
  · exact ⟨v, 0, below, by rw [pow_zero, mul_one]⟩
  · have one : (1 : ℤ) < 2 ^ bits := one_lt_pow₀ one_lt_two some_bits.ne'
    rcases (abs_eq (zero_le_one.trans one.le)).mp top with rfl | rfl
    · exact ⟨1, bits, by rwa [abs_one], by rw [one_mul]⟩
    · exact ⟨-1, bits, by rwa [abs_neg, abs_one], by rw [neg_one_mul]⟩

theorem signedRange_widens {bits bits' : ℕ} (wider : bits ≤ bits') :
    (signedRange bits').1 ≤ (signedRange bits).1 ∧
      (signedRange bits).2 ≤ (signedRange bits').2 := by
  have half : Nat.pow 2 (bits - 1) ≤ Nat.pow 2 (bits' - 1) :=
    Nat.pow_le_pow_right two_pos (by omega)
  simp only [signedRange]
  omega

theorem unsignedRange_widens {bits bits' : ℕ} (wider : bits ≤ bits') (exact : Bool) :
    (unsignedRange bits' exact).1 ≤ (unsignedRange bits exact).1 ∧
      (unsignedRange bits exact).2 ≤ (unsignedRange bits' exact).2 := by
  have top : Nat.pow 2 bits ≤ Nat.pow 2 bits' := Nat.pow_le_pow_right two_pos wider
  simp only [unsignedRange]
  split <;> omega

namespace Kind

variable {k k' : Kind} {exact : Bool} {v : ℤ}

theorem admits_integer_iff : k.admits exact (.integer v) = true ↔
    (k.integerRange exact).1 ≤ v ∧ v ≤ (k.integerRange exact).2 := by
  simp [admits]

theorem integerRange_of_signed (signed : k.numericClass = .signed) (exact : Bool) :
    k.integerRange exact = signedRange k.bits := by
  cases k with
  | i8 | i16 | i32 | i64 => rfl
  | _ => cases signed

theorem integerRange_of_limit {limit : ℕ} (held : k.floatLimit? = some limit) (exact : Bool) :
    k.integerRange exact = (-(limit : ℤ), (limit : ℤ)) := by
  rw [integerRange, held]

theorem exists_floatLimit (float : k.numericClass = .float) :
    ∃ limit, k.floatLimit? = some limit := by
  cases k with
  | f32 | f64 => exact ⟨_, rfl⟩
  | _ => cases float

theorem floatLimit_le {limit limit' : ℕ} (wider : k.bits ≤ k'.bits)
    (held : k.floatLimit? = some limit) (held' : k'.floatLimit? = some limit') :
    limit ≤ limit' := by
  cases k <;> cases held <;> cases k' <;> cases held' <;> revert wider <;> decide

/-- A wider kind of a class holds what a narrower one holds. -/
theorem admits_of_wider (same : k'.numericClass = k.numericClass) (wider : k.bits ≤ k'.bits)
    (fits : k.admits exact (.integer v) = true) : k'.admits exact (.integer v) = true := by
  rw [admits_integer_iff] at fits ⊢
  cases kind : k.numericClass with
  | signed =>
    have widens := signedRange_widens wider
    rw [integerRange_of_signed kind] at fits
    rw [integerRange_of_signed (same.trans kind)]
    omega
  | unsigned =>
    have widens := unsignedRange_widens wider exact
    rw [integerRange_of_unsigned (beq_iff_eq.mpr kind)] at fits
    rw [integerRange_of_unsigned (beq_iff_eq.mpr (same.trans kind))]
    omega
  | float =>
    obtain ⟨limit, held⟩ := exists_floatLimit kind
    obtain ⟨limit', held'⟩ := exists_floatLimit (same.trans kind)
    have widens := floatLimit_le wider held held'
    rw [integerRange_of_limit held] at fits
    rw [integerRange_of_limit held']
    simp only at fits ⊢
    omega

theorem admits_i64_iff : i64.admits exact (.integer v) = true ↔ -2 ^ 63 ≤ v ∧ v < 2 ^ 63 := by
  have range : i64.integerRange exact = (-2 ^ 63, 2 ^ 63 - 1) := rfl
  rw [admits_integer_iff, range]
  omega

theorem admits_u64_iff :
    u64.admits exact (.integer v) = true ↔ 0 ≤ v ∧ v ≤ greatestInteger exact := by
  have range : u64.integerRange exact = (0, greatestInteger exact) := by cases exact <;> rfl
  rw [admits_integer_iff, range]

theorem admits_f64_iff : f64.admits exact (.integer v) = true ↔ -2 ^ 53 < v ∧ v < 2 ^ 53 := by
  have range : f64.integerRange exact = (-(2 ^ 53 - 1), 2 ^ 53 - 1) := rfl
  rw [admits_integer_iff, range]
  omega

theorem admits_f64_of_narrow (narrow : k.bits ≤ 32) (fits : k.admits exact (.integer v) = true) :
    f64.admits exact (.integer v) = true := by
  rw [admits_f64_iff]
  cases kind : k.numericClass with
  | signed =>
    have wide : i32.admits exact (.integer v) = true := admits_of_wider kind.symm narrow fits
    have within := admits_integer_iff.mp wide
    have range : i32.integerRange exact = (-2 ^ 31, 2 ^ 31 - 1) := rfl
    rw [range] at within
    omega
  | unsigned =>
    have wide : u32.admits exact (.integer v) = true := admits_of_wider kind.symm narrow fits
    have within := admits_integer_iff.mp wide
    have range : (u32.integerRange exact).1 = 0 ∧ (u32.integerRange exact).2 ≤ 2 ^ 32 := by
      cases exact <;> decide
    omega
  | float =>
    have wide : f64.admits exact (.integer v) = true :=
      admits_of_wider kind.symm (narrow.trans (by decide)) fits
    exact admits_f64_iff.mp wide

/-- Where the integers lie that a kind holds: the widest float kind holds them too, unless the kind
is one of the two widest integer kinds. -/
theorem admits_cases (fits : k.admits exact (.integer v) = true) :
    (k = i64 ∧ -2 ^ 63 ≤ v ∧ v < 2 ^ 63) ∨ (k = u64 ∧ 0 ≤ v ∧ v ≤ greatestInteger exact) ∨
      (-2 ^ 53 < v ∧ v < 2 ^ 53) := by
  have sizes : k.bits ≤ 32 ∨ k = i64 ∨ k = u64 ∨ k = f64 := by cases k <;> decide
  rcases sizes with narrow | rfl | rfl | rfl
  · exact .inr (.inr (admits_f64_iff.mp (admits_f64_of_narrow narrow fits)))
  · exact .inl ⟨rfl, admits_i64_iff.mp fits⟩
  · exact .inr (.inl ⟨rfl, admits_u64_iff.mp fits⟩)
  · exact .inr (.inr (admits_f64_iff.mp fits))

theorem hasSignificand_f32 (fits : f32.admits exact (.integer v) = true) : HasSignificand 24 v :=
  hasSignificand_of_natAbs_le (by decide) (natAbs_le_of_admits rfl fits)

theorem hasSignificand_f64 (fits : f64.admits exact (.integer v) = true) : HasSignificand 53 v :=
  hasSignificand_of_natAbs_le (by decide)
    ((natAbs_le_of_admits rfl fits).trans (Nat.sub_le (2 ^ 53) 1))

end Kind

section Counts

variable {exact : Bool} {v : ℤ}

theorem admissibleKinds_eq_singleton_iff {value : LiteralValue} {k : Kind} :
    admissibleKinds exact value = [k] ↔
      k.admits exact value = true ∧ ∀ k' : Kind, k'.admits exact value = true → k' = k := by
  refine ⟨fun sole => ?_, fun ⟨fits, only⟩ => ?_⟩
  · simp only [← mem_admissibleKinds, sole, List.mem_singleton, true_and, imp_self, implies_true]
  · have filtered : admissibleKinds exact value = Kind.all.filter fun k' => k' == k := by
      refine List.filter_congr fun k' _ => Bool.eq_iff_iff.mpr ?_
      rw [beq_iff_eq]
      exact ⟨only k', fun same => same ▸ fits⟩
    rw [filtered]
    cases k <;> rfl

theorem no_kind_iff :
    admissibleKinds exact (.integer v) = [] ↔ v < -2 ^ 63 ∨ greatestInteger exact < v := by
  have top := two_pow_le_greatestInteger exact
  simp only [List.eq_nil_iff_forall_not_mem, mem_admissibleKinds]
  refine ⟨fun none => ?_, fun outside k fits => ?_⟩
  · have no_i64 := mt Kind.admits_i64_iff.mpr (none .i64)
    have no_u64 := mt Kind.admits_u64_iff.mpr (none .u64)
    omega
  · have places := Kind.admits_cases fits
    omega

theorem only_u64_iff :
    admissibleKinds exact (.integer v) = [.u64] ↔ 2 ^ 63 ≤ v ∧ v ≤ greatestInteger exact := by
  rw [admissibleKinds_eq_singleton_iff]
  refine ⟨fun ⟨fits, only⟩ => ?_, fun within => ⟨?_, fun k fits => ?_⟩⟩
  · have within := Kind.admits_u64_iff.mp fits
    have no_i64 := mt (fun i64 => only .i64 (Kind.admits_i64_iff.mpr i64)) (by decide)
    omega
  · exact Kind.admits_u64_iff.mpr (by omega)
  · rcases Kind.admits_cases fits with ⟨_, places⟩ | ⟨rfl, _⟩ | places
    · omega
    · rfl
    · omega

theorem only_i64_iff :
    admissibleKinds exact (.integer v) = [.i64] ↔ -2 ^ 63 ≤ v ∧ v ≤ -2 ^ 53 := by
  have top := two_pow_le_greatestInteger exact
  rw [admissibleKinds_eq_singleton_iff]
  refine ⟨fun ⟨fits, only⟩ => ?_, fun within => ⟨?_, fun k fits => ?_⟩⟩
  · have within := Kind.admits_i64_iff.mp fits
    have no_u64 := mt (fun u64 => only .u64 (Kind.admits_u64_iff.mpr u64)) (by decide)
    have no_f64 := mt (fun f64 => only .f64 (Kind.admits_f64_iff.mpr f64)) (by decide)
    omega
  · exact Kind.admits_i64_iff.mpr (by omega)
  · rcases Kind.admits_cases fits with ⟨rfl, _⟩ | ⟨_, places⟩ | places
    · rfl
    · omega
    · omega

theorem two_le_length_admissibleKinds {value : LiteralValue} {k k' : Kind}
    (fits : k.admits exact value = true) (fits' : k'.admits exact value = true) (apart : k ≠ k') :
    2 ≤ (admissibleKinds exact value).length := by
  have both : [k, k'] ⊆ admissibleKinds exact value := by
    simp [mem_admissibleKinds, fits, fits']
  exact (List.subperm_of_subset (by simp [apart]) both).length_le

theorem several_kinds_iff :
    2 ≤ (admissibleKinds exact (.integer v)).length ↔ -2 ^ 53 < v ∧ v < 2 ^ 63 := by
  have top := two_pow_le_greatestInteger exact
  refine ⟨fun several => ?_, fun within => ?_⟩
  · -- elsewhere there is no kind, or one
    by_contra outside
    have few : (v < -2 ^ 63 ∨ greatestInteger exact < v) ∨
        (2 ^ 63 ≤ v ∧ v ≤ greatestInteger exact) ∨ (-2 ^ 63 ≤ v ∧ v ≤ -2 ^ 53) := by omega
    rw [← no_kind_iff, ← only_u64_iff, ← only_i64_iff] at few
    rcases few with kinds | kinds | kinds <;>
      exact absurd (kinds ▸ several) (by decide)
  · have i64 : Kind.i64.admits exact (.integer v) = true := Kind.admits_i64_iff.mpr (by omega)
    rcases Int.lt_or_le v 0 with negative | natural
    · have f64 : Kind.f64.admits exact (.integer v) = true := Kind.admits_f64_iff.mpr (by omega)
      exact two_le_length_admissibleKinds i64 f64 (by decide)
    · have u64 : Kind.u64.admits exact (.integer v) = true := Kind.admits_u64_iff.mpr (by omega)
      exact two_le_length_admissibleKinds i64 u64 (by decide)

end Counts

/-- The kinds of an integer in closed form. Beyond the bounds of the two widest integer kinds there
is none. Above `i64` there is `u64` only, and in `i64` below `f64` there is `i64` only; every other
integer has two kinds at least. With a kind stand all wider kinds of its class, and a float kind
holds only integers that its significand represents exactly. -/
theorem integer_kinds_closed_form (exact : Bool) (v : ℤ) :
    (admissibleKinds exact (.integer v) = [] ↔ v < -2 ^ 63 ∨ greatestInteger exact < v) ∧
    (admissibleKinds exact (.integer v) = [.u64] ↔ 2 ^ 63 ≤ v ∧ v ≤ greatestInteger exact) ∧
    (admissibleKinds exact (.integer v) = [.i64] ↔ -2 ^ 63 ≤ v ∧ v ≤ -2 ^ 53) ∧
    (2 ≤ (admissibleKinds exact (.integer v)).length ↔ -2 ^ 53 < v ∧ v < 2 ^ 63) ∧
    (∀ k ∈ admissibleKinds exact (.integer v), ∀ k' : Kind, k'.numericClass = k.numericClass →
      k.bits ≤ k'.bits → k' ∈ admissibleKinds exact (.integer v)) ∧
    (.f32 ∈ admissibleKinds exact (.integer v) → HasSignificand 24 v) ∧
    (.f64 ∈ admissibleKinds exact (.integer v) → HasSignificand 53 v) := by
  simp only [mem_admissibleKinds]
  exact ⟨no_kind_iff, only_u64_iff, only_i64_iff, several_kinds_iff,
    fun k fits k' same wider => Kind.admits_of_wider same wider fits, Kind.hasSignificand_f32,
    Kind.hasSignificand_f64⟩

/-- The last integer that `f32` holds, which has a digit too many for it, and the ends of the ranges
where a single kind is left. -/
theorem integer_kinds_closed_form_edges :
    .f32 ∈ admissibleKinds true (.integer (2 ^ 24)) ∧ HasSignificand 24 (2 ^ 24) ∧
      .f64 ∈ admissibleKinds true (.integer (2 ^ 24)) ∧ HasSignificand 53 (2 ^ 24) ∧
      admissibleKinds true (.integer (-2 ^ 53)) = [.i64] ∧
      admissibleKinds false (.integer (2 ^ 64)) = [.u64] ∧
      admissibleKinds true (.integer (2 ^ 64)) = [] := by
  obtain ⟨_, _, _, _, wider, single, double⟩ := integer_kinds_closed_form true (2 ^ 24)
  have f32 : Kind.f32 ∈ admissibleKinds true (.integer (2 ^ 24)) := by decide
  have f64 := wider .f32 f32 .f64 rfl (by decide)
  exact ⟨f32, single f32, f64, double f64,
    (integer_kinds_closed_form true (-2 ^ 53)).2.2.1.mpr (by decide),
    (integer_kinds_closed_form false (2 ^ 64)).2.1.mpr (by decide),
    (integer_kinds_closed_form true (2 ^ 64)).1.mpr (by decide)⟩

end ConstFun
