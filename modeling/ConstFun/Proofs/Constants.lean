import ConstFun.Kind.Range
import ConstFun.Wat.Emitter
import Mathlib.Tactic.Common

namespace ConstFun

namespace Kind

variable {k : Kind} {value : LiteralValue}

theorem integerRange_of_unsigned (unsigned : k.isUnsigned = true) (exact : Bool) :
    k.integerRange exact = unsignedRange k.bits exact := by
  cases k <;> first | rfl | cases unsigned

theorem integerRange_of_not_unsigned (other : k.isUnsigned = false) (exact : Bool) :
    k.integerRange exact = k.integerRange true := by
  cases k <;> first | rfl | cases other

/-- Exact bounds leave out one number of each unsigned kind, and no other value. -/
theorem admits_false_iff : k.admits false value = true ↔
    k.admits true value = true ∨ k.isUnsigned = true ∧ value = .integer (Nat.pow 2 k.bits) := by
  cases value with
  | double d => simp [admits]
  | integer v =>
    cases unsigned : k.isUnsigned with
    | false => simp [admits, integerRange_of_not_unsigned unsigned false]
    | true =>
      have top : 0 < Nat.pow 2 k.bits := Nat.two_pow_pos _
      simp only [admits, integerRange_of_unsigned unsigned, unsignedRange, Bool.and_eq_true,
        decide_eq_true_eq, LiteralValue.integer.injEq, if_true, Bool.false_eq_true, if_false,
        true_and]
      omega

theorem admits_of_exact (exact : Bool) (fits : k.admits true value = true) :
    k.admits exact value = true := by
  cases exact with
  | true => exact fits
  | false => exact admits_false_iff.mpr (.inl fits)

theorem natAbs_le_of_admits {limit : Nat} (float : k.floatLimit? = some limit) {exact : Bool}
    {v : Int} (fits : k.admits exact (.integer v) = true) : v.natAbs ≤ limit := by
  have bounds : -(limit : Int) ≤ v ∧ v ≤ limit := by
    simpa [admits, integerRange, float] using fits
  omega

theorem valueType?_eq_none_iff : k.valueType? = none ↔ k.bits = 8 ∨ k.bits = 16 := by
  cases k <;> decide

theorem exists_valueType (wide : ¬(k.bits = 8 ∨ k.bits = 16)) : ∃ t, k.valueType? = some t :=
  Option.ne_none_iff_exists'.mp (mt valueType?_eq_none_iff.mp wide)

end Kind

theorem mem_admissibleKinds {exact : Bool} {value : LiteralValue} {k : Kind} :
    k ∈ admissibleKinds exact value ↔ k.admits exact value = true := by
  simp [admissibleKinds, Kind.mem_all]

/-- A value that a single kind can hold within exact bounds has no other kind without them: each
number that the bounds leave out is held by several kinds or by none. -/
theorem admissibleKinds_of_exact {value : LiteralValue} {k : Kind}
    (sole : admissibleKinds true value = [k]) : admissibleKinds false value = [k] := by
  have several : ∀ k' : Kind, k'.isUnsigned = true →
      (admissibleKinds true (.integer (Nat.pow 2 k'.bits))).length ≠ 1 := by
    intro k' unsigned
    cases k' with
    | u8 | u16 | u32 | u64 => decide
    | _ => cases unsigned
  rw [← sole]
  refine List.filter_congr fun k' _ => Bool.eq_iff_iff.mpr ⟨fun loose => ?_, ?_⟩
  · refine (Kind.admits_false_iff.mp loose).resolve_right ?_
    rintro ⟨unsigned, rfl⟩
    exact several k' unsigned (congrArg List.length sole)
  · exact Kind.admits_of_exact false

/-- The only kind that can hold a value, if it can within exact bounds, is the only one whether the
bounds are exact or not. -/
theorem admissibleKinds_of_sole {value : LiteralValue} {k : Kind} {exact : Bool}
    (sole : admissibleKinds exact value = [k]) (fits : k.admits true value = true) (exact' : Bool) :
    admissibleKinds exact' value = [k] := by
  have within : admissibleKinds true value = [k] := by
    calc
      admissibleKinds true value = (admissibleKinds exact value).filter (·.admits true value) := by
        rw [admissibleKinds, admissibleKinds, List.filter_filter]
        refine List.filter_congr fun k' _ => ?_
        cases fits' : k'.admits true value with
        | true => simp [Kind.admits_of_exact exact fits']
        | false => simp
      _ = [k] := by simp [sole, fits]
  cases exact' with
  | true => exact within
  | false => exact admissibleKinds_of_exact within

namespace Binary64

theorem binadeExponent_le {num den : Nat} {bound : Int} (least : -1074 ≤ bound)
    (small : (num.log2 : Int) - den.log2 - 52 ≤ bound) : binadeExponent num den ≤ bound := by
  have step : ∀ (p : Prop) [Decidable p] (guess : Int),
      (if p then guess + 1 else guess) ≤ guess + 1 := by
    intro p _ guess
    split <;> omega
  exact Int.max_le.mpr ⟨Int.le_trans (step _ _) (by omega), least⟩

/-- An integer far below the largest number is rounded to a finite one. -/
theorem ofInt_ne_infinite {value : Int} (small : value.natAbs ≤ Nat.pow 2 53) (negative : Bool) :
    ofInt value ≠ .infinite negative := by
  have size : value.natAbs.log2 ≤ 53 := by
    by_cases zero : value.natAbs = 0
    · simp [zero]
    · have below : value.natAbs < Nat.pow 2 54 := Nat.lt_of_le_of_lt small (by decide)
      exact Nat.le_of_lt_succ ((Nat.log2_lt (k := 54) zero).mpr below)
  have unit : Nat.log2 1 = 0 := by decide
  have low : binadeExponent value.natAbs 1 ≤ 1 := binadeExponent_le (by omega) (by omega)
  unfold ofInt ofRatio
  split
  next => simp
  next =>
    extract_lets exponent
    split
    extract_lets mantissa
    split
    next m e rounded =>
      have bound : e ≤ 2 := by split at rounded <;> cases rounded <;> omega
      rw [if_neg (by omega)]
      simp

end Binary64

theorem LiteralValue.toDouble_of_small {value : Int} (small : value.natAbs ≤ Nat.pow 2 53) :
    ∃ d, (LiteralValue.integer value).toDouble = .ok d := by
  unfold toDouble
  split
  next => exact ⟨_, rfl⟩
  next v eq =>
    cases eq
    split
    next negative infinite => exact absurd infinite (Binary64.ofInt_ne_infinite small negative)
    next => exact ⟨_, rfl⟩

/-- A value within the exact bounds of a kind has an operand of the kind's type. -/
theorem ValueType.operand_of_admits {k : Kind} {t : ValueType} {value : LiteralValue}
    (type : k.valueType? = some t) (fits : k.admits true value = true) :
    ∃ operand, t.operand value = .ok operand := by
  cases value with
  | double d =>
    cases k with
    | f32 | f64 =>
      cases type
      exact ⟨_, rfl⟩
    | _ => simp [Kind.admits, Kind.floatLimit?] at fits
  | integer v =>
    have finite : v.natAbs ≤ Nat.pow 2 53 → ∃ operand : String,
        (do return (← (LiteralValue.integer v).toDouble).hex : Except NumberError String) =
          .ok operand := by
      intro small
      obtain ⟨d, rounded⟩ := LiteralValue.toDouble_of_small small
      rw [rounded]
      exact ⟨_, rfl⟩
    cases k with
    | f32 =>
      cases type
      exact finite (Nat.le_trans (Kind.natAbs_le_of_admits rfl fits) (by decide))
    | f64 =>
      cases type
      exact finite (Nat.le_trans (Kind.natAbs_le_of_admits rfl fits) (Nat.sub_le _ _))
    | i8 | i16 | u8 | u16 => cases type
    | i32 | i64 | u32 | u64 =>
      cases type
      exact ⟨_, rfl⟩

end ConstFun
