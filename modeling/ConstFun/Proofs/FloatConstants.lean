import ConstFun.Proofs.IntegerConstants

namespace ConstFun

namespace Binary64

/-- The form in which a finite number is made: with 53 bits, or less at the least exponent. -/
structure Canonical (m : Nat) (e : ℤ) : Prop where
  small : m < 2 ^ 53
  least : -1074 ≤ e
  greatest : e ≤ 971
  wide : e = -1074 ∨ 2 ^ 52 ≤ m

namespace Canonical

variable {m m' : Nat} {e e' : ℤ}

theorem isBinary64 (canonical : Canonical m e) : IsBinary64 (m * 2 ^ e) := by
  refine ⟨m, e, ?_, canonical.least, canonical.greatest, rfl⟩
  rw [Nat.abs_cast]
  exact_mod_cast canonical.small

theorem exponent_le (canonical : Canonical m e) (canonical' : Canonical m' e')
    (same : (m : ℚ) * 2 ^ e = m' * 2 ^ e') : e' ≤ e := by
  by_contra lower
  obtain ⟨n, rfl⟩ : ∃ n : Nat, e' = e + n + 1 := ⟨(e' - e - 1).toNat, by omega⟩
  -- the greater exponent is not the least one, so its mantissa has 53 bits
  have wide : 2 ^ 52 ≤ m' := canonical'.wide.resolve_left (by have := canonical.least; omega)
  have unit : (2 : ℚ) ^ e ≠ 0 := (zpow_pos two_pos e).ne'
  have scaled : (m : ℚ) = (m' * 2 ^ n * 2 : Nat) := by
    rw [zpow_add_one₀ two_ne_zero, zpow_add₀ two_ne_zero, zpow_natCast] at same
    refine mul_right_cancel₀ unit ?_
    rw [same]
    push_cast
    ring
  have scaled : m = m' * 2 ^ n * 2 := by exact_mod_cast scaled
  have more : m' ≤ m' * 2 ^ n := Nat.le_mul_of_pos_right m' (Nat.two_pow_pos n)
  have small := canonical.small
  omega

/-- Different forms are of different numbers. -/
theorem unique (canonical : Canonical m e) (canonical' : Canonical m' e')
    (same : (m : ℚ) * 2 ^ e = m' * 2 ^ e') : m = m' ∧ e = e' := by
  obtain rfl : e = e' :=
    le_antisymm (canonical'.exponent_le canonical same.symm) (canonical.exponent_le canonical' same)
  have unit : (2 : ℚ) ^ e ≠ 0 := (zpow_pos two_pos e).ne'
  exact ⟨by exact_mod_cast mul_right_cancel₀ unit same, rfl⟩

end Canonical

theorem ofRatio_canonical {negative sign : Bool} {num den m : Nat} {e : ℤ} (positive : 0 < den)
    (finite : ofRatio negative num den = .finite sign m e) : Canonical m e := by
  by_cases none : num = 0
  · subst none
    cases finite
    exact ⟨by norm_num, le_rfl, by norm_num, .inl rfl⟩
  obtain ⟨least, -, wide⟩ := binade_bounds none positive
  obtain ⟨-, high, k, near, -, outcome⟩ := ofRatio_finite none positive finite
  rcases outcome with ⟨-, rfl, rfl⟩ | ⟨room, rfl, rfl⟩
  · exact ⟨by norm_num, by omega, high, .inr le_rfl⟩
  · refine ⟨room, least, high, wide.imp id fun wide => ?_⟩
    -- what is at most a half below an integer is rounded to that integer or more
    have above : ((2 ^ 52 : Nat) : ℚ) < m + 1 := by
      push_cast
      linarith [(abs_le.mp near).2]
    exact Nat.lt_succ_iff.mp (by exact_mod_cast above)

theorem ofDecimal_canonical {negative sign : Bool} {digits : List Nat} {scale e : ℤ} {m : Nat}
    (finite : ofDecimal negative digits scale = .finite sign m e) : Canonical m e := by
  unfold ofDecimal at finite
  extract_lets significant value places at finite
  split_ifs at finite with tiny huge up
  · exact ofRatio_canonical one_pos finite
  · exact ofRatio_canonical one_pos finite
  · exact ofRatio_canonical (Nat.pow_pos (by decide)) finite

theorem ofRatio_ne_nan (negative : Bool) (num den : Nat) : ofRatio negative num den ≠ .nan := by
  unfold ofRatio
  split
  next => simp
  next =>
    extract_lets exponent
    split
    extract_lets mantissa
    split
    split <;> simp

/-- An integer that is a number in its form is rounded to this number; a zero has no minus. -/
theorem ofInt_of_canonical {negative : Bool} {m : Nat} {e whole : ℤ} (canonical : Canonical m e)
    (value : (whole : ℚ) = signed negative (m * 2 ^ e)) (small : whole.natAbs ≤ Nat.pow 2 53) :
    ofInt whole = .finite (negative && decide (m ≠ 0)) m e := by
  have unit : (0 : ℚ) < 2 ^ e := zpow_pos two_pos e
  have size : (whole.natAbs : ℚ) = m * 2 ^ e := by
    rw [Nat.cast_natAbs, Int.cast_abs, value]
    cases negative <;> simp [signed, abs_of_pos unit]
  cases rounded : ofInt whole with
  | infinite sign => exact absurd rounded (ofInt_ne_infinite small sign)
  | nan => exact absurd rounded (ofRatio_ne_nan _ _ _)
  | finite sign m' e' =>
    obtain ⟨rfl, rounds⟩ := ofRatio_rounds one_pos rounded
    have representable : IsBinary64 (signed (decide (whole < 0)) (whole.natAbs / (1 : Nat))) := by
      rw [Nat.cast_one, div_one, size]
      cases decide (whole < 0) with
      | false => exact canonical.isBinary64
      | true => exact canonical.isBinary64.neg
    have same := rounds.eq_of_isBinary64 representable
    have same : (m' : ℚ) * 2 ^ e' = m * 2 ^ e := by
      rw [Nat.cast_one, div_one, size] at same
      cases sign : decide (whole < 0) <;> simpa [signed, sign] using same
    obtain ⟨rfl, rfl⟩ := (ofRatio_canonical one_pos rounded).unique canonical same
    have sign : decide (whole < 0) = (negative && decide (m' ≠ 0)) := by
      have below : whole < 0 ↔ (whole : ℚ) < 0 := by exact_mod_cast Iff.rfl
      rw [Bool.eq_iff_iff, Bool.and_eq_true, decide_eq_true_eq, decide_eq_true_eq, below, value]
      cases negative with
      | false => simp [signed, unit.le, mul_nonneg]
      | true => simp [signed, unit, Nat.pos_iff_ne_zero]
    rw [sign]

/-- The zero with a minus. -/
def negativeZero : Binary64 := .finite true 0 (-1074)

/-- The exact spelling of a number, but that a zero has no minus. -/
def unsignedZeroHex (d : Binary64) : String :=
  if d = negativeZero then hex (.finite false 0 (-1074)) else d.hex

theorem unsignedZeroHex_of_canonical {negative : Bool} {m : Nat} {e : ℤ}
    (canonical : Canonical m e) :
    unsignedZeroHex (.finite negative m e) = hex (.finite (negative && decide (m ≠ 0)) m e) := by
  unfold unsignedZeroHex negativeZero
  split
  next zero =>
    cases zero
    rfl
  next other =>
    cases negative with
    | false => rfl
    | true =>
      have some_bit : m ≠ 0 := by
        rintro rfl
        have least : e = -1074 := canonical.wide.resolve_right (by norm_num)
        exact other (by rw [least])
      simp [some_bit]

theorem ne_zero_of_not_isIntegral {negative : Bool} {m : Nat} {e : ℤ}
    (fractional : isIntegral (.finite negative m e) = false) : m ≠ 0 := by
  rintro rfl
  simp [isIntegral] at fractional

end Binary64

/-- The kinds of the float types hold integers up to 53 bits. -/
theorem Kind.floatLimit_of_float {k : Kind} {t : ValueType} (type : k.valueType? = some t)
    (float : t = .f32 ∨ t = .f64) : ∃ limit ≤ Nat.pow 2 53, k.floatLimit? = some limit := by
  rcases float with rfl | rfl <;> cases k <;> simp [Kind.valueType?] at type
  · exact ⟨Nat.pow 2 24, by decide, rfl⟩
  · exact ⟨Nat.pow 2 53 - 1, by decide, rfl⟩

theorem ValueType.operand_of_float {t : ValueType} (float : t = .f32 ∨ t = .f64)
    {value : LiteralValue} {d : Binary64} (double : value.toDouble = .ok d) :
    t.operand value = .ok d.hex := by
  rcases float with rfl | rfl <;> simp only [operand, double] <;> rfl

/-- A numeral with a point is written as a float by the exact spelling of the number that it is read
as, without the minus of a zero. -/
theorem Numeral.operand_of_float {n : Numeral} {ds : List Char} (pointed : n.fraction = some ds)
    {value : LiteralValue} (read : literalValue n.text true = .ok value) {k : Kind} {t : ValueType}
    (type : k.valueType? = some t) (float : t = .f32 ∨ t = .f64)
    (fits : k.admits true value = true) :
    ∃ negative m e, readDecimal n.text = .ok (.finite negative m e) ∧
      t.operand value = .ok (Binary64.unsignedZeroHex (.finite negative m e)) := by
  obtain ⟨limit, small, bounded⟩ := Kind.floatLimit_of_float type float
  have double := readDecimal_text pointed
  simp only [literalValue, if_true, double] at read
  generalize made : Binary64.ofDecimal _ _ _ = d at read double
  cases integral : d.isIntegral with
  | true =>
    -- the integer is rounded back to the number that it came from
    obtain ⟨negative, m, e, whole, rfl, truncated, exact⟩ :=
      Binary64.truncate?_of_isIntegral integral
    have canonical := Binary64.ofDecimal_canonical made
    simp only [integral, truncated, bind, Except.bind] at read
    cases read
    have back := Binary64.ofInt_of_canonical canonical exact
      ((Kind.natAbs_le_of_admits bounded fits).trans small)
    refine ⟨negative, m, e, double, ?_⟩
    rw [Binary64.unsignedZeroHex_of_canonical canonical]
    refine ValueType.operand_of_float float ?_
    simp only [LiteralValue.toDouble, back]
  | false =>
    simp only [integral, bind, Except.bind] at read
    cases read
    cases d with
    | infinite negative => simp [Kind.admits, bounded, Binary64.within] at fits
    | nan => simp [Kind.admits, bounded, Binary64.within] at fits
    | finite negative m e =>
      refine ⟨negative, m, e, double, ?_⟩
      rw [Binary64.unsignedZeroHex_of_canonical (Binary64.ofDecimal_canonical made),
        decide_eq_true (Binary64.ne_zero_of_not_isIntegral integral), Bool.and_true]
      exact ValueType.operand_of_float float rfl

/-- The double is finite, and the one nearest to a number. -/
def Binary64.Nearest (q : ℚ) (d : Binary64) : Prop :=
  ∃ negative m e, d = .finite negative m e ∧ RoundsTo q (signed negative (m * 2 ^ e))

/-- A function whose literal has a point, if it is compiled to a float, is compiled to the double
nearest to what the literal denotes. The double is spelled exactly, but a zero without its minus. -/
def FunctionDecl.SpelledExactly (f : FunctionDecl) (c : Constant) : Prop :=
  ∃ l, f.body = .literal l ∧ c.name = f.name ∧ c.source = l.text ∧
    (c.type = .f32 ∨ c.type = .f64 → '.' ∈ l.text.toList →
      ∃ d, readDecimal l.text = .ok d ∧ d.Nearest (denotedValue l.text) ∧
        (d ≠ .negativeZero → c.operand = d.hex) ∧
        (d = .negativeZero → c.operand = "0x0.0p+0"))

namespace Source

/-- The functions of a source that compiles are written as constants, of which the floats are
spelled exactly where the literal has a point and is not read as the negative zero. -/
theorem float_constants_exact {source : Source} {c : Context} {text : String}
    (compiled : source.compile? c = some text) :
    ∃ ds cs, source.CompilesTo c.typing ds cs ∧ text = source.moduleText ds cs ∧
      List.Forall₂ FunctionDecl.SpelledExactly (source.program ds).functions cs := by
  obtain ⟨ds, cs, whole, rfl⟩ := CompilesTo.of_compile? compiled
  refine ⟨ds, cs, whole, rfl, ?_⟩
  have numerals : ∀ f ∈ (source.program ds).functions, ∃ (l : Literal) (n : Numeral),
      f.body = .literal l ∧ l.text = n.text ∧ l.isDecimal = n.fraction.isSome :=
    fun f mem => whole.parses.numeral (Program.mem_functions.mp mem)
  refine ((List.forall₂_and_left _ _).mpr ⟨numerals, whole.constants⟩).imp ?_
  rintro f c ⟨⟨l, n, body, text, decimal⟩, _, lowered⟩
  obtain ⟨l', value, k, body', read, -, fits, type, written, name, spelled⟩ :=
    FunctionDecl.lowered_of_constant? lowered
  rw [body, Body.literal.injEq] at body'
  subst body'
  refine ⟨l, body, name, spelled, fun float point => ?_⟩
  rw [text, Numeral.text, String.toList_ofList, ← List.contains_iff_mem, n.contains_point] at point
  obtain ⟨digits, pointed⟩ := Option.isSome_iff_exists.mp point
  rw [decimal, text, pointed] at read
  obtain ⟨negative, m, e, double, operand⟩ := n.operand_of_float pointed read type float fits
  rw [text]
  refine ⟨_, double, ⟨negative, m, e, rfl, n.readDecimal_rounds pointed double⟩, ?_⟩
  rw [Except.ok.inj (written.symm.trans operand), Binary64.unsignedZeroHex]
  exact ⟨fun other => if_neg other, fun zero => if_pos zero⟩

/-- The negative zero. -/
def minusZero : Source := { text := "function f: f64 -0.0" }

/-- The text is read as the negative zero, and the positive one is written. -/
theorem float_constant_unsigned_minusZero :
    minusZero.compile? {} = some ("(module $main\n  (func $f (result f64)\n" ++
      "    ;; -0.0\n    f64.const 0x0.0p+0\n  )\n)\n") ∧
    (readDecimal "-0.0").toOption.map Binary64.hex = some "-0x0.0p+0" := by
  constructor <;> decide +kernel

/-- A negative integer with a point. -/
def minusTwo : Source := { text := "function f: f64 -2.0" }

/-- The function of `minusTwo`. -/
def minusTwoFunction : FunctionDecl :=
  { name := "f"
    returnType := some ⟨"f64", some ⟨1, 13, 1, 16⟩⟩
    body := .literal ⟨"-2.0", true, none, some ⟨1, 17, 1, 21⟩⟩
    span := some ⟨1, 1, 1, 21⟩ }

theorem float_constants_exact_minusTwo : ∃ text ds, minusTwo.compile? {} = some text ∧
    text = minusTwo.moduleText ds [⟨"f", .f64, "-0x1.0000000000000p+1", "-2.0"⟩] ∧
    ∃ d, readDecimal "-2.0" = .ok d ∧ d.Nearest (denotedValue "-2.0") ∧
      d.hex = "-0x1.0000000000000p+1" := by
  have some_text : (minusTwo.compile? {}).isSome := by decide +kernel
  obtain ⟨text, compiled⟩ := Option.isSome_iff_exists.mp some_text
  obtain ⟨ds, cs, whole, written, exact⟩ := float_constants_exact compiled
  obtain ⟨rfl, rfl⟩ := whole.sole (f := minusTwoFunction)
    (c := ⟨"f", .f64, "-0x1.0000000000000p+1", "-2.0"⟩) (by decide +kernel) (by decide +kernel)
  have exact : List.Forall₂ FunctionDecl.SpelledExactly [minusTwoFunction] _ := exact
  obtain ⟨⟨l, body, -, -, float⟩, -⟩ := List.forall₂_cons.mp exact
  cases body
  obtain ⟨d, read, nearest, spelled, zero⟩ := float (.inr rfl) (by decide)
  have other : d ≠ .negativeZero := fun same => absurd (zero same) (by decide)
  exact ⟨text, _, compiled, written, d, read, nearest, (spelled other).symm⟩

end Source

end ConstFun
