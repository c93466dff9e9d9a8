import ConstFun.Proofs.Acceptance
import ConstFun.Proofs.Compilation
import ConstFun.Proofs.Rounding

namespace ConstFun

/-- The rational number that a numeral's text denotes. -/
def denotedValue (text : String) : ℚ :=
  let digits := (text.toList.filter Char.isDigit).map digitOf
  let places := ((text.toList.dropWhile (· ≠ '.')).drop 1).length
  let magnitude : Nat := Nat.ofDigits 10 digits.reverse
  signed (text.toList.head? = some '-') (magnitude / 10 ^ places)

namespace Numeral

variable {n : Numeral}

theorem head?_chars (n : Numeral) : decide (n.chars.head? = some '-') = n.negative := by
  obtain ⟨c, rest, starts, kind⟩ := n.body_starts
  have unsigned : c ≠ '-' := by
    rintro rfl
    revert kind
    decide
  unfold chars negative
  rcases n.sign_cases with sign | sign | sign <;> simp [sign, starts, unsigned]

theorem places (n : Numeral) :
    (n.chars.dropWhile (· ≠ '.')).drop 1 = n.fraction.getD [] := by
  have before : ∀ c ∈ n.sign ++ n.integral, decide (c ≠ '.') = true := fun c mem =>
    decide_eq_true (n.ne_point mem)
  unfold chars body
  rw [← List.append_assoc, List.dropWhile_append_of_pos before]
  cases n.fraction <;> simp

theorem denotedValue_text (n : Numeral) : denotedValue n.text =
    ConstFun.signed n.negative
      ((Nat.ofDigits 10 (n.digits.map digitOf).reverse : Nat) /
        10 ^ (n.fraction.getD []).length) := by
  unfold denotedValue text
  rw [String.toList_ofList, n.filter_isDigit, n.places, n.head?_chars]

/-- An integral value without a point is what the numeral denotes. -/
theorem literalValue_exact (whole : n.fraction = none) {v : ℤ}
    (read : literalValue n.text false = .ok (.integer v)) : (v : ℚ) = denotedValue n.text := by
  simp only [literalValue, Bool.false_eq_true, if_false, readInteger_text whole] at read
  split at read
  next => cases read
  next =>
    cases read
    rw [n.denotedValue_text, whole]
    unfold integer ConstFun.signed
    split_ifs <;> simp

/-- A numeral with a point is read as the number of 64 bits nearest to what it denotes. -/
theorem readDecimal_rounds {ds : List Char} (pointed : n.fraction = some ds) {sign : Bool} {m : Nat}
    {e : ℤ} (read : readDecimal n.text = .ok (.finite sign m e)) :
    RoundsTo (denotedValue n.text) (ConstFun.signed sign (m * 2 ^ e)) := by
  rw [readDecimal_text pointed] at read
  have each : ∀ d ∈ n.digits.map digitOf, d < 10 := by
    intro d mem
    obtain ⟨c, here, rfl⟩ := List.mem_map.mp mem
    exact digitOf_lt (n.isDigit_of_mem_digits here)
  obtain ⟨rfl, rounds⟩ := Binary64.ofDecimal_rounds each (Except.ok.inj read)
  rw [n.denotedValue_text, pointed]
  rw [numberOfDigits_eq, zpow_neg, zpow_natCast, ← div_eq_mul_inv] at rounds
  exact rounds

/-- An integral value with a point is what the numeral denotes, rounded. -/
theorem literalValue_rounds {ds : List Char} (pointed : n.fraction = some ds) {v : ℤ}
    (read : literalValue n.text true = .ok (.integer v)) : RoundsTo (denotedValue n.text) v := by
  simp only [literalValue, if_true] at read
  cases double : readDecimal n.text with
  | error e => simp [double, bind, Except.bind] at read
  | ok value =>
    cases integral : value.isIntegral with
    | false => simp [double, integral, bind, Except.bind, pure, Except.pure] at read
    | true =>
      obtain ⟨negative, m, e, whole, rfl, truncated, exact⟩ :=
        Binary64.truncate?_of_isIntegral integral
      simp only [double, integral, truncated, bind, Except.bind] at read
      cases read
      rw [exact]
      exact readDecimal_rounds pointed double

end Numeral

/-- The body of a function that parses is a numeral. -/
theorem Source.Parses.numeral {source : Source} {ds : List Decl} (parses : source.Parses ds)
    {f : FunctionDecl} (mem : .function f ∈ ds) :
    ∃ (l : Literal) (n : Numeral), f.body = .literal l ∧ l.text = n.text ∧
      l.isDecimal = n.fraction.isSome := by
  obtain ⟨tokens, rest, lexed, parsed⟩ := parses.parsed
  obtain ⟨t, here, number, body⟩ := Parser.items_bodies (s := { rest := tokens }) (by rwa [parsed])
  obtain ⟨n, text, decimal⟩ := (spelled_of_tokenize lexed here).number number
  exact ⟨t.literal, n, body, text, decimal⟩

/-- A function is lowered under its name and with its literal as the source; for an integer type
its value is integral, and is the operand. -/
theorem FunctionDecl.integer_of_constant? {f : FunctionDecl} {l : Literal} {kind : Option Kind}
    {c : Constant} (body : f.body = .literal l) (lowered : f.constant? kind = some c) :
    c.name = f.name ∧ c.source = l.text ∧ (c.type = .i32 ∨ c.type = .i64 →
      ∃ v : ℤ, literalValue l.text l.isDecimal = .ok (.integer v) ∧ c.operand = toString v) := by
  obtain ⟨l', value, k, body', read, rfl, fits, type, written, name, source⟩ :=
    lowered_of_constant? lowered
  rw [body, Body.literal.injEq] at body'
  subst body'
  refine ⟨name, source, fun integer => ?_⟩
  cases value with
  | double d =>
    -- the kinds of the integer types hold no doubles
    have none : k.floatLimit? = none := by
      generalize c.type = t at integer type
      rcases integer with rfl | rfl <;> revert type <;> cases k <;> decide
    simp [Kind.admits, none] at fits
  | integer v =>
    refine ⟨v, read, ?_⟩
    generalize c.type = t at integer written
    rcases integer with rfl | rfl <;> exact (Except.ok.inj written).symm

/-- A function that is compiled to an integer is compiled to the number that its literal denotes, if
the literal has no point. With a point it is compiled to the number of 64 bits nearest to that, of
two the even one, which is the number itself where that has 64 bits. -/
def FunctionDecl.CompiledNearest (f : FunctionDecl) (c : Constant) : Prop :=
  ∃ l, f.body = .literal l ∧ c.name = f.name ∧ c.source = l.text ∧
    (c.type = .i32 ∨ c.type = .i64 → ∃ v : ℤ, c.operand = toString v ∧
      ('.' ∉ l.text.toList → (v : ℚ) = denotedValue l.text) ∧
      ('.' ∈ l.text.toList → RoundsTo (denotedValue l.text) v) ∧
      (IsBinary64 (denotedValue l.text) → (v : ℚ) = denotedValue l.text))

namespace Source

/-- The functions of a source that compiles are written as constants of which the integers are the
numbers denoted, rounded to 64 bits where there is a point. -/
theorem integer_constants_nearest {source : Source} {c : Context} {text : String}
    (compiled : source.compile? c = some text) :
    ∃ ds cs, source.CompilesTo c.typing ds cs ∧ text = source.moduleText ds cs ∧
      List.Forall₂ FunctionDecl.CompiledNearest (source.program ds).functions cs := by
  obtain ⟨ds, cs, whole, rfl⟩ := CompilesTo.of_compile? compiled
  refine ⟨ds, cs, whole, rfl, ?_⟩
  have numerals : ∀ f ∈ (source.program ds).functions, ∃ (l : Literal) (n : Numeral),
      f.body = .literal l ∧ l.text = n.text ∧ l.isDecimal = n.fraction.isSome :=
    fun f mem => whole.parses.numeral (Program.mem_functions.mp mem)
  refine ((List.forall₂_and_left _ _).mpr ⟨numerals, whole.constants⟩).imp ?_
  rintro f c ⟨⟨l, n, body, text, decimal⟩, _, lowered⟩
  obtain ⟨name, written, integer⟩ := FunctionDecl.integer_of_constant? body lowered
  refine ⟨l, body, name, written, fun type => ?_⟩
  obtain ⟨v, read, operand⟩ := integer type
  have point : '.' ∈ l.text.toList ↔ n.fraction.isSome = true := by
    rw [text, Numeral.text, String.toList_ofList, ← n.contains_point, List.contains_iff_mem]
  rw [decimal, text] at read
  cases fraction : n.fraction with
  | none =>
    rw [fraction] at read point
    have exact := Numeral.literalValue_exact fraction read
    rw [← text] at exact
    exact ⟨v, operand, fun _ => exact, fun pointed => by simp [point] at pointed, fun _ => exact⟩
  | some ds =>
    rw [fraction] at read point
    have rounds := Numeral.literalValue_rounds fraction read
    rw [← text] at rounds
    exact ⟨v, operand, fun plain => absurd (point.mpr rfl) plain, fun _ => rounds,
      rounds.eq_of_isBinary64⟩

/-- An odd integer of 54 bits, with a point. -/
def oddDecimal : Source := { text := "function f: i64 9007199254740993.0" }

/-- The text denotes an integer, and its neighbour is written. -/
theorem integer_constant_inexact_oddDecimal :
    oddDecimal.compile? {} = some ("(module $main\n  (func $f (result i64)\n" ++
      "    ;; 9007199254740993.0\n    i64.const 9007199254740992\n  )\n)\n") ∧
    denotedValue "9007199254740993.0" = 9007199254740993 := by
  constructor <;> decide +kernel

/-- The function of `oddDecimal`. -/
def oddFunction : FunctionDecl :=
  { name := "f"
    returnType := some ⟨"i64", some ⟨1, 13, 1, 16⟩⟩
    body := .literal ⟨"9007199254740993.0", true, none, some ⟨1, 17, 1, 35⟩⟩
    span := some ⟨1, 1, 1, 35⟩ }

theorem integer_constants_nearest_oddDecimal : ∃ text ds, oddDecimal.compile? {} = some text ∧
    text = oddDecimal.moduleText ds [⟨"f", .i64, "9007199254740992", "9007199254740993.0"⟩] ∧
    ∃ v : ℤ, toString v = "9007199254740992" ∧
      RoundsTo (denotedValue "9007199254740993.0") v := by
  have some_text : (oddDecimal.compile? {}).isSome := by decide +kernel
  obtain ⟨text, compiled⟩ := Option.isSome_iff_exists.mp some_text
  have read : (tokenize oddDecimal.text).toOption.all (fun tokens =>
      decide ((Parser.items { rest := tokens }).1 = [.function oddFunction])) = true := by
    decide +kernel
  have lowered : oddFunction.constant? (oddFunction.resolvedKind? {}) =
      some ⟨"f", .i64, "9007199254740992", "9007199254740993.0"⟩ := by decide +kernel
  obtain ⟨ds, cs, whole, written, nearest⟩ := integer_constants_nearest compiled
  obtain ⟨rfl, rfl⟩ := whole.sole read lowered
  have nearest : List.Forall₂ FunctionDecl.CompiledNearest [oddFunction] _ := nearest
  obtain ⟨⟨l, body, _, _, integer⟩, _⟩ := List.forall₂_cons.mp nearest
  cases body
  obtain ⟨v, operand, _, rounds, _⟩ := integer (.inr rfl)
  exact ⟨text, _, compiled, written, v, operand.symm, rounds (by decide)⟩

end Source

end ConstFun
