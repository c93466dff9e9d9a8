import ConstFun.Diagnostic.Code
import ConstFun.Kind.Basic
import ConstFun.Program.Basic
import ConstFun.Token.Basic

namespace ConstFun

inductive ParseProblem where
  | unexpectedItem
  | expectedFunction
  | expectedName
  | expectedClosing
  | expectedType
  | invalidType
  | invalidExpression
  | expectedExport
  | expectedAlias
  | expectedFunctionAfterAlias (publicName : String)
  | expectedExportTarget
  deriving DecidableEq, Repr

/-- A problem at the token that cannot follow. -/
structure ParseError where
  problem : ParseProblem
  token : Token
  deriving DecidableEq, Repr

/-- A token list that runs out before its end token is no program text's. -/
inductive ParseFailure where
  | rejected (e : ParseError)
  | exhausted
  deriving DecidableEq, Repr

def ParseProblem.code : ParseProblem → Code
  | .unexpectedItem => ⟨.par, 10⟩
  | .expectedFunction => ⟨.par, 20⟩
  | .expectedName => ⟨.par, 21⟩
  | .expectedClosing => ⟨.par, 30⟩
  | .expectedType => ⟨.par, 31⟩
  | .invalidType => ⟨.par, 40⟩
  | .invalidExpression => ⟨.par, 50⟩
  | .expectedExport => ⟨.par, 60⟩
  | .expectedAlias => ⟨.par, 61⟩
  | .expectedFunctionAfterAlias _ => ⟨.par, 62⟩
  | .expectedExportTarget => ⟨.par, 63⟩

def ParseError.message (e : ParseError) : String :=
  let found := e.token.shown
  e.problem.code.tag <|
    match e.problem with
    | .unexpectedItem =>
      s!"unexpected token at top level: {found}, expected 'function' or 'export'"
    | .expectedFunction => s!"expected 'function', got {found} instead"
    | .expectedName => s!"expected function name, got {found} instead"
    | .expectedClosing => s!"expected ')' after '(', got {found} instead"
    | .expectedType => s!"expected type name after ':', got {found} instead"
    | .invalidType => s!"invalid type '{e.token.text}'"
    | .invalidExpression => s!"invalid expression: {found}"
    | .expectedExport => s!"expected 'export', got {found} instead"
    | .expectedAlias => s!"expected export name after 'as', got {found} instead"
    | .expectedFunctionAfterAlias publicName =>
      s!"expected 'function' after 'export as {publicName}', got {found} instead"
    | .expectedExportTarget =>
      s!"expected 'function', 'as' or a function name after 'export', got {found} instead"

/-- The tokens still to be read, and the last one taken. -/
structure TokenStream where
  previous : Option Token := none
  rest : List Token
  deriving DecidableEq, Repr

abbrev Parser := StateT TokenStream (Except ParseFailure)

namespace Parser

def reject {α : Type} (problem : ParseProblem) (t : Token) : Parser α :=
  throw (.rejected ⟨problem, t⟩)

def peek : Parser Token := fun s =>
  match s.rest with
  | t :: _ => .ok (t, s)
  | [] => .error .exhausted

/-- Takes a token; the end token stays. -/
def advance : Parser Token := fun s =>
  match s.rest with
  | t :: rest => if t.kind = .eof then .ok (t, s) else .ok (t, ⟨some t, rest⟩)
  | [] => .error .exhausted

/-- Takes a token of a kind if one stands here. -/
def accept (kind : TokenKind) : Parser Bool := do
  let t ← peek
  if t.kind = kind then
    let _ ← advance
    return true
  else return false

def expect (kind : TokenKind) (problem : ParseProblem) : Parser Token := do
  let t ← peek
  if t.kind = kind then advance else reject problem t

/-- The span from a token up to the last one taken, or over the first one if none was. -/
def spanFrom (start : Token) : Parser Span := fun s =>
  match s.previous <|> s.rest.head? with
  | some last => .ok (⟨start.line, start.column, last.line, last.column + last.text.length⟩, s)
  | none => .error .exhausted

def typeName : Parser TypeName := do
  let start ← peek
  let t ← expect .ident .expectedType
  let span ← spanFrom start
  if (Kind.ofSpelling? t.text).isSome then return ⟨t.text, some span⟩ else reject .invalidType t

def literal : Parser Literal := do
  let start ← peek
  if start.kind = .number then
    let t ← advance
    let span ← spanFrom start
    return ⟨t.text, t.isDecimal, none, some span⟩
  else reject .invalidExpression start

/-- `[ "(" ")" ]`. -/
def parentheses : Parser Unit := do
  if ← accept .lparen then discard (expect .rparen .expectedClosing) else return ()

/-- `[ ":" type ]`. -/
def annotation : Parser (Option TypeName) := do
  if ← accept .colon then some <$> typeName else return none

/-- `function name [ "(" ")" ] [ ":" type ] literal`. -/
def function (exportAs : Option String) : Parser FunctionDecl := do
  let start ← peek
  let _ ← expect .functionWord .expectedFunction
  let name ← expect .ident .expectedName
  parentheses
  let returnType ← annotation
  let body ← literal
  let span ← spanFrom start
  return ⟨name.text, returnType, .literal body, exportAs, some span⟩

/-- `as alias function ...`, after `export`. -/
def aliasedFunction : Parser Decl := do
  let _ ← advance
  let publicName ← expect .ident .expectedAlias
  let following ← peek
  if following.kind = .functionWord then .function <$> function (some publicName.text)
  else reject (.expectedFunctionAfterAlias publicName.text) following

/-- `[ "as" alias ]`; a name without an alias is its own. -/
def aliasOf (name : Token) : Parser Token := do
  if ← accept .asWord then expect .ident .expectedAlias else return name

/-- `name [ "as" alias ]`, after the `export` at `start`. -/
def exportedName (start : Token) : Parser Decl := do
  let name ← advance
  let publicName ← aliasOf name
  let span ← spanFrom start
  return .exportOf ⟨name.text, publicName.text, some span⟩

/-- An exported function without an alias is exported under its own name. -/
def exportItem : Parser Decl := do
  let start ← peek
  let _ ← expect .exportWord .expectedExport
  let next ← peek
  if next.kind = .functionWord then
    (fun f => .function { f with exportAs := some f.name }) <$> function none
  else if next.kind = .asWord then aliasedFunction
  else if next.kind = .ident then exportedName start
  else reject .expectedExportTarget next

def item : Parser Decl := do
  let t ← peek
  if t.kind = .functionWord then .function <$> function none
  else if t.kind = .exportWord then exportItem
  else reject .unexpectedItem t

/-- A parser that gives no tokens back. -/
def NeverGrows {α : Type} (p : Parser α) : Prop :=
  ∀ s a t, p s = .ok (a, t) → t.rest.length ≤ s.rest.length

/-- A parser that takes a token whenever it succeeds. -/
def Takes {α : Type} (p : Parser α) : Prop :=
  ∀ s a t, p s = .ok (a, t) → t.rest.length < s.rest.length

theorem Takes.neverGrows {α : Type} {p : Parser α} (takes : Takes p) : NeverGrows p :=
  fun s a t done => Nat.le_of_lt (takes s a t done)

theorem bind_eq_ok {α β : Type} {p : Parser α} {f : α → Parser β} {s u : TokenStream} {b : β}
    (done : (p >>= f) s = .ok (b, u)) : ∃ a t, p s = .ok (a, t) ∧ f a t = .ok (b, u) := by
  match first : p s with
  | .error e => simp [bind, StateT.bind, first, Except.bind] at done
  | .ok (a, t) => exact ⟨a, t, rfl, by simpa [bind, StateT.bind, first, Except.bind] using done⟩

theorem NeverGrows.bind {α β : Type} {p : Parser α} {f : α → Parser β} (first : NeverGrows p)
    (second : ∀ a, NeverGrows (f a)) : NeverGrows (p >>= f) := by
  intro s b u done
  obtain ⟨a, t, one, two⟩ := bind_eq_ok done
  exact Nat.le_trans (second a t b u two) (first s a t one)

theorem Takes.bind {α β : Type} {p : Parser α} {f : α → Parser β} (first : Takes p)
    (second : ∀ a, NeverGrows (f a)) : Takes (p >>= f) := by
  intro s b u done
  obtain ⟨a, t, one, two⟩ := bind_eq_ok done
  exact Nat.lt_of_le_of_lt (second a t b u two) (first s a t one)

theorem Takes.after {α β : Type} {p : Parser α} {f : α → Parser β} (first : NeverGrows p)
    (second : ∀ a, Takes (f a)) : Takes (p >>= f) := by
  intro s b u done
  obtain ⟨a, t, one, two⟩ := bind_eq_ok done
  exact Nat.lt_of_lt_of_le (second a t b u two) (first s a t one)

theorem pure_neverGrows {α : Type} (a : α) : NeverGrows (pure a) := by
  intro s b t done
  obtain ⟨-, rfl⟩ := Prod.mk.inj (Except.ok.inj done)
  exact Nat.le_refl _

theorem NeverGrows.map {α β : Type} {p : Parser α} (g : α → β) (first : NeverGrows p) :
    NeverGrows (g <$> p) := by
  rw [map_eq_pure_bind]
  exact first.bind fun a => pure_neverGrows (g a)

theorem Takes.map {α β : Type} {p : Parser α} (g : α → β) (first : Takes p) : Takes (g <$> p) := by
  rw [map_eq_pure_bind]
  exact first.bind fun a => pure_neverGrows (g a)

theorem reject_takes {α : Type} (problem : ParseProblem) (t : Token) :
    Takes (reject problem t : Parser α) := by
  intro s a u done
  cases done

theorem peek_neverGrows : NeverGrows peek := by
  intro s a t done
  unfold peek at done
  split at done
  next =>
    obtain ⟨-, rfl⟩ := Prod.mk.inj (Except.ok.inj done)
    exact Nat.le_refl _
  next => cases done

theorem advance_neverGrows : NeverGrows advance := by
  intro s a t done
  unfold advance at done
  split at done
  next tok rest same =>
    split at done <;> obtain ⟨-, rfl⟩ := Prod.mk.inj (Except.ok.inj done)
    next => exact Nat.le_refl _
    next => simp [same]
  next => cases done

theorem spanFrom_neverGrows (start : Token) : NeverGrows (spanFrom start) := by
  intro s a t done
  unfold spanFrom at done
  split at done
  next =>
    obtain ⟨-, rfl⟩ := Prod.mk.inj (Except.ok.inj done)
    exact Nat.le_refl _
  next => cases done

theorem expect_takes {kind : TokenKind} (problem : ParseProblem) (word : kind ≠ .eof) :
    Takes (expect kind problem) := by
  intro s a t done
  obtain ⟨first, u, looked, taken⟩ := bind_eq_ok done
  unfold peek at looked
  split at looked
  next tok rest same =>
    obtain ⟨rfl, rfl⟩ := Prod.mk.inj (Except.ok.inj looked)
    split at taken
    next found =>
      simp only [advance, same, found, word, if_false] at taken
      obtain ⟨-, rfl⟩ := Prod.mk.inj (Except.ok.inj taken)
      simp [same]
    next => cases taken
  next => cases looked

theorem accept_neverGrows (kind : TokenKind) : NeverGrows (accept kind) := by
  refine peek_neverGrows.bind fun t => ?_
  split
  next => exact advance_neverGrows.bind fun _ => pure_neverGrows _
  next => exact pure_neverGrows _

theorem typeName_neverGrows : NeverGrows typeName := by
  refine peek_neverGrows.bind fun start => ?_
  refine (expect_takes _ (by decide)).neverGrows.bind fun t => ?_
  refine (spanFrom_neverGrows start).bind fun span => ?_
  split
  next => exact pure_neverGrows _
  next => exact (reject_takes _ _).neverGrows

theorem literal_neverGrows : NeverGrows literal := by
  refine peek_neverGrows.bind fun start => ?_
  split
  next =>
    refine advance_neverGrows.bind fun t => ?_
    exact (spanFrom_neverGrows start).bind fun span => pure_neverGrows _
  next => exact (reject_takes _ _).neverGrows

theorem parentheses_neverGrows : NeverGrows parentheses := by
  refine (accept_neverGrows _).bind fun opened => ?_
  split
  next => exact (expect_takes _ (by decide)).neverGrows.map _
  next => exact pure_neverGrows _

theorem annotation_neverGrows : NeverGrows annotation := by
  refine (accept_neverGrows _).bind fun marked => ?_
  split
  next => exact typeName_neverGrows.map _
  next => exact pure_neverGrows _

theorem function_takes (exportAs : Option String) : Takes (function exportAs) := by
  refine .after peek_neverGrows fun start => ?_
  refine (expect_takes _ (by decide)).bind fun word => ?_
  refine (expect_takes _ (by decide)).neverGrows.bind fun name => ?_
  refine parentheses_neverGrows.bind fun _ => ?_
  refine annotation_neverGrows.bind fun returnType => ?_
  refine literal_neverGrows.bind fun body => ?_
  exact (spanFrom_neverGrows start).bind fun span => pure_neverGrows _

theorem aliasedFunction_neverGrows : NeverGrows aliasedFunction := by
  refine advance_neverGrows.bind fun word => ?_
  refine (expect_takes _ (by decide)).neverGrows.bind fun publicName => ?_
  refine peek_neverGrows.bind fun following => ?_
  split
  next => exact ((function_takes _).map _).neverGrows
  next => exact (reject_takes _ _).neverGrows

theorem aliasOf_neverGrows (name : Token) : NeverGrows (aliasOf name) := by
  refine (accept_neverGrows _).bind fun aliased => ?_
  split
  next => exact (expect_takes _ (by decide)).neverGrows
  next => exact pure_neverGrows _

theorem exportedName_neverGrows (start : Token) : NeverGrows (exportedName start) := by
  refine advance_neverGrows.bind fun name => ?_
  refine (aliasOf_neverGrows name).bind fun publicName => ?_
  exact (spanFrom_neverGrows start).bind fun span => pure_neverGrows _

theorem exportItem_takes : Takes exportItem := by
  refine .after peek_neverGrows fun start => ?_
  refine (expect_takes _ (by decide)).bind fun word => ?_
  refine peek_neverGrows.bind fun next => ?_
  split
  next => exact ((function_takes _).map _).neverGrows
  next =>
    split
    next => exact aliasedFunction_neverGrows
    next =>
      split
      next => exact exportedName_neverGrows start
      next => exact (reject_takes _ _).neverGrows

theorem item_takes : Takes item := by
  refine .after peek_neverGrows fun t => ?_
  split
  next => exact (function_takes _).map _
  next =>
    split
    next => exact exportItem_takes
    next => exact reject_takes _ _

/-- The declarations up to the end token, or up to the first failure. -/
def items (s : TokenStream) : List Decl × Except ParseFailure TokenStream :=
  match s.rest with
  | [] => ([], .error .exhausted)
  | t :: _ =>
    if t.kind = .eof then ([], .ok s)
    else
      match _read : item s with
      | .error e => ([], .error e)
      | .ok (d, next) =>
        let (ds, outcome) := items next
        (d :: ds, outcome)
termination_by s.rest.length
decreasing_by exact item_takes _ _ _ _read

end Parser

end ConstFun
