import ConstFun.Proofs.Declarations
import ConstFun.Token.Basic
import Mathlib.Tactic.Common

namespace ConstFun

/-- What the grammar sees of a token: a keyword or a sign, a name, or a number. -/
inductive Terminal where
  | word (kind : TokenKind)
  | name (text : String)
  | number (text : String) (isDecimal : Bool)
  deriving DecidableEq, Repr

namespace Token

def terminal (t : Token) : Terminal :=
  match t.kind with
  | .ident => .name t.text
  | .number => .number t.text t.isDecimal
  | kind => .word kind

/-- The place of a token. -/
def span (t : Token) : Span := ⟨t.line, t.column, t.line, t.column + t.text.length⟩

/-- The literal that a number is read as. -/
def literal (t : Token) : Literal := ⟨t.text, t.isDecimal, none, some t.span⟩

variable {t : Token}

theorem terminal_eq_word {kind : TokenKind} (word : kind ≠ .ident ∧ kind ≠ .number) :
    t.terminal = .word kind ↔ t.kind = kind := by
  unfold terminal
  split
  next h => simp [h, Ne.symm word.1]
  next h => simp [h, Ne.symm word.2]
  next => simp

theorem terminal_eq_name {text : String} :
    t.terminal = .name text ↔ t.kind = .ident ∧ t.text = text := by
  unfold terminal
  split
  next h => simp [h]
  next h => simp [h]
  next name _ => simp [show ¬t.kind = .ident from name]

theorem terminal_eq_number {text : String} {isDecimal : Bool} :
    t.terminal = .number text isDecimal ↔
      t.kind = .number ∧ t.text = text ∧ t.isDecimal = isDecimal := by
  unfold terminal
  split
  next h => simp [h]
  next h => simp [h]
  next _ number => simp [show ¬t.kind = .number from number]

end Token

/-- A derivation of `function name [ "(" ")" ] [ ":" type ] number`. -/
structure FunctionForm where
  name : String
  parentheses : Bool
  kind : Option Kind
  text : String
  isDecimal : Bool
  deriving DecidableEq, Repr

/-- A derivation of an item: a function, `export function ...`, `export as name function ...`, or
`export name [ "as" name ]`. -/
inductive ItemForm where
  | function (f : FunctionForm)
  | exportFunction (f : FunctionForm)
  | exportAs (publicName : String) (f : FunctionForm)
  | exportName (name : String) (publicName : Option String)
  deriving DecidableEq, Repr

def parenthesesTerminals (present : Bool) : List Terminal :=
  if present then [.word .lparen, .word .rparen] else []

def annotationTerminals (kind : Option Kind) : List Terminal :=
  kind.elim [] fun k => [.word .colon, .name k.spelling]

def aliasTerminals (publicName : Option String) : List Terminal :=
  publicName.elim [] fun text => [.word .asWord, .name text]

namespace FunctionForm

def terminals (f : FunctionForm) : List Terminal :=
  .word .functionWord :: .name f.name :: (parenthesesTerminals f.parentheses ++
    (annotationTerminals f.kind ++ [.number f.text f.isDecimal]))

/-- The function that the form declares, without places. -/
def decl (exportAs : Option String) (f : FunctionForm) : FunctionDecl :=
  { name := f.name
    returnType := f.kind.map (⟨·.spelling, none⟩)
    body := .literal ⟨f.text, f.isDecimal, none, none⟩
    exportAs }

end FunctionForm

namespace ItemForm

def terminals : ItemForm → List Terminal
  | .function f => f.terminals
  | .exportFunction f => .word .exportWord :: f.terminals
  | .exportAs publicName f =>
    .word .exportWord :: .word .asWord :: .name publicName :: f.terminals
  | .exportName name publicName => .word .exportWord :: .name name :: aliasTerminals publicName

/-- The declaration of an item, without places. An exported function without an alias is exported
under its own name. -/
def decl : ItemForm → Decl
  | .function f => .function (f.decl none)
  | .exportFunction f => .function (f.decl (some f.name))
  | .exportAs publicName f => .function (f.decl (some publicName))
  | .exportName name publicName => .exportOf ⟨name, publicName.getD name, none⟩

end ItemForm

/-- The tokens before the end derive from the forms. -/
def Derives (tokens : List Token) (forms : List ItemForm) : Prop :=
  (tokens.takeWhile (·.kind ≠ .eof)).map Token.terminal = forms.flatMap ItemForm.terminals

instance (tokens : List Token) (forms : List ItemForm) : Decidable (Derives tokens forms) :=
  inferInstanceAs (Decidable (_ = _))

theorem Kind.ofSpelling?_spelling (k : Kind) : ofSpelling? k.spelling = some k := by
  cases k <;> decide

theorem Kind.spelling_inj {k k' : Kind} : k.spelling = k'.spelling ↔ k = k' := by
  constructor
  · intro same
    have found := ofSpelling?_spelling k
    rw [same, ofSpelling?_spelling] at found
    exact (Option.some.inj found).symm
  · rintro rfl
    rfl

theorem Kind.spelling_of_ofSpelling? {name : String} {k : Kind}
    (found : ofSpelling? name = some k) : k.spelling = name := by
  simpa using List.find?_some found

theorem FunctionForm.terminals_append {f g : FunctionForm} {xs ys : List Terminal}
    (same : f.terminals ++ xs = g.terminals ++ ys) : f = g ∧ xs = ys := by
  obtain ⟨name, present, kind, text, isDecimal⟩ := f
  obtain ⟨name', present', kind', text', isDecimal'⟩ := g
  cases present <;> cases present' <;> cases kind <;> cases kind' <;>
    simp [terminals, parenthesesTerminals, annotationTerminals, Kind.spelling_inj] at same ⊢ <;>
    tauto

/-- What follows an item does not start with `as`. -/
def Separates (xs : List Terminal) : Prop := xs.head? ≠ some (.word .asWord)

namespace ItemForm

theorem terminals_append {i j : ItemForm} {xs ys : List Terminal} (left : Separates xs)
    (right : Separates ys) (same : i.terminals ++ xs = j.terminals ++ ys) : i = j ∧ xs = ys := by
  -- the first two terminals tell which of the four forms an item has
  cases i with
  | function f =>
    cases j with
    | function g => simpa using FunctionForm.terminals_append same
    | _ => simp [terminals, FunctionForm.terminals] at same
  | exportFunction f =>
    cases j with
    | exportFunction g =>
      simpa using FunctionForm.terminals_append (List.cons.inj same).2
    | _ => simp [terminals, FunctionForm.terminals] at same
  | exportAs publicName f =>
    cases j with
    | exportAs publicName' g =>
      simp only [terminals, List.cons_append, List.cons.injEq, Terminal.name.injEq,
        true_and] at same
      obtain ⟨rfl, same⟩ := same
      simpa using FunctionForm.terminals_append same
    | _ => simp [terminals, FunctionForm.terminals] at same
  | exportName name publicName =>
    cases j with
    | exportName name' publicName' =>
      unfold Separates at left right
      cases publicName <;> cases publicName' <;>
        simp [terminals, aliasTerminals] at same ⊢ <;> grind
    | _ => simp [terminals, FunctionForm.terminals] at same

/-- An item starts with `function` or `export`. -/
theorem terminals_cons (i : ItemForm) : ∃ kind rest, i.terminals = .word kind :: rest ∧
    (kind = .functionWord ∨ kind = .exportWord) := by
  cases i with
  | function f => exact ⟨.functionWord, _, rfl, .inl rfl⟩
  | exportFunction f => exact ⟨.exportWord, _, rfl, .inr rfl⟩
  | exportAs publicName f => exact ⟨.exportWord, _, rfl, .inr rfl⟩
  | exportName name publicName => exact ⟨.exportWord, _, rfl, .inr rfl⟩

theorem separates_flatMap (forms : List ItemForm) : Separates (forms.flatMap terminals) := by
  cases forms with
  | nil => simp [Separates]
  | cons i forms =>
    obtain ⟨kind, rest, starts, word⟩ := i.terminals_cons
    rcases word with rfl | rfl <;> simp [Separates, starts]

/-- Items need no separators: a list of terminals derives from one list of forms at most. -/
theorem flatMap_terminals_injective {forms forms' : List ItemForm}
    (same : forms.flatMap terminals = forms'.flatMap terminals) : forms = forms' := by
  induction forms generalizing forms' with
  | nil =>
    cases forms' with
    | nil => rfl
    | cons j forms' =>
      obtain ⟨kind, rest, starts, _⟩ := j.terminals_cons
      simp [starts] at same
  | cons i forms ih =>
    cases forms' with
    | nil =>
      obtain ⟨kind, rest, starts, _⟩ := i.terminals_cons
      simp [starts] at same
    | cons j forms' =>
      rw [List.flatMap_cons, List.flatMap_cons] at same
      obtain ⟨rfl, rest⟩ := terminals_append (separates_flatMap _) (separates_flatMap _) same
      rw [ih rest]

theorem not_eof_of_mem {i : ItemForm} {x : Terminal} (mem : x ∈ i.terminals) : x ≠ .word .eof := by
  rintro rfl
  have function (f : FunctionForm) : .word .eof ∉ f.terminals := by
    obtain ⟨name, present, kind, text, isDecimal⟩ := f
    cases present <;> cases kind <;>
      simp [FunctionForm.terminals, parenthesesTerminals, annotationTerminals]
  cases i with
  | exportName name publicName => cases publicName <;> simp [terminals, aliasTerminals] at mem
  | _ => simp [terminals, function] at mem

end ItemForm

/-- What stands before an end token and has the terminals of forms derives from them. -/
theorem Derives.of_split {taken rest : List Token} {last : Token} (ends : last.kind = .eof)
    {forms : List ItemForm}
    (terminals : taken.map Token.terminal = forms.flatMap ItemForm.terminals) :
    Derives (taken ++ last :: rest) forms := by
  have more : ∀ t ∈ taken, decide (t.kind ≠ .eof) = true := by
    intro t mem
    have here : t.terminal ∈ forms.flatMap ItemForm.terminals :=
      terminals ▸ List.mem_map_of_mem mem
    obtain ⟨i, _, here⟩ := List.mem_flatMap.mp here
    exact decide_eq_true fun eof =>
      ItemForm.not_eof_of_mem here ((Token.terminal_eq_word (by decide)).mpr eof)
  unfold Derives
  rw [List.takeWhile_append_of_pos more, List.takeWhile_cons_of_neg (by simp [ends]),
    List.append_nil, terminals]

theorem Derives.unique {tokens : List Token} {forms forms' : List ItemForm}
    (derives : Derives tokens forms) (other : Derives tokens forms') : forms = forms' :=
  ItemForm.flatMap_terminals_injective (derives.symm.trans other)

def Body.bare : Body → Body
  | .literal l => .literal ⟨l.text, l.isDecimal, none, none⟩
  | .other _ => .other none

def FunctionDecl.bare (f : FunctionDecl) : FunctionDecl :=
  { name := f.name
    returnType := f.returnType.map (⟨·.name, none⟩)
    body := f.body.bare
    exportAs := f.exportAs }

/-- A declaration's names, annotation, literal and alias alone. -/
def Decl.bare : Decl → Decl
  | .function f => .function f.bare
  | .exportOf e => .exportOf { e with span := none }

theorem Decl.bare_untyped (d : Decl) : d.untyped.bare = d.bare := by
  cases d with
  | exportOf e => rfl
  | function f =>
    simp only [untyped, bare, FunctionDecl.bare, FunctionDecl.untyped]
    cases body : f.body <;> simp [Body.bare, body]

end ConstFun
