import ConstFun.Proofs.Analyses
import ConstFun.Proofs.Lexemes
import ConstFun.Proofs.Parsing

namespace ConstFun

/-- The stream holds an end token. -/
def TokenStream.Ended (s : TokenStream) : Prop := ∃ t ∈ s.rest, t.kind = .eof

theorem TokenStream.Ended.cons {s : TokenStream} (ended : s.Ended) :
    ∃ a rest, s.rest = a :: rest := by
  obtain ⟨t, mem, _⟩ := ended
  exact List.exists_cons_of_ne_nil (List.ne_nil_of_mem mem)

namespace Parser

/-- Before an end token, a parser succeeds or refuses a token, and the end token stays. -/
def Decides {α : Type} (p : Parser α) : Prop :=
  ∀ s, s.Ended → (∃ a t, p s = .ok (a, t) ∧ t.Ended) ∨ ∃ e, p s = .error (.rejected e)

namespace Decides

variable {α β : Type}

theorem bind {p : Parser α} {f : α → Parser β} (first : Decides p) (second : ∀ a, Decides (f a)) :
    Decides (p >>= f) := by
  intro s ended
  rcases first s ended with ⟨a, t, ran, ended'⟩ | ⟨e, failed⟩
  · rw [bind_of_read ran]
    exact second a t ended'
  · refine .inr ⟨e, ?_⟩
    simp [Bind.bind, StateT.bind, failed, Except.bind]

theorem pure (a : α) : Decides (Pure.pure a) := fun s ended => .inl ⟨a, s, rfl, ended⟩

theorem map {p : Parser α} (g : α → β) (first : Decides p) : Decides (g <$> p) := by
  rw [map_eq_pure_bind]
  exact first.bind fun a => pure (g a)

theorem reject (problem : ParseProblem) (t : Token) :
    Decides (Parser.reject problem t : Parser α) :=
  fun _ _ => .inr ⟨⟨problem, t⟩, rfl⟩

theorem ite {c : Prop} [Decidable c] {p q : Parser α} (yes : Decides p) (no : Decides q) :
    Decides (if c then p else q) := by
  split
  next => exact yes
  next => exact no

end Decides

theorem peek_decides : Decides peek := by
  intro s ended
  obtain ⟨a, rest, starts⟩ := ended.cons
  refine .inl ⟨a, s, ?_, ended⟩
  simp [peek, starts]

theorem advance_decides : Decides advance := by
  intro s ended
  obtain ⟨a, rest, starts⟩ := ended.cons
  by_cases last : a.kind = .eof
  · exact .inl ⟨a, s, by simp [advance, starts, last], ended⟩
  · refine .inl ⟨a, ⟨some a, rest⟩, by simp [advance, starts, last], ?_⟩
    -- the end token is another one, so it is still there
    obtain ⟨t, mem, ends⟩ := ended
    rw [starts] at mem
    rcases List.mem_cons.mp mem with rfl | mem
    · exact absurd ends last
    · exact ⟨t, mem, ends⟩

theorem spanFrom_decides (start : Token) : Decides (spanFrom start) := by
  intro s ended
  obtain ⟨a, rest, starts⟩ := ended.cons
  unfold spanFrom
  cases s.previous with
  | none => exact .inl ⟨_, s, by simp only [starts]; rfl, ended⟩
  | some last => exact .inl ⟨_, s, rfl, ended⟩

theorem accept_decides (kind : TokenKind) : Decides (accept kind) :=
  peek_decides.bind fun _ => .ite (advance_decides.bind fun _ => .pure true) (.pure false)

theorem expect_decides (kind : TokenKind) (problem : ParseProblem) :
    Decides (expect kind problem) :=
  peek_decides.bind fun t => .ite advance_decides (.reject problem t)

theorem typeName_decides : Decides typeName := by
  refine peek_decides.bind fun start => (expect_decides _ _).bind fun t => ?_
  exact (spanFrom_decides start).bind fun span => .ite (.pure _) (.reject _ _)

theorem literal_decides : Decides literal := by
  refine peek_decides.bind fun start => .ite ?_ (.reject _ _)
  exact advance_decides.bind fun t => (spanFrom_decides start).bind fun span => .pure _

theorem parentheses_decides : Decides parentheses :=
  (accept_decides _).bind fun _ => .ite ((expect_decides _ _).map _) (.pure _)

theorem annotation_decides : Decides annotation :=
  (accept_decides _).bind fun _ => .ite (typeName_decides.map _) (.pure _)

theorem function_decides (exportAs : Option String) : Decides (function exportAs) := by
  refine peek_decides.bind fun start => ?_
  refine (expect_decides _ _).bind fun word => (expect_decides _ _).bind fun name => ?_
  refine parentheses_decides.bind fun _ => annotation_decides.bind fun returnType => ?_
  exact literal_decides.bind fun body => (spanFrom_decides start).bind fun span => .pure _

theorem aliasedFunction_decides : Decides aliasedFunction := by
  refine advance_decides.bind fun word => (expect_decides _ _).bind fun publicName => ?_
  exact peek_decides.bind fun following => .ite ((function_decides _).map _) (.reject _ _)

theorem aliasOf_decides (name : Token) : Decides (aliasOf name) :=
  (accept_decides _).bind fun _ => .ite (expect_decides _ _) (.pure _)

theorem exportedName_decides (start : Token) : Decides (exportedName start) := by
  refine advance_decides.bind fun name => (aliasOf_decides name).bind fun publicName => ?_
  exact (spanFrom_decides start).bind fun span => .pure _

theorem exportItem_decides : Decides exportItem := by
  refine peek_decides.bind fun start => (expect_decides _ _).bind fun word => ?_
  refine peek_decides.bind fun next => .ite ((function_decides _).map _) ?_
  exact .ite aliasedFunction_decides (.ite (exportedName_decides start) (.reject _ _))

theorem item_decides : Decides item := by
  refine peek_decides.bind fun t => .ite ((function_decides _).map _) ?_
  exact .ite exportItem_decides (.reject _ _)

/-- A stream with an end token is parsed up to it, or refused at a token. -/
theorem items_decides {s : TokenStream} (ended : s.Ended) :
    (∃ t, (items s).2 = .ok t) ∨ ∃ e, (items s).2 = .error (.rejected e) := by
  fun_induction items s with
  | case1 s none =>
    obtain ⟨a, rest, starts⟩ := ended.cons
    rw [none] at starts
    cases starts
  | case2 s t rest first last => exact .inl ⟨s, rfl⟩
  | case3 s t rest first more e failed =>
    rcases item_decides s ended with ⟨d, next, read, _⟩ | ⟨e', failed'⟩
    · rw [failed] at read
      cases read
    · rw [failed] at failed'
      cases failed'
      exact .inr ⟨e', rfl⟩
  | case4 s t rest first more d next read ds outcome tail ih =>
    rcases item_decides s ended with ⟨d', next', read', ended'⟩ | ⟨e, failed⟩
    · rw [read] at read'
      cases read'
      simpa only [tail] using ih ended'
    · rw [read] at failed
      cases failed

end Parser

theorem Literal.typed_ends (l : Literal) (s : Session) :
    Ends l.typed s (fun l' _ => ∃ h, l' = { l with type := some h })
      (fun e _ => literalValue l.text l.isDecimal = .error e) := by
  have inferred : Ends (Session.infer s.literals.length l) s (fun _ _ => True)
      (fun e _ => literalValue l.text l.isDecimal = .error e) := by
    unfold Ends
    rcases Session.infer_cases s.literals.length l s with ⟨known, _, _, ran⟩ | ⟨e, failed, ran⟩ |
      ⟨value, _, _, ran⟩
    · simp [ran]
    · simpa [ran] using failed
    · simp [ran]
  unfold Literal.typed Session.inferred Ends
  rw [bind_of_ok (get_run s)]
  refine Ends.bind (inferred.imp ?_ fun _ _ failed => failed)
  intro h t _
  exact ⟨h, rfl⟩

theorem FunctionDecl.typed_ends {f : FunctionDecl} {l : Literal} (body : f.body = .literal l)
    (s : Session) :
    Ends f.typed s (fun f' _ => f'.untyped = f.untyped)
      (fun e _ => literalValue l.text l.isDecimal = .error e) := by
  unfold FunctionDecl.typed
  rw [body]
  refine Ends.bind ((l.typed_ends s).imp ?_ fun _ _ failed => failed)
  rintro _ t ⟨h, rfl⟩
  have same : { f with body := .literal { l with type := some h } }.untyped = f.untyped := by
    simp [untyped, body]
  cases result : f.returnType <;> rw [result] at same <;> exact same

/-- Typing fails only for a text that is no number. -/
theorem Decl.typed_all_end {ds : List Decl} (written : ∀ f, .function f ∈ ds → f.Written)
    (s : Session) :
    Ends (ds.mapM Decl.typed) s (fun ds' _ => ds'.map Decl.untyped = ds.map Decl.untyped)
      (fun e _ => ∃ f l, .function f ∈ ds ∧ f.body = .literal l ∧
        literalValue l.text l.isDecimal = .error e) := by
  induction ds generalizing s with
  | nil => simp [Ends, pure, EStateM.pure]
  | cons d ds ih =>
    have first : Ends d.typed s (fun d' _ => d'.untyped = d.untyped)
        (fun e _ => ∃ f l, d = .function f ∧ f.body = .literal l ∧
          literalValue l.text l.isDecimal = .error e) := by
      cases d with
      | exportOf e => simp [Ends, typed, pure, EStateM.pure]
      | function f =>
        obtain ⟨⟨l, body, _⟩, _⟩ := written f (by simp)
        rw [typed, map_eq_pure_bind]
        refine Ends.bind ((FunctionDecl.typed_ends body s).imp ?_ ?_)
        · intro f' t same
          simp [Ends, untyped, same, pure, EStateM.pure]
        · exact fun e t failed => ⟨f, l, rfl, body, failed⟩
    rw [List.mapM_cons]
    refine Ends.bind (first.imp ?_ ?_)
    · intro d' t same
      refine Ends.bind ((ih (fun f mem => written f (by simp [mem])) t).imp ?_ ?_)
      · intro ds' u rest
        simp [Ends, same, rest, pure, EStateM.pure]
      · rintro e u ⟨f, l, mem, body, failed⟩
        exact ⟨f, l, by simp [mem], body, failed⟩
    · rintro e t ⟨f, l, rfl, body, failed⟩
      exact ⟨f, l, by simp, body, failed⟩

theorem derives_of_items {tokens : List Token} {ds : List Decl} {rest : TokenStream}
    (parsed : Parser.items { rest := tokens } = (ds, .ok rest)) :
    ∃ forms, Derives tokens forms ∧ ds.map Decl.bare = forms.map ItemForm.decl := by
  obtain ⟨forms, taken, last, rest, split, ends, terminals, decls⟩ := Parser.items_sound parsed
  refine ⟨forms, ?_, decls⟩
  have split : tokens = taken ++ last :: rest := split
  exact split ▸ Derives.of_split ends terminals

/-- Before any problem of grammar, a function's body is read from an overlong number. -/
def ReadsOverlong (tokens : List Token) : Prop :=
  ∃ f t, .function f ∈ (Parser.items { rest := tokens }).1 ∧ t ∈ tokens ∧ t.Overlong ∧
    f.body = .literal t.literal

theorem not_readsOverlong {tokens : List Token} (short : ∀ t ∈ tokens, ¬t.Overlong) :
    ¬ReadsOverlong tokens := by
  rintro ⟨f, t, _, mem, overlong, _⟩
  exact short t mem overlong

section Lexed

variable {text : String} {tokens : List Token} (lexed : tokenize text = .ok tokens)
include lexed

theorem ended_of_tokenize : TokenStream.Ended { rest := tokens } := by
  obtain ⟨body, last, rfl, ends, _⟩ := Cursor.tokens_spelled lexed
  exact ⟨last, by simp, ends⟩

theorem spelled_of_tokenize {t : Token} (mem : t ∈ tokens) : t.Spelled := by
  obtain ⟨body, last, rfl, ends, spelled⟩ := Cursor.tokens_spelled lexed
  rcases List.mem_append.mp mem with before | mem
  · exact (spelled t before).2
  · rw [List.mem_singleton.mp mem]
    exact ⟨by simp [ends], by simp [ends]⟩

theorem items_of_derives {forms : List ItemForm} (derives : Derives tokens forms) :
    ∃ ds rest, Parser.items { rest := tokens } = (ds, .ok rest) := by
  obtain ⟨body, last, rfl, ends, spelled⟩ := Cursor.tokens_spelled lexed
  have more : ∀ t ∈ body, decide (t.kind ≠ .eof) = true := fun t mem =>
    decide_eq_true (spelled t mem).1
  have before : (body ++ [last]).takeWhile (·.kind ≠ .eof) = body := by
    rw [List.takeWhile_append_of_pos more, List.takeWhile_cons_of_neg (by simp [ends]),
      List.append_nil]
  unfold Derives at derives
  rw [before] at derives
  exact Parser.items_complete derives ends none []

/-- Typing what is read fails only for an overlong number, and otherwise keeps the declarations. -/
theorem typed_items_end (s : Session) :
    Ends ((Parser.items { rest := tokens }).1.mapM Decl.typed) s
      (fun ds' _ => ds'.map Decl.untyped = (Parser.items { rest := tokens }).1.map Decl.untyped)
      (fun e _ =>
        ReadsOverlong tokens ∧ ∃ count, digitLimit < count ∧ e = .tooManyDigits count) := by
  refine (Decl.typed_all_end (fun f => Parser.items_written) s).imp (fun _ _ same => same) ?_
  rintro e t ⟨f, l, mem, body, failed⟩
  obtain ⟨n, here, number, body'⟩ := Parser.items_bodies mem
  have spelled := spelled_of_tokenize lexed here
  rw [body'] at body
  cases body
  by_cases overlong : n.Overlong
  · refine ⟨⟨f, n, mem, here, overlong, body'⟩, _, overlong.2.2, ?_⟩
    have both := (spelled.literalValue_of_overlong overlong).symm.trans failed
    exact (Except.error.inj both).symm
  · obtain ⟨value, read⟩ := spelled.exists_literalValue number overlong
    have both := read.symm.trans failed
    cases both

theorem typed_of_items (short : ¬ReadsOverlong tokens) (s : Session) :
    ∃ ds' t, (Parser.items { rest := tokens }).1.mapM Decl.typed s = .ok ds' t ∧
      ds'.map Decl.untyped = (Parser.items { rest := tokens }).1.map Decl.untyped := by
  have ends := typed_items_end lexed s
  unfold Ends at ends
  split at ends
  next ds' t ran => exact ⟨ds', t, ran, ends⟩
  next e t failed => exact absurd ends.1 short

end Lexed

/-- The tokens of a text are read as a program exactly if they derive from the grammar, they derive
in one way, and the program's declarations are those of the derivation. -/
theorem read_iff_derives {text : String} {tokens : List Token}
    (lexed : tokenize text = .ok tokens) (short : ∀ t ∈ tokens, ¬t.Overlong) (name : String)
    (filename : Option String) (s : Session) :
    ((∃ p rest t, Program.read name filename { rest := tokens } s = .ok (p, rest) t) ↔
        ∃ forms, Derives tokens forms) ∧
      (∀ forms forms', Derives tokens forms → Derives tokens forms' → forms = forms') ∧
      ∀ p rest t forms, Program.read name filename { rest := tokens } s = .ok (p, rest) t →
        Derives tokens forms → p.name = name ∧ p.decls.map Decl.bare = forms.map ItemForm.decl := by
  obtain ⟨ds', t, typed, same⟩ := typed_of_items lexed
    (fun ⟨_, t, _, mem, overlong, _⟩ => short t mem overlong) s
  refine ⟨⟨?_, ?_⟩, fun forms forms' => Derives.unique, ?_⟩
  · rintro ⟨p, rest, t, read⟩
    obtain ⟨ds, _, rest, _, parsed, _⟩ := Program.parsed_of_read read
    obtain ⟨forms, derives, _⟩ := derives_of_items parsed
    exact ⟨forms, derives⟩
  · rintro ⟨forms, derives⟩
    obtain ⟨ds, rest, parsed⟩ := items_of_derives lexed derives
    rw [parsed] at typed
    obtain ⟨span, read⟩ := Program.read_run parsed typed name filename
    exact ⟨_, rest, t, read⟩
  · intro p rest u forms read derives
    obtain ⟨ds, _, rest', _, parsed, _⟩ := Program.parsed_of_read read
    rw [parsed] at typed same
    obtain ⟨span, read'⟩ := Program.read_run parsed typed name filename
    rw [read'] at read
    cases read
    obtain ⟨forms', derives', decls⟩ := derives_of_items parsed
    obtain rfl := derives'.unique derives
    refine ⟨rfl, ?_⟩
    have bare := congrArg (List.map Decl.bare) same
    simp only [List.map_map, Function.comp_def, Decl.bare_untyped] at bare
    exact bare.trans decls

/-- An item of each form. -/
def eachForm : String :=
  "function f(): i64 7 export function g 2.5 export as h function k: u8 +3 export f as p export g"

def eachFormItems : List ItemForm :=
  [.function ⟨"f", true, some .i64, "7", false⟩, .exportFunction ⟨"g", false, none, "2.5", true⟩,
    .exportAs "h" ⟨"k", false, some .u8, "+3", false⟩, .exportName "f" (some "p"),
    .exportName "g" none]

theorem read_iff_derives_eachForm : ∃ tokens, tokenize eachForm = .ok tokens ∧
    (∀ t ∈ tokens, ¬t.Overlong) ∧ ∃ p rest t,
      Program.read "main" none { rest := tokens } (Session.new {}) = .ok (p, rest) t ∧
        p.decls.map Decl.bare = eachFormItems.map ItemForm.decl := by
  have checked : (tokenize eachForm).toOption.any (fun tokens =>
      decide (∀ t ∈ tokens, ¬t.Overlong) && decide (Derives tokens eachFormItems)) = true := by
    decide +kernel
  cases lexed : tokenize eachForm with
  | error e => simp [lexed, Except.toOption] at checked
  | ok tokens =>
    simp only [lexed, Except.toOption, Option.any_some, Bool.and_eq_true,
      decide_eq_true_eq] at checked
    obtain ⟨short, derives⟩ := checked
    obtain ⟨accepts, _, faithful⟩ := read_iff_derives lexed short "main" none (Session.new {})
    obtain ⟨p, rest, t, read⟩ := accepts.mpr ⟨eachFormItems, derives⟩
    exact ⟨tokens, rfl, short, p, rest, t, read, (faithful p rest t _ read derives).2⟩

end ConstFun
