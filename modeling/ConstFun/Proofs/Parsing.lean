import ConstFun.Proofs.Grammar

namespace ConstFun

namespace Parser

variable {α β : Type} {s t : TokenStream} {previous : Option Token} {a : Token} {rest : List Token}
  {kind : TokenKind} {problem : ParseProblem}

theorem bind_of_read {p : Parser α} {f : α → Parser β} {x : α} (first : p s = .ok (x, t)) :
    (p >>= f) s = f x t := by
  simp [bind, StateT.bind, first, Except.bind]

theorem bind_of_failed {p : Parser α} {f : α → Parser β} {e : ParseFailure}
    (failed : p s = .error e) : (p >>= f) s = .error e := by
  simp [bind, StateT.bind, failed, Except.bind]

theorem map_eq_ok {p : Parser α} {g : α → β} {b : β} (done : (g <$> p) s = .ok (b, t)) :
    ∃ x, p s = .ok (x, t) ∧ b = g x := by
  rw [map_eq_pure_bind] at done
  obtain ⟨x, u, first, last⟩ := bind_eq_ok done
  obtain ⟨rfl, rfl⟩ := Prod.mk.inj (Except.ok.inj last)
  exact ⟨x, first, rfl⟩

theorem map_of_read {p : Parser α} {g : α → β} {x : α} (done : p s = .ok (x, t)) :
    (g <$> p) s = .ok (g x, t) := by
  rw [map_eq_pure_bind, bind_of_read done]
  rfl

theorem peek_eq_ok (done : peek s = .ok (a, t)) : s = t ∧ ∃ rest, s.rest = a :: rest := by
  unfold peek at done
  split at done
  next b rest same =>
    obtain ⟨rfl, rfl⟩ := Prod.mk.inj (Except.ok.inj done)
    exact ⟨rfl, rest, same⟩
  next => cases done

theorem advance_eq_ok (done : advance s = .ok (a, t)) (more : a.kind ≠ .eof) :
    ∃ rest, s.rest = a :: rest ∧ t = ⟨some a, rest⟩ := by
  unfold advance at done
  split at done
  next b rest same =>
    split at done
    next last =>
      obtain ⟨rfl, -⟩ := Prod.mk.inj (Except.ok.inj done)
      exact absurd last more
    next =>
      obtain ⟨rfl, rfl⟩ := Prod.mk.inj (Except.ok.inj done)
      exact ⟨rest, same, rfl⟩
  next => cases done

theorem expect_eq_ok (word : kind ≠ .eof) (done : expect kind problem s = .ok (a, t)) :
    ∃ rest, s.rest = a :: rest ∧ a.kind = kind ∧ t = ⟨some a, rest⟩ := by
  obtain ⟨b, u, looked, took⟩ := bind_eq_ok done
  obtain ⟨rfl, rest, starts⟩ := peek_eq_ok looked
  split at took
  next found =>
    have same : a = b := by
      unfold advance at took
      rw [starts] at took
      dsimp only at took
      split at took <;> exact (Prod.mk.inj (Except.ok.inj took)).1.symm
    subst same
    obtain ⟨rest', starts', rfl⟩ := advance_eq_ok took (found ▸ word)
    exact ⟨rest', starts', found, rfl⟩
  next => cases took

theorem accept_eq_ok (word : kind ≠ .eof) {found : Bool} (done : accept kind s = .ok (found, t)) :
    (found = true ∧ ∃ a rest, s.rest = a :: rest ∧ a.kind = kind ∧ t = ⟨some a, rest⟩) ∨
      found = false ∧ s = t := by
  obtain ⟨a, u, looked, took⟩ := bind_eq_ok done
  obtain ⟨rfl, rest, starts⟩ := peek_eq_ok looked
  split at took
  next same =>
    obtain ⟨b, u, moved, last⟩ := bind_eq_ok took
    obtain ⟨rfl, rfl⟩ := Prod.mk.inj (Except.ok.inj last)
    have more : a.kind ≠ .eof := same ▸ word
    simp only [advance, starts, more, if_false, Except.ok.injEq, Prod.mk.injEq] at moved
    obtain ⟨rfl, rfl⟩ := moved
    exact .inl ⟨rfl, a, rest, starts, same, rfl⟩
  next =>
    obtain ⟨rfl, rfl⟩ := Prod.mk.inj (Except.ok.inj took)
    exact .inr ⟨rfl, rfl⟩

theorem spanFrom_eq_ok {start : Token} {span : Span} (done : spanFrom start s = .ok (span, t)) :
    s = t := by
  unfold spanFrom at done
  split at done
  next => exact (Prod.mk.inj (Except.ok.inj done)).2
  next => cases done

theorem parentheses_sound (done : parentheses s = .ok ((), t)) : ∃ present taken,
    s.rest = taken ++ t.rest ∧ taken.map Token.terminal = parenthesesTerminals present := by
  obtain ⟨present, u, opened, closed⟩ := bind_eq_ok done
  rcases accept_eq_ok (by decide) opened with ⟨rfl, l, rest, starts, left, rfl⟩ | ⟨rfl, rfl⟩
  · obtain ⟨r, took, _⟩ := map_eq_ok closed
    obtain ⟨rest', next, right, rfl⟩ := expect_eq_ok (by decide) took
    refine ⟨true, [l, r], by simp_all, ?_⟩
    simp [parenthesesTerminals, (Token.terminal_eq_word (by decide)).mpr left,
      (Token.terminal_eq_word (by decide)).mpr right]
  · obtain ⟨-, rfl⟩ := Prod.mk.inj (Except.ok.inj closed)
    exact ⟨false, [], rfl, rfl⟩

theorem typeName_sound {type : TypeName} (done : typeName s = .ok (type, t)) : ∃ n, ∃ k : Kind,
    s.rest = n :: t.rest ∧ n.terminal = .name k.spelling ∧ type.name = k.spelling := by
  obtain ⟨start, u, looked, done⟩ := bind_eq_ok done
  obtain ⟨rfl, _⟩ := peek_eq_ok looked
  obtain ⟨n, u, took, done⟩ := bind_eq_ok done
  obtain ⟨rest, starts, name, rfl⟩ := expect_eq_ok (by decide) took
  obtain ⟨span, u, placed, done⟩ := bind_eq_ok done
  obtain rfl := spanFrom_eq_ok placed
  split at done
  next known =>
    obtain ⟨k, found⟩ := Option.isSome_iff_exists.mp known
    obtain ⟨rfl, rfl⟩ := Prod.mk.inj (Except.ok.inj done)
    have spelled := Kind.spelling_of_ofSpelling? found
    exact ⟨n, k, starts, Token.terminal_eq_name.mpr ⟨name, spelled.symm⟩, spelled.symm⟩
  next => cases done

theorem annotation_sound {type : Option TypeName} (done : annotation s = .ok (type, t)) :
    ∃ kind taken, s.rest = taken ++ t.rest ∧ taken.map Token.terminal = annotationTerminals kind ∧
      type.map (·.name) = kind.map Kind.spelling := by
  obtain ⟨marked, u, colon, done⟩ := bind_eq_ok done
  rcases accept_eq_ok (by decide) colon with ⟨rfl, c, rest, starts, mark, rfl⟩ | ⟨rfl, rfl⟩
  · obtain ⟨type', read, rfl⟩ := map_eq_ok done
    obtain ⟨n, k, next, name, spelled⟩ := typeName_sound read
    refine ⟨some k, [c, n], by simp_all, ?_, by simp [spelled]⟩
    simp [annotationTerminals, (Token.terminal_eq_word (by decide)).mpr mark, name]
  · obtain ⟨rfl, rfl⟩ := Prod.mk.inj (Except.ok.inj done)
    exact ⟨none, [], rfl, rfl, rfl⟩

theorem literal_sound {l : Literal} (done : literal s = .ok (l, t)) :
    ∃ n, s.rest = n :: t.rest ∧ n.kind = .number ∧ l = n.literal := by
  obtain ⟨start, u, looked, done⟩ := bind_eq_ok done
  obtain ⟨rfl, rest, starts⟩ := peek_eq_ok looked
  split at done
  next number =>
    have more : start.kind ≠ .eof := by simp [number]
    obtain ⟨n, v, took, done⟩ := bind_eq_ok done
    simp only [advance, starts, more, if_false, Except.ok.injEq, Prod.mk.injEq] at took
    obtain ⟨rfl, rfl⟩ := took
    obtain ⟨span, w, placed, done⟩ := bind_eq_ok done
    obtain ⟨rfl, rfl⟩ := Prod.mk.inj (Except.ok.inj placed)
    obtain ⟨rfl, rfl⟩ := Prod.mk.inj (Except.ok.inj done)
    exact ⟨start, starts, number, rfl⟩
  next => cases done

/-- The tokens are those of the form, and the function says what the form says; its body is one of
the tokens. -/
structure ReadAs (exportAs : Option String) (form : FunctionForm) (taken : List Token)
    (f : FunctionDecl) : Prop where
  terminals : taken.map Token.terminal = form.terminals
  decl : f.bare = form.decl exportAs
  body : ∃ n ∈ taken, n.kind = .number ∧ f.body = .literal n.literal

theorem function_sound {exportAs : Option String} {f : FunctionDecl}
    (done : function exportAs s = .ok (f, t)) :
    ∃ form taken, s.rest = taken ++ t.rest ∧ ReadAs exportAs form taken f := by
  obtain ⟨start, u, looked, done⟩ := bind_eq_ok done
  obtain ⟨rfl, _⟩ := peek_eq_ok looked
  obtain ⟨word, u, took, done⟩ := bind_eq_ok done
  obtain ⟨rest, first, function, rfl⟩ := expect_eq_ok (by decide) took
  obtain ⟨name, u, took, done⟩ := bind_eq_ok done
  obtain ⟨rest', second, named, rfl⟩ := expect_eq_ok (by decide) took
  obtain ⟨_, u, took, done⟩ := bind_eq_ok done
  obtain ⟨present, parens, third, parenthesised⟩ := parentheses_sound took
  obtain ⟨type, u, took, done⟩ := bind_eq_ok done
  obtain ⟨kind, marks, fourth, annotated, typed⟩ := annotation_sound took
  obtain ⟨l, u, took, done⟩ := bind_eq_ok done
  obtain ⟨n, fifth, number, rfl⟩ := literal_sound took
  obtain ⟨span, u, placed, done⟩ := bind_eq_ok done
  obtain rfl := spanFrom_eq_ok placed
  obtain ⟨rfl, rfl⟩ := Prod.mk.inj (Except.ok.inj done)
  refine ⟨⟨name.text, present, kind, n.text, n.isDecimal⟩,
    word :: name :: (parens ++ (marks ++ [n])), by simp_all, ⟨?_, ?_, n, by simp, number, rfl⟩⟩
  · simp [FunctionForm.terminals, (Token.terminal_eq_word (by decide)).mpr function,
      Token.terminal_eq_name.mpr ⟨named, rfl⟩, parenthesised, annotated,
      Token.terminal_eq_number.mpr ⟨number, rfl, rfl⟩]
  · have annotation : type.map (fun t => (⟨t.name, none⟩ : TypeName)) =
        kind.map (fun k => ⟨k.spelling, none⟩) := by
      have names := congrArg (Option.map fun name => (⟨name, none⟩ : TypeName)) typed
      simpa [Option.map_map, Function.comp_def] using names
    simp [FunctionDecl.bare, FunctionForm.decl, annotation, Body.bare, Token.literal]

/-- The tokens are those of the form, and the declaration says what the form says; a function's
body is one of the tokens. -/
structure ItemReadAs (form : ItemForm) (taken : List Token) (d : Decl) : Prop where
  terminals : taken.map Token.terminal = form.terminals
  decl : d.bare = form.decl
  body : ∀ f, d = .function f → ∃ n ∈ taken, n.kind = .number ∧ f.body = .literal n.literal

theorem aliasOf_sound {name publicName : Token} (done : aliasOf name s = .ok (publicName, t)) :
    ∃ text taken, s.rest = taken ++ t.rest ∧ taken.map Token.terminal = aliasTerminals text ∧
      publicName.text = text.getD name.text := by
  obtain ⟨aliased, u, word, done⟩ := bind_eq_ok done
  rcases accept_eq_ok (by decide) word with ⟨rfl, w, rest, starts, mark, rfl⟩ | ⟨rfl, rfl⟩
  · obtain ⟨rest', next, named, rfl⟩ := expect_eq_ok (by decide) done
    refine ⟨some publicName.text, [w, publicName], by simp_all, ?_, rfl⟩
    simp [aliasTerminals, (Token.terminal_eq_word (by decide)).mpr mark,
      Token.terminal_eq_name.mpr ⟨named, rfl⟩]
  · obtain ⟨rfl, rfl⟩ := Prod.mk.inj (Except.ok.inj done)
    exact ⟨none, [], rfl, rfl, rfl⟩

theorem ReadAs.exported {form : FunctionForm} {taken : List Token} {f : FunctionDecl}
    (readAs : ReadAs none form taken f) :
    ReadAs (some form.name) form taken { f with exportAs := some f.name } := by
  have name : f.name = form.name := congrArg FunctionDecl.name readAs.decl
  refine ⟨readAs.terminals, ?_, readAs.body⟩
  have same := congrArg (fun g : FunctionDecl => { g with exportAs := some form.name }) readAs.decl
  rw [name]
  simpa [FunctionDecl.bare, FunctionForm.decl, name] using same

/-- An item is read as its function is, with what stands before it. -/
theorem ReadAs.item {exportAs : Option String} {form : FunctionForm} {taken : List Token}
    {f : FunctionDecl} (readAs : ReadAs exportAs form taken f) {before : List Token} {i : ItemForm}
    (terminals : i.terminals = before.map Token.terminal ++ form.terminals)
    (decl : i.decl = .function (form.decl exportAs)) :
    ItemReadAs i (before ++ taken) (.function f) := by
  refine ⟨by rw [terminals, List.map_append, readAs.terminals], ?_, ?_⟩
  · rw [decl, ← readAs.decl]
    rfl
  intro g eq
  cases eq
  obtain ⟨n, mem, number, body⟩ := readAs.body
  exact ⟨n, List.mem_append_right before mem, number, body⟩

theorem aliasedFunction_sound {word : Token} (starts : s.rest = word :: rest)
    (kind : word.kind = .asWord) {d : Decl} (done : aliasedFunction s = .ok (d, t)) :
    ∃ publicName form f taken, s.rest = word :: publicName :: taken ++ t.rest ∧
      publicName.kind = .ident ∧ d = .function f ∧
      ReadAs (some publicName.text) form taken f := by
  have more : word.kind ≠ .eof := by simp [kind]
  obtain ⟨w, u, took, done⟩ := bind_eq_ok done
  simp only [advance, starts, more, if_false, Except.ok.injEq, Prod.mk.injEq] at took
  obtain ⟨rfl, rfl⟩ := took
  obtain ⟨publicName, u, took, done⟩ := bind_eq_ok done
  obtain ⟨rest', next, named, rfl⟩ := expect_eq_ok (by decide) took
  obtain ⟨following, u, looked, done⟩ := bind_eq_ok done
  obtain ⟨rfl, _⟩ := peek_eq_ok looked
  split at done
  next =>
    obtain ⟨f, read, rfl⟩ := map_eq_ok done
    obtain ⟨form, taken, split, readAs⟩ := function_sound read
    exact ⟨publicName, form, f, taken, by simp_all, named, rfl, readAs⟩
  next => cases done

theorem exportedName_sound {start name : Token} (starts : s.rest = name :: rest)
    (kind : name.kind = .ident) {d : Decl} (done : exportedName start s = .ok (d, t)) :
    ∃ text taken span, s.rest = name :: taken ++ t.rest ∧
      taken.map Token.terminal = aliasTerminals text ∧
      d = .exportOf ⟨name.text, text.getD name.text, span⟩ := by
  have more : name.kind ≠ .eof := by simp [kind]
  obtain ⟨n, u, took, done⟩ := bind_eq_ok done
  simp only [advance, starts, more, if_false, Except.ok.injEq, Prod.mk.injEq] at took
  obtain ⟨rfl, rfl⟩ := took
  obtain ⟨publicName, u, took, done⟩ := bind_eq_ok done
  obtain ⟨text, taken, split, terminals, same⟩ := aliasOf_sound took
  obtain ⟨span, u, placed, done⟩ := bind_eq_ok done
  obtain rfl := spanFrom_eq_ok placed
  obtain ⟨rfl, rfl⟩ := Prod.mk.inj (Except.ok.inj done)
  exact ⟨text, taken, some span, by simp_all, terminals, by rw [same]⟩

theorem exportItem_sound {d : Decl} (done : exportItem s = .ok (d, t)) :
    ∃ form taken, s.rest = taken ++ t.rest ∧ ItemReadAs form taken d := by
  obtain ⟨start, u, looked, done⟩ := bind_eq_ok done
  obtain ⟨rfl, _⟩ := peek_eq_ok looked
  obtain ⟨word, u, took, done⟩ := bind_eq_ok done
  obtain ⟨rest, first, exported, rfl⟩ := expect_eq_ok (by decide) took
  have word' := (Token.terminal_eq_word (by decide)).mpr exported
  obtain ⟨next, u, looked, done⟩ := bind_eq_ok done
  obtain ⟨rfl, rest', starts⟩ := peek_eq_ok looked
  split at done
  next =>
    obtain ⟨f, read, rfl⟩ := map_eq_ok done
    obtain ⟨form, taken, split, readAs⟩ := function_sound read
    refine ⟨.exportFunction form, [word] ++ taken, first.trans (congrArg (word :: ·) split),
      readAs.exported.item ?_ rfl⟩
    simp [ItemForm.terminals, word']
  next =>
    split at done
    next as =>
      obtain ⟨publicName, form, f, taken, split, named, rfl, readAs⟩ :=
        aliasedFunction_sound starts as done
      refine ⟨.exportAs publicName.text form, [word, next, publicName] ++ taken,
        first.trans (congrArg (word :: ·) split), readAs.item ?_ rfl⟩
      simp [ItemForm.terminals, word', (Token.terminal_eq_word (by decide)).mpr as,
        Token.terminal_eq_name.mpr ⟨named, rfl⟩]
    next =>
      split at done
      next named =>
        obtain ⟨text, taken, span, split, terminals, rfl⟩ := exportedName_sound starts named done
        refine ⟨.exportName next.text text, word :: next :: taken,
          first.trans (congrArg (word :: ·) split), ⟨?_, rfl, fun f eq => by cases eq⟩⟩
        simp [ItemForm.terminals, word', Token.terminal_eq_name.mpr ⟨named, rfl⟩, terminals]
      next => cases done

/-- An item takes the tokens of a form, and declares what the form says. -/
theorem item_sound {d : Decl} (done : item s = .ok (d, t)) :
    ∃ form taken, s.rest = taken ++ t.rest ∧ ItemReadAs form taken d := by
  obtain ⟨start, u, looked, done⟩ := bind_eq_ok done
  obtain ⟨rfl, _⟩ := peek_eq_ok looked
  split at done
  next =>
    obtain ⟨f, read, rfl⟩ := map_eq_ok done
    obtain ⟨form, taken, split, readAs⟩ := function_sound read
    exact ⟨.function form, [] ++ taken, split, readAs.item rfl rfl⟩
  next =>
    split at done
    next => exact exportItem_sound done
    next => cases done

theorem items_sound {ds : List Decl} (done : items s = (ds, .ok t)) :
    ∃ (forms : List ItemForm) (taken : List Token) (last : Token) (rest : List Token),
      s.rest = taken ++ last :: rest ∧ last.kind = .eof ∧
      taken.map Token.terminal = forms.flatMap ItemForm.terminals ∧
      ds.map Decl.bare = forms.map ItemForm.decl := by
  fun_induction items s generalizing ds with
  | case1 | case3 => cases done
  | case2 s last rest first ends =>
    cases done
    exact ⟨[], [], last, rest, first, ends, rfl, rfl⟩
  | case4 s a rest first more d next read ds' outcome tail ih =>
    cases done
    obtain ⟨form, taken, split, readAs⟩ := item_sound read
    obtain ⟨forms, taken', last, rest', split', ends, terminals, decls⟩ := ih tail
    refine ⟨form :: forms, taken ++ taken', last, rest', ?_, ends, ?_, ?_⟩
    · rw [split, split', List.append_assoc]
    · simp [readAs.terminals, terminals]
    · simp [readAs.decl, decls]

/-- The bodies of the functions that were read are numbers among the tokens, also if a problem was
met after them. -/
theorem items_bodies {f : FunctionDecl} (mem : .function f ∈ (items s).1) :
    ∃ n ∈ s.rest, n.kind = .number ∧ f.body = .literal n.literal := by
  fun_induction items s with
  | case1 | case2 | case3 => cases mem
  | case4 s a rest first more d next read ds outcome tail ih =>
    obtain ⟨form, taken, split, readAs⟩ := item_sound read
    rcases List.mem_cons.mp mem with eq | mem
    · obtain ⟨n, here, number, body⟩ := readAs.body f eq.symm
      exact ⟨n, by simp [split, here], number, body⟩
    · obtain ⟨n, here, number, body⟩ := ih (by simpa [tail] using mem)
      exact ⟨n, by simp [split, here], number, body⟩

theorem peek_run : peek ⟨previous, a :: rest⟩ = .ok (a, ⟨previous, a :: rest⟩) := rfl

theorem advance_run (more : a.kind ≠ .eof) :
    advance ⟨previous, a :: rest⟩ = .ok (a, ⟨some a, rest⟩) := by
  simp [advance, more]

theorem expect_run (word : kind ≠ .eof) (found : a.kind = kind) :
    expect kind problem ⟨previous, a :: rest⟩ = .ok (a, ⟨some a, rest⟩) := by
  unfold expect
  rw [bind_of_read peek_run, if_pos found, advance_run (found ▸ word)]

theorem accept_run (word : kind ≠ .eof) (found : a.kind = kind) :
    accept kind ⟨previous, a :: rest⟩ = .ok (true, ⟨some a, rest⟩) := by
  unfold accept
  rw [bind_of_read peek_run, if_pos found, bind_of_read (advance_run (found ▸ word))]
  rfl

theorem accept_skip (other : a.kind ≠ kind) :
    accept kind ⟨previous, a :: rest⟩ = .ok (false, ⟨previous, a :: rest⟩) := by
  unfold accept
  rw [bind_of_read peek_run, if_neg other]
  rfl

theorem spanFrom_run (start last : Token) (rest : List Token) :
    ∃ span, spanFrom start ⟨some last, rest⟩ = .ok (span, ⟨some last, rest⟩) :=
  ⟨_, rfl⟩

theorem parentheses_complete {present : Bool} {taken : List Token}
    (terminals : taken.map Token.terminal = parenthesesTerminals present)
    (other : a.kind ≠ .lparen) (previous : Option Token) (rest : List Token) :
    ∃ last, parentheses ⟨previous, taken ++ a :: rest⟩ = .ok ((), ⟨last, a :: rest⟩) := by
  unfold parentheses
  cases present with
  | false =>
    obtain rfl := List.map_eq_nil_iff.mp terminals
    rw [List.nil_append, bind_of_read (accept_skip other)]
    exact ⟨previous, rfl⟩
  | true =>
    obtain ⟨l, _, rfl, left, terminals⟩ := List.map_eq_cons_iff.mp terminals
    obtain ⟨r, _, rfl, right, terminals⟩ := List.map_eq_cons_iff.mp terminals
    obtain rfl := List.map_eq_nil_iff.mp terminals
    rw [Token.terminal_eq_word (by decide)] at left right
    rw [List.cons_append, bind_of_read (accept_run (by decide) left), if_pos rfl]
    exact ⟨some r, map_of_read (expect_run (by decide) right)⟩

theorem typeName_complete {n : Token} {k : Kind} (named : n.terminal = .name k.spelling)
    (previous : Option Token) (rest : List Token) :
    ∃ type, typeName ⟨previous, n :: rest⟩ = .ok (type, ⟨some n, rest⟩) := by
  obtain ⟨kind, spelled⟩ := Token.terminal_eq_name.mp named
  obtain ⟨span, placed⟩ := spanFrom_run n n rest
  refine ⟨⟨n.text, some span⟩, ?_⟩
  unfold typeName
  rw [bind_of_read peek_run, bind_of_read (expect_run (by decide) kind), bind_of_read placed,
    spelled, Kind.ofSpelling?_spelling]
  rfl

/-- A name is a type's if it spells a kind. -/
theorem typeName_run (previous : Option Token) (n : Token) (rest : List Token) :
    typeName ⟨previous, n :: rest⟩ =
      if n.kind = .ident then
        if (Kind.ofSpelling? n.text).isSome then
          .ok (⟨n.text, some n.span⟩, ⟨some n, rest⟩)
        else .error (.rejected ⟨.invalidType, n⟩)
      else .error (.rejected ⟨.expectedType, n⟩) := by
  unfold typeName
  rw [bind_of_read peek_run]
  by_cases name : n.kind = .ident
  · have placed : spanFrom n ⟨some n, rest⟩ = .ok (n.span, ⟨some n, rest⟩) := rfl
    rw [bind_of_read (expect_run (by decide) name), bind_of_read placed, if_pos name]
    by_cases known : (Kind.ofSpelling? n.text).isSome
    · rw [if_pos known, if_pos known]
      rfl
    · rw [if_neg known, if_neg known]
      rfl
  · rw [if_neg name]
    refine bind_of_failed ?_
    unfold expect
    rw [bind_of_read peek_run, if_neg name]
    rfl

theorem annotation_complete {kind : Option Kind} {taken : List Token}
    (terminals : taken.map Token.terminal = annotationTerminals kind)
    (other : a.kind ≠ .colon) (previous : Option Token) (rest : List Token) :
    ∃ type last, annotation ⟨previous, taken ++ a :: rest⟩ = .ok (type, ⟨last, a :: rest⟩) := by
  unfold annotation
  cases kind with
  | none =>
    obtain rfl := List.map_eq_nil_iff.mp terminals
    rw [List.nil_append, bind_of_read (accept_skip other)]
    exact ⟨none, previous, rfl⟩
  | some k =>
    obtain ⟨c, _, rfl, mark, terminals⟩ := List.map_eq_cons_iff.mp terminals
    obtain ⟨n, _, rfl, named, terminals⟩ := List.map_eq_cons_iff.mp terminals
    obtain rfl := List.map_eq_nil_iff.mp terminals
    rw [Token.terminal_eq_word (by decide)] at mark
    obtain ⟨type, read⟩ := typeName_complete named (some c) (a :: rest)
    rw [List.cons_append, bind_of_read (accept_run (by decide) mark), if_pos rfl]
    exact ⟨some type, some n, map_of_read read⟩

theorem literal_complete (number : a.kind = .number) :
    literal ⟨previous, a :: rest⟩ = .ok (a.literal, ⟨some a, rest⟩) := by
  unfold literal
  rw [bind_of_read peek_run, if_pos number, bind_of_read (advance_run (by simp [number]))]
  rfl

theorem function_complete {form : FunctionForm} {taken : List Token}
    (terminals : taken.map Token.terminal = form.terminals) (exportAs : Option String)
    (previous : Option Token) (rest : List Token) :
    ∃ f last, function exportAs ⟨previous, taken ++ rest⟩ = .ok (f, ⟨some last, rest⟩) := by
  obtain ⟨w, _, rfl, word, terminals⟩ := List.map_eq_cons_iff.mp terminals
  obtain ⟨name, _, rfl, named, terminals⟩ := List.map_eq_cons_iff.mp terminals
  obtain ⟨parens, _, rfl, parenthesised, terminals⟩ := List.map_eq_append_iff.mp terminals
  obtain ⟨marks, _, rfl, annotated, terminals⟩ := List.map_eq_append_iff.mp terminals
  obtain ⟨n, _, rfl, number, terminals⟩ := List.map_eq_cons_iff.mp terminals
  obtain rfl := List.map_eq_nil_iff.mp terminals
  rw [Token.terminal_eq_word (by decide)] at word
  obtain ⟨number, -⟩ := Token.terminal_eq_number.mp number
  obtain ⟨named, -⟩ := Token.terminal_eq_name.mp named
  -- an annotation starts with a colon and a number is a number, so neither opens parentheses
  obtain ⟨b, more, after, other⟩ : ∃ b more, marks ++ n :: rest = b :: more ∧ b.kind ≠ .lparen := by
    cases kind : form.kind with
    | none =>
      obtain rfl := List.map_eq_nil_iff.mp (kind ▸ annotated)
      exact ⟨n, rest, rfl, by simp [number]⟩
    | some k =>
      rw [kind] at annotated
      obtain ⟨c, cs, rfl, mark, -⟩ := List.map_eq_cons_iff.mp annotated
      rw [Token.terminal_eq_word (by decide)] at mark
      exact ⟨c, cs ++ n :: rest, rfl, by simp [mark]⟩
  obtain ⟨last, closed⟩ := parentheses_complete parenthesised other (some name) more
  obtain ⟨type, last', typed⟩ :=
    annotation_complete (a := n) annotated (by simp [number]) last rest
  obtain ⟨span, placed⟩ := spanFrom_run w n rest
  have split : w :: name :: (parens ++ (marks ++ [n])) ++ rest =
      w :: name :: (parens ++ b :: more) := by simp [← after]
  refine ⟨⟨name.text, type, .literal n.literal, exportAs, some span⟩, n, ?_⟩
  rw [split]
  unfold function
  rw [bind_of_read peek_run, bind_of_read (expect_run (by decide) word),
    bind_of_read (expect_run (by decide) named), bind_of_read closed, ← after, bind_of_read typed,
    bind_of_read (literal_complete number), bind_of_read placed]
  rfl

theorem aliasOf_complete {text : Option String} {taken : List Token}
    (terminals : taken.map Token.terminal = aliasTerminals text) (other : a.kind ≠ .asWord)
    (name : Token) (rest : List Token) : ∃ publicName last,
      aliasOf name ⟨some name, taken ++ a :: rest⟩ = .ok (publicName, ⟨some last, a :: rest⟩) := by
  unfold aliasOf
  cases text with
  | none =>
    obtain rfl := List.map_eq_nil_iff.mp terminals
    rw [List.nil_append, bind_of_read (accept_skip other)]
    exact ⟨name, name, rfl⟩
  | some text =>
    obtain ⟨w, _, rfl, word, terminals⟩ := List.map_eq_cons_iff.mp terminals
    obtain ⟨n, _, rfl, named, terminals⟩ := List.map_eq_cons_iff.mp terminals
    obtain rfl := List.map_eq_nil_iff.mp terminals
    rw [Token.terminal_eq_word (by decide)] at word
    obtain ⟨named, -⟩ := Token.terminal_eq_name.mp named
    rw [List.cons_append, bind_of_read (accept_run (by decide) word), if_pos rfl]
    exact ⟨n, n, expect_run (by decide) named⟩

/-- A function starts with its keyword. -/
theorem starts_function {form : FunctionForm} {taken : List Token}
    (terminals : taken.map Token.terminal = form.terminals) (rest : List Token) :
    ∃ w more, taken ++ rest = w :: more ∧ w.kind = .functionWord := by
  obtain ⟨w, more, rfl, word, -⟩ := List.map_eq_cons_iff.mp terminals
  exact ⟨w, more ++ rest, rfl, (Token.terminal_eq_word (by decide)).mp word⟩

theorem exportItem_complete {form : ItemForm} {taken : List Token} {w : Token}
    (terminals : form.terminals = .word .exportWord :: taken.map Token.terminal)
    (word : w.kind = .exportWord) (other : a.kind ≠ .asWord) (previous : Option Token)
    (rest : List Token) :
    ∃ d last,
      exportItem ⟨previous, w :: (taken ++ a :: rest)⟩ = .ok (d, ⟨some last, a :: rest⟩) := by
  unfold exportItem
  rw [bind_of_read peek_run, bind_of_read (expect_run (by decide) word)]
  cases form with
  | function f => simp [ItemForm.terminals, FunctionForm.terminals] at terminals
  | exportFunction f =>
    have terminals := (List.cons.inj terminals).2.symm
    obtain ⟨f', last, read⟩ := function_complete terminals none (some w) (a :: rest)
    obtain ⟨next, more, split, function⟩ := starts_function terminals (a :: rest)
    refine ⟨.function { f' with exportAs := some f'.name }, last, ?_⟩
    rw [split] at read ⊢
    rw [bind_of_read peek_run, if_pos function, map_of_read read]
  | exportAs publicName f =>
    obtain ⟨as, _, rfl, kind, terminals⟩ := List.map_eq_cons_iff.mp (List.cons.inj terminals).2.symm
    obtain ⟨n, taken, rfl, named, terminals⟩ := List.map_eq_cons_iff.mp terminals
    rw [Token.terminal_eq_word (by decide)] at kind
    obtain ⟨named, -⟩ := Token.terminal_eq_name.mp named
    obtain ⟨f', last, read⟩ := function_complete terminals (some n.text) (some n) (a :: rest)
    obtain ⟨next, more, split, function⟩ := starts_function terminals (a :: rest)
    refine ⟨.function f', last, ?_⟩
    rw [List.cons_append, List.cons_append, bind_of_read peek_run, if_neg (by simp [kind]),
      if_pos kind]
    unfold aliasedFunction
    rw [bind_of_read (advance_run (by simp [kind])), bind_of_read (expect_run (by decide) named)]
    rw [split] at read ⊢
    rw [bind_of_read peek_run, if_pos function, map_of_read read]
  | exportName name publicName =>
    obtain ⟨n, taken, rfl, named, terminals⟩ :=
      List.map_eq_cons_iff.mp (List.cons.inj terminals).2.symm
    obtain ⟨named, -⟩ := Token.terminal_eq_name.mp named
    obtain ⟨publicName', last, read⟩ := aliasOf_complete terminals other n rest
    obtain ⟨span, placed⟩ := spanFrom_run w last (a :: rest)
    refine ⟨.exportOf ⟨n.text, publicName'.text, some span⟩, last, ?_⟩
    rw [List.cons_append, bind_of_read peek_run, if_neg (by simp [named]),
      if_neg (by simp [named]), if_pos named]
    unfold exportedName
    rw [bind_of_read (advance_run (by simp [named])), bind_of_read read, bind_of_read placed]
    rfl

/-- The tokens of a form are read as an item, before a token that is not `as`. -/
theorem item_complete {form : ItemForm} {taken : List Token}
    (terminals : taken.map Token.terminal = form.terminals) (other : a.kind ≠ .asWord)
    (previous : Option Token) (rest : List Token) :
    ∃ d last, item ⟨previous, taken ++ a :: rest⟩ = .ok (d, ⟨some last, a :: rest⟩) := by
  unfold item
  obtain ⟨kind, _, starts, which⟩ := form.terminals_cons
  rcases which with rfl | rfl
  · cases form with
    | function f =>
      obtain ⟨f', last, read⟩ := function_complete terminals none previous (a :: rest)
      obtain ⟨next, more, split, function⟩ := starts_function terminals (a :: rest)
      refine ⟨.function f', last, ?_⟩
      rw [split] at read ⊢
      rw [bind_of_read peek_run, if_pos function, map_of_read read]
    | _ => simp [ItemForm.terminals] at starts
  · rw [starts] at terminals
    obtain ⟨w, taken, rfl, word, terminals⟩ := List.map_eq_cons_iff.mp terminals
    rw [Token.terminal_eq_word (by decide)] at word
    obtain ⟨d, last, read⟩ :=
      exportItem_complete (terminals ▸ starts) word other previous rest
    refine ⟨d, last, ?_⟩
    rw [List.cons_append, bind_of_read peek_run, if_neg (by simp [word]), if_pos word, read]

theorem items_of_read {d : Decl} (starts : s.rest = a :: rest) (more : a.kind ≠ .eof)
    (read : item s = .ok (d, t)) : items s = (d :: (items t).1, (items t).2) := by
  rw [items, starts]
  simp only [more, if_false]
  split
  next e failed =>
    rw [read] at failed
    cases failed
  next d' t' read' =>
    rw [read] at read'
    cases read'
    rfl

theorem items_of_end (ends : a.kind = .eof) :
    items ⟨previous, a :: rest⟩ = ([], .ok ⟨previous, a :: rest⟩) := by
  rw [items]
  simp [ends]

/-- Tokens that derive from forms are read up to the end. -/
theorem items_complete {forms : List ItemForm} {taken : List Token}
    (terminals : taken.map Token.terminal = forms.flatMap ItemForm.terminals) {last : Token}
    (ends : last.kind = .eof) (previous : Option Token) (rest : List Token) :
    ∃ ds t, items ⟨previous, taken ++ last :: rest⟩ = (ds, .ok t) := by
  induction forms generalizing taken previous with
  | nil =>
    obtain rfl := List.map_eq_nil_iff.mp terminals
    exact ⟨[], _, items_of_end ends⟩
  | cons form forms ih =>
    rw [List.flatMap_cons] at terminals
    obtain ⟨first, others, rfl, here, later⟩ := List.map_eq_append_iff.mp terminals
    -- what stands behind the item is another item or the end
    obtain ⟨b, more, after, other⟩ :
        ∃ b more, others ++ last :: rest = b :: more ∧ b.kind ≠ .asWord := by
      cases others with
      | nil => exact ⟨last, rest, rfl, by simp [ends]⟩
      | cons b others =>
        refine ⟨b, others ++ last :: rest, rfl, fun as => ?_⟩
        have separates := ItemForm.separates_flatMap forms
        rw [← later] at separates
        exact separates (by simp [(Token.terminal_eq_word (by decide)).mpr as])
    obtain ⟨d, last', read⟩ := item_complete here other previous more
    obtain ⟨ds, t, rest_read⟩ := ih later (some last')
    obtain ⟨kind, _, starts, which⟩ := form.terminals_cons
    obtain ⟨w, first', rfl, word, -⟩ := List.map_eq_cons_iff.mp (here.trans starts)
    have begins : w.kind ≠ .eof := by
      rcases which with rfl | rfl <;> simp [(Token.terminal_eq_word (by decide)).mp word]
    rw [List.append_assoc, after]
    rw [after] at rest_read
    refine ⟨d :: ds, t, ?_⟩
    rw [items_of_read rfl begins read, rest_read]

end Parser

end ConstFun
