import ConstFun.Proofs.Lookahead
import ConstFun.Proofs.Outcomes
import ConstFun.Proofs.Places

namespace ConstFun

/-- A span that runs from the first of the tokens through the last. -/
def Covers (tokens : List Token) (span : Option Span) : Prop :=
  ∃ first last, tokens.head? = some first ∧ tokens.getLast? = some last ∧
    span = some (first.through last)

/-- A function that was read from the tokens: its literal and its type are some of them. -/
structure FunctionDecl.StandsOn (tokens : List Token) (f : FunctionDecl) : Prop where
  span : Covers tokens f.span
  body : ∃ n ∈ tokens, ∃ l, f.body = .literal l ∧ l.text = n.text ∧ l.span = some n.span
  type : ∀ type, f.returnType = some type →
    ∃ n ∈ tokens, type.name = n.text ∧ type.span = some n.span

namespace Parser

variable {s t : TokenStream}

theorem typeName_placed {type : TypeName} (done : typeName s = .ok (type, t)) :
    ∃ n, s.rest = n :: t.rest ∧ type = ⟨n.text, some n.span⟩ := by
  obtain ⟨previous, tokens⟩ := s
  cases tokens with
  | nil => cases done
  | cons n rest =>
    rw [typeName_run] at done
    split_ifs at done
    cases done
    exact ⟨n, rfl, rfl⟩

theorem annotation_placed {type : TypeName} (done : annotation s = .ok (some type, t)) :
    ∃ c n, s.rest = c :: n :: t.rest ∧ type = ⟨n.text, some n.span⟩ := by
  obtain ⟨marked, u, colon, done⟩ := bind_eq_ok done
  rcases accept_eq_ok (by decide) colon with ⟨rfl, c, rest, starts, -, rfl⟩ | ⟨rfl, rfl⟩
  · obtain ⟨type', read, same⟩ := map_eq_ok done
    cases same
    obtain ⟨n, next, rfl⟩ := typeName_placed read
    have next : rest = n :: t.rest := next
    exact ⟨c, n, by rw [starts, next], rfl⟩
  · cases done

theorem spanFrom_placed {start : Token} {span : Span} (done : spanFrom start s = .ok (span, t))
    {last : Token} (previous : s.previous = some last) : span = start.through last := by
  unfold spanFrom at done
  rw [previous] at done
  cases done
  rfl

theorem function_standsOn {exportAs : Option String} {f : FunctionDecl}
    (done : function exportAs s = .ok (f, t)) :
    ∃ taken, s.rest = taken ++ t.rest ∧ f.StandsOn taken := by
  obtain ⟨taken, split, remembered, -⟩ := function_looksAhead exportAs s f t done
  obtain ⟨form, taken', split', readAs⟩ := function_sound done
  obtain rfl := List.append_cancel_right (split.symm.trans split')
  obtain ⟨w, others, rfl, -, -⟩ := List.map_eq_cons_iff.mp readAs.terminals
  obtain ⟨last, ends⟩ : ∃ last, (w :: others).getLast? = some last :=
    ⟨_, List.getLast?_eq_getLast_of_ne_nil (List.cons_ne_nil w others)⟩
  rw [ends, Option.some_or] at remembered
  obtain ⟨start, u, looked, done⟩ := bind_eq_ok done
  obtain ⟨rfl, rest, starts⟩ := peek_eq_ok looked
  obtain ⟨rfl, -⟩ := List.cons.inj (split.symm.trans starts)
  obtain ⟨word, u, took, done⟩ := bind_eq_ok done
  obtain ⟨rest, first, -, rfl⟩ := expect_eq_ok (by decide) took
  obtain ⟨name, u, took, done⟩ := bind_eq_ok done
  obtain ⟨rest', second, -, rfl⟩ := expect_eq_ok (by decide) took
  obtain ⟨_, u, took, done⟩ := bind_eq_ok done
  obtain ⟨present, parens, third, -⟩ := parentheses_sound took
  obtain ⟨type, u, annotated, done⟩ := bind_eq_ok done
  obtain ⟨l, u, took, done⟩ := bind_eq_ok done
  obtain ⟨n, fourth, -, -⟩ := literal_sound took
  obtain ⟨span, u, placed, done⟩ := bind_eq_ok done
  obtain rfl := spanFrom_eq_ok placed
  obtain ⟨rfl, rfl⟩ := Prod.mk.inj (Except.ok.inj done)
  refine ⟨w :: others, split, ⟨?_, ?_, ?_⟩⟩
  · exact ⟨w, last, rfl, ends, congrArg some (spanFrom_placed placed remembered)⟩
  · obtain ⟨n, mem, -, body⟩ := readAs.body
    exact ⟨n, mem, n.literal, body, rfl, rfl⟩
  · rintro type rfl
    obtain ⟨c, k, marks, rfl⟩ := annotation_placed annotated
    have whole : w :: others ++ u.rest = word :: name :: (parens ++ [c, k, n]) ++ u.rest := by
      have second : rest = name :: rest' := second
      have third : rest' = parens ++ _ := third
      rw [← split, first, second, third, marks, fourth]
      simp
    exact ⟨k, by simp [List.append_cancel_right whole], rfl, rfl⟩

end Parser

/-- The place of a declaration. -/
def Decl.span : Decl → Option Span
  | .function f => f.span
  | .exportOf e => e.span

/-- A declaration that was read from the tokens. An `export` before a function, with its alias,
stands outside. -/
def Decl.StandsOn (tokens : List Token) (d : Decl) : Prop :=
  ∃ before own, tokens = before ++ own ∧ Covers own d.span ∧ ∀ f, d = .function f → f.StandsOn own

theorem FunctionDecl.StandsOn.decl {own : List Token} {f : FunctionDecl} (standsOn : f.StandsOn own)
    (before : List Token) : (Decl.function f).StandsOn (before ++ own) := by
  refine ⟨before, own, rfl, standsOn.span, ?_⟩
  rintro g ⟨⟩
  exact standsOn

namespace Parser

variable {s t : TokenStream} {a : Token} {rest : List Token}

theorem aliasedFunction_standsOn {d : Decl} (starts : s.rest = a :: rest) (word : a.kind = .asWord)
    (done : aliasedFunction s = .ok (d, t)) :
    ∃ taken, s.rest = taken ++ t.rest ∧ d.StandsOn taken := by
  have more : a.kind ≠ .eof := by simp [word]
  obtain ⟨w, u, took, done⟩ := bind_eq_ok done
  simp only [advance, starts, more, if_false, Except.ok.injEq, Prod.mk.injEq] at took
  obtain ⟨rfl, rfl⟩ := took
  obtain ⟨publicName, u, took, done⟩ := bind_eq_ok done
  obtain ⟨rest', next, -, rfl⟩ := expect_eq_ok (by decide) took
  have next : rest = publicName :: rest' := next
  obtain ⟨following, u, looked, done⟩ := bind_eq_ok done
  obtain ⟨rfl, -⟩ := peek_eq_ok looked
  split at done
  next =>
    obtain ⟨f, read, rfl⟩ := map_eq_ok done
    obtain ⟨taken, split, standsOn⟩ := function_standsOn read
    have split : rest' = taken ++ t.rest := split
    exact ⟨[a, publicName] ++ taken, by simp [starts, next, split], standsOn.decl _⟩
  next => cases done

theorem exportedName_placed {start last : Token} {d : Decl}
    (done : exportedName start s = .ok (d, t)) (remembered : t.previous = some last) :
    d.span = some (start.through last) ∧ ∀ f, d ≠ .function f := by
  obtain ⟨name, u, -, done⟩ := bind_eq_ok done
  obtain ⟨publicName, u, -, done⟩ := bind_eq_ok done
  obtain ⟨span, u, placed, done⟩ := bind_eq_ok done
  obtain rfl := spanFrom_eq_ok placed
  obtain ⟨rfl, rfl⟩ := Prod.mk.inj (Except.ok.inj done)
  exact ⟨congrArg some (spanFrom_placed placed remembered), fun f same => by cases same⟩

theorem exportItem_standsOn {d : Decl} (done : exportItem s = .ok (d, t)) :
    ∃ taken, s.rest = taken ++ t.rest ∧ d.StandsOn taken := by
  obtain ⟨taken, whole, remembered, -⟩ := exportItem_looksAhead s d t done
  have shorter := exportItem_takes s d t done
  obtain ⟨start, u, looked, done⟩ := bind_eq_ok done
  obtain ⟨rfl, tokens, starts⟩ := peek_eq_ok looked
  obtain ⟨word, u, took, done⟩ := bind_eq_ok done
  obtain ⟨rest, first, -, rfl⟩ := expect_eq_ok (by decide) took
  obtain ⟨rfl, -⟩ := List.cons.inj (starts.symm.trans first)
  obtain ⟨next, u, looked, done⟩ := bind_eq_ok done
  obtain ⟨rfl, rest', starts'⟩ := peek_eq_ok looked
  split at done
  next =>
    obtain ⟨f, read, rfl⟩ := map_eq_ok done
    obtain ⟨own, split, standsOn⟩ := function_standsOn read
    have exported : ({ f with exportAs := some f.name } : FunctionDecl).StandsOn own :=
      ⟨standsOn.span, standsOn.body, standsOn.type⟩
    exact ⟨[start] ++ own, first.trans (congrArg (start :: ·) split), exported.decl _⟩
  next =>
    split at done
    next as =>
      obtain ⟨own, split, before, own', rfl, standsOn⟩ := aliasedFunction_standsOn starts' as done
      exact ⟨start :: (before ++ own'), first.trans (congrArg (start :: ·) split),
        start :: before, own', rfl, standsOn⟩
    next =>
      split at done
      next =>
        obtain ⟨b, others, rfl⟩ : ∃ b others, taken = b :: others := by
          refine List.exists_cons_of_ne_nil ?_
          rintro rfl
          rw [whole] at shorter
          simp at shorter
        obtain ⟨rfl, -⟩ := List.cons.inj (whole.symm.trans first)
        obtain ⟨last, ends⟩ : ∃ last, (b :: others).getLast? = some last :=
          ⟨_, List.getLast?_eq_getLast_of_ne_nil (List.cons_ne_nil b others)⟩
        rw [ends, Option.some_or] at remembered
        obtain ⟨span, noFunction⟩ := exportedName_placed done remembered
        exact ⟨b :: others, whole, [], b :: others, rfl, ⟨b, last, rfl, ends, span⟩,
          fun f same => absurd same (noFunction f)⟩
      next => cases done

theorem item_standsOn {d : Decl} (done : item s = .ok (d, t)) :
    ∃ taken, s.rest = taken ++ t.rest ∧ d.StandsOn taken := by
  obtain ⟨start, u, looked, done⟩ := bind_eq_ok done
  obtain ⟨rfl, -⟩ := peek_eq_ok looked
  split at done
  next =>
    obtain ⟨f, read, rfl⟩ := map_eq_ok done
    obtain ⟨own, split, standsOn⟩ := function_standsOn read
    exact ⟨own, split, standsOn.decl []⟩
  next =>
    split at done
    next => exact exportItem_standsOn done
    next => cases done

/-- The declarations up to the end stand on the tokens before it, one after another. -/
theorem items_standOn {ds : List Decl} (done : items s = (ds, .ok t)) :
    ∃ pieces : List (List Token), s.rest = pieces.flatten ++ t.rest ∧
      List.Forall₂ Decl.StandsOn pieces ds ∧ t.previous = pieces.flatten.getLast?.or s.previous ∧
      ∃ last rest, t.rest = last :: rest ∧ last.kind = .eof := by
  fun_induction items s generalizing ds with
  | case1 | case3 => cases done
  | case2 s last rest first ends =>
    cases done
    exact ⟨[], rfl, .nil, rfl, last, rest, first, ends⟩
  | case4 s a rest first more d next read ds' outcome tail ih =>
    cases done
    obtain ⟨taken, split, remembered, -⟩ := item_looksAhead s d next read
    obtain ⟨taken', split', standsOn⟩ := item_standsOn read
    obtain rfl := List.append_cancel_right (split.symm.trans split')
    obtain ⟨pieces, later, standOn, remembered', ends⟩ := ih tail
    refine ⟨taken :: pieces, ?_, .cons standsOn standOn, ?_, ends⟩
    · rw [split, later, List.flatten_cons, List.append_assoc]
    · rw [remembered', remembered, List.flatten_cons, List.getLast?_append, Option.or_assoc]

end Parser

theorem Decl.untyped_untyped (d : Decl) : d.untyped.untyped = d.untyped := by
  cases d with
  | exportOf e => rfl
  | function f =>
    obtain ⟨name, type, body, exportAs, span⟩ := f
    cases body <;> rfl

theorem FunctionDecl.StandsOn.of_untyped {own : List Token} {f f' : FunctionDecl}
    (standsOn : f.StandsOn own) (same : f'.untyped = f.untyped) : f'.StandsOn own := by
  have span : f'.span = f.span := by rw [← f'.place_untyped, same, f.place_untyped]
  have type : f'.returnType = f.returnType := by
    rw [← f'.returnType_untyped, same, f.returnType_untyped]
  refine ⟨span ▸ standsOn.span, ?_, type ▸ standsOn.type⟩
  obtain ⟨n, mem, l, body, text, place⟩ := standsOn.body
  have bodies := congrArg FunctionDecl.body same
  cases body' : f'.body with
  | literal l' =>
    simp only [untyped, body, body', Body.literal.injEq] at bodies
    refine ⟨n, mem, l', rfl, ?_, ?_⟩
    · exact (congrArg Literal.text bodies).trans text
    · exact (congrArg Literal.span bodies).trans place
  | other place => simp [untyped, body, body'] at bodies

theorem Decl.StandsOn.of_untyped {tokens : List Token} {d d' : Decl} (standsOn : d.StandsOn tokens)
    (same : d'.untyped = d.untyped) : d'.StandsOn tokens := by
  obtain ⟨before, own, rfl, span, functions⟩ := standsOn
  cases d with
  | function f =>
    cases d' with
    | function f' => exact ((functions f rfl).of_untyped (Decl.function.inj same)).decl before
    | exportOf e' => cases same
  | exportOf e =>
    cases d' with
    | function f' => cases same
    | exportOf e' =>
      cases same
      exact ⟨before, own, rfl, span, functions⟩

theorem forall₂_standsOn_of_untyped {pieces : List (List Token)} {ds ds' : List Decl}
    (standOn : List.Forall₂ Decl.StandsOn pieces ds)
    (same : ds'.map Decl.untyped = ds.map Decl.untyped) :
    List.Forall₂ Decl.StandsOn pieces ds' := by
  induction standOn generalizing ds' with
  | nil =>
    obtain rfl := List.map_eq_nil_iff.mp same
    exact .nil
  | cons standsOn _ ih =>
    rw [List.map_cons] at same
    obtain ⟨d', ds', rfl, first, rest⟩ := List.map_eq_cons_iff.mp same
    exact .cons (standsOn.of_untyped first) (ih rest)

/-- A span that starts and ends before another one starts. -/
def Span.Precedes (s s' : Span) : Prop := s.start < s'.start ∧ s.stop ≤ s'.start

theorem Covers.start_lt_stop {own : List Token} {span : Option Span} (covers : Covers own span)
    (inOrder : InOrder own) :
    ∃ first ∈ own, ∃ last ∈ own, span = some (first.through last) ∧
      (first.through last).start < (first.through last).stop := by
  obtain ⟨first, last, head, ends, rfl⟩ := covers
  have left : first ∈ own := List.mem_of_mem_head? head
  have right : last ∈ own := List.mem_of_mem_getLast? ends
  exact ⟨first, left, last, right, rfl,
    (inOrder.start_le head right).trans_lt (inOrder.filled last right)⟩

/-- Declarations that stand on tokens in order have spans in order. -/
theorem exists_spans {pieces : List (List Token)} {ds : List Decl}
    (standOn : List.Forall₂ Decl.StandsOn pieces ds) (inOrder : InOrder pieces.flatten) :
    ∃ spans : List Span, ds.map Decl.span = spans.map some ∧ spans.Pairwise Span.Precedes ∧
      ∀ span ∈ spans, span.start < span.stop ∧
        ∃ a ∈ pieces.flatten, ∃ b ∈ pieces.flatten, span = a.through b := by
  induction standOn with
  | nil => exact ⟨[], rfl, .nil, by simp⟩
  | @cons piece d pieces ds standsOn _ ih =>
    rw [List.flatten_cons] at inOrder ⊢
    obtain ⟨spans, places, ordered, each⟩ := ih (inOrder.sublist (List.sublist_append_right ..))
    obtain ⟨before, own, rfl, covers, -⟩ := standsOn
    have here : InOrder own := inOrder.sublist
      ((List.sublist_append_right ..).trans (List.sublist_append_left ..))
    obtain ⟨a, left, b, right, place, filled⟩ := covers.start_lt_stop here
    refine ⟨a.through b :: spans, by simp [place, places], List.pairwise_cons.mpr ⟨?_, ordered⟩, ?_⟩
    · intro span mem
      obtain ⟨_, a', left', b', -, rfl⟩ := each span mem
      have apart : b.span.stop ≤ a'.span.start :=
        (List.pairwise_append.mp inOrder.apart).2.2 b (by simp [right]) a' left'
      exact ⟨filled.trans_le apart, apart⟩
    · intro span mem
      rcases List.mem_cons.mp mem with rfl | mem
      · exact ⟨filled, a, by simp [left], b, by simp [right], rfl⟩
      · obtain ⟨filled', a', left', b', right', same⟩ := each span mem
        exact ⟨filled', a', List.mem_append_right _ left', b', List.mem_append_right _ right', same⟩

theorem exists_piece {pieces : List (List Token)} {ds : List Decl}
    (standOn : List.Forall₂ Decl.StandsOn pieces ds) {d : Decl} (mem : d ∈ ds) :
    ∃ piece ∈ pieces, d.StandsOn piece := by
  induction standOn with
  | nil => cases mem
  | cons standsOn _ ih =>
    rcases List.mem_cons.mp mem with rfl | mem
    · exact ⟨_, by simp, standsOn⟩
    · obtain ⟨piece, here, standsOn⟩ := ih mem
      exact ⟨piece, by simp [here], standsOn⟩

/-- What a success of reading a program was made of. -/
theorem Program.parts_of_read {name : String} {filename : Option String} {tokens rest : TokenStream}
    {s t : Session} {p : Program}
    (read : Program.read name filename tokens s = .ok (p, rest) t) :
    ∃ ds start span, Parser.items tokens = (ds, .ok rest) ∧ ds.mapM Decl.typed s = .ok p.decls t ∧
      tokens.rest.head? = some start ∧ Parser.spanFrom start rest = .ok (span, rest) ∧
      p.span = some span := by
  obtain ⟨ds, ds', rest', u, parsed, typed⟩ := Program.parsed_of_read read
  unfold Program.read at read
  rw [parsed] at read
  dsimp only at read
  rw [bind_of_ok (adaptExcept_of_ok typed)] at read
  cases head : tokens.rest.head? with
  | none =>
    rw [head] at read
    cases read
  | some start =>
    rw [head] at read
    dsimp only at read
    cases placed : Parser.spanFrom start rest' with
    | error e =>
      rw [placed] at read
      cases read
    | ok result =>
      obtain ⟨span, same⟩ := result
      obtain rfl := Parser.spanFrom_eq_ok placed
      rw [placed] at read
      cases read
      exact ⟨ds, start, span, parsed, typed, rfl, placed, rfl⟩

/-- The tokens up to an end token are those before the last one. -/
theorem eq_dropLast_of_tokenize {text : String} {tokens : List Token}
    (lexed : tokenize text = .ok tokens) {taken rest : List Token} {last : Token}
    (split : tokens = taken ++ last :: rest) (ends : last.kind = .eof) :
    taken = tokens.dropLast := by
  obtain ⟨body, final, rfl, -, spelled⟩ := Cursor.tokens_spelled lexed
  rw [List.dropLast_concat]
  rcases List.append_eq_append_iff.mp split.symm with ⟨others, rfl, same⟩ | ⟨others, rfl, same⟩
  · cases others with
    | nil => simp
    | cons a others =>
      obtain ⟨rfl, -⟩ := List.cons.inj same
      exact absurd ends (spelled last (by simp)).1
  · cases others with
    | nil => simp
    | cons a others => simp at same

/-- The span holds the text, and lies within the other one. -/
def HoldsText (text : String) (outer : Span) (span : Option Span) (own : String) : Prop :=
  ∃ inner, span = some inner ∧ inner.Within outer ∧ inner.cut text = own

/-- In a program that was read from a text, the spans of literals and type names delimit them, each
span lies within that of the node above, those of the declarations follow each other without
overlap, and the span of a program that declares something runs from its first token through the
last one before the end. -/
theorem Program.spans_delimit {text : String} {tokens : List Token}
    (lexed : tokenize text = .ok tokens) {name : String} {filename : Option String} {s t : Session}
    {p : Program} {rest : TokenStream}
    (read : Program.read name filename { rest := tokens } s = .ok (p, rest) t) :
    ∃ (whole : Span) (spans : List Span), p.span = some whole ∧
      p.decls.map Decl.span = spans.map some ∧
      (∀ span ∈ spans, span.Within whole ∧ span.start < span.stop) ∧
      spans.Pairwise Span.Precedes ∧
      (∀ f, .function f ∈ p.decls → ∃ outer l, f.span = some outer ∧ f.body = .literal l ∧
        HoldsText text outer l.span l.text ∧
        ∀ type, f.returnType = some type → HoldsText text outer type.span type.name) ∧
      (p.decls ≠ [] → ∃ first last, tokens.head? = some first ∧
        tokens.dropLast.getLast? = some last ∧ whole = first.through last) := by
  obtain ⟨ds, start, whole, parsed, typed, head, placed, span⟩ := parts_of_read read
  obtain ⟨pieces, split, standOn, remembered, last, others, next, ends⟩ :=
    Parser.items_standOn parsed
  have split : tokens = pieces.flatten ++ last :: others := next ▸ split
  have before := eq_dropLast_of_tokenize lexed split ends
  obtain ⟨inOrder, cut⟩ := inOrder_of_tokenize lexed
  rw [← before] at inOrder ⊢
  have same : p.decls.map Decl.untyped = ds.map Decl.untyped := by
    have kept := typed_items_end lexed s
    unfold Ends at kept
    rw [parsed] at kept
    dsimp only at kept
    rwa [typed] at kept
  have standOn := forall₂_standsOn_of_untyped standOn same
  obtain ⟨spans, places, ordered, each⟩ := exists_spans standOn inOrder
  -- the program's span is that of the tokens before the end, if there are some
  have run : ∀ a ∈ pieces.flatten, ∃ final, pieces.flatten.head? = some start ∧
      pieces.flatten.getLast? = some final ∧ whole = start.through final := by
    intro a mem
    have filled : pieces.flatten ≠ [] := List.ne_nil_of_mem mem
    have ends := List.getLast?_eq_getLast_of_ne_nil filled
    rw [ends, Option.some_or] at remembered
    refine ⟨_, ?_, ends, Parser.spanFrom_placed placed remembered⟩
    have head : tokens.head? = some start := head
    rwa [split, List.head?_append_of_ne_nil _ filled] at head
  refine ⟨whole, spans, span, places, ?_, ordered, ?_, ?_⟩
  · intro place mem
    obtain ⟨filled, a, left, b, right, rfl⟩ := each place mem
    obtain ⟨final, starts, stops, rfl⟩ := run a left
    exact ⟨inOrder.within starts stops left right, filled⟩
  · intro f mem
    obtain ⟨piece, here, outside, own, rfl, -, standsOn⟩ := exists_piece standOn mem
    obtain ⟨⟨first, final, starts, stops, outer⟩, ⟨n, inside, l, body, text, place⟩, type⟩ :=
      standsOn f rfl
    have sub : own.Sublist pieces.flatten :=
      (List.sublist_append_right ..).trans (List.sublist_flatten_of_mem here)
    have known : ∀ n ∈ own, n.span.cut _ = n.text := fun n mem =>
      cut n (by rw [split]; exact List.mem_append_left _ (sub.subset mem))
    have within := fun n mem => (inOrder.sublist sub).within starts stops (a := n) (b := n) mem mem
    refine ⟨_, l, outer, body, ⟨n.span, place, within n inside, ?_⟩, fun name same => ?_⟩
    · rw [known n inside, text]
    · obtain ⟨n, inside, text, place⟩ := type name same
      exact ⟨n.span, place, within n inside, by rw [known n inside, text]⟩
  · intro some_decl
    have some_span : spans ≠ [] := by
      rintro rfl
      exact some_decl (List.map_eq_nil_iff.mp places)
    obtain ⟨place, mem⟩ := List.exists_mem_of_ne_nil spans some_span
    obtain ⟨-, a, left, -⟩ := each place mem
    obtain ⟨final, -, stops, same⟩ := run a left
    exact ⟨start, final, head, stops, same⟩

/-- Declarations over several lines, with comments between the tokens. -/
def spreadText : String :=
  "// two\nfunction f(\n) : i64 /* a\nb */ -7\nexport function g\n 2.5 export f as h"

theorem Program.spans_delimit_spreadText : ∃ tokens, tokenize spreadText = .ok tokens ∧
    ∃ p rest t, Program.read "main" none { rest := tokens } (Session.new {}) = .ok (p, rest) t ∧
      p.span = some ⟨2, 1, 6, 19⟩ ∧
      ∃ spans : List Span, p.decls.map Decl.span = spans.map some ∧ spans.Pairwise Span.Precedes ∧
        ∀ span ∈ spans, span.Within ⟨2, 1, 6, 19⟩ := by
  have checked : (tokenize spreadText).toOption.any (fun tokens =>
      decide (∀ t ∈ tokens, ¬t.Overlong) &&
        decide ((Parser.items { rest := tokens }).1.length = 3) &&
        (Parser.items { rest := tokens }).2.toOption.isSome &&
        decide (tokens.head?.map (fun t => t.span.start) = some (toLex (2, 1))) &&
        decide (tokens.dropLast.getLast?.map (fun t => t.span.stop) = some (toLex (6, 19)))) =
      true := by
    decide +kernel
  cases lexed : tokenize spreadText with
  | error e => simp [lexed, Except.toOption] at checked
  | ok tokens =>
    simp only [lexed, Except.toOption, Option.any_some, Bool.and_eq_true,
      decide_eq_true_eq] at checked
    obtain ⟨⟨⟨⟨short, three⟩, parsed⟩, starts⟩, stops⟩ := checked
    obtain ⟨ds, t, typed, kept⟩ := typed_of_items lexed (not_readsOverlong short) (Session.new {})
    obtain ⟨rest, parsed⟩ : ∃ rest, (Parser.items { rest := tokens }).2 = .ok rest := by
      cases outcome : (Parser.items { rest := tokens }).2 with
      | error e => simp [outcome] at parsed
      | ok rest => exact ⟨rest, rfl⟩
    obtain ⟨span, read⟩ := Program.read_run (Prod.ext rfl parsed) typed "main" none
    have some_decl : ds ≠ [] := by
      rintro rfl
      have lengths := congrArg List.length kept
      simp [three] at lengths
    obtain ⟨whole, spans, same, places, inside, ordered, -, ends⟩ := spans_delimit lexed read
    obtain ⟨first, last, head, final, rfl⟩ := ends some_decl
    rw [head] at starts
    rw [final] at stops
    have place : first.through last = ⟨2, 1, 6, 19⟩ := by
      obtain ⟨line, column⟩ := Prod.mk.inj (toLex_inj.mp (Option.some.inj starts))
      obtain ⟨line', column'⟩ := Prod.mk.inj (toLex_inj.mp (Option.some.inj stops))
      exact Span.mk.injEq .. ▸ ⟨line, column, line', column'⟩
    exact ⟨tokens, rfl, _, rest, t, read, place ▸ same, spans, places, ordered,
      fun span mem => place ▸ (inside span mem).1⟩

end ConstFun
