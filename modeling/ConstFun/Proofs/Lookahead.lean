import ConstFun.Proofs.Parsing

namespace ConstFun

namespace Parser

variable {α β : Type} {s t : TokenStream} {a : Token} {rest : List Token} {kind : TokenKind}
  {problem : ParseProblem}

/-- A parser that succeeds remembers the last token it took, and would have done the same whatever
stands behind the next one. -/
def LooksAhead (p : Parser α) : Prop :=
  ∀ s x t, p s = .ok (x, t) → ∃ taken, s.rest = taken ++ t.rest ∧
    t.previous = taken.getLast?.or s.previous ∧
    ∀ rest, rest.head? = t.rest.head? →
      p ⟨s.previous, taken ++ rest⟩ = .ok (x, ⟨t.previous, rest⟩)

theorem head?_append_congr {more more' : List Token} (same : more.head? = more'.head?)
    (taken : List Token) : (taken ++ more).head? = (taken ++ more').head? := by
  rw [List.head?_append, List.head?_append, same]

theorem head?_append_cons (taken : List Token) (a : Token) (rest rest' : List Token) :
    (taken ++ a :: rest).head? = (taken ++ a :: rest').head? := by
  cases taken <;> rfl

/-- Two streams with the same tokens up to some token have the same first token. -/
theorem cons_of_split {taken rest more : List Token} {a b : Token}
    (starts : taken ++ b :: rest = a :: more) (rest' : List Token) :
    ∃ more', taken ++ b :: rest' = a :: more' := by
  refine List.head?_eq_some_iff.mp ?_
  rw [head?_append_cons taken b rest' rest, starts, List.head?_cons]

namespace LooksAhead

theorem pure (x : α) : LooksAhead (Pure.pure x : Parser α) := by
  intro s y t done
  obtain ⟨rfl, rfl⟩ := Prod.mk.inj (Except.ok.inj done)
  exact ⟨[], rfl, rfl, fun rest _ => rfl⟩

theorem bind {p : Parser α} {f : α → Parser β} (first : LooksAhead p)
    (second : ∀ x, LooksAhead (f x)) : LooksAhead (p >>= f) := by
  intro s y u done
  obtain ⟨x, t, one, two⟩ := bind_eq_ok done
  obtain ⟨taken, split, last, again⟩ := first s x t one
  obtain ⟨taken', split', last', again'⟩ := second x t y u two
  refine ⟨taken ++ taken', by rw [split, split', List.append_assoc], ?_, fun rest same => ?_⟩
  · rw [last', last, List.getLast?_append, Option.or_assoc]
  have here := again (taken' ++ rest) (split' ▸ head?_append_congr same taken')
  rw [List.append_assoc, bind_of_read here, again' rest same]

theorem map {p : Parser α} (g : α → β) (first : LooksAhead p) : LooksAhead (g <$> p) := by
  rw [map_eq_pure_bind]
  exact first.bind fun x => pure (g x)

theorem reject (problem : ParseProblem) (a : Token) :
    LooksAhead (Parser.reject problem a : Parser α) := by
  intro s x t done
  cases done

theorem ite {c : Prop} [Decidable c] {p q : Parser α} (yes : LooksAhead p) (no : LooksAhead q) :
    LooksAhead (if c then p else q) := by
  split
  next => exact yes
  next => exact no

end LooksAhead

theorem peek_looksAhead : LooksAhead peek := by
  intro s a t done
  obtain ⟨rfl, more, starts⟩ := peek_eq_ok done
  refine ⟨[], rfl, rfl, fun rest same => ?_⟩
  rw [starts, List.head?_cons] at same
  obtain ⟨more', rfl⟩ := List.head?_eq_some_iff.mp same
  rfl

theorem advance_looksAhead : LooksAhead advance := by
  intro s a t done
  unfold advance at done
  split at done
  next b more starts =>
    split at done
    next last =>
      obtain ⟨rfl, rfl⟩ := Prod.mk.inj (Except.ok.inj done)
      refine ⟨[], rfl, rfl, fun rest same => ?_⟩
      rw [starts, List.head?_cons] at same
      obtain ⟨more', rfl⟩ := List.head?_eq_some_iff.mp same
      simp [advance, last]
    next other =>
      obtain ⟨rfl, rfl⟩ := Prod.mk.inj (Except.ok.inj done)
      exact ⟨[b], starts, rfl, fun rest _ => advance_run other⟩
  next => cases done

theorem spanFrom_looksAhead (start : Token) : LooksAhead (spanFrom start) := by
  intro s span t done
  obtain rfl := spanFrom_eq_ok done
  refine ⟨[], rfl, rfl, fun rest same => ?_⟩
  unfold spanFrom at done ⊢
  rw [List.nil_append]
  dsimp only
  rw [same]
  split at done
  next => cases done; rfl
  next => cases done

theorem accept_looksAhead (kind : TokenKind) : LooksAhead (accept kind) :=
  peek_looksAhead.bind fun _ => .ite (advance_looksAhead.bind fun _ => .pure true) (.pure false)

theorem expect_looksAhead (kind : TokenKind) (problem : ParseProblem) :
    LooksAhead (expect kind problem) :=
  peek_looksAhead.bind fun a => .ite advance_looksAhead (.reject problem a)

theorem typeName_looksAhead : LooksAhead typeName := by
  refine peek_looksAhead.bind fun start => (expect_looksAhead _ _).bind fun n => ?_
  exact (spanFrom_looksAhead start).bind fun span => .ite (.pure _) (.reject _ _)

theorem literal_looksAhead : LooksAhead literal := by
  refine peek_looksAhead.bind fun start => .ite ?_ (.reject _ _)
  exact advance_looksAhead.bind fun n => (spanFrom_looksAhead start).bind fun span => .pure _

theorem parentheses_looksAhead : LooksAhead parentheses :=
  (accept_looksAhead _).bind fun _ => .ite ((expect_looksAhead _ _).map _) (.pure _)

theorem annotation_looksAhead : LooksAhead annotation :=
  (accept_looksAhead _).bind fun _ => .ite (typeName_looksAhead.map _) (.pure _)

theorem function_looksAhead (exportAs : Option String) : LooksAhead (function exportAs) := by
  refine peek_looksAhead.bind fun start => ?_
  refine (expect_looksAhead _ _).bind fun word => (expect_looksAhead _ _).bind fun name => ?_
  refine parentheses_looksAhead.bind fun _ => annotation_looksAhead.bind fun returnType => ?_
  exact literal_looksAhead.bind fun body => (spanFrom_looksAhead start).bind fun span => .pure _

theorem aliasedFunction_looksAhead : LooksAhead aliasedFunction := by
  refine advance_looksAhead.bind fun word => (expect_looksAhead _ _).bind fun publicName => ?_
  exact peek_looksAhead.bind fun following => .ite ((function_looksAhead _).map _) (.reject _ _)

theorem aliasOf_looksAhead (name : Token) : LooksAhead (aliasOf name) :=
  (accept_looksAhead _).bind fun _ => .ite (expect_looksAhead _ _) (.pure _)

theorem exportedName_looksAhead (start : Token) : LooksAhead (exportedName start) := by
  refine advance_looksAhead.bind fun name => (aliasOf_looksAhead name).bind fun publicName => ?_
  exact (spanFrom_looksAhead start).bind fun span => .pure _

theorem exportItem_looksAhead : LooksAhead exportItem := by
  refine peek_looksAhead.bind fun start => (expect_looksAhead _ _).bind fun word => ?_
  refine peek_looksAhead.bind fun next => .ite ((function_looksAhead _).map _) ?_
  exact .ite aliasedFunction_looksAhead (.ite (exportedName_looksAhead start) (.reject _ _))

theorem item_looksAhead : LooksAhead item := by
  refine peek_looksAhead.bind fun a => .ite ((function_looksAhead _).map _) ?_
  exact .ite exportItem_looksAhead (.reject _ _)

end Parser

end ConstFun
