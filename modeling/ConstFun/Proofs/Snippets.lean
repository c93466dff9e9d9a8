import ConstFun.Proofs.Lines
import ConstFun.Proofs.Refusals
import ConstFun.Proofs.Requests
import ConstFun.Proofs.Spans

namespace ConstFun

section Failures

variable {start stop cursor : Cursor} {e : LexError}

theorem readToken_error (failed : readToken start = .error e stop) :
    ∃ read rest, start.rest = read ++ rest ∧ e.position = start.position.afterText read := by
  unfold readToken at failed
  split at failed
  next => cases failed
  next c rest text =>
    rw [text]
    split at failed
    next =>
      have whole := takeNumber_append (c :: rest)
      simp only at failed
      split at failed
      next =>
        cases failed
        exact ⟨_, _, whole.symm, rfl⟩
      next => cases failed
    next =>
      split at failed
      next => cases failed
      next =>
        simp only at failed
        split at failed
        next => cases failed
        next =>
          cases failed
          exact ⟨[], c :: rest, rfl, rfl⟩

theorem nextToken_error (failed : nextToken cursor = .error e stop) :
    ∃ read rest, cursor.rest = read ++ rest ∧ e.position = cursor.position.afterText read := by
  have skips := skipTrivia_skips cursor.position cursor.rest
  unfold nextToken at failed
  split at failed
  next start skipped =>
    rw [skipped] at skips
    obtain ⟨taken, text, here⟩ := skips.split
    obtain ⟨read, rest, behind, place⟩ := readToken_error failed
    refine ⟨taken ++ read, rest, by rw [text, behind, List.append_assoc], ?_⟩
    rw [place, here, Position.afterText_append]
  next start skipped =>
    rw [skipped] at skips
    obtain ⟨taken, text, here⟩ := skips.split
    cases failed
    exact ⟨taken, stop.rest, text, here⟩

/-- Scanning fails behind a part of the text. -/
theorem Cursor.tokens_error (failed : cursor.tokens = .error e) :
    ∃ read rest, cursor.rest = read ++ rest ∧ e.position = cursor.position.afterText read := by
  fun_induction Cursor.tokens cursor with
  | case1 cursor e' stop failed' =>
    cases failed
    exact nextToken_error failed'
  | case2 => cases failed
  | case3 cursor t stop read isToken ih =>
    cases later : stop.tokens with
    | ok ts =>
      rw [later] at failed
      cases failed
    | error e' =>
      rw [later] at failed
      cases failed
      obtain ⟨behind, rest, text, place⟩ := ih later
      rcases nextToken_cases read with ⟨_, rfl⟩ | ⟨gap, l, _, whole, _, here, _⟩
      · exact absurd rfl isToken
      · refine ⟨gap ++ l.chars ++ behind, rest, by simp [whole, text], ?_⟩
        rw [place, here, Position.afterText_append _ (gap ++ l.chars)]

end Failures

/-- A line that scanning counts in a text: that of a token, or of the place where it fails. -/
def CountedLine (text : String) (line : Int) : Prop :=
  (∃ tokens, tokenize text = .ok tokens ∧ ∃ t ∈ tokens, line = t.line) ∨
    ∃ e, tokenize text = .error e ∧ line = e.position.line

/-- What scanning counts is a line behind a part of the text. -/
theorem CountedLine.exists_read {text : String} {line : Int} (counted : CountedLine text line) :
    ∃ read rest, text.toList = read ++ rest ∧ line = lineAfter read := by
  rcases counted with ⟨tokens, lexed, t, mem, rfl⟩ | ⟨e, failed, rfl⟩
  · have fresh : (Cursor.ofText text).position = Position.start.afterText [] := rfl
    obtain ⟨body, last, rfl, laid⟩ := Cursor.tokens_laidOut lexed fresh
    obtain ⟨p, here, rfl⟩ := List.mem_map.mp mem
    obtain ⟨before, after, split⟩ := List.append_of_mem here
    refine ⟨before.flatMap Piece.chars ++ p.gap, p.token.text.toList ++ after.flatMap Piece.chars,
      ?_, (laid.places before p after split).1⟩
    have whole : text.toList = (body ++ [last]).flatMap Piece.chars := laid.whole
    rw [whole, split]
    simp [Piece.chars]
  · obtain ⟨read, rest, text, place⟩ := Cursor.tokens_error failed
    refine ⟨read, rest, text, ?_⟩
    have place : e.position = Position.start.afterText read := place
    rw [place, Position.start_afterText]

/-- The line that is counted is one of the text. -/
theorem CountedLine.exists_own {text : String} {line : Int} (counted : CountedLine text line) :
    ∃ (index : Nat) (own : List Char), line = index + 1 ∧
      (text.toList.splitOn '\n')[index]? = some own := by
  obtain ⟨read, rest, split, rfl⟩ := counted.exists_read
  have inside : read.count '\n' < (text.toList.splitOn '\n').length := by
    rw [length_splitOn_feed, split, lineAfter, List.count_append]
    omega
  refine ⟨read.count '\n', _, ?_, List.getElem?_eq_getElem inside⟩
  rw [lineAfter]
  omega

/-- An export is asked for where a declaration stands. -/
theorem Program.exists_decl_of_request {p : Program} {r : ExportDecl}
    (mem : r ∈ p.exportRequests) : ∃ d ∈ p.decls, r.span = d.span := by
  rcases List.mem_append.mp mem with own | mem
  · obtain ⟨f, first, asked⟩ := List.mem_filterMap.mp own
    obtain ⟨publicName, _, rfl⟩ := Option.map_eq_some_iff.mp asked
    exact ⟨.function f, mem_functions.mp (mem_of_mem_filterBehind first), rfl⟩
  · exact ⟨.exportOf r, mem_exports.mp mem, rfl⟩

/-- What is wrong with names is reported where a declaration stands. -/
theorem Names.line_ofProgram (p : Program) {d : Diagnostic}
    (mem : d ∈ (ofProgram p).diagnostics) :
    ∃ decl ∈ p.decls, d.line = decl.span.map Span.startLine := by
  obtain ⟨answers, answered, names⟩ := ofProgram_eq p
  rw [names] at mem
  rcases List.mem_append.mp mem with taken | mem
  · obtain ⟨f, later, rfl⟩ := List.mem_map.mp taken
    exact ⟨.function f, Program.mem_functions.mp (mem_of_mem_filterBehind later), rfl⟩
  · obtain ⟨a, here, said⟩ := List.mem_filterMap.mp mem
    obtain ⟨problem, _, rfl⟩ := Option.map_eq_some_iff.mp said
    have asked : a.request ∈ p.exportRequests := answered.asked ▸ List.mem_map_of_mem here
    obtain ⟨decl, inside, same⟩ := Program.exists_decl_of_request asked
    exact ⟨decl, inside, by rw [← same]; rfl⟩

/-- Declarations and literals of a program that was read start at tokens. -/
theorem Program.starts_at_tokens {p : Program} {tokens : List Token} {ds : List Decl}
    {rest : TokenStream} (parsed : Parser.items { rest := tokens } = (ds, .ok rest))
    (decls : p.decls.map Decl.untyped = ds) :
    (∀ d ∈ p.decls, ∃ t ∈ tokens, d.span.map Span.startLine = some t.line) ∧
      ∀ f ∈ p.functions, ∃ t ∈ tokens, f.body.span.map Span.startLine = some t.line := by
  obtain ⟨pieces, split, standOn, -, -⟩ := Parser.items_standOn parsed
  have same : p.decls.map Decl.untyped = ds.map Decl.untyped := by
    rw [← decls, List.map_map]
    exact List.map_congr_left fun d _ => d.untyped_untyped.symm
  have standOn := forall₂_standsOn_of_untyped standOn same
  have within : ∀ piece ∈ pieces, ∀ t ∈ piece, t ∈ tokens := by
    intro piece here t mem
    have split : tokens = pieces.flatten ++ rest.rest := split
    rw [split]
    exact List.mem_append_left _ (List.mem_flatten.mpr ⟨piece, here, mem⟩)
  constructor
  · intro d mem
    obtain ⟨piece, here, before, own, rfl, ⟨first, last, head, -, span⟩, -⟩ :=
      exists_piece standOn mem
    have inside := within _ here first (List.mem_append_right _ (List.mem_of_mem_head? head))
    exact ⟨first, inside, by rw [span]; rfl⟩
  · intro f mem
    obtain ⟨piece, here, before, own, rfl, -, functions⟩ :=
      exists_piece standOn (mem_functions.mp mem)
    obtain ⟨n, mem, l, body, -, span⟩ := (functions f rfl).body
    have inside := within _ here n (List.mem_append_right _ mem)
    refine ⟨n, inside, ?_⟩
    rw [body, Body.span, span]
    rfl

/-- Every diagnostic of an analysis stands on a line that scanning counted. -/
theorem Analysis.counted_of_analyze {options : TypingOptions} {source : Source} {a : Analysis}
    (analyzed : (analyze options source).1 = .ok a) {d : Diagnostic} (mem : d ∈ a.diagnostics) :
    ∃ line, d.line = some line ∧ CountedLine source.text line := by
  cases reports_of_analyze analyzed with
  | @lexical e failed program diagnostics =>
    rw [diagnostics, List.mem_singleton] at mem
    rw [mem]
    exact ⟨_, rfl, .inr ⟨e, failed, rfl⟩⟩
  | @grammatical tokens e lexed refused program diagnostics =>
    obtain ⟨-, taken, rest, split, -, -⟩ := Parser.items_prompt (List.Subset.refl _) refused
    have split : tokens = taken ++ e.token :: rest := split
    rw [diagnostics, List.mem_singleton] at mem
    rw [mem]
    exact ⟨_, rfl, .inl ⟨tokens, lexed, e.token, by simp [split], rfl⟩⟩
  | @read tokens ds rest p types lexed parsed program name file decls typing diagnostics =>
    obtain ⟨starts, bodies⟩ := p.starts_at_tokens parsed decls
    rw [diagnostics] at mem
    rcases List.mem_append.mp mem with naming | mem
    · obtain ⟨decl, inside, line⟩ := Names.line_ofProgram p naming
      obtain ⟨t, here, start⟩ := starts decl inside
      exact ⟨t.line, line.trans start, .inl ⟨tokens, lexed, t, here, rfl⟩⟩
    · rcases typing with ⟨-, f, hf, k, -, rfl⟩ | ⟨-, rfl⟩
      · obtain ⟨t, here, start⟩ := bodies f hf
        rw [List.mem_singleton.mp mem]
        exact ⟨t.line, start, .inl ⟨tokens, lexed, t, here, rfl⟩⟩
      · obtain ⟨f, hf, warned⟩ := List.mem_filterMap.mp mem
        obtain ⟨text, rfl⟩ := FunctionDecl.eq_of_openWarning? warned
        obtain ⟨t, here, start⟩ := bodies f hf
        exact ⟨t.line, start, .inl ⟨tokens, lexed, t, here, rfl⟩⟩

namespace Diagnostic

variable {d : Diagnostic} {read : TextReader} {lines : List String}

theorem snippet_eq {index : Nat} (placed : d.line = some ((index : Int) + 1))
    (lines : List String) :
    d.snippet lines = lines[index]?.elim [] (d.excerpt (index + 1)) := by
  have positive : ¬((index : Int) + 1 < 1) := by omega
  have place : ((index : Int) + 1 - 1).toNat = index := by omega
  unfold snippet
  rw [placed]
  dsimp only
  rw [if_neg positive, place]
  cases lines[index]? <;> rfl

/-- Some lines are printed under the line of a diagnostic, whatever was printed before. -/
def Prints (read : TextReader) (d : Diagnostic) (lines : List String) : Prop :=
  ∀ (directory : String) (log : Array Event), d.report directory read log =
    .ok () (log.push (d.severity.event (d.format directory)) ++
      (lines.map d.severity.event).toArray)

theorem prints_of_readSnippet (snippet : d.readSnippet read = .ok lines) : d.Prints read lines := by
  intro directory log
  unfold report
  rw [bind_of_ok (modify_run _ _), snippet]
  rfl

end Diagnostic

/-- An analysis of a file reports that it is missing, or is one of its text. -/
theorem Command.analyzeFile_cases {read : TextReader} {context : Context} {path : PathName}
    {events events' : Array Event} {a : Analysis}
    (ran : analyzeFile read context path events = .ok a events') :
    (∀ d ∈ a.diagnostics, d.line = none) ∨
      ∃ text b, read path = .ok text ∧ a.diagnostics = b.diagnostics ∧
        (analyze context.typing ⟨text, path.text, path.stem⟩).1 = .ok b := by
  unfold analyzeFile at ran
  cases readable : read path with
  | error e =>
    rw [readable] at ran
    rcases e with ⟨_ | _ | _, _⟩ | _
    · cases ran
      simp
    all_goals cases ran
  | ok text =>
    rw [readable] at ran
    dsimp only at ran
    rw [bind_of_ok (modify_run _ _)] at ran
    cases found : (context.analyze ⟨text, path.text, path.stem⟩).1 with
    | error e =>
      rw [found] at ran
      cases ran
    | ok b =>
      rw [found] at ran
      cases ran
      obtain ⟨c, plain, rfl⟩ := Context.exists_analysis found
      exact .inr ⟨text, c, rfl, rfl, plain⟩

/-- Whatever diagnostic an analysis of a file has on a line, scanning counted that line, it is one
of the lines that line feeds separate in the text, and it is printed below the diagnostic as long as
no other line end stands up to its end; only a last line that is empty is not printed. In every text
the line that is printed has as many line ends before it, of any kind, as the number tells, so it
stands on an earlier line if one of them is not a line feed. -/
theorem Diagnostic.snippet_shows_counted_line {t : FileTree} {context : Context} {entry : String}
    {events events' : Array Event} {a : Analysis}
    (ran : Command.analyzeFile t.readText context (.ofText entry) events = .ok a events')
    {d : Diagnostic} (mem : d ∈ a.diagnostics) {line : Int} (placed : d.line = some line) :
    ∃ (text : String) (index : Nat) (own : List Char) (printed : List String),
      t.readText (.ofText entry) = .ok text ∧ CountedLine text line ∧ line = index + 1 ∧
      (text.toList.splitOn '\n')[index]? = some own ∧ d.Prints t.readText printed ∧
      ((∀ l ∈ (text.toList.splitOn '\n').take (index + 1), ∀ c ∈ l, endsLine c = false) →
        printed = if own = [] ∧ index + 1 = (text.toList.splitOn '\n').length then []
          else d.excerpt line (String.ofList own)) ∧
      (printed = [] ∨ ∃ before shown after, ShownAt text.toList (index + 1) before shown after ∧
        printed = d.excerpt line (String.ofList shown)) := by
  rcases Command.analyzeFile_cases ran with unplaced | ⟨text, b, readable, same, analyzed⟩
  · rw [unplaced d mem] at placed
    cases placed
  rw [same] at mem
  have file := Analysis.filename_of_analyze analyzed d mem
  dsimp only at file
  obtain ⟨line', here, counted⟩ := Analysis.counted_of_analyze analyzed mem
  obtain rfl : line' = line := Option.some.inj (here.symm.trans placed)
  obtain ⟨index, own, rfl, found⟩ := counted.exists_own
  have snippet := readSnippet_eq (PathName.plain_ofText entry) readable file
  rw [snippet_eq placed] at snippet
  refine ⟨text, index, own, _, readable, counted, rfl, found, prints_of_readSnippet snippet, ?_, ?_⟩
  · intro plain
    rw [displayLines, linesFrom_getElem? found plain]
    split_ifs <;> rfl
  · cases shown : (displayLines text)[index]? with
    | none => exact .inl rfl
    | some piece =>
      obtain ⟨before, after, place⟩ :=
        exists_shownAt (FileTree.no_return_of_readText readable) shown
      exact .inr ⟨before, piece.toList, after, place, by rw [String.ofList_toList]; rfl⟩

/-- A directory with one file. -/
def FileTree.ofMain (text : String) : FileTree :=
  { entries := ⟨[(["main.ff"], .file text.toUTF8)]⟩ }

/-- An export of no function, on the last of three lines. -/
def lastExport : String := "// a\n\nexport f"

theorem Diagnostic.snippet_shows_counted_line_lastExport :
    ∃ a events, Command.analyzeFile (FileTree.ofMain lastExport).readText {} (.ofText "main.ff")
        #[] = .ok a events ∧
      ∃ d ∈ a.diagnostics, d.line = some 3 ∧
        d.Prints (FileTree.ofMain lastExport).readText (d.excerpt 3 "export f") := by
  have text : ((FileTree.ofMain lastExport).readText (.ofText "main.ff")).toOption =
      some lastExport := by decide +kernel
  have lines : lastExport.toList.splitOn '\n' = ["// a".toList, [], "export f".toList] := by
    decide +kernel
  have plain : ["// a".toList, [], "export f".toList].all (·.all (!endsLine ·)) = true := by
    decide +kernel
  have found : (EStateM.run' (Command.analyzeFile (FileTree.ofMain lastExport).readText {}
      (.ofText "main.ff")) #[]).any (fun a => a.diagnostics.any (·.line = some 3)) = true := by
    decide +kernel
  delta EStateM.run' at found
  cases ran : Command.analyzeFile (FileTree.ofMain lastExport).readText {} (.ofText "main.ff")
      #[] with
  | error e events => simp [EStateM.run, ran] at found
  | ok a events =>
    simp only [EStateM.run, ran, Option.any_some, List.any_eq_true, decide_eq_true_eq] at found
    obtain ⟨d, mem, placed⟩ := found
    refine ⟨a, events, rfl, d, mem, placed, ?_⟩
    obtain ⟨read, index, own, printed, readable, -, line, here, prints, shows, -⟩ :=
      snippet_shows_counted_line ran mem placed
    obtain rfl : lastExport = read := by simpa [readable, Except.toOption] using text.symm
    obtain rfl : index = 2 := by omega
    rw [lines] at here shows
    obtain rfl : "export f".toList = own := Option.some.inj here
    have plain : ∀ l ∈ ["// a".toList, [], "export f".toList], ∀ c ∈ l, endsLine c = false := by
      simpa using plain
    rw [shows plain] at prints
    exact prints

/-- Behind a form feed, a snippet shows what stands before the line. -/
theorem Diagnostic.snippet_shows_other_line_formFeed :
    (EStateM.run' (Command.analyzeFile (FileTree.ofMain "// a\x0cb\nexport f\n").readText {}
        (.ofText "main.ff")) #[]).map (fun a => a.diagnostics.map fun d => (d.line,
          (d.readSnippet (FileTree.ofMain "// a\x0cb\nexport f\n").readText).toOption)) =
      some [(some 2, some ["    2 | b", "      | ^^^^^^^^"])] ∧
    ("// a\x0cb\nexport f\n".toList.splitOn '\n')[1]? = some "export f".toList := by
  decide +kernel

end ConstFun
