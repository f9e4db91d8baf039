import Frontend.Proofs.Grammar.Rounds

/-!
# Appending

A program without a fault, of which the last statement is closed by a token of its own, is read in
front of any text as it is read alone, and the text behind it is read as if it stood alone too.
-/

namespace Frontend

namespace Grammar

/-! ## Closed statements -/

namespace Derives

variable {levels : Nat} {tokens : List Token} {next : Token} {diagnostics : List Diagnostic}

theorem block_last {body : Block}
    (hderives : Derives (.block levels body) tokens next diagnostics) :
    ∃ last, tokens.getLast? = some last ∧ last.kind = .rBrace := by
  cases hderives with
  | block _ _ hcloser => exact ⟨_, List.getLast?_concat, hcloser⟩

/-- The last token of a closed statement closes it. -/
theorem statement_last {read : Statement}
    (hderives : Derives (.statement levels read) tokens next diagnostics)
    (hclosed : ¬ read.IsUnclosed) :
    ∃ last, tokens.getLast? = some last ∧ (last.kind = .semicolon ∨ last.kind = .rBrace) := by
  cases hderives with
  | letWithoutValue _ _ hcloser => exact ⟨_, rfl, .inl hcloser⟩
  | binding _ _ _ _ hcloser => exact ⟨_, List.getLast?_concat, .inl hcloser⟩
  | namedFunction _ _ _ _ _ hbody =>
      obtain ⟨last, hlast, hkind⟩ := hbody.block_last
      refine ⟨last, ?_, .inr hkind⟩
      rw [List.getLast?_append, List.getLast?_cons, hlast]
      rfl
  | returned _ _ hcloser => exact ⟨_, List.getLast?_concat, .inl hcloser⟩
  | closed _ _ hcloser => exact ⟨_, List.getLast?_concat, .inl hcloser⟩
  | unclosed _ hvalue _ => exact absurd hvalue.expression_span.2.symm hclosed

end Derives

namespace Row

variable {levels : Nat} {next : Token} {statements : List Statement} {tokens : List Token}
variable {diagnostics : List Diagnostic}

/-- Every statement has tokens. -/
theorem statements_eq_nil (hrow : Row levels next statements tokens diagnostics)
    (hempty : tokens = []) : statements = [] := by
  cases hrow with
  | none => rfl
  | read hfirst _ => exact absurd (List.append_eq_nil_iff.mp hempty).1 hfirst.statement_span.1
  | skipped hlost _ =>
      obtain ⟨front, last, rfl, -⟩ := hlost
      simp at hempty

/-- If no token was skipped and the last statement is closed, so is the text: its last token is the
one that closes the statement. -/
theorem last_closes (hrow : Row levels next statements tokens diagnostics)
    (hquiet : diagnostics = [])
    (hclosed : ∀ read ∈ statements.getLast?, ¬ read.IsUnclosed) :
    ∀ last ∈ tokens.getLast?, last.kind = .semicolon ∨ last.kind = .rBrace := by
  induction hrow with
  | none => nofun
  | @read first statements front tokens _ _ hfirst hrest ih =>
      obtain ⟨-, hquiet⟩ := List.append_eq_nil_iff.mp hquiet
      intro last hlast
      cases tokens with
      | nil =>
          obtain rfl := hrest.statements_eq_nil rfl
          obtain ⟨closer, hcloser, hkind⟩ := hfirst.statement_last (hclosed first rfl)
          rw [List.append_nil, hcloser] at hlast
          obtain rfl := Option.some.inj hlast
          exact hkind
      | cons token tokens =>
          refine ih hquiet (fun read hread => hclosed read ?_) last ?_
          · rw [List.getLast?_cons, hread]
            rfl
          · rwa [List.getLast?_append, List.getLast?_cons, Option.some_or,
              ← List.getLast?_cons] at hlast
  | skipped hlost _ _ =>
      obtain ⟨hquiet, -⟩ := List.append_eq_nil_iff.mp hquiet
      exact absurd hquiet hlost.ne_nil

end Row

/-! ## Rounds that go on -/

/-- The text on the right goes on at `after` where the one on the left ends.  Nothing is moved, as
both texts start at the same place. -/
def Joint.continued (stop : Nat) (after : Cursor) : Joint where
  move := id
  monotone := monotone_id
  left := ⟨[], stop⟩
  right := after

/-- No offset is changed in front of such a joint. -/
theorem Joint.mapSpans_continued (stop : Nat) (after : Cursor) :
    Statement.mapSpans (Span.moved (Joint.continued stop after).move) = id :=
  funext Statement.mapSpans_id

/-- A cursor over tokens of a text stands on the end token only behind all of them. -/
theorem size_eq_zero_of_current {cursor : Cursor}
    (hreal : ∀ token ∈ cursor.pending, token.kind ≠ .eof) (hend : cursor.current.kind = .eof) :
    cursor.size = 0 := by
  obtain ⟨_ | ⟨token, tokens⟩, stop⟩ := cursor
  · rfl
  · exact absurd hend (hreal token List.mem_cons_self)

/-- A statement without a diagnostic was read through a token of its own. -/
theorem statement_of_quiet {cursor : Cursor}
    (hreal : ∀ token ∈ cursor.pending, token.kind ≠ .eof)
    (hquiet : (statement maxNesting cursor).diagnostics = []) :
    ∃ read, (statement maxNesting cursor).value = some read ∧
      0 < (statement maxNesting cursor).stop.size ∧
      ∀ token ∈ (statement maxNesting cursor).stop.advance.pending, token.kind ≠ .eof := by
  have hdelivers := statement_delivers maxNesting cursor
  cases hvalue : (statement maxNesting cursor).value with
  | none => exact absurd hquiet (hdelivers.fault hvalue).ne_nil
  | some read =>
      obtain ⟨tokens, hthrough, -⟩ := hdelivers.value read hvalue
      rw [hthrough.pending, List.forall_mem_append] at hreal
      have hlast := hreal.1 _ (List.mem_of_getLast? hthrough.last)
      exact ⟨read, rfl, Cursor.size_pos_of_current hlast, hreal.2⟩

/-- The last statement is settled because it is closed, any other because more tokens follow.  So
none of them is read otherwise if the text goes on. -/
theorem settled_continued (stop : Nat) (after : Cursor) {cursor : Cursor} {read : Statement}
    (hread : (statement maxNesting cursor).value = some read)
    (hsize : 0 < (statement maxNesting cursor).stop.size)
    (hclosed : (statement maxNesting cursor).stop.advance.current.kind = .eof →
      ¬ read.IsUnclosed) :
    (Joint.continued stop after).Settled
      (fun read => read.IsUnclosed → (Joint.continued stop after).Sealed)
      (statement maxNesting cursor) := by
  have hends : (Joint.continued stop after).left.size = 0 := rfl
  have hmoved := (statement maxNesting cursor).stop.size_advance
  by_cases hlast : (statement maxNesting cursor).stop.advance.current.kind = .eof
  · exact .inr ⟨read, hread, fun hunclosed => absurd hunclosed (hclosed hlast), .inr (by omega)⟩
  · have hmore := Cursor.size_pos_of_current hlast
    exact .inl (.inr (by omega))

/-- A quiet reading up to the end of the text on the left is the beginning of the one on the right,
round for round. -/
theorem rounds_continued {stop : Nat} {after : Cursor} (left right : Cursor)
    (hbeside : (Joint.continued stop after).Beside left right)
    (hreal : ∀ token ∈ left.pending, token.kind ≠ .eof)
    (hquiet : diagnosticsOf (rounds left) = [])
    (hclosed : ∀ read ∈ (statementsOf (rounds left)).getLast?, ¬ read.IsUnclosed) :
    statementsOf (rounds right) = statementsOf (rounds left) ++ statementsOf (rounds after) ∧
      diagnosticsOf (rounds right) = diagnosticsOf (rounds after) := by
  have hends : (Joint.continued stop after).left.size = 0 := rfl
  by_cases hend : left.current.kind = .eof
  · have hright := hbeside.right_eq ((size_eq_zero_of_current hreal hend).trans hends.symm)
    rw [rounds_of_eof hend, hright]
    exact ⟨rfl, rfl⟩
  · have hsize := Cursor.size_pos_of_current hend
    rw [diagnosticsOf_rounds hend] at hquiet
    rw [statementsOf_rounds hend] at hclosed ⊢
    obtain ⟨hfirstQuiet, hrestQuiet⟩ := List.append_eq_nil_iff.mp hquiet
    obtain ⟨read, hread, hstopSize, hlater⟩ := statement_of_quiet hreal hfirstQuiet
    rw [hread] at hclosed ⊢
    have hstop := (statement maxNesting left).size_le
    have hmoved := (statement maxNesting left).stop.size_advance
    have hsettled := settled_continued stop after hread hstopSize fun hlast => by
      rw [rounds_of_eof hlast] at hclosed
      exact hclosed read rfl
    have hshares := hsettled.shares
    obtain ⟨hstopBeside, hvalue, hdiagnostics⟩ :=
      statement_follows maxNesting left right hbeside hsettled
    rw [hread, Joint.mapSpans_continued, Option.map_id, id] at hvalue
    obtain ⟨hstatements, hrest⟩ := rounds_continued _ _ (hstopBeside.advance hshares) hlater
      hrestQuiet fun last hlast => hclosed last (by
        rw [List.getLast?_append, hlast]
        rfl)
    rw [hbeside.current_kind (hshares.of_le (by omega))] at hend
    rw [hfirstQuiet] at hdiagnostics
    rw [statementsOf_rounds hend, diagnosticsOf_rounds hend, hrest,
      List.map_eq_nil_iff.mp hdiagnostics.symm, hstatements, ← hvalue, List.append_assoc]
    exact ⟨rfl, rfl⟩
termination_by left.size
decreasing_by omega

end Grammar

open Grammar

/-- No text changes the tokens of a quiet one in front of it that ends with its last token, if the
last statement there is closed. -/
theorem tokens_append_of_quiet {first : String} (second : List Char)
    (hquiet : (readProgram first).diagnostics = [])
    (hend : first = "" ∨ ∃ last, (lex first).dropLast.getLast? = some last ∧
      last.span.stop = byteLength first.toList)
    (hclosed : ∀ read ∈ (readProgram first).program.statements.getLast?, ¬ read.IsUnclosed) :
    (⟨0, first.toList ++ second⟩ : Lexer).tokens =
      (Lexer.ofText first).tokens ++ (⟨byteLength first.toList, second⟩ : Lexer).tokens := by
  have hrow := (readProgram_derives first).row.last_closes hquiet hclosed
  have hstop : (Lexer.ofText first).tokens.getLast?.elim 0 (·.span.stop) =
      (Lexer.ofText first).stop := by
    rw [Lexer.stop_ofText]
    rcases hend with rfl | ⟨last, hlast, hlastStop⟩
    · rw [Lexer.tokens_of_rest_eq_nil rfl]
      rfl
    · rw [lex_dropLast] at hlast
      rw [hlast]
      exact hlastStop
  have htokens := Lexer.tokens_append (Lexer.ofText first) second hrow hstop
  rw [Lexer.stop_ofText] at htokens
  exact htokens

/-- The tokens of the first text are in front of those of the second one. -/
theorem continued_beside {first second : String}
    (htokens : (⟨0, first.toList ++ second.toList⟩ : Lexer).tokens =
      (Lexer.ofText first).tokens ++ (⟨byteLength first.toList, second.toList⟩ : Lexer).tokens) :
    (Joint.continued (Lexer.ofText first).stop
        (.ofLexer ⟨byteLength first.toList, second.toList⟩)).Beside
      (.ofLexer (Lexer.ofText first)) (.ofLexer (Lexer.ofText (first ++ second))) := by
  refine ⟨(Lexer.ofText first).tokens, ?_, rfl, ?_, ?_⟩
  · simp [Joint.continued, Cursor.ofLexer]
  · rw [Cursor.ofLexer, Lexer.ofText, String.toList_append]
    exact htokens
  · rw [Cursor.ofLexer, Lexer.stop_ofText, String.toList_append, byteLength_append]
    rfl

/-- Behind a closed program without a fault, any text is read as it is read alone, with its
statements further on and with the same messages. -/
theorem parse_append {first second : String} {program : Program}
    (hparse : parse first false = .ok (program, []))
    (hend : first = "" ∨ ∃ last, (lex first).dropLast.getLast? = some last ∧
      last.span.stop = byteLength first.toList)
    (hclosed : ∀ read ∈ program.statements.getLast?, ¬ read.IsUnclosed) :
    ∃ appended whole errors, parse second false = .ok (appended, errors) ∧
      parse (first ++ second) false = .ok (whole, errors) ∧
      whole.statements = program.statements ++
        appended.statements.map
          (Statement.mapSpans (Span.moved (· + byteLength first.toList))) := by
  obtain ⟨rfl, hmessages⟩ := parse_eq_ok hparse
  have hquiet : (readProgram first).diagnostics = [] := List.map_eq_nil_iff.mp hmessages.symm
  have htokens := tokens_append_of_quiet second.toList hquiet hend hclosed
  have hbeside := continued_beside htokens
  obtain ⟨hfirst, hfirstDiagnostics⟩ := readProgram_rounds (.ofLexer (Lexer.ofText first))
  obtain ⟨hwhole, hwholeDiagnostics⟩ :=
    readProgram_rounds (.ofLexer (Lexer.ofText (first ++ second)))
  obtain ⟨hafter, hafterDiagnostics⟩ :=
    readProgram_rounds (.ofLexer ⟨byteLength first.toList, second.toList⟩)
  obtain ⟨hmoved, hmovedDiagnostics⟩ := readProgram_moved (byteLength first.toList) second.toList
  rw [String.ofList_toList] at hmoved hmovedDiagnostics
  obtain ⟨hstatements, hdiagnostics⟩ := rounds_continued _ _ hbeside
    (fun _ hmember => Lexer.kind_ne_eof_of_mem_tokens hmember)
    (hfirstDiagnostics.symm.trans hquiet) (hfirst ▸ hclosed)
  have hwholeMessages : messages (readProgram (first ++ second)).diagnostics =
      messages (readProgram second).diagnostics := by
    rw [readProgram, hwholeDiagnostics, hdiagnostics, ← hafterDiagnostics, hmovedDiagnostics,
      messages_moved]
  refine ⟨(readProgram second).program, (readProgram (first ++ second)).program, _,
    parse_lenient second, ?_, ?_⟩
  · rw [parse_lenient, hwholeMessages]
  · rw [← hmoved, hafter]
    exact hwhole.trans (hstatements.trans (congrArg (· ++ _) hfirst.symm))

/-- A string of five bytes with its semicolon, in front of a text with a fault. -/
theorem parse_append_string :
    parse "\"é\";" false =
        .ok (⟨[.expression (.string ⟨0, 4⟩ "\"é\"") ⟨0, 5⟩], ⟨0, 5⟩⟩, []) ∧
      (lex "\"é\";").dropLast.getLast? = some ⟨.semicolon, ";", ⟨4, 5⟩⟩ ∧
      ¬ (Statement.expression (.string ⟨0, 4⟩ "\"é\"") ⟨0, 5⟩).IsUnclosed ∧
      ∃ appended whole errors, parse "b <;" false = .ok (appended, errors) ∧
        parse ("\"é\";" ++ "b <;") false = .ok (whole, errors) ∧
        whole.statements = [.expression (.string ⟨0, 4⟩ "\"é\"") ⟨0, 5⟩] ++
          appended.statements.map (Statement.mapSpans (Span.moved (· + 5))) := by
  have hparse : parse "\"é\";" false =
      .ok (⟨[.expression (.string ⟨0, 4⟩ "\"é\"") ⟨0, 5⟩], ⟨0, 5⟩⟩, []) := by with_unfolding_all rfl
  have hlast : (lex "\"é\";").dropLast.getLast? = some ⟨.semicolon, ";", ⟨4, 5⟩⟩ := by
    decide +kernel
  have hclosed : ¬ (Statement.expression (.string ⟨0, 4⟩ "\"é\"") ⟨0, 5⟩).IsUnclosed :=
    (by decide : (⟨0, 5⟩ : Span) ≠ ⟨0, 4⟩)
  refine ⟨hparse, hlast, hclosed, parse_append hparse (.inr ⟨_, hlast, rfl⟩) ?_⟩
  intro read hread
  obtain rfl := Option.some.inj hread
  exact hclosed

end Frontend
