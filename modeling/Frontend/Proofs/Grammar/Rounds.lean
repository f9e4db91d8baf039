import Frontend.Proofs.Grammar.Locality
import Frontend.Proofs.Lexing.Parts

/-!
# Rounds

A program is read in rounds.  Each round starts at a token, reads a statement or gives it up, and
leaves the token after that to the next round.  Nothing but that place is handed on: whatever was
read or given up before, the rounds from some token on are those of a parser that starts there, and
those of the text from there on by itself.
-/

namespace Frontend

namespace Grammar

/-- A round of reading: the cursor that it starts from, the statement unless it was given up, and
the diagnostics on the way.  It is one turn of the loop of `parse_program`. -/
structure Round where
  start : Cursor
  read : Option Statement
  diagnostics : List Diagnostic

/-- The rounds of reading to the end of a text, each of which starts one token after where the one
before it stopped. -/
def rounds (cursor : Cursor) : List Round :=
  if _hend : cursor.current.kind = .eof then []
  else
    ⟨cursor, (statement maxNesting cursor).value, (statement maxNesting cursor).diagnostics⟩ ::
      rounds (statement maxNesting cursor).stop.advance
termination_by cursor.size
decreasing_by
  have hsize := Cursor.size_pos_of_current _hend
  have hstop := (statement maxNesting cursor).size_le
  simp only [Cursor.size_advance]
  omega

/-- The statements of some rounds, of which those that were given up have none. -/
def statementsOf (rounds : List Round) : List Statement :=
  rounds.flatMap fun round => round.read.toList

def diagnosticsOf (rounds : List Round) : List Diagnostic := rounds.flatMap Round.diagnostics

section

variable {cursor : Cursor} {round : Round} {earlier later : List Round}

@[simp]
theorem statementsOf_append (earlier later : List Round) :
    statementsOf (earlier ++ later) = statementsOf earlier ++ statementsOf later :=
  List.flatMap_append

@[simp]
theorem diagnosticsOf_append (earlier later : List Round) :
    diagnosticsOf (earlier ++ later) = diagnosticsOf earlier ++ diagnosticsOf later :=
  List.flatMap_append

theorem rounds_of_eof (hend : cursor.current.kind = .eof) : rounds cursor = [] := by
  rw [rounds, dif_pos hend]

theorem rounds_of_current (hcurrent : cursor.current.kind ≠ .eof) :
    rounds cursor =
      ⟨cursor, (statement maxNesting cursor).value, (statement maxNesting cursor).diagnostics⟩ ::
        rounds (statement maxNesting cursor).stop.advance := by
  rw [rounds, dif_neg hcurrent]

theorem statementsOf_rounds (hcurrent : cursor.current.kind ≠ .eof) :
    statementsOf (rounds cursor) =
      (statement maxNesting cursor).value.toList ++
        statementsOf (rounds (statement maxNesting cursor).stop.advance) := by
  rw [rounds_of_current hcurrent]
  exact List.flatMap_cons

theorem diagnosticsOf_rounds (hcurrent : cursor.current.kind ≠ .eof) :
    diagnosticsOf (rounds cursor) =
      (statement maxNesting cursor).diagnostics ++
        diagnosticsOf (rounds (statement maxNesting cursor).stop.advance) := by
  rw [rounds_of_current hcurrent]
  exact List.flatMap_cons

/-- What a round is made of. -/
theorem rounds_eq_cons (hrounds : rounds cursor = round :: later) :
    cursor.current.kind ≠ .eof ∧
      round =
        ⟨cursor, (statement maxNesting cursor).value, (statement maxNesting cursor).diagnostics⟩ ∧
      later = rounds (statement maxNesting cursor).stop.advance := by
  by_cases hend : cursor.current.kind = .eof
  · rw [rounds_of_eof hend] at hrounds
    cases hrounds
  · rw [rounds_of_current hend] at hrounds
    obtain ⟨rfl, rfl⟩ := List.cons.inj hrounds
    exact ⟨hend, rfl, rfl⟩

/-- A round and those after it are the rounds from its start on. -/
theorem rounds_from (hrounds : rounds cursor = earlier ++ round :: later) :
    cursor.Leads round.start ∧ rounds round.start = round :: later := by
  induction earlier generalizing cursor with
  | nil =>
      obtain ⟨-, hround, -⟩ := rounds_eq_cons hrounds
      have hstart : round.start = cursor := congrArg Round.start hround
      rw [hstart]
      exact ⟨.refl cursor, hrounds⟩
  | cons first earlier ih =>
      obtain ⟨-, -, hrest⟩ := rounds_eq_cons hrounds
      obtain ⟨hleads, hstart⟩ := ih hrest.symm
      have hfirst := (statement_delivers maxNesting cursor).leads
      exact ⟨(hfirst.trans (.advance _)).trans hleads, hstart⟩

/-- Reading a program is reading its rounds: their statements and their diagnostics, each in
order. -/
theorem programStatements_rounds (cursor : Cursor) :
    (programStatements cursor).value = some (statementsOf (rounds cursor)) ∧
      (programStatements cursor).diagnostics = diagnosticsOf (rounds cursor) := by
  fun_induction rounds cursor with
  | case1 cursor hend =>
      rw [programStatements, dif_pos hend]
      exact ⟨rfl, rfl⟩
  | case2 cursor hcurrent ih =>
      obtain ⟨hvalue, hdiagnostics⟩ := ih
      rw [programStatements, dif_neg hcurrent]
      simp only [Outcome.regardless, Outcome.followedBy, Outcome.afterAdvance,
        Outcome.andThen_of_value hvalue, Outcome.done, List.append_nil, hdiagnostics]
      exact ⟨rfl, rfl⟩

theorem Cursor.readProgram_statements (cursor : Cursor) :
    cursor.readProgram.program.statements = (programStatements cursor).value.getD [] := rfl

theorem readProgram_rounds (cursor : Cursor) :
    cursor.readProgram.program.statements = statementsOf (rounds cursor) ∧
      cursor.readProgram.diagnostics = diagnosticsOf (rounds cursor) := by
  obtain ⟨hvalue, hdiagnostics⟩ := programStatements_rounds cursor
  refine ⟨?_, hdiagnostics⟩
  rw [Cursor.readProgram_statements, hvalue]
  rfl

end

/-! ## Programs at other places -/

/-- The wording of diagnostics does not depend on their places, so a text further on has the same
messages. -/
theorem messages_moved (move : Nat → Nat) (diagnostics : List Diagnostic) :
    messages (diagnostics.map (Diagnostic.moved move)) = messages diagnostics := by
  rw [messages, messages, List.map_map]
  exact List.map_congr_left fun diagnostic _ => diagnostic.moved_message

variable {joint : Joint}

/-- If nothing follows on either side, whole programs are read alike. -/
theorem programStatements_agrees (hcomplete : joint.Complete) (left right : Cursor)
    (hbeside : joint.Beside left right) :
    joint.Agrees (List.map (Statement.mapSpans (Span.moved joint.move)))
      (programStatements left) (programStatements right) := by
  have hkind := hbeside.current_kind (.inl hcomplete)
  suffices hfollows : joint.Follows (fun _ => True)
      (List.map (Statement.mapSpans (Span.moved joint.move)))
      (programStatements left) (programStatements right) from hfollows (.inl (.inl hcomplete))
  rw [programStatements.eq_def left, programStatements.eq_def right, hkind]
  split
  · exact .done hbeside rfl
  · next hend =>
      have hsize : 0 < left.size := Cursor.size_pos_of_current (hkind ▸ hend)
      refine (statement_follows maxNesting left right hbeside).regardless_afterAdvance ?_
      intro read last last' hlast _ hadvance
      have hmoved := last.size_advance
      have hrest := programStatements_agrees hcomplete last.advance last'.advance hadvance
      have hfollows : joint.Follows (fun _ => True) _ _ _ := fun _ => hrest
      refine hfollows.andThen (fun _ _ _ => trivial) ?_
      intro statements last last' _ _ hlast
      refine .done hlast ?_
      rw [List.map_append, Option.toList_map]
termination_by left.size
decreasing_by omega

/-- The text on the right is a part of the one on the left: its offsets are counted from `start`
there, and the cursor `after` is behind it. -/
def Joint.part (start : Nat) (after : Cursor) (text : List Char) : Joint where
  move := (· + start)
  monotone _ _ hle := Nat.add_le_add_right hle start
  left := after
  right := ⟨[], byteLength text⟩

/-- The tokens of the part stand in front of what follows it. -/
theorem Joint.part_beside {start : Nat} {after cursor : Cursor} {text : List Char}
    (hpending : cursor.pending = (⟨start, text⟩ : Lexer).tokens ++ after.pending)
    (hstop : cursor.stop = after.stop) :
    (part start after text).Beside cursor (.ofLexer ⟨0, text⟩) := by
  have htokens := Lexer.tokens_moved ⟨0, text⟩ start
  rw [Nat.zero_add] at htokens
  refine ⟨(⟨0, text⟩ : Lexer).tokens, ?_, hstop, (List.append_nil _).symm, Nat.zero_add _⟩
  rw [hpending, htokens]
  rfl

theorem readProgram_ofList (text : List Char) :
    readProgram (String.ofList text) = (Cursor.ofLexer ⟨0, text⟩).readProgram := by
  rw [readProgram, Lexer.ofText, String.toList_ofList]

/-- A text that is put at an offset is read as it is by itself, but for the offset.  All spans are
further on by it, and nothing else is changed. -/
theorem readProgram_moved (offset : Nat) (text : List Char) :
    (Cursor.ofLexer ⟨offset, text⟩).readProgram.program.statements =
        (readProgram (String.ofList text)).program.statements.map
          (Statement.mapSpans (Span.moved (· + offset))) ∧
      (Cursor.ofLexer ⟨offset, text⟩).readProgram.diagnostics =
        (readProgram (String.ofList text)).diagnostics.map (Diagnostic.moved (· + offset)) := by
  have hcomplete : (Joint.part offset ⟨[], offset + byteLength text⟩ text).Complete :=
    ⟨rfl, rfl, Nat.add_comm _ _⟩
  have hbeside : (Joint.part offset ⟨[], offset + byteLength text⟩ text).Beside
      (.ofLexer ⟨offset, text⟩) (.ofLexer ⟨0, text⟩) :=
    Joint.part_beside (List.append_nil _).symm rfl
  obtain ⟨-, hvalue, hdiagnostics⟩ := programStatements_agrees hcomplete _ _ hbeside
  rw [readProgram_ofList]
  refine ⟨?_, hdiagnostics⟩
  rw [Cursor.readProgram_statements, Cursor.readProgram_statements, hvalue]
  exact Option.getD_map (List.map (Statement.mapSpans (Span.moved (· + offset)))) [] _

end Grammar

/-! ## Starting anew -/

namespace Cursor.Leads

variable {lexer : Lexer} {cursor : Cursor}

/-- A cursor over the tokens of a text is where a lexer stands that has skipped those before.  Thus
a parser can be started there. -/
theorem skipped (hleads : (ofLexer lexer).Leads cursor) (hcurrent : cursor.current.kind ≠ .eof) :
    ∃ index, lexer.tokensToEnd.1[index]? = some cursor.current ∧
      cursor = .ofLexer (lexer.skip index) := by
  obtain ⟨before, hbefore⟩ := hleads.suffix
  have hpending : lexer.tokens = before ++ cursor.pending := hbefore.symm
  refine ⟨before.length, ?_, ?_⟩
  · obtain ⟨_ | ⟨token, tokens⟩, stop⟩ := cursor
    · exact absurd rfl hcurrent
    · rw [Lexer.tokensToEnd, hpending, List.append_assoc, List.cons_append,
        List.getElem?_append_right (Nat.le_refl _), Nat.sub_self, List.getElem?_cons_zero]
      rfl
  · rw [ofLexer, Lexer.tokens_skip, Lexer.stop_skip, hpending, List.drop_left]
    exact congrArg (Cursor.mk cursor.pending) hleads.stop_eq

/-- A cursor on a token of a text is at the front of the text from there on. -/
theorem placed (hleads : (ofLexer lexer).Leads cursor) (hcurrent : cursor.current.kind ≠ .eof) :
    ∃ front text, lexer.rest = front ++ text ∧
      lexer.offset + byteLength front = cursor.current.span.start ∧
      cursor = .ofLexer ⟨cursor.current.span.start, text⟩ := by
  obtain ⟨before, hbefore⟩ := hleads.suffix
  have hstop : cursor.stop = lexer.stop := hleads.stop_eq
  obtain ⟨_ | ⟨token, tokens⟩, stop⟩ := cursor
  · exact absurd rfl hcurrent
  · obtain ⟨front, text, hrest, hstart, htokens⟩ := Lexer.tokens_from hbefore.symm
    refine ⟨front, text, hrest, hstart, ?_⟩
    obtain rfl : stop = lexer.stop := hstop
    have hend : lexer.stop = (⟨token.span.start, text⟩ : Lexer).stop := by
      rw [Lexer.stop, Lexer.stop, hrest, byteLength_append, ← Nat.add_assoc, hstart]
    rw [ofLexer, hend]
    exact congrArg (Cursor.mk · _) htokens.symm

end Cursor.Leads

open Grammar

/-- Whatever was read or given up before, the rounds from a token on are those of a parser that
starts there, and those of the rest of the text by itself. -/
theorem readProgram_restarts {source : String} {earlier later : List Round} {round : Round}
    (hrounds : rounds (.ofLexer (Lexer.ofText source)) = earlier ++ round :: later) :
    (readProgram source).program.statements =
        statementsOf earlier ++ statementsOf (round :: later) ∧
      (readProgram source).diagnostics =
        diagnosticsOf earlier ++ diagnosticsOf (round :: later) ∧
      (∃ index, (lex source)[index]? = some round.start.current ∧
        let fresh := (Parser.ofLexer ((Lexer.ofText source).skip index)).program
        fresh.1.statements = statementsOf (round :: later) ∧
          fresh.2.diagnostics = diagnosticsOf (round :: later)) ∧
      ∃ front rest, source.toList = front ++ rest ∧
        byteLength front = round.start.current.span.start ∧
        statementsOf (round :: later) =
          (readProgram (String.ofList rest)).program.statements.map
            (Statement.mapSpans (Span.moved (· + byteLength front))) ∧
        diagnosticsOf (round :: later) =
          (readProgram (String.ofList rest)).diagnostics.map
            (Diagnostic.moved (· + byteLength front)) := by
  obtain ⟨hleads, hstart⟩ := rounds_from hrounds
  obtain ⟨hcurrent, -, -⟩ := rounds_eq_cons hstart
  obtain ⟨hstatements, hdiagnostics⟩ := readProgram_rounds (.ofLexer (Lexer.ofText source))
  obtain ⟨hlater, hlaterDiagnostics⟩ := readProgram_rounds round.start
  rw [hrounds, statementsOf_append] at hstatements
  rw [hrounds, diagnosticsOf_append] at hdiagnostics
  rw [hstart] at hlater hlaterDiagnostics
  refine ⟨hstatements, hdiagnostics, ?_, ?_⟩
  · obtain ⟨index, htoken, hskip⟩ := hleads.skipped hcurrent
    refine ⟨index, htoken, ?_⟩
    rw [Parser.ofLexer, ← hskip]
    exact ⟨hlater, hlaterDiagnostics⟩
  · obtain ⟨front, rest, htext, hfront, hplaced⟩ := hleads.placed hcurrent
    have hfront : byteLength front = round.start.current.span.start :=
      (Nat.zero_add _).symm.trans hfront
    obtain ⟨hmoved, hmovedDiagnostics⟩ := readProgram_moved (byteLength front) rest
    rw [← hfront] at hplaced
    rw [← hplaced] at hmoved hmovedDiagnostics
    refine ⟨front, rest, htext, hfront, ?_, ?_⟩
    · rw [← hlater, hmoved]
    · rw [← hlaterDiagnostics, hmovedDiagnostics]

/-- The round in which the stray character of `é 1;` is given up. -/
def strayRound : Round where
  start := ⟨[⟨.illegal, "é", ⟨0, 2⟩⟩, ⟨.int, "1", ⟨3, 4⟩⟩, ⟨.semicolon, ";", ⟨4, 5⟩⟩], 5⟩
  read := none
  diagnostics := [⟨.noOperand .illegal, some ⟨0, 2⟩⟩]

/-- The round after it. -/
def numeralRound : Round where
  start := ⟨[⟨.int, "1", ⟨3, 4⟩⟩, ⟨.semicolon, ";", ⟨4, 5⟩⟩], 5⟩
  read := some (.expression (.integer ⟨3, 4⟩ 1) ⟨3, 5⟩)
  diagnostics := []

/-- The stray character is two bytes long, so the statement after it is read as it is alone, three
bytes further on. -/
theorem readProgram_restarts_after_stray :
    rounds (.ofLexer (Lexer.ofText "é 1;")) = [strayRound] ++ numeralRound :: [] ∧
      ∃ front rest, "é 1;".toList = front ++ rest ∧ byteLength front = 3 ∧
        [.expression (.integer ⟨3, 4⟩ 1) ⟨3, 5⟩] =
          (readProgram (String.ofList rest)).program.statements.map
            (Statement.mapSpans (Span.moved (· + byteLength front))) := by
  have hrounds : rounds (.ofLexer (Lexer.ofText "é 1;")) = [strayRound] ++ numeralRound :: [] := by
    with_unfolding_all rfl
  obtain ⟨-, -, -, front, rest, htext, hfront, hstatements, -⟩ := readProgram_restarts hrounds
  exact ⟨hrounds, front, rest, htext, hfront, hstatements⟩

end Frontend
