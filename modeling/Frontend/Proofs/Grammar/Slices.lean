import Frontend.Proofs.Grammar.Rounds

/-!
# Slices

A statement that was read from a text is read again, alone and with the same diagnostics, from the
stretch of the text that it spans.  What followed it in the text made it end, and so does the end
of the stretch.
-/

namespace Frontend

open Grammar

namespace Grammar

variable {lexer : Lexer} {cursor : Cursor} {read : Statement}

/-- The tokens of a statement are those of the stretch that it spans.  Read alone, the stretch has
no others. -/
theorem statement_stretch (hleads : (Cursor.ofLexer lexer).Leads cursor)
    (hcurrent : cursor.current.kind ≠ .eof)
    (hread : (statement maxNesting cursor).value = some read) :
    ∃ front inside more, lexer.rest = front ++ inside ++ more ∧
      lexer.offset + byteLength front = read.span.start ∧
      read.span.start + byteLength inside = read.span.stop ∧
      cursor.pending = (⟨read.span.start, inside⟩ : Lexer).tokens ++
        (statement maxNesting cursor).stop.advance.pending ∧
      (statement maxNesting cursor).stop.current.kind ≠ .eof := by
  obtain ⟨front, text, hrest, hstart, hplaced⟩ := hleads.placed hcurrent
  obtain ⟨tokens, hthrough, hderives⟩ :=
    (statement_delivers maxNesting cursor).value read hread
  have hspan := hderives.statement_span.2
  rw [hthrough.spanOver_eq] at hspan
  have htokens : (⟨cursor.current.span.start, text⟩ : Lexer).tokens =
      tokens ++ (statement maxNesting cursor).stop.advance.pending :=
    (congrArg Cursor.pending hplaced).symm.trans hthrough.pending
  obtain ⟨inside, more, htext, hstop, hinside⟩ := Lexer.tokens_upTo htokens hthrough.last
  have htext : text = inside ++ more := htext
  have hlast := List.mem_of_getLast? hthrough.last
  rw [hspan]
  refine ⟨front, inside, more, ?_, hstart, hstop, ?_, ?_⟩
  · rw [hrest, htext, List.append_assoc]
  · rw [Cursor.spanFrom_start, hinside]
    exact hthrough.pending
  · rw [← hinside] at hlast
    exact Lexer.kind_ne_eof_of_mem_tokens hlast

/-- A statement in front of the joint is the only one on the right, if the text there ends at the
joint.  There is nothing left for another round. -/
theorem rounds_sealed {joint : Joint} {right : Cursor} (hsealed : joint.Sealed)
    (hbeside : joint.Beside cursor right) (hcurrent : cursor.current.kind ≠ .eof)
    (hread : (statement maxNesting cursor).value = some read)
    (hlast : (statement maxNesting cursor).stop.current.kind ≠ .eof)
    (hafter : (statement maxNesting cursor).stop.advance = joint.left) :
    (statementsOf (rounds right)).map (Statement.mapSpans (Span.moved joint.move)) = [read] ∧
      (diagnosticsOf (rounds right)).map (Diagnostic.moved joint.move) =
        (statement maxNesting cursor).diagnostics := by
  have hsize : 0 < (statement maxNesting cursor).stop.size := Cursor.size_pos_of_current hlast
  have hmoved := (statement maxNesting cursor).stop.size_advance
  have hstopSize := (statement maxNesting cursor).size_le
  rw [hafter] at hmoved
  have hshares : joint.Shares 1 (statement maxNesting cursor).stop := .inr (by omega)
  have hstart : joint.Shares 1 cursor := hshares.of_le (by omega)
  obtain ⟨hstop, hvalue, hdiagnostics⟩ := statement_follows maxNesting cursor right hbeside
    (.inr ⟨read, hread, fun _ => hsealed, hshares⟩)
  rw [hread] at hvalue
  obtain ⟨read', hread', rfl⟩ := Option.map_eq_some_iff.mp hvalue.symm
  have hjoint := (hstop.advance hshares).right_eq (congrArg Cursor.size hafter)
  have hend : (statement maxNesting right).stop.advance.current.kind = .eof := by
    rw [hjoint, Cursor.current, hsealed]
    rfl
  rw [hbeside.current_kind hstart] at hcurrent
  rw [rounds_of_current hcurrent, rounds_of_eof hend, hread', hdiagnostics]
  exact ⟨rfl, by simp [diagnosticsOf]⟩

end Grammar

/-- Every statement that is read from a text is the only one that is read from the stretch of the
text which it spans, with the diagnostics of its round and at offsets counted from its start. -/
theorem readProgram_slices (source : String) :
    (readProgram source).program.statements =
        statementsOf (rounds (.ofLexer (Lexer.ofText source))) ∧
      (readProgram source).diagnostics =
        diagnosticsOf (rounds (.ofLexer (Lexer.ofText source))) ∧
      ∀ round ∈ rounds (.ofLexer (Lexer.ofText source)), ∀ read, round.read = some read →
        ∃ inside, read.span.slice? source.toList = some inside ∧
          (readProgram (String.ofList inside)).program.statements.map
              (Statement.mapSpans (Span.moved (· + read.span.start))) = [read] ∧
            (readProgram (String.ofList inside)).diagnostics.map
              (Diagnostic.moved (· + read.span.start)) = round.diagnostics := by
  obtain ⟨hstatements, hdiagnostics⟩ := readProgram_rounds (.ofLexer (Lexer.ofText source))
  refine ⟨hstatements, hdiagnostics, fun round hround read hread => ?_⟩
  obtain ⟨earlier, later, hrounds⟩ := List.append_of_mem hround
  obtain ⟨hleads, hstart⟩ := rounds_from hrounds
  obtain ⟨hcurrent, hparts, -⟩ := rounds_eq_cons hstart
  have hvalue : (statement maxNesting round.start).value = some read :=
    (congrArg Round.read hparts).symm.trans hread
  obtain ⟨front, inside, more, htext, hfront, hinside, hpending, hlast⟩ :=
    statement_stretch hleads hcurrent hvalue
  have hstopEq := (statement_delivers maxNesting round.start).leads.stop_eq
  have hbeside := Joint.part_beside hpending hstopEq.symm
  have hsealed : (Joint.part read.span.start (statement maxNesting round.start).stop.advance
      inside).Sealed := rfl
  obtain ⟨halone, haloneDiagnostics⟩ := rounds_sealed hsealed hbeside hcurrent hvalue hlast rfl
  obtain ⟨hinsideStatements, hinsideDiagnostics⟩ := readProgram_rounds (.ofLexer ⟨0, inside⟩)
  refine ⟨inside, ?_, ?_, ?_⟩
  · have hslice := Span.slice?_append front inside more
    have hstart : byteLength front = read.span.start := (Nat.zero_add _).symm.trans hfront
    rw [hstart, hinside, ← htext] at hslice
    exact hslice
  · rw [readProgram_ofList, hinsideStatements]
    exact halone
  · rw [readProgram_ofList, hinsideDiagnostics, hparts]
    exact haloneDiagnostics

/-- A conditional with a fault in its block. -/
def faultyConditional : Statement :=
  .expression
    (.conditional ⟨3, 11⟩ (.identifier ⟨6, 7⟩ ⟨"a", ⟨6, 7⟩⟩) ⟨[], ⟨8, 11⟩⟩ none) ⟨3, 11⟩

/-- The fault is found again in the stretch that the conditional spans. -/
theorem readProgram_slices_faultyConditional :
    (readProgram "é if(a){<}").program.statements = [faultyConditional] ∧
      ∃ inside, Span.slice? ⟨3, 11⟩ "é if(a){<}".toList = some inside ∧
        (readProgram (String.ofList inside)).program.statements.map
            (Statement.mapSpans (Span.moved (· + 3))) = [faultyConditional] ∧
          (readProgram (String.ofList inside)).diagnostics.map (Diagnostic.moved (· + 3)) =
            [⟨.noOperand .lt, some ⟨9, 10⟩⟩] := by
  have hprogram : (readProgram "é if(a){<}").program.statements = [faultyConditional] := by
    with_unfolding_all rfl
  have hrounds : (some faultyConditional, [⟨.noOperand .lt, some ⟨9, 10⟩⟩]) ∈
      (rounds (.ofLexer (Lexer.ofText "é if(a){<}"))).map fun round =>
        (round.read, round.diagnostics) := by
    have hall : ((rounds (.ofLexer (Lexer.ofText "é if(a){<}"))).map fun round =>
        (round.read, round.diagnostics)) =
          [(none, [⟨.noOperand .illegal, some ⟨0, 2⟩⟩]),
            (some faultyConditional, [⟨.noOperand .lt, some ⟨9, 10⟩⟩])] := by with_unfolding_all rfl
    rw [hall]
    exact List.mem_cons_of_mem _ List.mem_cons_self
  obtain ⟨round, hround, hparts⟩ := List.mem_map.mp hrounds
  obtain ⟨hread, hdiagnostics⟩ := Prod.mk.inj hparts
  rw [← hdiagnostics]
  exact ⟨hprogram, (readProgram_slices "é if(a){<}").2.2 round hround faultyConditional hread⟩

end Frontend
