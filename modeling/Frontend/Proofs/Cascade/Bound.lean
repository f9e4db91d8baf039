import Frontend.Proofs.Cascade.Readers
import Frontend.Proofs.Trace.Events

/-!
# Cascades of diagnostics

One fault may make all parts fail that it is inside of, and each of them may have something to add.
Still a statement notes at most one diagnostic of its own, or two if it is a `return`, because a
fault ends its reading, and what is wrong inside of a block is noted by the statements there.  So
there are no more diagnostics than statements that are started, with each `return` counted twice.
-/

namespace Frontend

/-- The number of diagnostics that there may be if statements of some kinds are started: one for
each, and one more for each `return`. -/
def allowance (kinds : List Kind) : Nat := kinds.length + kinds.count .kwReturn

theorem allowance_append (earlier later : List Kind) :
    allowance (earlier ++ later) = allowance earlier + allowance later := by
  simp only [allowance, List.length_append, List.count_append]
  omega

theorem allowance_cons (kind : Kind) (kinds : List Kind) :
    allowance (kind :: kinds) = extraNotes kind + 1 + allowance kinds := by
  simp only [allowance, extraNotes, List.length_cons, List.count_cons, beq_iff_eq]
  omega

theorem allowance_le (kinds : List Kind) : allowance kinds ≤ 2 * kinds.length := by
  have hcount := List.count_le_length (a := Kind.kwReturn) (l := kinds)
  rw [allowance]
  omega

/-- What comes up with some entries is bounded if it is for the statements that are called for.  The
notes are those of the reader itself, of which there are few. -/
theorem length_diagnostics_le {entries : List LogEntry}
    (hcalled : ∀ levels cursor, .called levels cursor ∈ entries →
      (Grammar.statement levels cursor).diagnostics.length ≤
        allowance (startedKinds (Grammar.statement levels cursor).events)) :
    (entries.flatMap LogEntry.diagnostics).length ≤
      (notesOf entries).length + allowance (entries.flatMap LogEntry.started) := by
  induction entries with
  | nil => exact Nat.le_refl _
  | cons entry entries ih =>
      have hrest := ih fun levels cursor hmember =>
        hcalled levels cursor (List.mem_cons_of_mem entry hmember)
      rw [List.flatMap_cons, List.flatMap_cons, List.length_append, allowance_append]
      cases entry with
      | noted diagnostic =>
          have hnotes :
              notesOf (.noted diagnostic :: entries) = diagnostic :: notesOf entries := rfl
          simp only [LogEntry.diagnostics, LogEntry.started, hnotes, List.length_cons,
            List.length_nil]
          omega
      | called levels cursor =>
          have hfirst := hcalled levels cursor List.mem_cons_self
          have hnotes : notesOf (.called levels cursor :: entries) = notesOf entries := rfl
          simp only [LogEntry.diagnostics, LogEntry.started, hnotes]
          omega

/-- A statement that is called for starts fewer statements than the one that calls for it.  The
bound is proved by induction on their number. -/
theorem StatementLog.length_started_lt {levels levels' : Nat} {cursor cursor' : Cursor}
    (log : StatementLog levels cursor) (hcalled : .called levels' cursor' ∈ log.entries) :
    (startedKinds (Grammar.statement levels' cursor').events).length <
      (startedKinds (Grammar.statement levels cursor).events).length := by
  rw [log.started_eq, List.length_cons]
  have hstarted := List.mem_map_of_mem (f := LogEntry.started) hcalled
  exact Nat.lt_succ_of_le (List.sublist_flatten_of_mem hstarted).length_le

namespace Grammar

theorem statement_diagnostics_le (levels : Nat) (cursor : Cursor) :
    (statement levels cursor).diagnostics.length ≤
      allowance (startedKinds (statement levels cursor).events) := by
  have hentries := length_diagnostics_le fun levels' cursor' hcalled =>
    have hless := (statementLog levels cursor).length_started_lt hcalled
    statement_diagnostics_le levels' cursor'
  have hnotes := (statementLog levels cursor).length_le
  rw [(statementLog levels cursor).diagnostics_eq, (statementLog levels cursor).started_eq,
    allowance_cons]
  omega
termination_by (startedKinds (statement levels cursor).events).length
decreasing_by exact hless

theorem programStatements_diagnostics_le (cursor : Cursor) :
    (programStatements cursor).diagnostics.length ≤
      allowance (startedKinds (programStatements cursor).events) := by
  have hlog : Log 0 (programStatements cursor) := programStatementsLog cursor
  obtain ⟨hvalue, -⟩ := programStatements_rounds cursor
  have hentries := length_diagnostics_le fun levels' cursor' (_ : _ ∈ hlog.entries) =>
    statement_diagnostics_le levels' cursor'
  rwa [hlog.quiet _ hvalue, List.length_nil, Nat.zero_add, ← hlog.diagnostics_eq,
    ← hlog.started_eq] at hentries

end Grammar

section

variable (source : String)

theorem Trace.startedKinds_ofParsing :
    startedKinds (ofParsing source) =
      startedKinds (Grammar.programStatements (.ofLexer (Lexer.ofText source))).events := by
  rw [ofParsing_eq, startedKinds_append, startedKinds_append, Cursor.inView, startedKinds_warnings]
  exact List.append_nil _

/-- Only the end token is of its kind. -/
theorem filter_ne_eof_lex :
    (lex source).filter (fun token => token.kind ≠ .eof) = (Lexer.ofText source).tokens := by
  have hall : ∀ token ∈ (Lexer.ofText source).tokens, decide (token.kind ≠ .eof) = true :=
    fun token hmember => decide_eq_true (Lexer.kind_ne_eof_of_mem_tokens hmember)
  rw [lex, Lexer.tokensToEnd, List.filter_append, List.filter_eq_self.mpr hall]
  exact List.append_nil _

/-- Each statement is started with a token of its own, so there are no more statements than
tokens. -/
theorem Trace.length_startedKinds_le :
    (startedKinds (ofParsing source)).length ≤
      ((lex source).filter fun token => token.kind ≠ .eof).length := by
  obtain ⟨stage, stop, -, hwalk⟩ := readProgram_walks source
  rw [length_startedKinds, startsOf_ofParsing, filter_ne_eof_lex]
  exact hwalk.startsOf_sublist.length_le.trans (Nat.le_of_eq (List.length_map _))

end

open Grammar

/-- There are at most as many diagnostics about a text as statements are started in it, with each
`return` counted twice, and so no more than two for each token.  The diagnostics of a statement are
those that it notes of its own and those of the statements that it calls for, and if it has no
value, it notes at least one of its own. -/
theorem readProgram_diagnostics_bounded (source : String) :
    (readProgram source).diagnostics.length ≤
        (startedKinds (Trace.ofParsing source)).length +
          (startedKinds (Trace.ofParsing source)).count .kwReturn ∧
      (readProgram source).diagnostics.length ≤
        2 * ((lex source).filter fun token => token.kind ≠ .eof).length ∧
      ∀ levels cursor,
        (statement levels cursor).diagnostics =
            (statementLog levels cursor).entries.flatMap LogEntry.diagnostics ∧
          startedKinds (statement levels cursor).events =
            cursor.current.kind ::
              (statementLog levels cursor).entries.flatMap LogEntry.started ∧
          ((statement levels cursor).value = none →
            ∃ diagnostic, .noted diagnostic ∈ (statementLog levels cursor).entries) := by
  have hbound : (readProgram source).diagnostics.length ≤
      allowance (startedKinds (Trace.ofParsing source)) := by
    rw [Trace.startedKinds_ofParsing]
    exact programStatements_diagnostics_le _
  refine ⟨hbound, ?_, fun levels cursor => ?_⟩
  · calc (readProgram source).diagnostics.length
        ≤ allowance (startedKinds (Trace.ofParsing source)) := hbound
      _ ≤ 2 * (startedKinds (Trace.ofParsing source)).length := allowance_le _
      _ ≤ 2 * ((lex source).filter fun token => token.kind ≠ .eof).length :=
          Nat.mul_le_mul_left 2 (Trace.length_startedKinds_le source)
  · refine ⟨StatementLog.diagnostics_eq _, StatementLog.started_eq _, fun hnone => ?_⟩
    obtain ⟨diagnostic, hmember⟩ :=
      List.exists_mem_of_ne_nil _ ((statementLog levels cursor).loud hnone)
    exact ⟨diagnostic, noted_mem_of_mem_notesOf hmember⟩

/-- A `return` alone is noted twice: nothing stands for its value, and so it has none. -/
example : (readProgram "return").diagnostics.length =
    2 * ((lex "return").filter fun token => token.kind ≠ .eof).length := by cbv

end Frontend
