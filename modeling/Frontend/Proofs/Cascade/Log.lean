import Frontend.Proofs.Trace.Narration

/-!
# Logs of readings

A log of a reading has an entry for each diagnostic that the reader notes of its own and one for
each statement that it calls for, in order.  What is noted while the statement is read, and which
other statements are called for there, is left to the log of that statement, so a log tells a
reader's own part in the diagnostics from that of the statements inside.  A log knows that nothing
is missing in it, and that a fault is noted at least once and not much more often.
-/

namespace Frontend

/-! ## Kinds of statements -/

/-- The kind of the statement that an event tells of. -/
def Event.startedKind? : Event → Option Kind
  | .statementStarted kind _ => some kind
  | _ => none

/-- The kinds of the statements that some events tell of. -/
def startedKinds (events : List Event) : List Kind := events.filterMap Event.startedKind?

@[simp]
theorem startedKinds_append (earlier later : List Event) :
    startedKinds (earlier ++ later) = startedKinds earlier ++ startedKinds later :=
  List.filterMap_append

theorem length_startedKinds (events : List Event) :
    (startedKinds events).length = (startsOf events).length := by
  induction events with
  | nil => rfl
  | cons event events ih =>
      cases event with
      | statementStarted kind offset => exact congrArg Nat.succ ih
      | _ => exact ih

@[simp]
theorem startedKinds_warnings (tokens : List Token) :
    startedKinds (Event.warnings tokens) = [] := by
  refine List.length_eq_zero_iff.mp ?_
  rw [length_startedKinds, startsOf_warnings, List.length_nil]

@[simp]
theorem startedKinds_broughtIntoView (cursor : Cursor) :
    startedKinds cursor.broughtIntoView = [] :=
  startedKinds_warnings _

/-! ## Entries -/

/-- A diagnostic that a reader notes, or a statement that it calls for.  Notes are counted, while
calls have logs of their own. -/
inductive LogEntry where
  | noted (diagnostic : Diagnostic)
  | called (levels : Nat) (cursor : Cursor)

namespace LogEntry

/-- The diagnostics that come up with an entry. -/
def diagnostics : LogEntry → List Diagnostic
  | noted diagnostic => [diagnostic]
  | called levels cursor => (Grammar.statement levels cursor).diagnostics

/-- The kinds of the statements that are started with an entry. -/
def started : LogEntry → List Kind
  | noted _ => []
  | called levels cursor => startedKinds (Grammar.statement levels cursor).events

/-- The diagnostic that the reader notes of its own, rather than one that comes up in a statement
that it calls for. -/
def note? : LogEntry → Option Diagnostic
  | noted diagnostic => some diagnostic
  | called _ _ => none

end LogEntry

/-- The diagnostics among some entries that the reader notes of its own. -/
def notesOf (entries : List LogEntry) : List Diagnostic := entries.filterMap LogEntry.note?

@[simp]
theorem notesOf_append (earlier later : List LogEntry) :
    notesOf (earlier ++ later) = notesOf earlier ++ notesOf later :=
  List.filterMap_append

theorem noted_mem_of_mem_notesOf {entries : List LogEntry} {diagnostic : Diagnostic}
    (hmember : diagnostic ∈ notesOf entries) : .noted diagnostic ∈ entries := by
  obtain ⟨entry, hentry, hnote⟩ := List.mem_filterMap.mp hmember
  cases entry with
  | noted other =>
      obtain rfl := Option.some.inj hnote
      exact hentry
  | called levels cursor => cases hnote

/-! ## Faults -/

namespace Outcome

variable {α : Type} {cursor : Cursor}

/-- Nothing comes of a reading but one diagnostic.  So it is with a reader that gives up at a single
token. -/
structure Faults (outcome : Outcome cursor α) : Prop where
  value : outcome.value = none
  diagnostics : ∃ diagnostic, outcome.diagnostics = [diagnostic]
  started : startedKinds outcome.events = []

theorem Faults.fault {problem : Problem} {span : Span} :
    (Outcome.fault cursor problem span : Outcome cursor α).Faults :=
  ⟨rfl, ⟨_, rfl⟩, rfl⟩

theorem Faults.afterAdvance {outcome : Outcome cursor.advance α} (hfaults : outcome.Faults) :
    (Outcome.afterAdvance outcome).Faults where
  value := hfaults.value
  diagnostics := hfaults.diagnostics
  started := by
    rw [Outcome.afterAdvance, startedKinds_append, startedKinds_broughtIntoView, hfaults.started]
    rfl

end Outcome

/-! ## Logs -/

/-- The log of a reading, which splits its diagnostics by who notes them.  At a fault there are
notes, one and some `extra` ones at most, and there are none if there is a value. -/
structure Log {α : Type} {cursor : Cursor} (extra : Nat) (outcome : Outcome cursor α) where
  entries : List LogEntry
  diagnostics_eq : outcome.diagnostics = entries.flatMap LogEntry.diagnostics
  started_eq : startedKinds outcome.events = entries.flatMap LogEntry.started
  quiet : ∀ value, outcome.value = some value → notesOf entries = []
  loud : outcome.value = none → notesOf entries ≠ [] ∧ (notesOf entries).length ≤ extra + 1

namespace Log

variable {α β : Type} {cursor : Cursor} {extra : Nat}

/-- There is nothing to tell of a value that needs no further token. -/
def done {value : α} : Log extra (Outcome.done cursor value) where
  entries := []
  diagnostics_eq := rfl
  started_eq := rfl
  quiet _ _ := rfl
  loud hnone := by cases hnone

variable {outcome : Outcome cursor α}

/-- The only diagnostic is a note. -/
def ofFaults (hfaults : outcome.Faults) : Log extra outcome where
  entries := outcome.diagnostics.map .noted
  diagnostics_eq := by
    obtain ⟨diagnostic, hdiagnostic⟩ := hfaults.diagnostics
    rw [hdiagnostic]
    rfl
  started_eq := by
    obtain ⟨diagnostic, hdiagnostic⟩ := hfaults.diagnostics
    rw [hdiagnostic, hfaults.started]
    rfl
  quiet value hsome := by
    rw [hfaults.value] at hsome
    cases hsome
  loud _ := by
    obtain ⟨diagnostic, hdiagnostic⟩ := hfaults.diagnostics
    rw [hdiagnostic]
    exact ⟨List.cons_ne_nil _ _, Nat.le_add_left 1 extra⟩

def fault {problem : Problem} {span : Span} :
    Log extra (Outcome.fault cursor problem span : Outcome cursor α) :=
  .ofFaults .fault

/-- Readings that come to the same have the same log. -/
def of_eq {same : Outcome cursor α} (heq : outcome = same) (log : Log extra same) :
    Log extra outcome where
  entries := log.entries
  diagnostics_eq := heq ▸ log.diagnostics_eq
  started_eq := heq ▸ log.started_eq
  quiet := heq ▸ log.quiet
  loud := heq ▸ log.loud

/-- More notes may be made. -/
def mono {more : Nat} (log : Log extra outcome) (hle : extra ≤ more) : Log more outcome where
  entries := log.entries
  diagnostics_eq := log.diagnostics_eq
  started_eq := log.started_eq
  quiet := log.quiet
  loud hnone := (log.loud hnone).imp_right fun hlength => by omega

def afterAdvance {outcome : Outcome cursor.advance α} (log : Log extra outcome) :
    Log extra (Outcome.afterAdvance outcome) where
  entries := log.entries
  diagnostics_eq := log.diagnostics_eq
  started_eq := by
    rw [Outcome.afterAdvance, startedKinds_append, startedKinds_broughtIntoView, List.nil_append,
      log.started_eq]
  quiet := log.quiet
  loud := log.loud

/-- Two parts in order, of which the first has a value and is noted nothing about.  So only the
second one can bring notes. -/
def followedBy {value : α} {rest : Outcome outcome.stop β} (first : Log extra outcome)
    (hvalue : outcome.value = some value) (second : Log extra rest) :
    Log extra (outcome.followedBy rest) where
  entries := first.entries ++ second.entries
  diagnostics_eq := by
    rw [Outcome.followedBy, first.diagnostics_eq, second.diagnostics_eq, List.flatMap_append]
  started_eq := by
    rw [Outcome.followedBy, startedKinds_append, first.started_eq, second.started_eq,
      List.flatMap_append]
  quiet last hlast := by
    rw [notesOf_append, first.quiet value hvalue, second.quiet last hlast, List.append_nil]
  loud hnone := by
    rw [notesOf_append, first.quiet value hvalue, List.nil_append]
    exact second.loud hnone

/-- A fault ends the reading. -/
def andThen {rest : α → (next : Cursor) → next.size ≤ cursor.size → Outcome next β}
    (first : Log extra outcome) (later : ∀ value next hsize, Log extra (rest value next hsize)) :
    Log extra (outcome.andThen rest) :=
  match hvalue : outcome.value with
  | some value =>
      .of_eq (Outcome.andThen_of_value hvalue) (first.followedBy hvalue (later value _ _))
  | none =>
      .of_eq (Outcome.andThen_of_fault hvalue)
        { entries := first.entries
          diagnostics_eq := first.diagnostics_eq
          started_eq := first.started_eq
          quiet := fun _ hsome => by cases hsome
          loud := fun _ => first.loud hvalue }

/-- One more note is made at a fault. -/
def orNote {problem : Problem} (log : Log extra outcome) :
    Log (extra + 1) (outcome.orNote problem) :=
  match hvalue : outcome.value with
  | some _ => .of_eq (Outcome.orNote_of_value hvalue) (log.mono (Nat.le_succ extra))
  | none =>
      .of_eq (Outcome.orNote_of_fault hvalue)
        { entries := log.entries ++ [.noted ⟨problem, some outcome.stop.current.span⟩]
          diagnostics_eq := by
            rw [log.diagnostics_eq, List.flatMap_append]
            rfl
          started_eq := by
            rw [log.started_eq, List.flatMap_append]
            exact (List.append_nil _).symm
          quiet := fun value hsome => by
            rw [hvalue] at hsome
            cases hsome
          loud := fun _ => by
            obtain ⟨-, hlength⟩ := log.loud hvalue
            rw [notesOf_append]
            refine ⟨List.append_ne_nil_of_right_ne_nil _ (List.cons_ne_nil _ _), ?_⟩
            rw [List.length_append]
            exact Nat.succ_le_succ hlength }

/-- A statement is called for, and reading goes on whether or not it has a value: what is wrong
inside it is noted in its own log. -/
def afterStatement (levels : Nat)
    {rest : Option Statement → (next : Cursor) → next.size ≤ cursor.size → Outcome next β}
    (later : ∀ read next hsize, Log extra (rest read next hsize)) :
    Log extra ((Grammar.statement levels cursor).regardless rest) :=
  let log := later (Grammar.statement levels cursor).value _
    (Grammar.statement levels cursor).size_le
  { entries := .called levels cursor :: log.entries
    diagnostics_eq := by
      rw [List.flatMap_cons, ← log.diagnostics_eq]
      rfl
    started_eq := by
      rw [List.flatMap_cons, ← log.started_eq]
      exact startedKinds_append _ _
    quiet := log.quiet
    loud := log.loud }

def expect {kind : Kind} {what : Expectation} : Log extra (cursor.expect kind what) :=
  if hkind : cursor.next.kind = kind then .of_eq (if_pos hkind) (.afterAdvance .done)
  else .of_eq (if_neg hkind) .fault

end Log

/-! ## Logs of statements -/

/-- A `return` may be noted to have no value after the fault in its value, as
`parse_return_statement` does.  No other statement has a second note. -/
def extraNotes (kind : Kind) : Nat := if kind = .kwReturn then 1 else 0

/-- The log of a statement, which is started before anything else is done.  That puts its own kind
in front of the kinds of what it calls for. -/
structure StatementLog (levels : Nat) (cursor : Cursor) where
  entries : List LogEntry
  diagnostics_eq : (Grammar.statement levels cursor).diagnostics =
    entries.flatMap LogEntry.diagnostics
  started_eq : startedKinds (Grammar.statement levels cursor).events =
    cursor.current.kind :: entries.flatMap LogEntry.started
  loud : (Grammar.statement levels cursor).value = none → notesOf entries ≠ []
  length_le : (notesOf entries).length ≤ extraNotes cursor.current.kind + 1

def Log.asStatement {levels extra : Nat} {cursor : Cursor} {outcome : Outcome cursor Statement}
    (log : Log extra outcome) (heq : Grammar.statement levels cursor = .asStatement outcome)
    (hextra : extra ≤ extraNotes cursor.current.kind) : StatementLog levels cursor where
  entries := log.entries
  diagnostics_eq := by
    rw [heq]
    exact log.diagnostics_eq
  started_eq := by
    rw [heq, ← log.started_eq]
    rfl
  loud hnone := by
    rw [heq] at hnone
    exact (log.loud hnone).1
  length_le := by
    cases hvalue : outcome.value with
    | some value =>
        rw [log.quiet value hvalue]
        exact Nat.zero_le _
    | none => exact (log.loud hvalue).2.trans (Nat.succ_le_succ hextra)

end Frontend
