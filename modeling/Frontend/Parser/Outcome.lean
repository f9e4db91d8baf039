import Frontend.Diagnostic
import Frontend.Parser.Cursor

/-!
# Outcomes

What comes of reading a part of a program: a value, unless a fault was met, the cursor on the last
token that was read, and the diagnostics and events on the way, in order.
An outcome also knows that its cursor never stands before the one it started from.  Steps are
chained by handing the cursor on together with that bound, so the bound is at hand wherever a
reader calls itself again.
-/

namespace Frontend

/-- What comes of reading from `origin`: what a `parse_` function returns, with what it does to the
`Parser` that it borrows. -/
structure Outcome (origin : Cursor) (α : Type) where
  value : Option α
  stop : Cursor
  diagnostics : List Diagnostic
  events : List Event
  size_le : stop.size ≤ origin.size

namespace Outcome

variable {α β : Type} {cursor : Cursor}

/-- A value that needs no further token. -/
def done (cursor : Cursor) (value : α) : Outcome cursor α :=
  ⟨some value, cursor, [], [], Nat.le_refl _⟩

/-- A fault that leaves the cursor where it is: a message is pushed with a span, and there is no
value. -/
def fault (cursor : Cursor) (problem : Problem) (span : Span) : Outcome cursor α :=
  ⟨none, cursor, [⟨problem, some span⟩], [], Nat.le_refl _⟩

/-- Two parts in order; the second one decides the value, and the diagnostics and events of the
first come first. -/
def followedBy (first : Outcome cursor α) (second : Outcome first.stop β) : Outcome cursor β :=
  ⟨second.value, second.stop, first.diagnostics ++ second.diagnostics,
    first.events ++ second.events, Nat.le_trans second.size_le first.size_le⟩

/-- Reads on after a part whether or not it has a value, as the loops over statements do. -/
def regardless (first : Outcome cursor α)
    (rest : Option α → (next : Cursor) → next.size ≤ cursor.size → Outcome next β) :
    Outcome cursor β :=
  first.followedBy (rest first.value first.stop first.size_le)

/-- Reads on after a part that has a value.  A fault ends the reading, as a question mark after a
call does. -/
def andThen (first : Outcome cursor α)
    (rest : α → (next : Cursor) → next.size ≤ cursor.size → Outcome next β) :
    Outcome cursor β :=
  match first.value with
  | some value => first.followedBy (rest value first.stop first.size_le)
  | none => ⟨none, first.stop, first.diagnostics, first.events, first.size_le⟩

/-- Reading that began one token further on, after a call of `next_token` of `Parser`. -/
def afterAdvance (outcome : Outcome cursor.advance α) : Outcome cursor α :=
  ⟨outcome.value, outcome.stop, outcome.diagnostics, cursor.broughtIntoView ++ outcome.events,
    Nat.le_trans outcome.size_le (by rw [Cursor.size_advance]; exact Nat.sub_le _ _)⟩

/-- Tells that a statement is started at the cursor, with which `parse_statement` begins. -/
def asStatement (outcome : Outcome cursor α) : Outcome cursor α :=
  { outcome with
    events := .statementStarted cursor.current.kind cursor.current.span.start :: outcome.events }

/-- Notes one more problem if there is no value, at the token where reading stopped.  Only
`parse_return_statement` does so. -/
def orNote (outcome : Outcome cursor α) (problem : Problem) : Outcome cursor α :=
  match outcome.value with
  | some _ => outcome
  | none =>
      { outcome with
        diagnostics := outcome.diagnostics ++ [⟨problem, some outcome.stop.current.span⟩] }

end Outcome

namespace Cursor

variable {α : Type}

/-- A problem with the token that the cursor stands on, `current_error`.  The token is spent,
because the loops over statements go on after it. -/
def faultHere (cursor : Cursor) (problem : Problem) : Outcome cursor α :=
  .fault cursor problem cursor.current.span

/-- A problem with the next token, `peek_error`, which is left for what follows. -/
def faultNext (cursor : Cursor) (problem : Problem) : Outcome cursor α :=
  .fault cursor problem cursor.next.span

/-- Moves on to the next token, which must be of one kind: `expect_peek`, with the `peek_error` that
its callers give if it fails. -/
def expect (cursor : Cursor) (kind : Kind) (what : Expectation) : Outcome cursor Unit :=
  if cursor.next.kind = kind then .afterAdvance (.done cursor.advance ())
  else cursor.faultNext (.missing what cursor.next.kind)

end Cursor

end Frontend
