import Frontend.Proofs.Checked.Reading
import Mathlib.Logic.Function.Iterate

/-!
# The contract of reading an expression

A parser at work stands on a token, has noted some diagnostics and counts the expressions that are
open inside one another.  Wherever it stands in a text and whatever it has noted and counted, a call
that reads an expression keeps a contract: it closes what it opens, it only moves on, it keeps what
was noted, and it either reads an expression through the token where it stops, which nothing after
it could extend, or notes something.
-/

namespace Frontend

namespace Cursor

theorem advance_iterate (cursor : Cursor) (moves : Nat) :
    advance^[moves] cursor = ⟨cursor.pending.drop moves, cursor.stop⟩ := by
  induction moves generalizing cursor with
  | zero => rfl
  | succ moves ih =>
      rw [Function.iterate_succ_apply, ih, advance, ← List.drop_one, List.drop_drop, Nat.add_comm]

theorem leads_iterate (cursor : Cursor) (moves : Nat) : cursor.Leads (advance^[moves] cursor) := by
  rw [advance_iterate]
  exact ⟨List.drop_suffix moves _, rfl⟩

/-- A cursor is led to another one by moving on some number of times. -/
theorem Leads.exists_iterate {start stop : Cursor} (hleads : start.Leads stop) :
    ∃ moves, stop = Cursor.advance^[moves] start := by
  refine ⟨start.pending.length - stop.pending.length, ?_⟩
  rw [advance_iterate, ← List.suffix_iff_eq_drop.mp hleads.suffix, ← hleads.stop_eq]

end Cursor

namespace Expression

/-- If the outermost part is an operator between two operands or a call, it holds its operands more
tightly than `least`.  Nothing else can be taken apart by what stands before it. -/
def HoldsMoreTightly (least : Precedence) : Expression → Prop
  | binary _ _ operator _ => least < operator.precedence
  | call _ _ _ => least < .call
  | _ => True

end Expression

namespace Grammar.Derives

variable {least : Precedence} {levels : Nat} {value : Expression} {tokens : List Token}
variable {next : Token} {diagnostics : List Diagnostic}

theorem holdsMoreTightly
    (hderives : Derives (.expression least levels value) tokens next diagnostics) :
    value.HoldsMoreTightly least := by
  cases hderives with
  | expression hoperand _ =>
      cases hoperand with
      | binary _ _ hleast _ => exact hleast
      | call _ _ hleast _ _ => exact hleast
      | _ => trivial

theorem precedence_next_le
    (hderives : Derives (.expression least levels value) tokens next diagnostics) :
    next.kind.precedence ≤ least := by
  cases hderives with
  | expression _ hend => exact Precedence.not_lt.mp hend

end Grammar.Derives

/-- A `Parser` at work, with the number of expressions that are open, its `expression_depth`.  No
relation between the three is assumed. -/
structure CountingParser extends Parser where
  opened : Nat

namespace CountingParser

/-- Reads an expression of which the outermost operator holds more tightly than `least`: a call of
`parse_expression`. -/
def expression (least : Precedence) (parser : CountingParser) :
    Checked (Option Expression × CountingParser) := do
  let (outcome, opened) ← Grammar.Checked.expression least parser.cursor parser.opened
  return (outcome.value,
    ⟨⟨outcome.stop, parser.diagnostics ++ outcome.diagnostics⟩, opened⟩)

/-- What a call that reads an expression promises of the state `after` it and of the value, whatever
state it was made in. -/
structure KeepsContract (least : Precedence) (before : CountingParser) (value : Option Expression)
    (after : CountingParser) : Prop where
  /-- As many expressions are open as before. -/
  opened : after.opened = before.opened
  /-- The cursor has moved on, if at all. -/
  onward : ∃ moves, after.cursor = Cursor.advance^[moves] before.cursor
  /-- What was noted before is kept, in front of what was noted by the call. -/
  kept : before.diagnostics <+: after.diagnostics
  /-- The tokens through the one where the cursor stopped are those of the expression. -/
  read : ∀ expression, value = some expression →
    ∃ tokens diagnostics, before.cursor.Through tokens after.cursor ∧
      after.diagnostics = before.diagnostics ++ diagnostics ∧
      Grammar.Derives (.expression least (maxNesting - before.opened) expression) tokens
        after.cursor.next diagnostics ∧
      expression.span = ⟨before.cursor.current.span.start, after.cursor.current.span.stop⟩
  /-- The outermost operator of the expression holds tightly enough. -/
  tight : ∀ expression, value = some expression → expression.HoldsMoreTightly least
  /-- What comes next could not extend the expression. -/
  ended : ∀ expression, value = some expression →
    after.cursor.next.kind = .semicolon ∨ after.cursor.next.kind.precedence ≤ least
  /-- Without an expression there is more to be told than before. -/
  lost : value = none → before.diagnostics.length < after.diagnostics.length

end CountingParser

/-- The number of open expressions is the same after a call, however many there are.  If there are
too many already, the call is a fault and leaves them as they are. -/
theorem Grammar.Checked.expression_yields_any (least : Precedence) (opened : Nat) (cursor : Cursor)
    (htext : cursor.InText) :
    (Checked.expression least cursor).Yields opened
      (Grammar.expression least (maxNesting - opened) cursor) := by
  by_cases hopened : opened ≤ maxNesting
  · exact expression_yields least (Nat.add_sub_cancel' hopened) cursor htext
  · have hnone : maxNesting - opened = 0 := by omega
    have hfull : opened ≥ maxNesting := by omega
    rw [hnone, Grammar.expression, Checked.expression]
    exact ⟨by rw [Guarded.nested, if_pos hfull], .refl cursor⟩

namespace CountingParser

theorem expression_run (least : Precedence) {parser : CountingParser}
    (htext : parser.cursor.InText) :
    let outcome := Grammar.expression least (maxNesting - parser.opened) parser.cursor
    parser.expression least =
      .ok (outcome.value,
        ⟨⟨outcome.stop, parser.diagnostics ++ outcome.diagnostics⟩, parser.opened⟩) := by
  dsimp only
  rw [expression, (Grammar.Checked.expression_yields_any least parser.opened _ htext).run]
  rfl

theorem expression_keepsContract (least : Precedence) {parser : CountingParser}
    (htext : parser.cursor.InText) :
    let outcome := Grammar.expression least (maxNesting - parser.opened) parser.cursor
    ∃ after, parser.expression least = .ok (outcome.value, after) ∧ after.cursor = outcome.stop ∧
      parser.KeepsContract least outcome.value after := by
  refine ⟨_, expression_run least htext, rfl, ?_⟩
  have hdelivers :=
    Grammar.expression_delivers least (maxNesting - parser.opened) parser.cursor
  constructor
  case opened => rfl
  case onward => exact hdelivers.leads.exists_iterate
  case kept => exact List.prefix_append _ _
  case read =>
    intro value hvalue
    obtain ⟨tokens, hthrough, hderives⟩ := hdelivers.value value hvalue
    refine ⟨tokens, _, hthrough, rfl, hderives, ?_⟩
    rw [hderives.expression_span.2, hthrough.spanOver_eq]
    rfl
  case tight =>
    intro value hvalue
    obtain ⟨tokens, -, hderives⟩ := hdelivers.value value hvalue
    exact hderives.holdsMoreTightly
  case ended =>
    intro value hvalue
    obtain ⟨tokens, -, hderives⟩ := hdelivers.value value hvalue
    exact .inr hderives.precedence_next_le
  case lost =>
    intro hnone
    have hnoted := List.length_pos_iff.mpr (hdelivers.fault hnone).ne_nil
    rw [List.length_append]
    omega

end CountingParser

/-- A call that reads an expression comes to what the reader without checks does, and keeps its
contract, wherever in a text the parser stands, however many expressions are open and whatever was
noted before.  Parsers move their cursor by one token at a time only, so every state that reading a
text comes to is one of these. -/
theorem expression_contract (source : String) (taken opened : Nat) (earlier : List Diagnostic)
    (least : Precedence) :
    let parser : CountingParser :=
      ⟨⟨Cursor.advance^[taken] (.ofLexer (Lexer.ofText source)), earlier⟩, opened⟩
    let outcome := Grammar.expression least (maxNesting - opened) parser.cursor
    ∃ after, parser.expression least = .ok (outcome.value, after) ∧ after.cursor = outcome.stop ∧
      parser.KeepsContract least outcome.value after :=
  CountingParser.expression_keepsContract least
    ((Cursor.InText.ofLexer _).of_leads (Cursor.leads_iterate _ taken))

end Frontend
