import Frontend.Diagnostic
import Frontend.Proofs.Tree.Spans
import Mathlib.Order.MinMax

/-!
# Moved offsets

The same characters read at another place give the same tokens, trees and diagnostics, but for
their offsets.  `moved` takes every offset to its new place; whatever is said without offsets, such
as the wording of a message, stays as it is.
-/

namespace Frontend

def Span.moved (move : Nat → Nat) (span : Span) : Span := ⟨move span.start, move span.stop⟩

/-- The token at another place, with the same word. -/
def Token.moved (move : Nat → Nat) (token : Token) : Token :=
  ⟨token.kind, token.literal, token.span.moved move⟩

/-- The same problem shown at another place, if it has one. -/
def Diagnostic.moved (move : Nat → Nat) (diagnostic : Diagnostic) : Diagnostic :=
  ⟨diagnostic.problem, diagnostic.span.map (Span.moved move)⟩

section

variable {move : Nat → Nat}

@[simp]
theorem Span.moved_id : Span.moved id = id := rfl

/-- What covers two spans is moved with them. -/
theorem Span.moved_cover (hmonotone : Monotone move) (left right : Span) :
    (left.cover right).moved move = (left.moved move).cover (right.moved move) := by
  simp only [cover, moved, hmonotone.map_min, hmonotone.map_max]

@[simp]
theorem Token.moved_kind (token : Token) : (token.moved move).kind = token.kind := rfl

@[simp]
theorem Token.moved_literal (token : Token) : (token.moved move).literal = token.literal := rfl

@[simp]
theorem Token.moved_span (token : Token) : (token.moved move).span = token.span.moved move := rfl

@[simp]
theorem Token.moved_id : Token.moved id = id := rfl

@[simp]
theorem Diagnostic.moved_id : Diagnostic.moved id = id := by
  funext diagnostic
  simp [moved]

/-- A message does not tell the place of its problem. -/
@[simp]
theorem Diagnostic.moved_message (diagnostic : Diagnostic) :
    (diagnostic.moved move).message = diagnostic.message := rfl

end

/-! ## Trees that are left as they are -/

@[simp]
theorem Identifier.mapSpan_id : Identifier.mapSpan id = id := rfl

mutual

@[simp]
theorem Expression.mapSpans_id : ∀ expression : Expression, expression.mapSpans id = expression
  | .identifier _ _ | .integer _ _ | .string _ _ | .boolean _ _ => rfl
  | .array _ elements => by simp [mapSpansOfExpressions_id elements]
  | .object _ properties => by simp [mapSpansOfProperties_id properties]
  | .unary _ _ operand => by simp [operand.mapSpans_id]
  | .binary _ left _ right => by simp [left.mapSpans_id, right.mapSpans_id]
  | .conditional _ condition consequence alternative => by
      simp [condition.mapSpans_id, consequence.mapSpans_id, mapSpansOfAlternative_id alternative]
  | .function _ parameters body => by simp [body.mapSpans_id]
  | .call _ callee arguments => by simp [callee.mapSpans_id, mapSpansOfExpressions_id arguments]

@[simp]
theorem mapSpansOfExpressions_id :
    ∀ expressions : List Expression, mapSpansOfExpressions id expressions = expressions
  | [] => rfl
  | expression :: expressions => by
      simp [expression.mapSpans_id, mapSpansOfExpressions_id expressions]

@[simp]
theorem mapSpansOfAlternative_id :
    ∀ alternative : Option Block, mapSpansOfAlternative id alternative = alternative
  | none => rfl
  | some block => by simp [block.mapSpans_id]

@[simp]
theorem mapSpansOfValue_id : ∀ value : Option Expression, mapSpansOfValue id value = value
  | none => rfl
  | some value => by simp [value.mapSpans_id]

@[simp]
theorem Property.mapSpans_id : ∀ property : Property, property.mapSpans id = property
  | ⟨key, value, span⟩ => by simp [value.mapSpans_id]

@[simp]
theorem mapSpansOfProperties_id :
    ∀ properties : List Property, mapSpansOfProperties id properties = properties
  | [] => rfl
  | property :: properties => by simp [property.mapSpans_id, mapSpansOfProperties_id properties]

@[simp]
theorem Block.mapSpans_id : ∀ block : Block, block.mapSpans id = block
  | ⟨statements, span⟩ => by simp [mapSpansOfStatements_id statements]

@[simp]
theorem Statement.mapSpans_id : ∀ statement : Statement, statement.mapSpans id = statement
  | .binding _ _ value _ => by simp [mapSpansOfValue_id value]
  | .function _ _ body _ => by simp [body.mapSpans_id]
  | .returned value _ => by simp [value.mapSpans_id]
  | .expression expression _ => by simp [expression.mapSpans_id]
  | .block body => by simp [body.mapSpans_id]

@[simp]
theorem mapSpansOfStatements_id :
    ∀ statements : List Statement, mapSpansOfStatements id statements = statements
  | [] => rfl
  | statement :: statements => by
      simp [statement.mapSpans_id, mapSpansOfStatements_id statements]

end

end Frontend
