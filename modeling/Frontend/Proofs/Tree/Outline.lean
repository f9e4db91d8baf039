import Frontend.Lexer
import Frontend.Proofs.Tree.WellFormed

/-!
# Outlines

The outline of a tree is what all its nodes have in common, whatever sort they are of: where a node
was read, and the nodes under it in the order of the text.  What is left of the node itself is what
it tells of its own text.  An outline is sound if its spans nest in one another as the nodes do and
never cut a token in two.
-/

namespace Frontend

/-- What a node tells of the text that it was read from: a name or a string as it stands there, the
value of its digits, that it is a key alone, or nothing. -/
inductive Mark where
  | verbatim (text : String)
  | numeral (value : Int)
  | shorthand
  | plain
  deriving DecidableEq

/-- A node with its place and the nodes under it.  All that spans are asked about is asked of
outlines, whatever kind the nodes are of. -/
inductive Outline where
  | node (span : Span) (mark : Mark) (children : List Outline)

def Outline.span : Outline → Span
  | node span _ _ => span

def Identifier.outline (identifier : Identifier) : Outline :=
  .node identifier.span (.verbatim identifier.name) []

mutual

/-- The outline of an expression; its name, if it is one, is a node of its own. -/
def Expression.outline : Expression → Outline
  | .identifier span identifier =>
      .node span (.verbatim identifier.name) [identifier.outline]
  | .integer span value => .node span (.numeral value) []
  | .string span text => .node span (.verbatim text) []
  | .boolean span _ => .node span .plain []
  | .array span elements => .node span .plain (outlinesOfExpressions elements)
  | .object span properties => .node span .plain (outlinesOfProperties properties)
  | .unary span _ operand => .node span .plain [operand.outline]
  | .binary span left _ right => .node span .plain [left.outline, right.outline]
  | .conditional span condition consequence alternative =>
      .node span .plain
        (condition.outline :: consequence.outline :: outlinesOfAlternative alternative)
  | .function span parameters body =>
      .node span .plain (parameters.map Identifier.outline ++ [body.outline])
  | .call span callee arguments =>
      .node span .plain (callee.outline :: outlinesOfExpressions arguments)
  termination_by structural expression => expression

def outlinesOfExpressions : List Expression → List Outline
  | [] => []
  | expression :: expressions => expression.outline :: outlinesOfExpressions expressions
  termination_by structural expressions => expressions

def outlinesOfAlternative : Option Block → List Outline
  | none => []
  | some block => [block.outline]
  termination_by structural alternative => alternative

def outlinesOfValue : Option Expression → List Outline
  | none => []
  | some value => [value.outline]
  termination_by structural value => value

/-- The key and the value of a shorthand are two nodes for the same name in the text. -/
def Property.outline : Property → Outline
  | ⟨key, value, span⟩ =>
      .node span (if Property.isShorthand ⟨key, value, span⟩ then .shorthand else .plain)
        [key.outline, value.outline]
  termination_by structural property => property

def outlinesOfProperties : List Property → List Outline
  | [] => []
  | property :: properties => property.outline :: outlinesOfProperties properties
  termination_by structural properties => properties

def Block.outline : Block → Outline
  | ⟨statements, span⟩ => .node span .plain (outlinesOfStatements statements)
  termination_by structural block => block

def Statement.outline : Statement → Outline
  | .binding _ identifier value span =>
      .node span .plain (identifier.outline :: outlinesOfValue value)
  | .function identifier parameters body span =>
      .node span .plain
        (identifier.outline :: parameters.map Identifier.outline ++ [body.outline])
  | .returned value span => .node span .plain [value.outline]
  | .expression expression span => .node span .plain [expression.outline]
  | .block body => body.outline
  termination_by structural statement => statement

def outlinesOfStatements : List Statement → List Outline
  | [] => []
  | statement :: statements => statement.outline :: outlinesOfStatements statements
  termination_by structural statements => statements

end

theorem Property.outline_of_isShorthand {property : Property}
    (hshort : property.isShorthand = true) :
    property.outline =
      .node property.span .shorthand [property.key.outline, property.value.outline] := by
  cases property
  simp only [outline, hshort, if_pos]

theorem Property.outline_of_written {property : Property}
    (hwritten : property.isShorthand = false) :
    property.outline =
      .node property.span .plain [property.key.outline, property.value.outline] := by
  cases property
  simp only [outline, hwritten, Bool.false_eq_true, if_false]

/-! ## Sound outlines -/

namespace Span

/-- The span lies in another one. -/
def Within (inner outer : Span) : Prop :=
  outer.start ≤ inner.start ∧ inner.stop ≤ outer.stop

/-- The span is not empty, starts where one of the tokens starts and stops where one stops.  So it
never cuts through a token. -/
structure Bounded (tokens : List Token) (span : Span) : Prop where
  length_pos : span.start < span.stop
  start_mem : ∃ token ∈ tokens, span.start = token.span.start
  stop_mem : ∃ token ∈ tokens, span.stop = token.span.stop

end Span

/-- The text at the span is as the node tells. -/
def Mark.Reads (source : String) (span : Span) : Mark → Prop
  | verbatim text => span.slice? source.toList = some text.toList
  | numeral value => ∃ literal, span.slice? source.toList = some literal.toList ∧
      IsNumeral literal ∧ Numeral.ofDecimal literal.toList = value
  | shorthand | plain => True

/-- Each of the nodes stops before the next one starts.  Of nodes that share a place this does not
hold. -/
def Apart (outlines : List Outline) : Prop :=
  outlines.Pairwise fun left right => left.span.stop ≤ right.span.start

/-- The spans of the node and of all nodes under it are those of parts of the text.  Only the two
nodes of a shorthand share their place with one another, and with the shorthand. -/
inductive Outline.Sound (source : String) : Outline → Prop where
  | node {span mark children} (hbounded : span.Bounded (lex source).dropLast)
      (hreads : mark.Reads source span)
      (hwithin : ∀ child ∈ children, child.span.Within span)
      (hapart : mark ≠ .shorthand → Apart children)
      (hshared : mark = .shorthand → ∀ child ∈ children, child.span = span)
      (hchildren : ∀ child ∈ children, child.Sound source) :
      Sound source (.node span mark children)

end Frontend
