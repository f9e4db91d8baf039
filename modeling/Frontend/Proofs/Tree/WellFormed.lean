import Frontend.Parser.Grammar
import Frontend.Proofs.Lexing.Word
import Frontend.Proofs.Tree.Operator

/-!
# Well-formed trees

The tree types admit more trees than any text has.  A tree is well formed if each operand holds
together more tightly than the operator at its side asks, statements are of the kinds that can be
written, and names, integers and strings are those of the lexer.  Its nesting is the number of
expressions that are open inside one another while it is read; left operands, callees and the
bodies of named functions open none of their own.
-/

namespace Frontend

/-- How tightly the parts of an expression are held together.  What is neither a binary nor a unary
expression does not come apart at all. -/
def Expression.tightness : Expression → Precedence
  | .binary _ _ operator _ => operator.precedence
  | .unary _ _ _ => .unary
  | _ => .call

/-- The expression starts with a function without a name, so a statement cannot start with it: the
keyword would be taken for that of a named function. -/
def Expression.startsWithFunction : Expression → Bool
  | .function _ _ _ => true
  | .binary _ left _ _ => left.startsWithFunction
  | .call _ callee _ => callee.startsWithFunction
  | _ => false

/-- The value of the property is the key itself, at its own place, and not written apart.  That is
how `parse_object_literal` fills it in. -/
def Property.isShorthand : Property → Bool
  | ⟨key, .identifier span identifier, _⟩ => span = key.span ∧ identifier = key
  | _ => false

mutual

/-- An expression as it may be written in a text: its operands are held tightly enough to do without
parentheses, and its numbers are in range.  A string that is not closed takes the rest of the text,
so it is the token `last`. -/
def Expression.WellFormed (last : Option Token) : Expression → Prop
  | .identifier _ identifier => IsName identifier.name
  | .integer _ value => 0 ≤ value ∧ value ≤ Grammar.maxInteger
  | .string span text =>
      IsClosedString text ∨ IsOpenString text ∧ last = some ⟨.string, text, span⟩
  | .boolean _ _ => True
  | .array _ elements => expressionsWellFormed last elements
  | .object _ properties => propertiesWellFormed last properties
  | .unary _ _ operand => .unary ≤ operand.tightness ∧ operand.WellFormed last
  | .binary _ left operator right =>
      operator.precedence ≤ left.tightness ∧ operator.precedence < right.tightness ∧
        left.WellFormed last ∧ right.WellFormed last
  | .conditional _ condition consequence alternative =>
      condition.WellFormed last ∧ consequence.WellFormed last ∧
        alternativeWellFormed last alternative
  | .function _ parameters body =>
      (∀ parameter ∈ parameters, IsName parameter.name) ∧ body.WellFormed last
  | .call _ callee arguments =>
      callee.tightness = .call ∧ callee.WellFormed last ∧ expressionsWellFormed last arguments
  termination_by structural expression => expression

def expressionsWellFormed (last : Option Token) : List Expression → Prop
  | [] => True
  | expression :: expressions =>
      expression.WellFormed last ∧ expressionsWellFormed last expressions
  termination_by structural expressions => expressions

def alternativeWellFormed (last : Option Token) : Option Block → Prop
  | none => True
  | some block => block.WellFormed last
  termination_by structural alternative => alternative

/-- Only a binding without a value must not be constant; a value may be bound either way. -/
def valueWellFormed (last : Option Token) (constant : Bool) : Option Expression → Prop
  | none => constant = false
  | some value => value.WellFormed last
  termination_by structural value => value

def Property.WellFormed (last : Option Token) : Property → Prop
  | ⟨key, value, _⟩ => IsName key.name ∧ value.WellFormed last
  termination_by structural property => property

def propertiesWellFormed (last : Option Token) : List Property → Prop
  | [] => True
  | property :: properties => property.WellFormed last ∧ propertiesWellFormed last properties
  termination_by structural properties => properties

def Block.WellFormed (last : Option Token) : Block → Prop
  | ⟨statements, _⟩ => statementsWellFormed last statements
  termination_by structural block => block

/-- A statement as it may be written in a text; no text has a bare block.  A statement that starts
with the keyword `function` is never read as an expression. -/
def Statement.WellFormed (last : Option Token) : Statement → Prop
  | .binding constant identifier value _ =>
      IsName identifier.name ∧ valueWellFormed last constant value
  | .function identifier parameters body _ =>
      IsName identifier.name ∧ (∀ parameter ∈ parameters, IsName parameter.name) ∧
        body.WellFormed last
  | .returned value _ => value.WellFormed last
  | .expression expression _ =>
      expression.startsWithFunction = false ∧ expression.WellFormed last
  | .block _ => False
  termination_by structural statement => statement

def statementsWellFormed (last : Option Token) : List Statement → Prop
  | [] => True
  | statement :: statements => statement.WellFormed last ∧ statementsWellFormed last statements
  termination_by structural statements => statements

end

mutual

/-- The largest number of expressions that are open inside one another, this one included.  It is
what `MAX_EXPRESSION_DEPTH` bounds: a left operand or a callee is on the same level as the
expression that it is part of. -/
def Expression.nesting : Expression → Nat
  | .identifier _ _ | .integer _ _ | .string _ _ | .boolean _ _ => 1
  | .array _ elements => nestingOfExpressions elements + 1
  | .object _ properties => nestingOfProperties properties + 1
  | .unary _ _ operand => operand.nesting + 1
  | .binary _ left _ right => max left.nesting (right.nesting + 1)
  | .conditional _ condition consequence alternative =>
      max condition.nesting (max consequence.nesting (nestingOfAlternative alternative)) + 1
  | .function _ _ body => body.nesting + 1
  | .call _ callee arguments => max callee.nesting (nestingOfExpressions arguments + 1)
  termination_by structural expression => expression

def nestingOfExpressions : List Expression → Nat
  | [] => 0
  | expression :: expressions => max expression.nesting (nestingOfExpressions expressions)
  termination_by structural expressions => expressions

def nestingOfAlternative : Option Block → Nat
  | none => 0
  | some block => block.nesting
  termination_by structural alternative => alternative

def nestingOfValue : Option Expression → Nat
  | none => 0
  | some value => value.nesting
  termination_by structural value => value

/-- A value that is not written apart from its key opens nothing, as `parse_object_literal` makes it
without a call of `parse_expression`. -/
def Property.nesting : Property → Nat
  | ⟨key, value, span⟩ => if Property.isShorthand ⟨key, value, span⟩ then 0 else value.nesting
  termination_by structural property => property

def nestingOfProperties : List Property → Nat
  | [] => 0
  | property :: properties => max property.nesting (nestingOfProperties properties)
  termination_by structural properties => properties

def Block.nesting : Block → Nat
  | ⟨statements, _⟩ => nestingOfStatements statements
  termination_by structural block => block

def Statement.nesting : Statement → Nat
  | .binding _ _ value _ => nestingOfValue value
  | .function _ _ body _ => body.nesting
  | .returned value _ => value.nesting
  | .expression expression _ => expression.nesting
  | .block body => body.nesting
  termination_by structural statement => statement

def nestingOfStatements : List Statement → Nat
  | [] => 0
  | statement :: statements => max statement.nesting (nestingOfStatements statements)
  termination_by structural statements => statements

end

theorem Expression.lowest_lt_tightness (value : Expression) :
    Precedence.lowest < value.tightness := by
  cases value with
  | binary _ _ operator _ => exact operator.lowest_lt_precedence
  | _ => exact of_decide_eq_true rfl

/-- An expression is open while it is read. -/
theorem Expression.nesting_pos (value : Expression) : 0 < value.nesting := by
  cases value with
  | binary | call => exact Nat.lt_of_lt_of_le (Nat.succ_pos _) (Nat.le_max_right _ _)
  | _ => exact Nat.succ_pos _

theorem Property.wellFormed_iff {last : Option Token} {property : Property} :
    property.WellFormed last ↔ IsName property.key.name ∧ property.value.WellFormed last := by
  cases property
  exact Iff.rfl

theorem Property.nesting_of_isShorthand {property : Property}
    (hshort : property.isShorthand = true) : property.nesting = 0 := by
  cases property
  exact if_pos hshort

theorem Property.nesting_of_written {property : Property}
    (hwritten : property.isShorthand = false) : property.nesting = property.value.nesting := by
  cases property
  exact if_neg (Bool.eq_false_iff.mp hwritten)

theorem Property.nesting_le {property : Property} {levels : Nat}
    (hvalue : property.value.nesting ≤ levels) : property.nesting ≤ levels := by
  cases hshort : property.isShorthand with
  | true =>
      rw [nesting_of_isShorthand hshort]
      exact Nat.zero_le levels
  | false => rwa [nesting_of_written hshort]

theorem expressionsWellFormed_iff {last : Option Token} {values : List Expression} :
    expressionsWellFormed last values ↔ ∀ value ∈ values, value.WellFormed last := by
  induction values with
  | nil => simp [expressionsWellFormed]
  | cons value values ih => rw [expressionsWellFormed, ih, List.forall_mem_cons]

theorem propertiesWellFormed_iff {last : Option Token} {entries : List Property} :
    propertiesWellFormed last entries ↔ ∀ entry ∈ entries, entry.WellFormed last := by
  induction entries with
  | nil => simp [propertiesWellFormed]
  | cons entry entries ih => rw [propertiesWellFormed, ih, List.forall_mem_cons]

theorem statementsWellFormed_iff {last : Option Token} {statements : List Statement} :
    statementsWellFormed last statements ↔
      ∀ statement ∈ statements, statement.WellFormed last := by
  induction statements with
  | nil => simp [statementsWellFormed]
  | cons statement statements ih => rw [statementsWellFormed, ih, List.forall_mem_cons]

theorem nestingOfStatements_le_iff {statements : List Statement} {levels : Nat} :
    nestingOfStatements statements ≤ levels ↔
      ∀ statement ∈ statements, statement.nesting ≤ levels := by
  induction statements with
  | nil => simp [nestingOfStatements]
  | cons statement statements ih =>
      rw [nestingOfStatements, Nat.max_le, ih, List.forall_mem_cons]

end Frontend
