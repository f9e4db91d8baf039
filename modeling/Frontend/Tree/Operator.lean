import Frontend.Token

/-!
# Operators and their precedence

A precedence says how tightly an operator holds its operands.  Each binary operator is spelled by
one kind of token and lies on one of four levels; a call holds tightest of all, and a unary
operator is looser than a call but tighter than every binary operator.
-/

namespace Frontend

/-- The operators before an operand, `PrefixOperator`. -/
inductive UnaryOperator where
  | not | negate
  deriving DecidableEq

/-- The operators between two operands, `InfixOperator`. -/
inductive BinaryOperator where
  | add | subtract | multiply | divide | equal | notEqual | lessThan | greaterThan
  deriving DecidableEq

/-- How tightly operands are held, the loosest first: the `Precedence` of the expression parser,
with its levels for prefix operators and calls. -/
inductive Precedence where
  | lowest | equality | comparison | sum | product | unary | call
  deriving DecidableEq

namespace Precedence

/-- The place of a precedence in their order, by which the derived comparison of `Precedence`
goes. -/
def level : Precedence → Nat
  | lowest => 0
  | equality => 1
  | comparison => 2
  | sum => 3
  | product => 4
  | unary => 5
  | call => 6

instance : LT Precedence := ⟨fun left right => left.level < right.level⟩

instance : LE Precedence := ⟨fun left right => left.level ≤ right.level⟩

instance (left right : Precedence) : Decidable (left < right) :=
  inferInstanceAs (Decidable (left.level < right.level))

instance (left right : Precedence) : Decidable (left ≤ right) :=
  inferInstanceAs (Decidable (left.level ≤ right.level))

end Precedence

namespace UnaryOperator

/-- How an operator is written before its operand, the `Display` form of `PrefixOperator`. -/
def symbol : UnaryOperator → String
  | not => "!"
  | negate => "-"

/-- The name of an operator in a dump, the `Debug` form of `PrefixOperator`. -/
def dumpName : UnaryOperator → String
  | not => "Not"
  | negate => "Negate"

end UnaryOperator

namespace BinaryOperator

/-- How an operator is written between its operands, the `Display` form of `InfixOperator`. -/
def symbol : BinaryOperator → String
  | add => "+"
  | subtract => "-"
  | multiply => "*"
  | divide => "/"
  | equal => "=="
  | notEqual => "!="
  | lessThan => "<"
  | greaterThan => ">"

/-- The name of an operator in a dump, the `Debug` form of `InfixOperator`. -/
def dumpName : BinaryOperator → String
  | add => "Add"
  | subtract => "Subtract"
  | multiply => "Multiply"
  | divide => "Divide"
  | equal => "Equal"
  | notEqual => "NotEqual"
  | lessThan => "LessThan"
  | greaterThan => "GreaterThan"

/-- The operator that a kind of token spells between two operands, `infix_operator_from_token`.  The
same kinds have `parse_infix_expression` in the table `INFIX_PARSE_FNS`. -/
def ofKind? : Kind → Option BinaryOperator
  | .plus => some add
  | .minus => some subtract
  | .asterisk => some multiply
  | .slash => some divide
  | .eq => some equal
  | .notEq => some notEqual
  | .lt => some lessThan
  | .gt => some greaterThan
  | _ => none

theorem ne_eof_of_ofKind? {kind : Kind} {operator : BinaryOperator}
    (hkind : ofKind? kind = some operator) : kind ≠ .eof := by
  rintro rfl
  simp [ofKind?] at hkind

/-- How tightly an operator holds: `of` of `Precedence` at the kind of token that spells the
operator. -/
def precedence : BinaryOperator → Precedence
  | equal | notEqual => .equality
  | lessThan | greaterThan => .comparison
  | add | subtract => .sum
  | multiply | divide => .product

end BinaryOperator

end Frontend
