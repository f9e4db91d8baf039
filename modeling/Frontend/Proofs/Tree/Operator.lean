import Frontend.Tree.Operator

/-!
# Operators as tokens

Each operator is spelled by one kind of token.  A token after an operand holds it as tightly as the
operator or the call that it starts; every other token does not hold it at all.
-/

namespace Frontend

namespace Precedence

theorem not_lt {left right : Precedence} : ¬ left < right ↔ right ≤ left := Nat.not_lt

theorem not_lt_lowest (precedence : Precedence) : ¬ precedence < lowest := Nat.not_lt_zero _

/-- What does not hold more tightly than nothing at all is nothing at all. -/
theorem eq_lowest_of_not_lt {precedence : Precedence} (hend : ¬ lowest < precedence) :
    precedence = lowest := by
  cases precedence <;> first | rfl | exact absurd (by decide) hend

theorem lowest_le (precedence : Precedence) : lowest ≤ precedence := Nat.zero_le _

theorem le_call (precedence : Precedence) : precedence ≤ call := by
  cases precedence <;> decide

theorem eq_call_of_le {precedence : Precedence} (hcall : call ≤ precedence) :
    precedence = call := by
  cases precedence <;> first | rfl | exact absurd hcall (by decide)

/-- What may be read where everything must hold more tightly than `least`: an operator that does,
or else a unary operator, which no left operand gets in the way of. -/
def Admits (least tightness : Precedence) : Prop := least < tightness ∨ unary ≤ tightness

theorem admits_of_call {least : Precedence} : least.Admits call := .inr (le_call _)

end Precedence

/-- The kind of token that spells a unary operator, which `prefix_operator_from_token` is given. -/
def UnaryOperator.kind : UnaryOperator → Kind
  | not => .bang
  | negate => .minus

theorem UnaryOperator.eq_of_kind {left right : UnaryOperator} (hkind : left.kind = right.kind) :
    left = right := by
  cases left <;> cases right <;> first | rfl | cases hkind

namespace BinaryOperator

/-- The kind of token that spells a binary operator, which `infix_operator_from_token` is given. -/
def kind : BinaryOperator → Kind
  | add => .plus
  | subtract => .minus
  | multiply => .asterisk
  | divide => .slash
  | equal => .eq
  | notEqual => .notEq
  | lessThan => .lt
  | greaterThan => .gt

@[simp]
theorem ofKind?_kind (operator : BinaryOperator) : ofKind? operator.kind = some operator := by
  cases operator <;> rfl

theorem eq_of_kind {left right : BinaryOperator} (hkind : left.kind = right.kind) :
    left = right := by
  rw [← Option.some_inj, ← ofKind?_kind left, ← ofKind?_kind right, hkind]

theorem kind_of_ofKind? {found : Kind} {operator : BinaryOperator}
    (hfound : ofKind? found = some operator) : found = operator.kind := by
  cases found <;> simp only [ofKind?, Option.some.injEq, reduceCtorEq] at hfound <;>
    subst hfound <;> rfl

theorem precedence_lt_unary (operator : BinaryOperator) : operator.precedence < .unary := by
  cases operator <;> decide

theorem precedence_lt_call (operator : BinaryOperator) : operator.precedence < .call := by
  cases operator <;> decide

theorem lt_of_admits {least : Precedence} {operator : BinaryOperator}
    (hadmits : least.Admits operator.precedence) : least < operator.precedence :=
  hadmits.resolve_right (Nat.not_le_of_lt operator.precedence_lt_unary)

theorem lowest_lt_precedence (operator : BinaryOperator) :
    Precedence.lowest < operator.precedence := by
  cases operator <;> decide

end BinaryOperator

/-- How tightly a token of this kind holds the operand before it: `of` of `Precedence`, by which
`peek_precedence` looks at the next token. -/
def Kind.precedence (kind : Kind) : Precedence :=
  match BinaryOperator.ofKind? kind with
  | some operator => operator.precedence
  | none => if kind = .lParen then .call else .lowest

theorem Kind.precedence_of_ofKind? {kind : Kind} {operator : BinaryOperator}
    (hkind : BinaryOperator.ofKind? kind = some operator) :
    kind.precedence = operator.precedence := by
  rw [precedence, hkind]

theorem Kind.precedence_of_ofKind?_eq_none {kind : Kind}
    (hkind : BinaryOperator.ofKind? kind = none) :
    kind.precedence = if kind = .lParen then .call else .lowest := by
  rw [precedence, hkind]

/-- An operand is taken up by an operator that holds it tightly enough, or else by a call.  No other
token goes on with it. -/
theorem Kind.lt_precedence_cases {kind : Kind} {least : Precedence}
    (hleast : least < kind.precedence) :
    (∃ operator, BinaryOperator.ofKind? kind = some operator ∧ least < operator.precedence) ∨
      kind = .lParen ∧ least < .call := by
  cases hoperator : BinaryOperator.ofKind? kind with
  | some operator =>
      rw [precedence_of_ofKind? hoperator] at hleast
      exact .inl ⟨operator, rfl, hleast⟩
  | none =>
      rw [precedence_of_ofKind?_eq_none hoperator] at hleast
      split at hleast
      · next hparen => exact .inr ⟨hparen, hleast⟩
      · exact absurd hleast (Precedence.not_lt_lowest least)

@[simp]
theorem BinaryOperator.precedence_kind (operator : BinaryOperator) :
    operator.kind.precedence = operator.precedence := by
  cases operator <;> rfl

end Frontend
