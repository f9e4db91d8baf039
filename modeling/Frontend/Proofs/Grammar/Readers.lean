import Frontend.Proofs.Tree.Spelling

/-!
# What readers do first

At a token of a known kind most readers of the grammar have only one way to go on.
-/

namespace Frontend

namespace Cursor

variable {cursor : Cursor} {token : Token} {rest : List Token}

theorem current_of_pending (hpending : cursor.pending = token :: rest) :
    cursor.current = token := by
  rw [current, hpending, List.headD_cons]

theorem pending_advance (hpending : cursor.pending = token :: rest) :
    cursor.advance.pending = rest := by
  rw [advance, hpending, List.tail_cons]

end Cursor

namespace Grammar

variable {least : Precedence} {levels : Nat} {cursor : Cursor} {left : Expression}

theorem operand_of_ident (hkind : cursor.current.kind = .ident) :
    operand levels cursor = .done cursor (.identifier cursor.current.span cursor.identifier) := by
  rw [operand]
  split <;> simp_all

theorem operand_of_int (hkind : cursor.current.kind = .int) :
    operand levels cursor = integer cursor := by
  rw [operand]
  split <;> simp_all

theorem operand_of_string (hkind : cursor.current.kind = .string) :
    operand levels cursor = .done cursor (.string cursor.current.span cursor.current.literal) := by
  rw [operand]
  split <;> simp_all

theorem operand_of_boolean {value : Bool} (hkind : cursor.current.kind = booleanKind value) :
    operand levels cursor = .done cursor (.boolean cursor.current.span value) := by
  rw [operand]
  cases value <;> split <;> simp_all [booleanKind]

theorem operand_of_unary {operator : UnaryOperator}
    (hkind : cursor.current.kind = operator.kind) (hsize : 0 < cursor.size) :
    operand levels cursor = unary operator levels cursor hsize := by
  rw [operand]
  cases operator <;> split <;> simp_all [UnaryOperator.kind]

theorem operand_of_lBracket (hkind : cursor.current.kind = .lBracket) (hsize : 0 < cursor.size) :
    operand levels cursor = array levels cursor hsize := by
  rw [operand]
  split <;> simp_all

theorem operand_of_lBrace (hkind : cursor.current.kind = .lBrace) :
    operand levels cursor = object levels cursor := by
  rw [operand]
  split <;> simp_all

theorem operand_of_kwIf (hkind : cursor.current.kind = .kwIf) (hsize : 0 < cursor.size) :
    operand levels cursor = conditional levels cursor hsize := by
  rw [operand]
  split <;> simp_all

theorem operand_of_kwFunction (hkind : cursor.current.kind = .kwFunction)
    (hsize : 0 < cursor.size) : operand levels cursor = function levels cursor hsize := by
  rw [operand]
  split <;> simp_all

/-- No operand starts with a token of another kind. -/
theorem operand_of_other (hkind : cursor.current.kind.startsExpression = false) :
    operand levels cursor = cursor.faultHere (.noOperand cursor.current.kind) := by
  rw [operand]
  split <;> simp_all [Kind.startsExpression]

theorem statement_of_binding {constant : Bool}
    (hkind : cursor.current.kind = bindingKind constant) :
    statement levels cursor = .asStatement (binding constant levels cursor) := by
  rw [statement]
  cases constant <;> split <;> simp_all [bindingKind]

theorem statement_of_kwFunction (hkind : cursor.current.kind = .kwFunction)
    (hsize : 0 < cursor.size) :
    statement levels cursor = .asStatement (functionDeclaration levels cursor hsize) := by
  rw [statement]
  split <;> simp_all

theorem statement_of_kwReturn (hkind : cursor.current.kind = .kwReturn) :
    statement levels cursor = .asStatement (returned levels cursor) := by
  rw [statement]
  split <;> simp_all

theorem statement_of_startsExpression (hkind : cursor.current.kind.startsExpression = true)
    (hfunction : cursor.current.kind ≠ .kwFunction) :
    statement levels cursor = .asStatement (expressionStatement levels cursor) := by
  rw [statement]
  split <;> simp_all [Kind.startsExpression]

/-- A statement that no keyword starts is an expression. -/
theorem statement_of_other (hlet : cursor.current.kind ≠ .kwLet)
    (hconst : cursor.current.kind ≠ .kwConst) (hfunction : cursor.current.kind ≠ .kwFunction)
    (hreturn : cursor.current.kind ≠ .kwReturn) :
    statement levels cursor = .asStatement (expressionStatement levels cursor) := by
  rw [statement]
  split <;> simp_all

theorem extend_of_not_lt (hend : ¬ least < cursor.next.kind.precedence) :
    extend least levels left cursor = .done cursor left := by
  rw [extend]
  split
  · next operator hoperator =>
      rw [Kind.precedence_of_ofKind? hoperator] at hend
      rw [if_neg hend]
  · next hoperator =>
      rw [Kind.precedence_of_ofKind?_eq_none hoperator] at hend
      split
      · next hcall =>
          rw [if_pos hcall.1] at hend
          exact absurd hcall.2 hend
      · rfl

theorem extend_of_operator {operator : BinaryOperator}
    (hoperator : BinaryOperator.ofKind? cursor.next.kind = some operator)
    (hleast : least < operator.precedence) :
    extend least levels left cursor =
      .afterAdvance (.afterAdvance
        ((expression operator.precedence levels cursor.advance.advance).andThen
          fun right last _ =>
            extend least levels
              (.binary (last.spanFrom left.span.start) left operator right) last)) := by
  rw [extend]
  split
  · next other hother =>
      obtain rfl : operator = other := Option.some.inj (hoperator.symm.trans hother)
      rw [if_pos hleast]
  · next hnone =>
      rw [hoperator] at hnone
      cases hnone

theorem extend_of_lParen (hnext : cursor.next.kind = .lParen) (hleast : least < .call) :
    extend least levels left cursor =
      .afterAdvance (.afterAdvance
        ((items .rParen .argumentsEnd levels cursor.advance.advance).andThen
          fun arguments last _ =>
            extend least levels (.call (last.spanFrom left.span.start) left arguments) last)) := by
  rw [extend]
  split
  · next operator hoperator =>
      rw [hnext] at hoperator
      cases hoperator
  · rw [dif_pos ⟨hnext, hleast⟩]

theorem properties_of_rBrace (hnext : cursor.next.kind = .rBrace) :
    properties levels cursor = .afterAdvance (.done cursor.advance []) := by
  rw [properties]
  split <;> simp_all

theorem properties_of_eof (hnext : cursor.next.kind = .eof) :
    properties levels cursor = cursor.faultNext .unclosedObject := by
  rw [properties]
  split <;> simp_all

theorem properties_of_other (hbrace : cursor.next.kind ≠ .rBrace)
    (heof : cursor.next.kind ≠ .eof) (hident : cursor.next.kind ≠ .ident) :
    properties levels cursor = cursor.faultNext (.missing .propertyKey cursor.next.kind) := by
  rw [properties]
  split <;> simp_all

theorem property_of_eof (hnext : cursor.next.kind = .eof) :
    property levels cursor = cursor.faultNext .unclosedObject := by
  rw [property]
  split <;> simp_all

theorem property_of_other (hcomma : cursor.next.kind ≠ .comma)
    (hbrace : cursor.next.kind ≠ .rBrace) (hcolon : cursor.next.kind ≠ .colon)
    (heof : cursor.next.kind ≠ .eof) :
    property levels cursor =
      cursor.faultNext (.missing (.propertyColon cursor.identifier.name) cursor.next.kind) := by
  rw [property]
  split <;> simp_all

theorem property_of_end (hnext : cursor.next.kind = .comma ∨ cursor.next.kind = .rBrace) :
    property levels cursor =
      .done cursor ⟨cursor.identifier, .identifier cursor.identifier.span cursor.identifier,
        cursor.identifier.span⟩ := by
  rw [property]
  split <;> simp_all

theorem property_of_colon (hnext : cursor.next.kind = .colon) :
    property levels cursor =
      .afterAdvance (.afterAdvance
        ((expression .lowest levels cursor.advance.advance).andThen fun value last _ =>
          .done last
            ⟨cursor.identifier, value, cursor.identifier.span.cover value.span⟩)) := by
  rw [property]
  split <;> simp_all

theorem properties_of_ident (hnext : cursor.next.kind = .ident) :
    properties levels cursor =
      .afterAdvance
        ((property levels cursor.advance).andThen fun entry last _ =>
          (propertySeparator last).andThen fun _ last _ =>
            (properties levels last).andThen fun entries last _ =>
              .done last (entry :: entries)) := by
  rw [properties]
  split <;> simp_all

theorem items_of_item {closer : Kind} {what : Expectation} (hopen : cursor.current.kind ≠ closer) :
    items closer what levels cursor =
      (expression .lowest levels cursor).andThen fun first last _ =>
        (moreItems closer what levels last).andThen fun rest last _ =>
          .done last (first :: rest) := by
  rw [items, if_neg hopen]

theorem moreItems_of_next_comma {closer : Kind} {what : Expectation}
    (hnext : cursor.next.kind = .comma) :
    moreItems closer what levels cursor =
      .afterAdvance (.afterAdvance
        ((expression .lowest levels cursor.advance.advance).andThen fun item last _ =>
          (moreItems closer what levels last).andThen fun rest last _ =>
            .done last (item :: rest))) := by
  rw [moreItems, dif_pos hnext]

theorem moreItems_of_next_ne_comma {closer : Kind} {what : Expectation}
    (hnext : cursor.next.kind ≠ .comma) :
    moreItems closer what levels cursor =
      (cursor.expect closer what).andThen fun _ last _ => .done last [] := by
  rw [moreItems, dif_neg hnext]

theorem propertySeparator_of_comma (hnext : cursor.next.kind = .comma) :
    propertySeparator cursor = .afterAdvance (.done cursor.advance ()) := by
  rw [propertySeparator]
  split <;> simp_all

theorem propertySeparator_of_rBrace (hnext : cursor.next.kind = .rBrace) :
    propertySeparator cursor = .done cursor () := by
  rw [propertySeparator]
  split <;> simp_all

/-- Nothing but a comma or the closing brace can stand after a property. -/
theorem propertySeparator_of_other (hcomma : cursor.next.kind ≠ .comma)
    (hbrace : cursor.next.kind ≠ .rBrace) :
    ∃ problem, propertySeparator cursor = cursor.faultNext problem := by
  rw [propertySeparator]
  split
  · contradiction
  · contradiction
  · exact ⟨_, rfl⟩
  · exact ⟨_, rfl⟩

theorem parameters_of_rParen (hclosed : cursor.current.kind = .rParen) :
    parameters cursor = .done cursor [] := by
  rw [parameters, if_pos hclosed]

theorem parameters_of_comma (hname : cursor.current.kind = .ident)
    (hnext : cursor.next.kind = .comma) :
    parameters cursor =
      .afterAdvance (.afterAdvance
        ((parameters cursor.advance.advance).andThen fun names last _ =>
          .done last (cursor.identifier :: names))) := by
  rw [parameters, if_neg (by simp [hname]), dif_pos hname]
  split <;> simp_all

theorem parameters_of_last (hname : cursor.current.kind = .ident)
    (hnext : cursor.next.kind = .rParen) :
    parameters cursor = .afterAdvance (.done cursor.advance [cursor.identifier]) := by
  rw [parameters, if_neg (by simp [hname]), dif_pos hname]
  split <;> simp_all

/-- No parameter starts with a token that is not a name. -/
theorem parameters_of_other (hopen : cursor.current.kind ≠ .rParen)
    (hname : cursor.current.kind ≠ .ident) :
    ∃ problem, parameters cursor = cursor.faultHere problem := by
  rw [parameters, if_neg hopen, dif_neg hname]
  split
  · exact ⟨_, rfl⟩
  · exact ⟨_, rfl⟩

/-- Nothing but a comma or the closing parenthesis can stand after a parameter. -/
theorem parameters_of_separator (hname : cursor.current.kind = .ident)
    (hcomma : cursor.next.kind ≠ .comma) (hparen : cursor.next.kind ≠ .rParen) :
    ∃ problem, parameters cursor = .afterAdvance (cursor.advance.faultHere problem) := by
  rw [parameters, if_neg (by simp [hname]), dif_pos hname]
  split
  · contradiction
  · contradiction
  · exact ⟨_, rfl⟩
  · exact ⟨_, rfl⟩

theorem blockStatements_of_eof (hend : cursor.current.kind = .eof) :
    blockStatements levels cursor = cursor.faultHere .unclosedBlock := by
  rw [blockStatements, if_neg (by simp [hend]), dif_pos hend]

theorem blockStatements_of_statement (hopen : cursor.current.kind ≠ .rBrace)
    (hcurrent : cursor.current.kind ≠ .eof) :
    blockStatements levels cursor =
      (statement levels cursor).regardless fun read last _ =>
        .afterAdvance ((blockStatements levels last.advance).andThen fun statements last _ =>
          .done last (read.toList ++ statements)) := by
  rw [blockStatements, if_neg hopen, dif_neg hcurrent]

theorem programStatements_of_statement (hcurrent : cursor.current.kind ≠ .eof) :
    programStatements cursor =
      (statement maxNesting cursor).regardless fun read last _ =>
        .afterAdvance ((programStatements last.advance).andThen fun statements last _ =>
          .done last (read.toList ++ statements)) := by
  rw [programStatements, dif_neg hcurrent]

end Grammar

end Frontend
