import Frontend.Proofs.Cascade.Log

/-!
# Logs of the readers

Each reader of the grammar has a log, which is put together from those of its parts as the reader
is from its parts.  The logs call one another as the readers do, but for statements, which are
called for by blocks only and have logs of their own.
-/

namespace Frontend.Grammar

variable {extra : Nat}

def integerLog (cursor : Cursor) : Log extra (integer cursor) :=
  .of_eq (integer.eq_def cursor) <|
    if hvalue : Numeral.ofDecimal cursor.current.literal.toList ≤ maxInteger then
      .of_eq (if_pos hvalue) .done
    else .of_eq (if_neg hvalue) .fault

def propertySeparatorLog (cursor : Cursor) : Log extra (propertySeparator cursor) :=
  if hcomma : cursor.next.kind = .comma then
    .of_eq (propertySeparator_of_comma hcomma) (.afterAdvance .done)
  else if hbrace : cursor.next.kind = .rBrace then
    .of_eq (propertySeparator_of_rBrace hbrace) .done
  else .ofFaults <| by
    obtain ⟨problem, hfault⟩ := propertySeparator_of_other hcomma hbrace
    rw [hfault]
    exact .fault

def parametersLog (cursor : Cursor) : Log extra (parameters cursor) :=
  if hclosed : cursor.current.kind = .rParen then .of_eq (parameters_of_rParen hclosed) .done
  else if hname : cursor.current.kind = .ident then
    if hcomma : cursor.next.kind = .comma then
      .of_eq (parameters_of_comma hname hcomma) <| .afterAdvance <| .afterAdvance <|
        (parametersLog cursor.advance.advance).andThen fun _ _ _ => .done
    else if hparen : cursor.next.kind = .rParen then
      .of_eq (parameters_of_last hname hparen) (.afterAdvance .done)
    else .ofFaults <| by
      obtain ⟨problem, hfault⟩ := parameters_of_separator hname hcomma hparen
      rw [hfault]
      exact .afterAdvance .fault
  else .ofFaults <| by
    obtain ⟨problem, hfault⟩ := parameters_of_other hclosed hname
    rw [hfault]
    exact .fault
termination_by cursor.size
decreasing_by
  have hsize : 0 < cursor.size := Cursor.size_pos_of_current (by simp [hname])
  simp only [Cursor.size_advance]
  omega

/-- Statements are called for one after another, and all that the block notes of its own is that it
is not closed.  The recursion is that of the loop. -/
def blockStatementsLog (levels : Nat) (cursor : Cursor) :
    Log extra (blockStatements levels cursor) :=
  if hclosed : cursor.current.kind = .rBrace then
    .of_eq (by rw [blockStatements, if_pos hclosed]) .done
  else if hend : cursor.current.kind = .eof then .of_eq (blockStatements_of_eof hend) .fault
  else
    .of_eq (blockStatements_of_statement hclosed hend) <|
      .afterStatement levels fun _ last _ =>
        .afterAdvance <| (blockStatementsLog levels last.advance).andThen fun _ _ _ => .done
termination_by cursor.size
decreasing_by
  have hsize := Cursor.size_pos_of_current hend
  simp only [Cursor.size_advance]
  omega

def blockLog (levels : Nat) (cursor : Cursor) : Log extra (block levels cursor) :=
  .of_eq (block.eq_def levels cursor) <| .afterAdvance <|
    (blockStatementsLog levels cursor.advance).andThen fun _ _ _ => .done

def functionLog (levels : Nat) (cursor : Cursor) (hsize : 0 < cursor.size) :
    Log extra (function levels cursor hsize) :=
  .of_eq (function.eq_def levels cursor hsize) <|
    Log.expect.andThen fun _ opener _ => .afterAdvance <|
      (parametersLog opener.advance).andThen fun _ _ _ =>
        Log.expect.andThen fun _ brace _ =>
          (blockLog levels brace).andThen fun _ _ _ => .done

mutual

/-- An expression makes one note at most, wherever in it the fault is: a fault ends each reader on
the way out. -/
def expressionLog (least : Precedence) (levels : Nat) (cursor : Cursor) :
    Log 0 (expression least levels cursor) :=
  .of_eq (expression.eq_def least levels cursor) <|
    match levels with
    | 0 => .fault
    | levels + 1 =>
        (operandLog levels cursor).andThen fun left last _ => extendLog least levels left last
termination_by 8 * cursor.size + 3
decreasing_by all_goals omega

-- The kinds are asked for one by one, since the last case has to know that it is none of them.
def operandLog (levels : Nat) (cursor : Cursor) : Log 0 (operand levels cursor) :=
  if hkind : cursor.current.kind = .ident then .of_eq (operand_of_ident hkind) .done
  else if hkind : cursor.current.kind = .int then
    .of_eq (operand_of_int hkind) (integerLog cursor)
  else if hkind : cursor.current.kind = .string then .of_eq (operand_of_string hkind) .done
  else if hkind : cursor.current.kind = booleanKind true then
    .of_eq (operand_of_boolean hkind) .done
  else if hkind : cursor.current.kind = booleanKind false then
    .of_eq (operand_of_boolean hkind) .done
  else if hkind : cursor.current.kind = UnaryOperator.not.kind then
    have hsize := Cursor.size_pos_of_current (by simp [hkind, UnaryOperator.kind])
    .of_eq (operand_of_unary hkind hsize) (unaryLog .not levels cursor hsize)
  else if hkind : cursor.current.kind = UnaryOperator.negate.kind then
    have hsize := Cursor.size_pos_of_current (by simp [hkind, UnaryOperator.kind])
    .of_eq (operand_of_unary hkind hsize) (unaryLog .negate levels cursor hsize)
  else if hkind : cursor.current.kind = .lBracket then
    have hsize := Cursor.size_pos_of_current (by simp [hkind])
    .of_eq (operand_of_lBracket hkind hsize) (arrayLog levels cursor hsize)
  else if hkind : cursor.current.kind = .lBrace then
    .of_eq (operand_of_lBrace hkind) (objectLog levels cursor)
  else if hkind : cursor.current.kind = .kwIf then
    have hsize := Cursor.size_pos_of_current (by simp [hkind])
    .of_eq (operand_of_kwIf hkind hsize) (conditionalLog levels cursor hsize)
  else if hkind : cursor.current.kind = .kwFunction then
    have hsize := Cursor.size_pos_of_current (by simp [hkind])
    .of_eq (operand_of_kwFunction hkind hsize) (functionLog levels cursor hsize)
  else
    .of_eq (operand_of_other (by cases h : cursor.current.kind <;> simp_all [Kind.startsExpression,
      booleanKind, UnaryOperator.kind])) .fault
termination_by 8 * cursor.size + 2
decreasing_by all_goals omega

def extendLog (least : Precedence) (levels : Nat) (left : Expression) (cursor : Cursor) :
    Log 0 (extend least levels left cursor) :=
  if hlt : least < cursor.next.kind.precedence then
    match hoperator : BinaryOperator.ofKind? cursor.next.kind with
    | some operator =>
        have hleast : least < operator.precedence := Kind.precedence_of_ofKind? hoperator ▸ hlt
        .of_eq (extend_of_operator hoperator hleast) <| .afterAdvance <| .afterAdvance <|
          (expressionLog operator.precedence levels cursor.advance.advance).andThen
            fun _ last _ => extendLog least levels _ last
    | none =>
        have hcall : cursor.next.kind = .lParen ∧ least < .call := by
          obtain ⟨operator, hsome, -⟩ | hcall := Kind.lt_precedence_cases hlt
          · rw [hoperator] at hsome
            cases hsome
          · exact hcall
        .of_eq (extend_of_lParen hcall.1 hcall.2) <| .afterAdvance <| .afterAdvance <|
          (itemsLog .rParen .argumentsEnd levels cursor.advance.advance).andThen
            fun _ last _ => extendLog least levels _ last
  else .of_eq (extend_of_not_lt hlt) .done
termination_by 8 * cursor.size + 2
decreasing_by
  · have hsize := Cursor.one_lt_size_of_next (BinaryOperator.ne_eof_of_ofKind? hoperator)
    simp only [Cursor.size_advance]
    omega
  · have hsize := Cursor.one_lt_size_of_next (BinaryOperator.ne_eof_of_ofKind? hoperator)
    simp only [Cursor.size_advance] at *
    omega
  · have hsize : 1 < cursor.size := Cursor.one_lt_size_of_next (by simp [hcall.1])
    simp only [Cursor.size_advance]
    omega
  · have hsize : 1 < cursor.size := Cursor.one_lt_size_of_next (by simp [hcall.1])
    simp only [Cursor.size_advance] at *
    omega

def unaryLog (operator : UnaryOperator) (levels : Nat) (cursor : Cursor) (hsize : 0 < cursor.size) :
    Log 0 (unary operator levels cursor hsize) :=
  .of_eq (unary.eq_def operator levels cursor hsize) <| .afterAdvance <|
    (expressionLog .unary levels cursor.advance).andThen fun _ _ _ => .done
termination_by 8 * cursor.size + 1
decreasing_by simp only [Cursor.size_advance]; omega

def arrayLog (levels : Nat) (cursor : Cursor) (hsize : 0 < cursor.size) :
    Log 0 (array levels cursor hsize) :=
  .of_eq (array.eq_def levels cursor hsize) <| .afterAdvance <|
    (itemsLog .rBracket .arrayEnd levels cursor.advance).andThen fun _ _ _ => .done
termination_by 8 * cursor.size + 1
decreasing_by simp only [Cursor.size_advance]; omega

def itemsLog (closer : Kind) (what : Expectation) (levels : Nat) (cursor : Cursor) :
    Log 0 (items closer what levels cursor) :=
  if hclosed : cursor.current.kind = closer then .of_eq (by rw [items, if_pos hclosed]) .done
  else
    .of_eq (items_of_item hclosed) <|
      (expressionLog .lowest levels cursor).andThen fun _ last _ =>
        (moreItemsLog closer what levels last).andThen fun _ _ _ => .done
termination_by 8 * cursor.size + 4
decreasing_by all_goals omega

def moreItemsLog (closer : Kind) (what : Expectation) (levels : Nat) (cursor : Cursor) :
    Log 0 (moreItems closer what levels cursor) :=
  if hcomma : cursor.next.kind = .comma then
    .of_eq (moreItems_of_next_comma hcomma) <| .afterAdvance <| .afterAdvance <|
      (expressionLog .lowest levels cursor.advance.advance).andThen fun _ last _ =>
        (moreItemsLog closer what levels last).andThen fun _ _ _ => .done
  else .of_eq (moreItems_of_next_ne_comma hcomma) (Log.expect.andThen fun _ _ _ => .done)
termination_by 8 * cursor.size
decreasing_by
  all_goals
    have hsize : 1 < cursor.size := Cursor.one_lt_size_of_next (by simp [hcomma])
    simp only [Cursor.size_advance] at *
    omega

def objectLog (levels : Nat) (cursor : Cursor) : Log 0 (object levels cursor) :=
  .of_eq (object.eq_def levels cursor) <|
    (propertiesLog levels cursor).andThen fun _ _ _ => .done
termination_by 8 * cursor.size + 1
decreasing_by omega

def propertiesLog (levels : Nat) (cursor : Cursor) : Log 0 (properties levels cursor) :=
  if hbrace : cursor.next.kind = .rBrace then
    .of_eq (properties_of_rBrace hbrace) (.afterAdvance .done)
  else if hend : cursor.next.kind = .eof then .of_eq (properties_of_eof hend) .fault
  else if hident : cursor.next.kind = .ident then
    .of_eq (properties_of_ident hident) <| .afterAdvance <|
      (propertyLog levels cursor.advance).andThen fun _ last _ =>
        (propertySeparatorLog last).andThen fun _ last _ =>
          (propertiesLog levels last).andThen fun _ _ _ => .done
  else .of_eq (properties_of_other hbrace hend hident) .fault
termination_by 8 * cursor.size
decreasing_by
  all_goals
    have hsize : 1 < cursor.size := Cursor.one_lt_size_of_next (by simp [hident])
    simp only [Cursor.size_advance] at *
    omega

def propertyLog (levels : Nat) (cursor : Cursor) : Log 0 (property levels cursor) :=
  if hshort : cursor.next.kind = .comma ∨ cursor.next.kind = .rBrace then
    .of_eq (property_of_end hshort) .done
  else if hcolon : cursor.next.kind = .colon then
    .of_eq (property_of_colon hcolon) <| .afterAdvance <| .afterAdvance <|
      (expressionLog .lowest levels cursor.advance.advance).andThen fun _ _ _ => .done
  else if hend : cursor.next.kind = .eof then .of_eq (property_of_eof hend) .fault
  else
    .of_eq (property_of_other (mt .inl hshort) (mt .inr hshort) hcolon hend) .fault
termination_by 8 * cursor.size
decreasing_by
  have hsize : 1 < cursor.size := Cursor.one_lt_size_of_next (by simp [hcolon])
  simp only [Cursor.size_advance] at *
  omega

def conditionalLog (levels : Nat) (cursor : Cursor) (hsize : 0 < cursor.size) :
    Log 0 (conditional levels cursor hsize) :=
  .of_eq (conditional.eq_def levels cursor hsize) <|
    Log.expect.andThen fun _ opener _ => .afterAdvance <|
      (expressionLog .lowest levels opener.advance).andThen fun _ _ _ =>
        Log.expect.andThen fun _ _ _ =>
          Log.expect.andThen fun _ brace _ =>
            (blockLog levels brace).andThen fun _ last _ =>
              if helse : last.next.kind = .kwElse then
                .of_eq (if_pos helse) <| .afterAdvance <|
                  Log.expect.andThen fun _ brace _ =>
                    (blockLog levels brace).andThen fun _ _ _ => .done
              else .of_eq (if_neg helse) .done
termination_by 8 * cursor.size + 1
decreasing_by simp only [Cursor.size_advance] at *; omega

end

def bindingLog (constant : Bool) (levels : Nat) (cursor : Cursor) :
    Log 0 (binding constant levels cursor) :=
  .of_eq (binding.eq_def constant levels cursor) <|
    Log.expect.andThen fun _ named _ =>
      if hbare : named.next.kind = .semicolon then
        .of_eq (if_pos hbare) <| .afterAdvance <|
          if hconstant : constant then .of_eq (if_pos hconstant) .fault
          else .of_eq (if_neg hconstant) .done
      else
        .of_eq (if_neg hbare) <|
          Log.expect.andThen fun _ sign _ => .afterAdvance <|
            (expressionLog .lowest levels sign.advance).andThen fun _ _ _ =>
              Log.expect.andThen fun _ _ _ => .done

def functionDeclarationLog (levels : Nat) (cursor : Cursor) (hsize : 0 < cursor.size) :
    Log 0 (functionDeclaration levels cursor hsize) :=
  .of_eq (functionDeclaration.eq_def levels cursor hsize) <|
    Log.expect.andThen fun _ _ _ =>
      Log.expect.andThen fun _ opener _ => .afterAdvance <|
        (parametersLog opener.advance).andThen fun _ _ _ =>
          Log.expect.andThen fun _ brace _ =>
            (blockLog levels brace).andThen fun _ _ _ => .done

/-- What is wrong with the value may be noted once more. -/
def returnedLog (levels : Nat) (cursor : Cursor) : Log 1 (returned levels cursor) :=
  .of_eq (returned.eq_def levels cursor) <| .afterAdvance <|
    (expressionLog .lowest levels cursor.advance).orNote.andThen fun _ _ _ =>
      Log.expect.andThen fun _ _ _ => .done

def expressionStatementLog (levels : Nat) (cursor : Cursor) :
    Log 0 (expressionStatement levels cursor) :=
  .of_eq (expressionStatement.eq_def levels cursor) <|
    (expressionLog .lowest levels cursor).andThen fun _ last _ =>
      if hsemicolon : last.next.kind = .semicolon then
        .of_eq (if_pos hsemicolon) (.afterAdvance .done)
      else .of_eq (if_neg hsemicolon) .done

/-! ## Statements -/

def statementLog (levels : Nat) (cursor : Cursor) : StatementLog levels cursor :=
  if hlet : cursor.current.kind = bindingKind false then
    (bindingLog false levels cursor).asStatement (statement_of_binding hlet) (Nat.zero_le _)
  else if hconst : cursor.current.kind = bindingKind true then
    (bindingLog true levels cursor).asStatement (statement_of_binding hconst) (Nat.zero_le _)
  else if hfunction : cursor.current.kind = .kwFunction then
    have hsize := Cursor.size_pos_of_current (by simp [hfunction])
    (functionDeclarationLog levels cursor hsize).asStatement
      (statement_of_kwFunction hfunction hsize) (Nat.zero_le _)
  else if hreturn : cursor.current.kind = .kwReturn then
    (returnedLog levels cursor).asStatement (statement_of_kwReturn hreturn)
      (by rw [extraNotes, if_pos hreturn])
  else
    (expressionStatementLog levels cursor).asStatement
      (statement_of_other hlet hconst hfunction hreturn) (Nat.zero_le _)

def programStatementsLog (cursor : Cursor) : Log extra (programStatements cursor) :=
  if hend : cursor.current.kind = .eof then .of_eq (by rw [programStatements, dif_pos hend]) .done
  else
    .of_eq (programStatements_of_statement hend) <|
      .afterStatement maxNesting fun _ last _ =>
        .afterAdvance <| (programStatementsLog last.advance).andThen fun _ _ _ => .done
termination_by cursor.size
decreasing_by
  have hsize := Cursor.size_pos_of_current hend
  simp only [Cursor.size_advance]
  omega

end Frontend.Grammar
