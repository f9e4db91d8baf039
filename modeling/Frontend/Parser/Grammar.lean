import Frontend.Parser.Outcome

/-!
# The grammar

Each part of the grammar is read by a function of its own.  It starts with the cursor on the first
token of the part and stops with the cursor on the last one, or, at a fault, on the last token that
was looked at closely enough to be spent.  Expressions are read by precedence: an operand is
extended to the right for as long as the next operator holds more tightly than the place allows.

The number `levels` tells how many more expressions may be opened inside the present one.  Left
operands and callees open none, and blocks do not start afresh, so the bound holds for everything
that is read inside one expression.

All functions call one another, and each call leaves fewer tokens or goes to a function of lower
rank.
-/

namespace Frontend.Grammar

/-- The largest integer that can be written, which is the largest of the type that
`parse_integer_literal` parses digits as. -/
def maxInteger : Nat := 9223372036854775807

/-- The integer at the cursor, `parse_integer_literal`.  Leading zeros are no fault, but a number
above the bound is one. -/
def integer (cursor : Cursor) : Outcome cursor Expression :=
  let value := Numeral.ofDecimal cursor.current.literal.toList
  if value ≤ maxInteger then .done cursor (.integer cursor.current.span value)
  else cursor.faultHere (.integerTooLarge cursor.current.literal)

/-- Parameters from the token after the opening parenthesis through the closing one,
`parse_function_parameters` with the parenthesis consumed.  A comma may follow the last name. -/
def parameters (cursor : Cursor) : Outcome cursor (List Identifier) :=
  if cursor.current.kind = .rParen then .done cursor []
  else if _hname : cursor.current.kind = .ident then
    .afterAdvance <|
      match cursor.next.kind with
      | .comma =>
          .afterAdvance <| (parameters cursor.advance.advance).andThen fun names last _ =>
            .done last (cursor.identifier :: names)
      | .rParen => .done cursor.advance [cursor.identifier]
      | .eof => cursor.advance.faultHere .unclosedParameters
      | found => cursor.advance.faultHere (.missing .parameterSeparator found)
  else if cursor.current.kind = .eof then cursor.faultHere .unclosedParameters
  else cursor.faultHere (.missing .parameterName cursor.current.kind)
termination_by cursor.size
decreasing_by
  have hsize : 0 < cursor.size := Cursor.size_pos_of_current (by simp [_hname])
  simp only [Cursor.size_advance]
  omega

/-- What stands after a property, the last match in the loop of `parse_object_literal`: a comma,
which is spent, or the closing brace, which is not. -/
def propertySeparator (cursor : Cursor) : Outcome cursor Unit :=
  match cursor.next.kind with
  | .comma => .afterAdvance (.done cursor.advance ())
  | .rBrace => .done cursor ()
  | .eof => cursor.faultNext .unclosedObject
  | found => cursor.faultNext (.missing .propertySeparator found)

mutual

/-- An expression of which the outermost binary operator holds more tightly than `least`:
`parse_expression`, which refuses to open one inside `MAX_EXPRESSION_DEPTH` others. -/
def expression (least : Precedence) (levels : Nat) (cursor : Cursor) :
    Outcome cursor Expression :=
  match levels with
  | 0 => cursor.faultHere .nestingTooDeep
  | levels + 1 =>
      (operand levels cursor).andThen fun left last _ => extend least levels left last
termination_by 8 * cursor.size + 3
decreasing_by all_goals omega

/-- An expression that is read without looking for an operator or a call after it: the function that
`parse_expression_at` finds in `PREFIX_PARSE_FNS` for the current token. -/
def operand (levels : Nat) (cursor : Cursor) : Outcome cursor Expression :=
  match hkind : cursor.current.kind with
  | .ident => .done cursor (.identifier cursor.current.span cursor.identifier)
  | .int => integer cursor
  | .string => .done cursor (.string cursor.current.span cursor.current.literal)
  | .kwTrue => .done cursor (.boolean cursor.current.span true)
  | .kwFalse => .done cursor (.boolean cursor.current.span false)
  | .bang => unary .not levels cursor (Cursor.size_pos_of_current (by simp [hkind]))
  | .minus => unary .negate levels cursor (Cursor.size_pos_of_current (by simp [hkind]))
  | .lBracket => array levels cursor (Cursor.size_pos_of_current (by simp [hkind]))
  | .lBrace => object levels cursor
  | .kwIf => conditional levels cursor (Cursor.size_pos_of_current (by simp [hkind]))
  | .kwFunction => function levels cursor (Cursor.size_pos_of_current (by simp [hkind]))
  | found => cursor.faultHere (.noOperand found)
termination_by 8 * cursor.size + 2
decreasing_by all_goals omega

/-- Extends a left operand, of which the last token is at the cursor, by the operators and calls
after it: the loop of `parse_expression_at` with `parse_infix_expression` and
`parse_call_expression`.  A semicolon holds nothing, so it needs no check of its own. -/
def extend (least : Precedence) (levels : Nat) (left : Expression) (cursor : Cursor) :
    Outcome cursor Expression :=
  match _hoperator : BinaryOperator.ofKind? cursor.next.kind with
  | some operator =>
      if least < operator.precedence then
        .afterAdvance <| .afterAdvance <|
          (expression operator.precedence levels cursor.advance.advance).andThen
            fun right last _ =>
              extend least levels
                (.binary (last.spanFrom left.span.start) left operator right) last
      else .done cursor left
  | none =>
      if _hcall : cursor.next.kind = .lParen ∧ least < .call then
        .afterAdvance <| .afterAdvance <|
          (items .rParen .argumentsEnd levels cursor.advance.advance).andThen
            fun arguments last _ =>
              extend least levels (.call (last.spanFrom left.span.start) left arguments) last
      else .done cursor left
termination_by 8 * cursor.size + 2
decreasing_by
  · have hsize := Cursor.one_lt_size_of_next (BinaryOperator.ne_eof_of_ofKind? _hoperator)
    simp only [Cursor.size_advance]
    omega
  · have hsize := Cursor.one_lt_size_of_next (BinaryOperator.ne_eof_of_ofKind? _hoperator)
    simp only [Cursor.size_advance] at *
    omega
  · have hsize : 1 < cursor.size := Cursor.one_lt_size_of_next (by simp [_hcall.1])
    simp only [Cursor.size_advance]
    omega
  · have hsize : 1 < cursor.size := Cursor.one_lt_size_of_next (by simp [_hcall.1])
    simp only [Cursor.size_advance] at *
    omega

/-- A unary operator at the cursor and its operand, `parse_prefix_expression`. -/
def unary (operator : UnaryOperator) (levels : Nat) (cursor : Cursor) (_hsize : 0 < cursor.size) :
    Outcome cursor Expression :=
  .afterAdvance <| (expression .unary levels cursor.advance).andThen fun inner last _ =>
    .done last (.unary (last.spanFrom cursor.current.span.start) operator inner)
termination_by 8 * cursor.size + 1
decreasing_by simp only [Cursor.size_advance]; omega

/-- An array with its opening bracket at the cursor, `parse_array_literal`. -/
def array (levels : Nat) (cursor : Cursor) (_hsize : 0 < cursor.size) :
    Outcome cursor Expression :=
  .afterAdvance <|
    (items .rBracket .arrayEnd levels cursor.advance).andThen fun elements last _ =>
      .done last (.array (last.spanFrom cursor.current.span.start) elements)
termination_by 8 * cursor.size + 1
decreasing_by simp only [Cursor.size_advance]; omega

/-- Expressions between commas, from the token after the opening one through the closing one:
`parse_expression_list`, which is told the closing token and what to ask for in its place. -/
def items (closer : Kind) (what : Expectation) (levels : Nat) (cursor : Cursor) :
    Outcome cursor (List Expression) :=
  if cursor.current.kind = closer then .done cursor []
  else
    (expression .lowest levels cursor).andThen fun first last _ =>
      (moreItems closer what levels last).andThen fun rest last _ =>
        .done last (first :: rest)
termination_by 8 * cursor.size + 4
decreasing_by all_goals omega

/-- What follows an item, the end of `parse_expression_list`: a comma and further items, or the
closing token.  No comma may follow the last item. -/
def moreItems (closer : Kind) (what : Expectation) (levels : Nat) (cursor : Cursor) :
    Outcome cursor (List Expression) :=
  if _hcomma : cursor.next.kind = .comma then
    .afterAdvance <| .afterAdvance <|
      (expression .lowest levels cursor.advance.advance).andThen fun item last _ =>
        (moreItems closer what levels last).andThen fun rest last _ =>
          .done last (item :: rest)
  else (cursor.expect closer what).andThen fun _ last _ => .done last []
termination_by 8 * cursor.size
decreasing_by
  all_goals
    have hsize : 1 < cursor.size := Cursor.one_lt_size_of_next (by simp [_hcomma])
    simp only [Cursor.size_advance] at *
    omega

/-- An object with its opening brace at the cursor, `parse_object_literal`. -/
def object (levels : Nat) (cursor : Cursor) : Outcome cursor Expression :=
  (properties levels cursor).andThen fun entries last _ =>
    .done last (.object (last.spanFrom cursor.current.span.start) entries)
termination_by 8 * cursor.size + 1
decreasing_by omega

/-- Properties through the closing brace, from the opening brace, from a comma, or from the end of a
property that the closing brace follows: the loop of `parse_object_literal`.  A comma may follow the
last property. -/
def properties (levels : Nat) (cursor : Cursor) : Outcome cursor (List Property) :=
  match _hnext : cursor.next.kind with
  | .rBrace => .afterAdvance (.done cursor.advance [])
  | .eof => cursor.faultNext .unclosedObject
  | .ident =>
      .afterAdvance <|
        (property levels cursor.advance).andThen fun entry last _ =>
          (propertySeparator last).andThen fun _ last _ =>
            (properties levels last).andThen fun entries last _ =>
              .done last (entry :: entries)
  | found => cursor.faultNext (.missing .propertyKey found)
termination_by 8 * cursor.size
decreasing_by
  all_goals
    have hsize : 1 < cursor.size := Cursor.one_lt_size_of_next (by simp [_hnext])
    simp only [Cursor.size_advance] at *
    omega

/-- A property with its key at the cursor, the second match in that loop.  A key alone stands for
the value of its name, and no level is opened for it. -/
def property (levels : Nat) (cursor : Cursor) : Outcome cursor Property :=
  let key := cursor.identifier
  match _hnext : cursor.next.kind with
  | .comma | .rBrace => .done cursor ⟨key, .identifier key.span key, key.span⟩
  | .colon =>
      .afterAdvance <| .afterAdvance <|
        (expression .lowest levels cursor.advance.advance).andThen fun value last _ =>
          .done last ⟨key, value, key.span.cover value.span⟩
  | .eof => cursor.faultNext .unclosedObject
  | found => cursor.faultNext (.missing (.propertyColon key.name) found)
termination_by 8 * cursor.size
decreasing_by
  have hsize : 1 < cursor.size := Cursor.one_lt_size_of_next (by simp [_hnext])
  simp only [Cursor.size_advance] at *
  omega

/-- A conditional with its `if` at the cursor, `parse_if_expression`. -/
def conditional (levels : Nat) (cursor : Cursor) (_hsize : 0 < cursor.size) :
    Outcome cursor Expression :=
  (cursor.expect .lParen .conditionStart).andThen fun _ opener _ =>
    .afterAdvance <|
      (expression .lowest levels opener.advance).andThen fun condition last _ =>
        (last.expect .rParen .conditionEnd).andThen fun _ last _ =>
          (last.expect .lBrace .consequence).andThen fun _ brace _ =>
            (block levels brace).andThen fun consequence last _ =>
              if last.next.kind = .kwElse then
                .afterAdvance <|
                  (last.advance.expect .lBrace .alternative).andThen fun _ brace _ =>
                    (block levels brace).andThen fun alternative last _ =>
                      .done last
                        (.conditional (last.spanFrom cursor.current.span.start) condition
                          consequence (some alternative))
              else
                .done last
                  (.conditional (last.spanFrom cursor.current.span.start) condition consequence
                    none)
termination_by 8 * cursor.size + 1
decreasing_by all_goals simp only [Cursor.size_advance] at *; omega

/-- A function without a name, with its keyword at the cursor, `parse_function_literal`. -/
def function (levels : Nat) (cursor : Cursor) (_hsize : 0 < cursor.size) :
    Outcome cursor Expression :=
  (cursor.expect .lParen .literalParameters).andThen fun _ opener _ =>
    .afterAdvance <|
      (parameters opener.advance).andThen fun names last _ =>
        (last.expect .lBrace .literalBody).andThen fun _ brace _ =>
          (block levels brace).andThen fun body last _ =>
            .done last (.function (last.spanFrom cursor.current.span.start) names body)
termination_by 8 * cursor.size + 1
decreasing_by simp only [Cursor.size_advance] at *; omega

/-- A block with its opening brace at the cursor, `parse_block`. -/
def block (levels : Nat) (cursor : Cursor) : Outcome cursor Block :=
  .afterAdvance <| (blockStatements levels cursor.advance).andThen fun statements last _ =>
    .done last ⟨statements, last.spanFrom cursor.current.span.start⟩
termination_by 8 * cursor.size + 7
decreasing_by simp only [Cursor.size_advance]; omega

/-- Statements through the closing brace, the loop of `parse_block`.  Those with a fault are left
out, and the next one starts after the token at which such a statement stopped. -/
def blockStatements (levels : Nat) (cursor : Cursor) : Outcome cursor (List Statement) :=
  if cursor.current.kind = .rBrace then .done cursor []
  else if _hend : cursor.current.kind = .eof then cursor.faultHere .unclosedBlock
  else
    (statement levels cursor).regardless fun read last _ =>
      .afterAdvance <| (blockStatements levels last.advance).andThen fun statements last _ =>
        .done last (read.toList ++ statements)
termination_by 8 * cursor.size + 6
decreasing_by
  · omega
  · have hsize := Cursor.size_pos_of_current _hend
    simp only [Cursor.size_advance]
    omega

/-- A statement, `parse_statement`: a keyword at the cursor tells of which kind it is, and what
starts with any other token is an expression. -/
def statement (levels : Nat) (cursor : Cursor) : Outcome cursor Statement :=
  .asStatement <|
    match hkind : cursor.current.kind with
    | .kwLet => binding false levels cursor
    | .kwConst => binding true levels cursor
    | .kwFunction =>
        functionDeclaration levels cursor (Cursor.size_pos_of_current (by simp [hkind]))
    | .kwReturn => returned levels cursor
    | _ => expressionStatement levels cursor
termination_by 8 * cursor.size + 5
decreasing_by all_goals omega

/-- A binding with its keyword at the cursor, `parse_variable_declaration`.  A `let` may go without
a value, while the semicolon of a `const` that does is spent with the fault. -/
def binding (constant : Bool) (levels : Nat) (cursor : Cursor) : Outcome cursor Statement :=
  (cursor.expect .ident (.boundName constant)).andThen fun _ named _ =>
    let name := named.identifier
    if named.next.kind = .semicolon then
      .afterAdvance <|
        if constant then named.advance.faultHere (.constantWithoutValue name.name)
        else
          .done named.advance
            (.binding false name none (named.advance.spanFrom cursor.current.span.start))
    else
      (named.expect .assign (.boundValue constant name.name)).andThen fun _ sign _ =>
        .afterAdvance <|
          (expression .lowest levels sign.advance).andThen fun value last _ =>
            (last.expect .semicolon (.boundEnd name.name)).andThen fun _ last _ =>
              .done last
                (.binding constant name (some value)
                  (last.spanFrom cursor.current.span.start))
termination_by 8 * cursor.size + 4
decreasing_by simp only [Cursor.size_advance] at *; omega

/-- A function with a name, with its keyword at the cursor, `parse_function_declaration`.  It opens
no level, and neither does its block. -/
def functionDeclaration (levels : Nat) (cursor : Cursor) (_hsize : 0 < cursor.size) :
    Outcome cursor Statement :=
  (cursor.expect .ident .functionName).andThen fun _ named _ =>
    let name := named.identifier
    (named.expect .lParen (.functionParameters name.name)).andThen fun _ opener _ =>
      .afterAdvance <|
        (parameters opener.advance).andThen fun names last _ =>
          (last.expect .lBrace (.functionBody name.name)).andThen fun _ brace _ =>
            (block levels brace).andThen fun body last _ =>
              .done last (.function name names body (last.spanFrom cursor.current.span.start))
termination_by 8 * cursor.size + 4
decreasing_by simp only [Cursor.size_advance] at *; omega

/-- A `return` at the cursor and its value, `parse_return_statement`.  It cannot do without the
value, of whose fault it gives a second diagnostic. -/
def returned (levels : Nat) (cursor : Cursor) : Outcome cursor Statement :=
  .afterAdvance <|
    ((expression .lowest levels cursor.advance).orNote .returnWithoutValue).andThen
      fun value last _ =>
        (last.expect .semicolon .returnEnd).andThen fun _ last _ =>
          .done last (.returned value (last.spanFrom cursor.current.span.start))
termination_by 8 * cursor.size + 4
decreasing_by simp only [Cursor.size_advance] at *; omega

/-- An expression as a statement, `parse_expression_statement`, with the semicolon after it if there
is one. -/
def expressionStatement (levels : Nat) (cursor : Cursor) : Outcome cursor Statement :=
  (expression .lowest levels cursor).andThen fun value last _ =>
    if last.next.kind = .semicolon then
      .afterAdvance <|
        .done last.advance
          (.expression value (last.advance.spanFrom cursor.current.span.start))
    else .done last (.expression value (last.spanFrom cursor.current.span.start))
termination_by 8 * cursor.size + 4
decreasing_by omega

end

/-- Statements up to the end of the text, the loop of `parse_program`.  Those with a fault are left
out. -/
def programStatements (cursor : Cursor) : Outcome cursor (List Statement) :=
  if _hend : cursor.current.kind = .eof then .done cursor []
  else
    (statement maxNesting cursor).regardless fun read last _ =>
      .afterAdvance <| (programStatements last.advance).andThen fun statements last _ =>
        .done last (read.toList ++ statements)
termination_by cursor.size
decreasing_by
  have hsize := Cursor.size_pos_of_current _hend
  simp only [Cursor.size_advance] at *
  omega

end Frontend.Grammar
