import Frontend.Parser
import Frontend.Proofs.Checked.Checks
import Frontend.Proofs.Tree.Operator
import Frontend.Proofs.Tree.Spelling

/-!
# The grammar with checks

The readers of the grammar once more, with a check wherever one can fail: the bounds of each span
are compared, the handler of a token is looked up in a table with an entry for each kind, and the
number of open expressions is counted up and down and handed on from one reader to the next.  The
readers of the library are given the number of expressions that may still be opened instead, and
need not count.
-/

namespace Frontend

/-- A reader with checks is given the number of open expressions, the `expression_depth` of
`Parser`, and leaves one behind. -/
abbrev Guarded (cursor : Cursor) (α : Type) := Nat → Checked (Outcome cursor α × Nat)

namespace Guarded

variable {α β γ : Type} {cursor : Cursor}

/-- An outcome without a check, which leaves the number of open expressions as it is. -/
def lift (outcome : Outcome cursor α) : Guarded cursor α := fun opened => .ok (outcome, opened)

/-- A value that needs no further token. -/
def done (cursor : Cursor) (value : α) : Guarded cursor α := lift (.done cursor value)

/-- Reads on with what a check gives.  A check that fails stops all reading, and no outcome is
left. -/
def checking (check : Checked γ) (rest : γ → Guarded cursor α) : Guarded cursor α :=
  fun opened => do rest (← check) opened

/-- Reads on after a part that has a value; a fault ends the reading.  Either way the number of open
expressions is handed on as it was left. -/
def andThen (first : Guarded cursor α)
    (rest : α → (next : Cursor) → next.size ≤ cursor.size → Guarded next β) : Guarded cursor β :=
  fun opened => do
    let (outcome, opened) ← first opened
    match outcome.value with
    | some value =>
        let (second, opened) ← rest value outcome.stop outcome.size_le opened
        return (outcome.followedBy second, opened)
    | none =>
        return (⟨none, outcome.stop, outcome.diagnostics, outcome.events, outcome.size_le⟩, opened)

/-- Reads on after a part whether or not it has a value, with the number of open expressions that
the part left behind. -/
def regardless (first : Guarded cursor α)
    (rest : Option α → (next : Cursor) → next.size ≤ cursor.size → Guarded next β) :
    Guarded cursor β :=
  fun opened => do
    let (outcome, opened) ← first opened
    let (second, opened) ← rest outcome.value outcome.stop outcome.size_le opened
    return (outcome.followedBy second, opened)

/-- What is done with the outcome of a reader, which no check is needed for. -/
def map {other : Cursor} (change : Outcome other α → Outcome cursor β) (guarded : Guarded other α) :
    Guarded cursor β :=
  fun opened => do
    let (outcome, opened) ← guarded opened
    return (change outcome, opened)

/-- Reading that began one token further on. -/
def afterAdvance (guarded : Guarded cursor.advance α) : Guarded cursor α :=
  guarded.map .afterAdvance

/-- Reads with one more expression open, unless there are too many of them: `parse_expression`,
which counts up before it reads and down again, whatever came of it. -/
def nested (guarded : Guarded cursor α) : Guarded cursor α :=
  fun opened =>
    if opened ≥ maxNesting then .ok (cursor.faultHere .nestingTooDeep, opened)
    else do
      let (outcome, opened) ← guarded (opened + 1)
      return (outcome, ← checkedSub opened 1)

end Guarded

namespace Cursor

/-- The span from an offset through the token that the cursor stands on: `span_from`, of which the
bounds are compared by `new`. -/
def checkedSpanFrom (cursor : Cursor) (start : Nat) : Checked Span :=
  Span.checked start cursor.current.span.stop

/-- Moves on to the next token, which must be of one kind.  Looking at a kind cannot fail, so
`expect_peek` needs no check. -/
def guardedExpect (cursor : Cursor) (kind : Kind) (what : Expectation) : Guarded cursor Unit :=
  .lift (cursor.expect kind what)

end Cursor

namespace Grammar.Checked

/-- Whether an expression is read by the token that it starts with, for each kind of token: which
entries of `PREFIX_PARSE_FNS` there are. -/
def operandTable : List Bool := Kind.all.map Kind.startsExpression

/-- Whether a kind of token goes on with an expression before it, by an operator or by arguments. -/
def goesOn (kind : Kind) : Bool := (BinaryOperator.ofKind? kind).isSome || kind = .lParen

/-- The same for each kind of token: which entries of `INFIX_PARSE_FNS` there are. -/
def extensionTable : List Bool := Kind.all.map goesOn

mutual

/-- An expression, `parse_expression`: the check is that the count can be taken back. -/
def expression (least : Precedence) (cursor : Cursor) : Guarded cursor Expression :=
  Guarded.nested ((operand cursor).andThen fun left last _ => extend least left last)
termination_by 8 * cursor.size + 3
decreasing_by all_goals omega

/-- What `parse_expression_at` begins with: the current token is looked up in the table, and its
reader is called. -/
def operand (cursor : Cursor) : Guarded cursor Expression :=
  .checking (Kind.checkedEntry operandTable cursor.current.kind) fun handled =>
    if handled then
      match hkind : cursor.current.kind with
      | .ident => .done cursor (.identifier cursor.current.span cursor.identifier)
      | .int => .lift (integer cursor)
      | .string => .done cursor (.string cursor.current.span cursor.current.literal)
      | .kwTrue => .done cursor (.boolean cursor.current.span true)
      | .kwFalse => .done cursor (.boolean cursor.current.span false)
      | .bang => unary .not cursor (Cursor.size_pos_of_current (by simp [hkind]))
      | .minus => unary .negate cursor (Cursor.size_pos_of_current (by simp [hkind]))
      | .lBracket => array cursor (Cursor.size_pos_of_current (by simp [hkind]))
      | .lBrace => object cursor
      | .kwIf => conditional cursor (Cursor.size_pos_of_current (by simp [hkind]))
      | .kwFunction => function cursor (Cursor.size_pos_of_current (by simp [hkind]))
      | found => .lift (cursor.faultHere (.noOperand found))
    else .lift (cursor.faultHere (.noOperand cursor.current.kind))
termination_by 8 * cursor.size + 2
decreasing_by all_goals omega

/-- The loop of `parse_expression_at`: the next token is looked up in the table, and the span of
what is read with it starts where the left operand does. -/
def extend (least : Precedence) (left : Expression) (cursor : Cursor) :
    Guarded cursor Expression :=
  if least < cursor.next.kind.precedence then
    .checking (Kind.checkedEntry extensionTable cursor.next.kind) fun handled =>
      if handled then
        match _hoperator : BinaryOperator.ofKind? cursor.next.kind with
        | some operator =>
            .afterAdvance <| .afterAdvance <|
              (expression operator.precedence cursor.advance.advance).andThen
                fun right last _ => .checking (last.checkedSpanFrom left.span.start) fun span =>
                  extend least (.binary span left operator right) last
        | none =>
            if _hcall : cursor.next.kind = .lParen then
              .afterAdvance <| .afterAdvance <|
                (items .rParen .argumentsEnd cursor.advance.advance).andThen
                  fun arguments last _ =>
                    .checking (last.checkedSpanFrom left.span.start) fun span =>
                      extend least (.call span left arguments) last
            else .done cursor left
      else .done cursor left
  else .done cursor left
termination_by 8 * cursor.size + 2
decreasing_by
  · have hsize := Cursor.one_lt_size_of_next (BinaryOperator.ne_eof_of_ofKind? _hoperator)
    simp only [Cursor.size_advance]
    omega
  · have hsize := Cursor.one_lt_size_of_next (BinaryOperator.ne_eof_of_ofKind? _hoperator)
    simp only [Cursor.size_advance] at *
    omega
  · have hsize : 1 < cursor.size := Cursor.one_lt_size_of_next (by simp [_hcall])
    simp only [Cursor.size_advance]
    omega
  · have hsize : 1 < cursor.size := Cursor.one_lt_size_of_next (by simp [_hcall])
    simp only [Cursor.size_advance] at *
    omega

/-- A unary operator and its operand, `parse_prefix_expression`. -/
def unary (operator : UnaryOperator) (cursor : Cursor) (_hsize : 0 < cursor.size) :
    Guarded cursor Expression :=
  .afterAdvance <| (expression .unary cursor.advance).andThen fun inner last _ =>
    .checking (last.checkedSpanFrom cursor.current.span.start) fun span =>
      .done last (.unary span operator inner)
termination_by 8 * cursor.size + 1
decreasing_by simp only [Cursor.size_advance]; omega

/-- An array, `parse_array_literal`, with the span from its bracket to the closing one. -/
def array (cursor : Cursor) (_hsize : 0 < cursor.size) : Guarded cursor Expression :=
  .afterAdvance <| (items .rBracket .arrayEnd cursor.advance).andThen fun elements last _ =>
    .checking (last.checkedSpanFrom cursor.current.span.start) fun span =>
      .done last (.array span elements)
termination_by 8 * cursor.size + 1
decreasing_by simp only [Cursor.size_advance]; omega

/-- Expressions between commas through the closing token, `parse_expression_list`. -/
def items (closer : Kind) (what : Expectation) (cursor : Cursor) :
    Guarded cursor (List Expression) :=
  if cursor.current.kind = closer then .done cursor []
  else
    (expression .lowest cursor).andThen fun first last _ =>
      (moreItems closer what last).andThen fun rest last _ => .done last (first :: rest)
termination_by 8 * cursor.size + 4
decreasing_by all_goals omega

def moreItems (closer : Kind) (what : Expectation) (cursor : Cursor) :
    Guarded cursor (List Expression) :=
  if _hcomma : cursor.next.kind = .comma then
    .afterAdvance <| .afterAdvance <|
      (expression .lowest cursor.advance.advance).andThen fun item last _ =>
        (moreItems closer what last).andThen fun rest last _ => .done last (item :: rest)
  else (cursor.guardedExpect closer what).andThen fun _ last _ => .done last []
termination_by 8 * cursor.size
decreasing_by
  all_goals
    have hsize : 1 < cursor.size := Cursor.one_lt_size_of_next (by simp [_hcomma])
    simp only [Cursor.size_advance] at *
    omega

/-- An object, `parse_object_literal`, with the span from its brace to the closing one. -/
def object (cursor : Cursor) : Guarded cursor Expression :=
  (properties cursor).andThen fun entries last _ =>
    .checking (last.checkedSpanFrom cursor.current.span.start) fun span =>
      .done last (.object span entries)
termination_by 8 * cursor.size + 1
decreasing_by omega

def properties (cursor : Cursor) : Guarded cursor (List Property) :=
  match _hnext : cursor.next.kind with
  | .rBrace => .afterAdvance (.done cursor.advance [])
  | .eof => .lift (cursor.faultNext .unclosedObject)
  | .ident =>
      .afterAdvance <|
        (property cursor.advance).andThen fun entry last _ =>
          (Guarded.lift (propertySeparator last)).andThen fun _ last _ =>
            (properties last).andThen fun entries last _ => .done last (entry :: entries)
  | found => .lift (cursor.faultNext (.missing .propertyKey found))
termination_by 8 * cursor.size
decreasing_by
  all_goals
    have hsize : 1 < cursor.size := Cursor.one_lt_size_of_next (by simp [_hnext])
    simp only [Cursor.size_advance] at *
    omega

/-- A property, of which the span must cover the key and the value; that is the one use of `to` in
the grammar. -/
def property (cursor : Cursor) : Guarded cursor Property :=
  let key := cursor.identifier
  match _hnext : cursor.next.kind with
  | .comma | .rBrace => .done cursor ⟨key, .identifier key.span key, key.span⟩
  | .colon =>
      .afterAdvance <| .afterAdvance <|
        (expression .lowest cursor.advance.advance).andThen fun value last _ =>
          .checking (key.span.checkedCover value.span) fun span => .done last ⟨key, value, span⟩
  | .eof => .lift (cursor.faultNext .unclosedObject)
  | found => .lift (cursor.faultNext (.missing (.propertyColon key.name) found))
termination_by 8 * cursor.size
decreasing_by
  have hsize : 1 < cursor.size := Cursor.one_lt_size_of_next (by simp [_hnext])
  simp only [Cursor.size_advance] at *
  omega

/-- A conditional, `parse_if_expression`, whose span ends with the last of its blocks. -/
def conditional (cursor : Cursor) (_hsize : 0 < cursor.size) : Guarded cursor Expression :=
  (cursor.guardedExpect .lParen .conditionStart).andThen fun _ opener _ =>
    .afterAdvance <|
      (expression .lowest opener.advance).andThen fun condition last _ =>
        (last.guardedExpect .rParen .conditionEnd).andThen fun _ last _ =>
          (last.guardedExpect .lBrace .consequence).andThen fun _ brace _ =>
            (block brace).andThen fun consequence last _ =>
              if last.next.kind = .kwElse then
                .afterAdvance <|
                  (last.advance.guardedExpect .lBrace .alternative).andThen fun _ brace _ =>
                    (block brace).andThen fun alternative last _ =>
                      .checking (last.checkedSpanFrom cursor.current.span.start) fun span =>
                        .done last (.conditional span condition consequence (some alternative))
              else
                .checking (last.checkedSpanFrom cursor.current.span.start) fun span =>
                  .done last (.conditional span condition consequence none)
termination_by 8 * cursor.size + 1
decreasing_by all_goals simp only [Cursor.size_advance] at *; omega

/-- A function without a name, `parse_function_literal`. -/
def function (cursor : Cursor) (_hsize : 0 < cursor.size) : Guarded cursor Expression :=
  (cursor.guardedExpect .lParen .literalParameters).andThen fun _ opener _ =>
    .afterAdvance <|
      (Guarded.lift (parameters opener.advance)).andThen fun names last _ =>
        (last.guardedExpect .lBrace .literalBody).andThen fun _ brace _ =>
          (block brace).andThen fun body last _ =>
            .checking (last.checkedSpanFrom cursor.current.span.start) fun span =>
              .done last (.function span names body)
termination_by 8 * cursor.size + 1
decreasing_by simp only [Cursor.size_advance] at *; omega

/-- A block, `parse_block`.  It opens no expression and leaves the count to what is inside. -/
def block (cursor : Cursor) : Guarded cursor Block :=
  .afterAdvance <| (blockStatements cursor.advance).andThen fun statements last _ =>
    .checking (last.checkedSpanFrom cursor.current.span.start) fun span =>
      .done last ⟨statements, span⟩
termination_by 8 * cursor.size + 7
decreasing_by simp only [Cursor.size_advance]; omega

def blockStatements (cursor : Cursor) : Guarded cursor (List Statement) :=
  if cursor.current.kind = .rBrace then .done cursor []
  else if _hend : cursor.current.kind = .eof then .lift (cursor.faultHere .unclosedBlock)
  else
    (statement cursor).regardless fun read last _ =>
      .afterAdvance <| (blockStatements last.advance).andThen fun statements last _ =>
        .done last (read.toList ++ statements)
termination_by 8 * cursor.size + 6
decreasing_by
  · omega
  · have hsize := Cursor.size_pos_of_current _hend
    simp only [Cursor.size_advance]
    omega

/-- A statement, `parse_statement`, which opens no expression itself. -/
def statement (cursor : Cursor) : Guarded cursor Statement :=
  .map .asStatement <|
    match hkind : cursor.current.kind with
    | .kwLet => binding false cursor
    | .kwConst => binding true cursor
    | .kwFunction => functionDeclaration cursor (Cursor.size_pos_of_current (by simp [hkind]))
    | .kwReturn => returned cursor
    | _ => expressionStatement cursor
termination_by 8 * cursor.size + 5
decreasing_by all_goals omega

/-- A binding, `parse_variable_declaration`, with its span through the semicolon. -/
def binding (constant : Bool) (cursor : Cursor) : Guarded cursor Statement :=
  (cursor.guardedExpect .ident (.boundName constant)).andThen fun _ named _ =>
    let name := named.identifier
    if named.next.kind = .semicolon then
      .afterAdvance <|
        if constant then .lift (named.advance.faultHere (.constantWithoutValue name.name))
        else
          .checking (named.advance.checkedSpanFrom cursor.current.span.start) fun span =>
            .done named.advance (.binding false name none span)
    else
      (named.guardedExpect .assign (.boundValue constant name.name)).andThen fun _ sign _ =>
        .afterAdvance <|
          (expression .lowest sign.advance).andThen fun value last _ =>
            (last.guardedExpect .semicolon (.boundEnd name.name)).andThen fun _ last _ =>
              .checking (last.checkedSpanFrom cursor.current.span.start) fun span =>
                .done last (.binding constant name (some value) span)
termination_by 8 * cursor.size + 4
decreasing_by simp only [Cursor.size_advance] at *; omega

/-- A function with a name, `parse_function_declaration`. -/
def functionDeclaration (cursor : Cursor) (_hsize : 0 < cursor.size) :
    Guarded cursor Statement :=
  (cursor.guardedExpect .ident .functionName).andThen fun _ named _ =>
    let name := named.identifier
    (named.guardedExpect .lParen (.functionParameters name.name)).andThen fun _ opener _ =>
      .afterAdvance <|
        (Guarded.lift (parameters opener.advance)).andThen fun names last _ =>
          (last.guardedExpect .lBrace (.functionBody name.name)).andThen fun _ brace _ =>
            (block brace).andThen fun body last _ =>
              .checking (last.checkedSpanFrom cursor.current.span.start) fun span =>
                .done last (.function name names body span)
termination_by 8 * cursor.size + 4
decreasing_by simp only [Cursor.size_advance] at *; omega

/-- A `return` and its value, `parse_return_statement`. -/
def returned (cursor : Cursor) : Guarded cursor Statement :=
  .afterAdvance <|
    (Guarded.map (·.orNote .returnWithoutValue) (expression .lowest cursor.advance)).andThen
      fun value last _ =>
        (last.guardedExpect .semicolon .returnEnd).andThen fun _ last _ =>
          .checking (last.checkedSpanFrom cursor.current.span.start) fun span =>
            .done last (.returned value span)
termination_by 8 * cursor.size + 4
decreasing_by simp only [Cursor.size_advance] at *; omega

/-- An expression as a statement, `parse_expression_statement`. -/
def expressionStatement (cursor : Cursor) : Guarded cursor Statement :=
  (expression .lowest cursor).andThen fun value last _ =>
    if last.next.kind = .semicolon then
      .afterAdvance <|
        .checking (last.advance.checkedSpanFrom cursor.current.span.start) fun span =>
          .done last.advance (.expression value span)
    else
      .checking (last.checkedSpanFrom cursor.current.span.start) fun span =>
        .done last (.expression value span)
termination_by 8 * cursor.size + 4
decreasing_by omega

end

def programStatements (cursor : Cursor) : Guarded cursor (List Statement) :=
  if _hend : cursor.current.kind = .eof then .done cursor []
  else
    (statement cursor).regardless fun read last _ =>
      .afterAdvance <| (programStatements last.advance).andThen fun statements last _ =>
        .done last (read.toList ++ statements)
termination_by cursor.size
decreasing_by
  have hsize := Cursor.size_pos_of_current _hend
  simp only [Cursor.size_advance] at *
  omega

end Grammar.Checked

/-- Reads the statements from a cursor to the end of its text, with no expression open:
`parse_program`, which checks the span of the whole program as well. -/
def Cursor.checkedProgram (cursor : Cursor) : Checked Reading := do
  let (outcome, _) ← Grammar.Checked.programStatements cursor 0
  let span ← Span.checked 0 outcome.stop.current.span.stop
  return ⟨⟨outcome.value.getD [], span⟩, outcome.diagnostics, cursor.inView ++ outcome.events⟩

end Frontend
