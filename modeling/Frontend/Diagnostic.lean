import Frontend.Text.Layout
import Frontend.Token

/-!
# Diagnostics

Reading a program never stops at a fault; each fault is noted as a problem with the span it was
found at.  A problem says what is wrong, not how it is worded: all wording is in one place, and
every wording is a single line unless a quoted part is not.  A strict reader turns a list with any
message in it into a rejection, whose text lists the messages a line each.
-/

namespace Frontend

/-- What the grammar asks for at a place where another token stands.  Each has one message, in which
the parser names the kind of the token that it found. -/
inductive Expectation where
  | boundName (constant : Bool)
  | boundValue (constant : Bool) (name : String)
  | boundEnd (name : String)
  | functionName
  | functionParameters (name : String)
  | functionBody (name : String)
  | returnEnd
  | parameterName
  | parameterSeparator
  | argumentsEnd
  | arrayEnd
  | propertyKey
  | propertyColon (key : String)
  | propertySeparator
  | conditionStart
  | conditionEnd
  | consequence
  | alternative
  | literalParameters
  | literalBody
  deriving DecidableEq

/-- The keyword of a binding, as `parse_variable_declaration` writes it into its messages. -/
def bindingKeyword (constant : Bool) : String := if constant then "const" else "let"

/-- The message about a token that was expected, up to the kind that was found. -/
def Expectation.message : Expectation → String
  | boundName constant => "expected identifier following `" ++ bindingKeyword constant ++ "`"
  | boundValue constant name =>
      "expected `=` after `" ++ name ++ "` in " ++ bindingKeyword constant ++ " declaration"
  | boundEnd name => "expected `;` to end declaration of `" ++ name ++ "`"
  | functionName => "expected identifier following `function`"
  | functionParameters name => "expected `(` after function name `" ++ name ++ "`"
  | functionBody name => "expected `\x7b` to begin body of `" ++ name ++ "`"
  | returnEnd => "expected `;` after return value"
  | parameterName => "expected parameter name"
  | parameterSeparator => "expected `,` or `)` in parameter list"
  | argumentsEnd => "expected `)` to close argument list"
  | arrayEnd => "expected `]` to close array literal"
  | propertyKey => "expected identifier as object key"
  | propertyColon key => "expected `:` after object key `" ++ key ++ "`"
  | propertySeparator => "expected `,` or `\x7d` after object property"
  | conditionStart => "expected `(` following `if`"
  | conditionEnd => "expected `)` after if condition"
  | consequence => "expected `\x7b` to begin if body"
  | alternative => "expected `\x7b` after `else`"
  | literalParameters => "expected `(` following `function`"
  | literalBody => "expected `\x7b` to begin function body"

/-- The number of expressions that may be open inside one another, `MAX_EXPRESSION_DEPTH`. -/
def maxNesting : Nat := 128

/-- What is wrong with a program, with a case for each message that the parser pushes.  What is put
together by hand, with `push` of `Diagnostics`, is only stated. -/
inductive Problem where
  | missing (what : Expectation) (found : Kind)
  | constantWithoutValue (name : String)
  | returnWithoutValue
  | unclosedBlock
  | unclosedParameters
  | unclosedObject
  | noOperand (found : Kind)
  | integerTooLarge (digits : String)
  | nestingTooDeep
  | stated (text : String)
  deriving DecidableEq

/-- The message of a problem, as the parser words it. -/
def Problem.message : Problem → String
  | missing what found => what.message ++ ", found " ++ found.name
  | constantWithoutValue name => "constant `" ++ name ++ "` declared without value"
  | returnWithoutValue => "expected expression following `return`"
  | unclosedBlock => "expected `\x7d` to close block"
  | unclosedParameters => "expected `)` to close parameter list"
  | unclosedObject => "object literal missing closing brace"
  | noOperand found => "no prefix parse function for " ++ found.name
  | integerTooLarge digits => "could not parse `" ++ digits ++ "` as integer"
  | nestingTooDeep => "expression nesting exceeds " ++ Numeral.ofNat maxNesting ++ " levels"
  | stated text => text

/-- A problem and, if it has one, the place where it shows: a `Diagnostic`, which holds the message
for the problem. -/
structure Diagnostic where
  problem : Problem
  span : Option Span
  deriving DecidableEq

/-- The field `message` of a `Diagnostic`. -/
def Diagnostic.message (diagnostic : Diagnostic) : String := diagnostic.problem.message

/-- The messages for which a strict reader refuses a program, a `ParseError`. -/
structure Rejection where
  messages : List String
  deriving DecidableEq

/-- The `Display` form of `ParseError`: the number of messages, and each message on a line after an
empty one. -/
def Rejection.message (rejection : Rejection) : String :=
  "parser has " ++ Numeral.ofNat rejection.messages.length ++ " errors\n\n" ++
    joined "" (rejection.messages.map fun message => "ERROR: " ++ message ++ "\n")

/-- What `enforce` of `ParseOptions` makes of the messages.  A strict reader passes only the empty
list, a lenient one every list. -/
def verdict (strict : Bool) (messages : List String) : Except Rejection (List String) :=
  if strict ∧ messages ≠ [] then .error ⟨messages⟩ else .ok messages

end Frontend
