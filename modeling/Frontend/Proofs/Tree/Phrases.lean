import Frontend.Proofs.Tree.Spans
import Frontend.Proofs.Tree.Spelling

/-!
# Induction over the parts of a tree

A property of all phrases is proved by one step for each way of putting a phrase together.  Lists
hold whatever holds of their members, so a step for a list may look at any of them.
-/

namespace Frontend

namespace Phrase

/-- The steps by which a property of the parts is carried over to the whole, one for each
constructor of the tree.  A proof along a tree is a value of this structure. -/
structure Steps (holds : Phrase → Prop) : Prop where
  identifier (span : Span) (name : Identifier) : holds (.expression (.identifier span name))
  integer (span : Span) (value : Int) : holds (.expression (.integer span value))
  string (span : Span) (text : String) : holds (.expression (.string span text))
  boolean (span : Span) (value : Bool) : holds (.expression (.boolean span value))
  array (span : Span) (elements : List Expression) (ih : holds (.items elements)) :
    holds (.expression (.array span elements))
  object (span : Span) (entries : List Property) (ih : holds (.properties entries)) :
    holds (.expression (.object span entries))
  unary (span : Span) (operator : UnaryOperator) (operand : Expression)
    (ih : holds (.expression operand)) : holds (.expression (.unary span operator operand))
  binary (span : Span) (left : Expression) (operator : BinaryOperator) (right : Expression)
    (ihleft : holds (.expression left)) (ihright : holds (.expression right)) :
    holds (.expression (.binary span left operator right))
  conditional (span : Span) (condition : Expression) (consequence : Block)
    (ihcondition : holds (.expression condition)) (ihconsequence : holds (.block consequence)) :
    holds (.expression (.conditional span condition consequence none))
  alternative (span : Span) (condition : Expression) (consequence alternative : Block)
    (ihcondition : holds (.expression condition)) (ihconsequence : holds (.block consequence))
    (ihalternative : holds (.block alternative)) :
    holds (.expression (.conditional span condition consequence (some alternative)))
  function (span : Span) (names : List Identifier) (body : Block)
    (ihnames : holds (.parameters names)) (ihbody : holds (.block body)) :
    holds (.expression (.function span names body))
  call (span : Span) (callee : Expression) (arguments : List Expression)
    (ihcallee : holds (.expression callee)) (iharguments : holds (.items arguments)) :
    holds (.expression (.call span callee arguments))
  items (values : List Expression) (ih : ∀ value ∈ values, holds (.expression value)) :
    holds (.items values)
  property (key : Identifier) (value : Expression) (span : Span) (ih : holds (.expression value)) :
    holds (.property ⟨key, value, span⟩)
  properties (entries : List Property) (ih : ∀ entry ∈ entries, holds (.property entry)) :
    holds (.properties entries)
  parameters (names : List Identifier) : holds (.parameters names)
  block (row : List Statement) (span : Span) (ih : holds (.statements row)) :
    holds (.block ⟨row, span⟩)
  bindingWithoutValue (constant : Bool) (name : Identifier) (span : Span) :
    holds (.statement (.binding constant name none span))
  binding (constant : Bool) (name : Identifier) (value : Expression) (span : Span)
    (ih : holds (.expression value)) : holds (.statement (.binding constant name (some value) span))
  namedFunction (name : Identifier) (names : List Identifier) (body : Block) (span : Span)
    (ihnames : holds (.parameters names)) (ihbody : holds (.block body)) :
    holds (.statement (.function name names body span))
  returned (value : Expression) (span : Span) (ih : holds (.expression value)) :
    holds (.statement (.returned value span))
  expression (value : Expression) (span : Span) (ih : holds (.expression value)) :
    holds (.statement (.expression value span))
  bareBlock (body : Block) (ih : holds (.block body)) : holds (.statement (.block body))
  statements (row : List Statement) (ih : ∀ read ∈ row, holds (.statement read)) :
    holds (.statements row)

namespace Steps

variable {holds : Phrase → Prop}

mutual

theorem ofExpression (hsteps : Steps holds) : ∀ value, holds (.expression value)
  | .identifier span name => hsteps.identifier span name
  | .integer span value => hsteps.integer span value
  | .string span text => hsteps.string span text
  | .boolean span value => hsteps.boolean span value
  | .array span elements =>
      hsteps.array span elements (hsteps.items elements (hsteps.ofExpressions elements))
  | .object span entries =>
      hsteps.object span entries (hsteps.properties entries (hsteps.ofProperties entries))
  | .unary span operator operand =>
      hsteps.unary span operator operand (hsteps.ofExpression operand)
  | .binary span left operator right =>
      hsteps.binary span left operator right (hsteps.ofExpression left) (hsteps.ofExpression right)
  | .conditional span condition consequence none =>
      hsteps.conditional span condition consequence (hsteps.ofExpression condition)
        (hsteps.ofBlock consequence)
  | .conditional span condition consequence (some alternative) =>
      hsteps.alternative span condition consequence alternative (hsteps.ofExpression condition)
        (hsteps.ofBlock consequence) (hsteps.ofBlock alternative)
  | .function span names body =>
      hsteps.function span names body (hsteps.parameters names) (hsteps.ofBlock body)
  | .call span callee arguments =>
      hsteps.call span callee arguments (hsteps.ofExpression callee)
        (hsteps.items arguments (hsteps.ofExpressions arguments))
  termination_by structural value => value

theorem ofExpressions (hsteps : Steps holds) :
    ∀ values : List Expression, ∀ value ∈ values, holds (.expression value)
  | [] => List.forall_mem_nil _
  | value :: values =>
      List.forall_mem_cons.mpr ⟨hsteps.ofExpression value, hsteps.ofExpressions values⟩
  termination_by structural values => values

theorem ofProperty (hsteps : Steps holds) : ∀ entry, holds (.property entry)
  | ⟨key, value, span⟩ => hsteps.property key value span (hsteps.ofExpression value)
  termination_by structural entry => entry

theorem ofProperties (hsteps : Steps holds) :
    ∀ entries : List Property, ∀ entry ∈ entries, holds (.property entry)
  | [] => List.forall_mem_nil _
  | entry :: entries =>
      List.forall_mem_cons.mpr ⟨hsteps.ofProperty entry, hsteps.ofProperties entries⟩
  termination_by structural entries => entries

theorem ofBlock (hsteps : Steps holds) : ∀ body, holds (.block body)
  | ⟨row, span⟩ => hsteps.block row span (hsteps.statements row (hsteps.ofStatements row))
  termination_by structural body => body

theorem ofStatement (hsteps : Steps holds) : ∀ read, holds (.statement read)
  | .binding constant name none span => hsteps.bindingWithoutValue constant name span
  | .binding constant name (some value) span =>
      hsteps.binding constant name value span (hsteps.ofExpression value)
  | .function name names body span =>
      hsteps.namedFunction name names body span (hsteps.parameters names) (hsteps.ofBlock body)
  | .returned value span => hsteps.returned value span (hsteps.ofExpression value)
  | .expression value span => hsteps.expression value span (hsteps.ofExpression value)
  | .block body => hsteps.bareBlock body (hsteps.ofBlock body)
  termination_by structural read => read

theorem ofStatements (hsteps : Steps holds) :
    ∀ row : List Statement, ∀ read ∈ row, holds (.statement read)
  | [] => List.forall_mem_nil _
  | read :: row => List.forall_mem_cons.mpr ⟨hsteps.ofStatement read, hsteps.ofStatements row⟩
  termination_by structural row => row

end

/-- What is carried over by all steps holds of every phrase.  This is induction on trees, said once
for all of their types. -/
theorem all (hsteps : Steps holds) : ∀ phrase, holds phrase
  | .expression value => hsteps.ofExpression value
  | .items values => hsteps.items values (hsteps.ofExpressions values)
  | .property entry => hsteps.ofProperty entry
  | .properties entries => hsteps.properties entries (hsteps.ofProperties entries)
  | .parameters names => hsteps.parameters names
  | .block body => hsteps.ofBlock body
  | .statement read => hsteps.ofStatement read
  | .statements row => hsteps.statements row (hsteps.ofStatements row)

end Steps

end Phrase

end Frontend
