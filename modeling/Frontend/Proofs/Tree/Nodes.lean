import Frontend.Tree.Basic

/-!
# The nodes of a tree

All statements, expressions and properties of a tree at every depth, each before those inside it
and after those that are written before it.
-/

namespace Frontend

/-- A statement, an expression or a property of a tree, to speak of all of them at once. -/
inductive Node where
  | statement (statement : Statement)
  | expression (expression : Expression)
  | property (property : Property)

def Node.statement? : Node → Option Statement
  | statement read => some read
  | _ => none

mutual

/-- The expression and all nodes inside it, those of a left operand before those of a right one. -/
def Expression.nodes : Expression → List Node
  | .identifier span identifier => [.expression (.identifier span identifier)]
  | .integer span value => [.expression (.integer span value)]
  | .string span text => [.expression (.string span text)]
  | .boolean span value => [.expression (.boolean span value)]
  | .array span elements => .expression (.array span elements) :: nodesOfExpressions elements
  | .object span properties => .expression (.object span properties) :: nodesOfProperties properties
  | .unary span operator operand => .expression (.unary span operator operand) :: operand.nodes
  | .binary span left operator right =>
      .expression (.binary span left operator right) :: (left.nodes ++ right.nodes)
  | .conditional span condition consequence alternative =>
      .expression (.conditional span condition consequence alternative) ::
        (condition.nodes ++ (consequence.nodes ++ nodesOfAlternative alternative))
  | .function span parameters body => .expression (.function span parameters body) :: body.nodes
  | .call span callee arguments =>
      .expression (.call span callee arguments) :: (callee.nodes ++ nodesOfExpressions arguments)
  termination_by structural expression => expression

def nodesOfExpressions : List Expression → List Node
  | [] => []
  | expression :: expressions => expression.nodes ++ nodesOfExpressions expressions
  termination_by structural expressions => expressions

def nodesOfAlternative : Option Block → List Node
  | none => []
  | some block => block.nodes
  termination_by structural alternative => alternative

def nodesOfValue : Option Expression → List Node
  | none => []
  | some value => value.nodes
  termination_by structural value => value

def Property.nodes : Property → List Node
  | ⟨key, value, span⟩ => .property ⟨key, value, span⟩ :: value.nodes
  termination_by structural property => property

def nodesOfProperties : List Property → List Node
  | [] => []
  | property :: properties => property.nodes ++ nodesOfProperties properties
  termination_by structural properties => properties

def Block.nodes : Block → List Node
  | ⟨statements, _⟩ => nodesOfStatements statements
  termination_by structural block => block

def Statement.nodes : Statement → List Node
  | .binding constant identifier value span =>
      .statement (.binding constant identifier value span) :: nodesOfValue value
  | .function identifier parameters body span =>
      .statement (.function identifier parameters body span) :: body.nodes
  | .returned value span => .statement (.returned value span) :: value.nodes
  | .expression expression span => .statement (.expression expression span) :: expression.nodes
  | .block body => .statement (.block body) :: body.nodes
  termination_by structural statement => statement

def nodesOfStatements : List Statement → List Node
  | [] => []
  | statement :: statements => statement.nodes ++ nodesOfStatements statements
  termination_by structural statements => statements

end

/-- The statements among some nodes. -/
def statementsAmong (nodes : List Node) : List Statement := nodes.filterMap Node.statement?

@[simp]
theorem statementsAmong_append (left right : List Node) :
    statementsAmong (left ++ right) = statementsAmong left ++ statementsAmong right :=
  List.filterMap_append

end Frontend
