import Frontend.Tree.Basic

/-!
# The blocks of a tree

All blocks of a tree at every depth, in the order in which they open.
-/

namespace Frontend

mutual

def Expression.blocks : Expression → List Block
  | .identifier _ _ | .integer _ _ | .string _ _ | .boolean _ _ => []
  | .array _ elements => blocksOfExpressions elements
  | .object _ properties => blocksOfProperties properties
  | .unary _ _ operand => operand.blocks
  | .binary _ left _ right => left.blocks ++ right.blocks
  | .conditional _ condition consequence alternative =>
      condition.blocks ++ (consequence.blocks ++ blocksOfAlternative alternative)
  | .function _ _ body => body.blocks
  | .call _ callee arguments => callee.blocks ++ blocksOfExpressions arguments
  termination_by structural expression => expression

def blocksOfExpressions : List Expression → List Block
  | [] => []
  | expression :: expressions => expression.blocks ++ blocksOfExpressions expressions
  termination_by structural expressions => expressions

def blocksOfAlternative : Option Block → List Block
  | none => []
  | some block => block.blocks
  termination_by structural alternative => alternative

def blocksOfValue : Option Expression → List Block
  | none => []
  | some value => value.blocks
  termination_by structural value => value

def Property.blocks : Property → List Block
  | ⟨_, value, _⟩ => value.blocks
  termination_by structural property => property

def blocksOfProperties : List Property → List Block
  | [] => []
  | property :: properties => property.blocks ++ blocksOfProperties properties
  termination_by structural properties => properties

/-- The block itself and the blocks inside it. -/
def Block.blocks : Block → List Block
  | ⟨statements, span⟩ => ⟨statements, span⟩ :: blocksOfStatements statements
  termination_by structural block => block

def Statement.blocks : Statement → List Block
  | .binding _ _ value _ => blocksOfValue value
  | .function _ _ body _ => body.blocks
  | .returned value _ => value.blocks
  | .expression expression _ => expression.blocks
  | .block body => body.blocks
  termination_by structural statement => statement

def blocksOfStatements : List Statement → List Block
  | [] => []
  | statement :: statements => statement.blocks ++ blocksOfStatements statements
  termination_by structural statements => statements

end

end Frontend
