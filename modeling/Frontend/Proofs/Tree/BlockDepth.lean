import Mathlib.Order.MinMax
import Frontend.Proofs.Tree.Spans
import Frontend.Proofs.Tree.WellFormed

/-!
# The depth of blocks

How many blocks lie inside one another.  A block is opened by an expression, as the body of a
conditional or of a function without a name, or by a statement, as the body of a named function.
The two are weighed apart, for an expression takes one of the levels that are open at a time while
a statement takes none.
-/

namespace Frontend

mutual

/-- The largest weight of the blocks on a way down the tree.  A block counts for one amount if an
expression opens it, and for another one if a statement does. -/
def Expression.blockWeight (ofExpression ofStatement : Nat) : Expression → Nat
  | .identifier _ _ | .integer _ _ | .string _ _ | .boolean _ _ => 0
  | .array _ elements => blockWeightOfExpressions ofExpression ofStatement elements
  | .object _ properties => blockWeightOfProperties ofExpression ofStatement properties
  | .unary _ _ operand => operand.blockWeight ofExpression ofStatement
  | .binary _ left _ right =>
      max (left.blockWeight ofExpression ofStatement) (right.blockWeight ofExpression ofStatement)
  | .conditional _ condition consequence alternative =>
      max (condition.blockWeight ofExpression ofStatement)
        (max (consequence.blockWeight ofExpression ofStatement + ofExpression)
          (blockWeightOfAlternative ofExpression ofStatement alternative))
  | .function _ _ body => body.blockWeight ofExpression ofStatement + ofExpression
  | .call _ callee arguments =>
      max (callee.blockWeight ofExpression ofStatement)
        (blockWeightOfExpressions ofExpression ofStatement arguments)
  termination_by structural expression => expression

def blockWeightOfExpressions (ofExpression ofStatement : Nat) : List Expression → Nat
  | [] => 0
  | expression :: expressions =>
      max (expression.blockWeight ofExpression ofStatement)
        (blockWeightOfExpressions ofExpression ofStatement expressions)
  termination_by structural expressions => expressions

def blockWeightOfAlternative (ofExpression ofStatement : Nat) : Option Block → Nat
  | none => 0
  | some block => block.blockWeight ofExpression ofStatement + ofExpression
  termination_by structural alternative => alternative

def blockWeightOfValue (ofExpression ofStatement : Nat) : Option Expression → Nat
  | none => 0
  | some value => value.blockWeight ofExpression ofStatement
  termination_by structural value => value

def Property.blockWeight (ofExpression ofStatement : Nat) : Property → Nat
  | ⟨_, value, _⟩ => value.blockWeight ofExpression ofStatement
  termination_by structural property => property

def blockWeightOfProperties (ofExpression ofStatement : Nat) : List Property → Nat
  | [] => 0
  | property :: properties =>
      max (property.blockWeight ofExpression ofStatement)
        (blockWeightOfProperties ofExpression ofStatement properties)
  termination_by structural properties => properties

/-- The weight of the blocks inside a block; its own is counted where it is opened, since it cannot
tell by what it is. -/
def Block.blockWeight (ofExpression ofStatement : Nat) : Block → Nat
  | ⟨statements, _⟩ => blockWeightOfStatements ofExpression ofStatement statements
  termination_by structural block => block

def Statement.blockWeight (ofExpression ofStatement : Nat) : Statement → Nat
  | .binding _ _ value _ => blockWeightOfValue ofExpression ofStatement value
  | .function _ _ body _ => body.blockWeight ofExpression ofStatement + ofStatement
  | .returned value _ => value.blockWeight ofExpression ofStatement
  | .expression expression _ => expression.blockWeight ofExpression ofStatement
  | .block body => body.blockWeight ofExpression ofStatement + ofStatement
  termination_by structural statement => statement

def blockWeightOfStatements (ofExpression ofStatement : Nat) : List Statement → Nat
  | [] => 0
  | statement :: statements =>
      max (statement.blockWeight ofExpression ofStatement)
        (blockWeightOfStatements ofExpression ofStatement statements)
  termination_by structural statements => statements

end

/-- The number of blocks inside one another, whatever opens them. -/
def Statement.blockDepth (statement : Statement) : Nat := statement.blockWeight 1 1

/-- The number of blocks inside one another that statements open.  No level is spent on these. -/
def Statement.bodyDepth (statement : Statement) : Nat := statement.blockWeight 0 1

/-! ## Blocks of expressions take levels -/

mutual

theorem Expression.blockWeight_le :
    ∀ expression : Expression,
      expression.blockWeight 1 1 ≤ expression.nesting + expression.blockWeight 0 1
  | .identifier _ _ | .integer _ _ | .string _ _ | .boolean _ _ => by simp [Expression.blockWeight]
  | .array _ elements => by
      have helements := blockWeightOfExpressions_le elements
      simp only [Expression.blockWeight, Expression.nesting]
      omega
  | .object _ properties => by
      have hproperties := blockWeightOfProperties_le properties
      simp only [Expression.blockWeight, Expression.nesting]
      omega
  | .unary _ _ operand => by
      have hoperand := operand.blockWeight_le
      simp only [Expression.blockWeight, Expression.nesting]
      omega
  | .binary _ left _ right => by
      have hleft := left.blockWeight_le
      have hright := right.blockWeight_le
      simp only [Expression.blockWeight, Expression.nesting]
      omega
  | .conditional _ condition consequence alternative => by
      have hcondition := condition.blockWeight_le
      have hconsequence := consequence.blockWeight_le
      have halternative := blockWeightOfAlternative_le alternative
      simp only [Expression.blockWeight, Expression.nesting]
      omega
  | .function _ _ body => by
      have hbody := body.blockWeight_le
      simp only [Expression.blockWeight, Expression.nesting]
      omega
  | .call _ callee arguments => by
      have hcallee := callee.blockWeight_le
      have harguments := blockWeightOfExpressions_le arguments
      simp only [Expression.blockWeight, Expression.nesting]
      omega

theorem blockWeightOfExpressions_le :
    ∀ expressions : List Expression,
      blockWeightOfExpressions 1 1 expressions ≤
        nestingOfExpressions expressions + blockWeightOfExpressions 0 1 expressions
  | [] => Nat.zero_le _
  | expression :: expressions => by
      have hfirst := expression.blockWeight_le
      have hrest := blockWeightOfExpressions_le expressions
      simp only [blockWeightOfExpressions, nestingOfExpressions]
      omega

theorem blockWeightOfAlternative_le :
    ∀ alternative : Option Block,
      blockWeightOfAlternative 1 1 alternative ≤
        nestingOfAlternative alternative + blockWeightOfAlternative 0 1 alternative + 1
  | none => Nat.zero_le _
  | some block => by
      have hblock := block.blockWeight_le
      simp only [blockWeightOfAlternative, nestingOfAlternative]
      omega

theorem blockWeightOfValue_le :
    ∀ value : Option Expression,
      blockWeightOfValue 1 1 value ≤ nestingOfValue value + blockWeightOfValue 0 1 value
  | none => Nat.zero_le _
  | some value => value.blockWeight_le

/-- A key that stands for its value has no blocks. -/
theorem Property.blockWeight_le :
    ∀ property : Property,
      property.blockWeight 1 1 ≤ property.nesting + property.blockWeight 0 1
  | ⟨key, value, span⟩ => by
      have hvalue := value.blockWeight_le
      cases value with
      | identifier _ _ => exact Nat.zero_le _
      | _ =>
          rw [Property.nesting_of_written rfl]
          exact hvalue

theorem blockWeightOfProperties_le :
    ∀ properties : List Property,
      blockWeightOfProperties 1 1 properties ≤
        nestingOfProperties properties + blockWeightOfProperties 0 1 properties
  | [] => Nat.zero_le _
  | property :: properties => by
      have hfirst := property.blockWeight_le
      have hrest := blockWeightOfProperties_le properties
      simp only [blockWeightOfProperties, nestingOfProperties]
      omega

theorem Block.blockWeight_le :
    ∀ block : Block, block.blockWeight 1 1 ≤ block.nesting + block.blockWeight 0 1
  | ⟨statements, _⟩ => blockWeightOfStatements_le statements

theorem Statement.blockWeight_le :
    ∀ statement : Statement,
      statement.blockWeight 1 1 ≤ statement.nesting + statement.blockWeight 0 1
  | .binding _ _ value _ => blockWeightOfValue_le value
  | .function _ _ body _ => Nat.add_le_add_right body.blockWeight_le 1
  | .returned value _ => value.blockWeight_le
  | .expression expression _ => expression.blockWeight_le
  | .block body => Nat.add_le_add_right body.blockWeight_le 1

theorem blockWeightOfStatements_le :
    ∀ statements : List Statement,
      blockWeightOfStatements 1 1 statements ≤
        nestingOfStatements statements + blockWeightOfStatements 0 1 statements
  | [] => Nat.zero_le _
  | statement :: statements => by
      have hfirst := statement.blockWeight_le
      have hrest := blockWeightOfStatements_le statements
      simp only [blockWeightOfStatements, nestingOfStatements]
      omega

end

/-- Blocks inside one another are opened by one of the expressions that are open at a time or else
by a statement. -/
theorem Statement.blockDepth_le (statement : Statement) :
    statement.blockDepth ≤ statement.nesting + statement.bodyDepth :=
  statement.blockWeight_le

/-! ## Blocks of statements alone -/

section

variable (ofExpression ofStatement : Nat)

mutual

theorem Expression.blockWeight_zero_le :
    ∀ expression : Expression,
      expression.blockWeight 0 ofStatement ≤ expression.blockWeight ofExpression ofStatement
  | .identifier _ _ | .integer _ _ | .string _ _ | .boolean _ _ => Nat.le_refl _
  | .array _ elements => blockWeightOfExpressions_zero_le elements
  | .object _ properties => blockWeightOfProperties_zero_le properties
  | .unary _ _ operand => operand.blockWeight_zero_le
  | .binary _ left _ right => max_le_max left.blockWeight_zero_le right.blockWeight_zero_le
  | .conditional _ condition consequence alternative =>
      max_le_max condition.blockWeight_zero_le
        (max_le_max (Nat.add_le_add consequence.blockWeight_zero_le (Nat.zero_le _))
          (blockWeightOfAlternative_zero_le alternative))
  | .function _ _ body => Nat.add_le_add body.blockWeight_zero_le (Nat.zero_le _)
  | .call _ callee arguments =>
      max_le_max callee.blockWeight_zero_le (blockWeightOfExpressions_zero_le arguments)

theorem blockWeightOfExpressions_zero_le :
    ∀ expressions : List Expression,
      blockWeightOfExpressions 0 ofStatement expressions ≤
        blockWeightOfExpressions ofExpression ofStatement expressions
  | [] => Nat.le_refl _
  | expression :: expressions =>
      max_le_max expression.blockWeight_zero_le (blockWeightOfExpressions_zero_le expressions)

theorem blockWeightOfAlternative_zero_le :
    ∀ alternative : Option Block,
      blockWeightOfAlternative 0 ofStatement alternative ≤
        blockWeightOfAlternative ofExpression ofStatement alternative
  | none => Nat.le_refl _
  | some block => Nat.add_le_add block.blockWeight_zero_le (Nat.zero_le _)

theorem blockWeightOfValue_zero_le :
    ∀ value : Option Expression,
      blockWeightOfValue 0 ofStatement value ≤ blockWeightOfValue ofExpression ofStatement value
  | none => Nat.le_refl _
  | some value => value.blockWeight_zero_le

theorem Property.blockWeight_zero_le :
    ∀ property : Property,
      property.blockWeight 0 ofStatement ≤ property.blockWeight ofExpression ofStatement
  | ⟨_, value, _⟩ => value.blockWeight_zero_le

theorem blockWeightOfProperties_zero_le :
    ∀ properties : List Property,
      blockWeightOfProperties 0 ofStatement properties ≤
        blockWeightOfProperties ofExpression ofStatement properties
  | [] => Nat.le_refl _
  | property :: properties =>
      max_le_max property.blockWeight_zero_le (blockWeightOfProperties_zero_le properties)

theorem Block.blockWeight_zero_le :
    ∀ block : Block, block.blockWeight 0 ofStatement ≤ block.blockWeight ofExpression ofStatement
  | ⟨statements, _⟩ => blockWeightOfStatements_zero_le statements

theorem Statement.blockWeight_zero_le :
    ∀ statement : Statement,
      statement.blockWeight 0 ofStatement ≤ statement.blockWeight ofExpression ofStatement
  | .binding _ _ value _ => blockWeightOfValue_zero_le value
  | .function _ _ body _ => Nat.add_le_add_right body.blockWeight_zero_le ofStatement
  | .returned value _ => value.blockWeight_zero_le
  | .expression expression _ => expression.blockWeight_zero_le
  | .block body => Nat.add_le_add_right body.blockWeight_zero_le ofStatement

theorem blockWeightOfStatements_zero_le :
    ∀ statements : List Statement,
      blockWeightOfStatements 0 ofStatement statements ≤
        blockWeightOfStatements ofExpression ofStatement statements
  | [] => Nat.le_refl _
  | statement :: statements =>
      max_le_max statement.blockWeight_zero_le (blockWeightOfStatements_zero_le statements)

end

end

/-- Some of the blocks are opened by statements, and leaving out the others makes no way down
longer. -/
theorem Statement.bodyDepth_le (statement : Statement) :
    statement.bodyDepth ≤ statement.blockDepth :=
  statement.blockWeight_zero_le 1 1

/-! ## Places do not matter -/

section

variable (f : Span → Span) (ofExpression ofStatement : Nat)

mutual

theorem Expression.blockWeight_mapSpans :
    ∀ expression : Expression,
      (expression.mapSpans f).blockWeight ofExpression ofStatement =
        expression.blockWeight ofExpression ofStatement
  | .identifier _ _ | .integer _ _ | .string _ _ | .boolean _ _ => rfl
  | .array _ elements => blockWeightOfExpressions_mapSpans elements
  | .object _ properties => blockWeightOfProperties_mapSpans properties
  | .unary _ _ operand => operand.blockWeight_mapSpans
  | .binary _ left _ right => by
      simp only [Expression.mapSpans, Expression.blockWeight, left.blockWeight_mapSpans,
        right.blockWeight_mapSpans]
  | .conditional _ condition consequence alternative => by
      simp only [Expression.mapSpans, Expression.blockWeight, condition.blockWeight_mapSpans,
        consequence.blockWeight_mapSpans, blockWeightOfAlternative_mapSpans alternative]
  | .function _ _ body => congrArg (· + ofExpression) body.blockWeight_mapSpans
  | .call _ callee arguments => by
      simp only [Expression.mapSpans, Expression.blockWeight, callee.blockWeight_mapSpans,
        blockWeightOfExpressions_mapSpans arguments]

theorem blockWeightOfExpressions_mapSpans :
    ∀ expressions : List Expression,
      blockWeightOfExpressions ofExpression ofStatement (mapSpansOfExpressions f expressions) =
        blockWeightOfExpressions ofExpression ofStatement expressions
  | [] => rfl
  | expression :: expressions => by
      simp only [mapSpansOfExpressions, blockWeightOfExpressions, expression.blockWeight_mapSpans,
        blockWeightOfExpressions_mapSpans expressions]

theorem blockWeightOfAlternative_mapSpans :
    ∀ alternative : Option Block,
      blockWeightOfAlternative ofExpression ofStatement (mapSpansOfAlternative f alternative) =
        blockWeightOfAlternative ofExpression ofStatement alternative
  | none => rfl
  | some block => congrArg (· + ofExpression) block.blockWeight_mapSpans

theorem blockWeightOfValue_mapSpans :
    ∀ value : Option Expression,
      blockWeightOfValue ofExpression ofStatement (mapSpansOfValue f value) =
        blockWeightOfValue ofExpression ofStatement value
  | none => rfl
  | some value => value.blockWeight_mapSpans

theorem Property.blockWeight_mapSpans :
    ∀ property : Property,
      (property.mapSpans f).blockWeight ofExpression ofStatement =
        property.blockWeight ofExpression ofStatement
  | ⟨_, value, _⟩ => value.blockWeight_mapSpans

theorem blockWeightOfProperties_mapSpans :
    ∀ properties : List Property,
      blockWeightOfProperties ofExpression ofStatement (mapSpansOfProperties f properties) =
        blockWeightOfProperties ofExpression ofStatement properties
  | [] => rfl
  | property :: properties => by
      simp only [mapSpansOfProperties, blockWeightOfProperties, property.blockWeight_mapSpans,
        blockWeightOfProperties_mapSpans properties]

theorem Block.blockWeight_mapSpans :
    ∀ block : Block,
      (block.mapSpans f).blockWeight ofExpression ofStatement =
        block.blockWeight ofExpression ofStatement
  | ⟨statements, _⟩ => blockWeightOfStatements_mapSpans statements

theorem Statement.blockWeight_mapSpans :
    ∀ statement : Statement,
      (statement.mapSpans f).blockWeight ofExpression ofStatement =
        statement.blockWeight ofExpression ofStatement
  | .binding _ _ value _ => blockWeightOfValue_mapSpans value
  | .function _ _ body _ => congrArg (· + ofStatement) body.blockWeight_mapSpans
  | .returned value _ => value.blockWeight_mapSpans
  | .expression expression _ => expression.blockWeight_mapSpans
  | .block body => congrArg (· + ofStatement) body.blockWeight_mapSpans

theorem blockWeightOfStatements_mapSpans :
    ∀ statements : List Statement,
      blockWeightOfStatements ofExpression ofStatement (mapSpansOfStatements f statements) =
        blockWeightOfStatements ofExpression ofStatement statements
  | [] => rfl
  | statement :: statements => by
      simp only [mapSpansOfStatements, blockWeightOfStatements, statement.blockWeight_mapSpans,
        blockWeightOfStatements_mapSpans statements]

end

end

theorem Statement.blockDepth_mapSpans (f : Span → Span) (statement : Statement) :
    (statement.mapSpans f).blockDepth = statement.blockDepth :=
  statement.blockWeight_mapSpans f 1 1

end Frontend
