import Frontend.Proofs.Tree.WellFormed

/-!
# The height of expressions

How many expressions lie inside one another.  All that matters for it is which expressions stand
directly inside which, so a tree is reduced to that.  An expression may stand at the front of the
one around it: a left operand, a callee, or the value that a key stands for.  It is there before
the one around it is known, or without being read at all, and so it takes none of the levels that
are open at a time.  On a way down the tree the two sorts of steps are weighed apart.
-/

namespace Frontend

/-- The expressions inside an expression, which may itself stand at the front of another one.  Left
operands, callees and values of keys alone are fronts: they are read without opening a level. -/
inductive Nest where
  | node (front : Bool) (inside : List Nest)

mutual

def Expression.nest (front : Bool) : Expression → Nest
  | .identifier _ _ | .integer _ _ | .string _ _ | .boolean _ _ => .node front []
  | .array _ elements => .node front (nestsOfExpressions elements)
  | .object _ properties => .node front (nestsOfProperties properties)
  | .unary _ _ operand => .node front [operand.nest false]
  | .binary _ left _ right => .node front [left.nest true, right.nest false]
  | .conditional _ condition consequence alternative =>
      .node front (condition.nest false :: (consequence.nests ++ nestsOfAlternative alternative))
  | .function _ _ body => .node front body.nests
  | .call _ callee arguments => .node front (callee.nest true :: nestsOfExpressions arguments)
  termination_by structural expression => expression

def nestsOfExpressions : List Expression → List Nest
  | [] => []
  | expression :: expressions => expression.nest false :: nestsOfExpressions expressions
  termination_by structural expressions => expressions

def nestsOfAlternative : Option Block → List Nest
  | none => []
  | some block => block.nests
  termination_by structural alternative => alternative

def nestsOfValue : Option Expression → List Nest
  | none => []
  | some value => [value.nest false]
  termination_by structural value => value

def Property.nest : Property → Nest
  | ⟨key, value, span⟩ => value.nest (Property.isShorthand ⟨key, value, span⟩)
  termination_by structural property => property

def nestsOfProperties : List Property → List Nest
  | [] => []
  | property :: properties => property.nest :: nestsOfProperties properties
  termination_by structural properties => properties

/-- The outermost expressions of a block. -/
def Block.nests : Block → List Nest
  | ⟨statements, _⟩ => nestsOfStatements statements
  termination_by structural block => block

/-- The outermost expressions of a statement. -/
def Statement.nests : Statement → List Nest
  | .binding _ _ value _ => nestsOfValue value
  | .function _ _ body _ => body.nests
  | .returned value _ => [value.nest false]
  | .expression expression _ => [expression.nest false]
  | .block body => body.nests
  termination_by structural statement => statement

def nestsOfStatements : List Statement → List Nest
  | [] => []
  | statement :: statements => statement.nests ++ nestsOfStatements statements
  termination_by structural statements => statements

end

namespace Nest

def inside : Nest → List Nest
  | node _ inside => inside

def isFront : Nest → Bool
  | node front _ => front

mutual

/-- The expression itself and all expressions inside it. -/
def parts : Nest → List Nest
  | node front inside => node front inside :: partsOf inside
  termination_by structural nest => nest

def partsOf : List Nest → List Nest
  | [] => []
  | nest :: nests => nest.parts ++ partsOf nests
  termination_by structural nests => nests

end

mutual

/-- The largest weight of an expression together with others inside it on a way down.  Fronts and
other expressions may count for different amounts. -/
def weight (ofFront ofInner : Nat) : Nest → Nat
  | node front inside => (if front then ofFront else ofInner) + weightOf ofFront ofInner inside
  termination_by structural nest => nest

def weightOf (ofFront ofInner : Nat) : List Nest → Nat
  | [] => 0
  | nest :: nests => max (nest.weight ofFront ofInner) (weightOf ofFront ofInner nests)
  termination_by structural nests => nests

end

/-- The number of expressions on the longest way down, this one included: the height of the tree. -/
def height (nest : Nest) : Nat := weightOf 1 1 nest.inside + 1

/-- The same number without those that stand at the front of another one.  So many calls of
`parse_expression` are open at once where the way ends. -/
def levels (nest : Nest) : Nat := weightOf 0 1 nest.inside + 1

/-- The largest number of those that stand at the front of another one. -/
def fronts (nest : Nest) : Nat := weightOf 1 0 nest.inside

section

variable {ofFront ofInner : Nat}

theorem weightOf_append (left right : List Nest) :
    weightOf ofFront ofInner (left ++ right) =
      max (weightOf ofFront ofInner left) (weightOf ofFront ofInner right) := by
  induction left with
  | nil => exact (Nat.zero_max _).symm
  | cons nest nests ih => rw [List.cons_append, weightOf, weightOf, ih, Nat.max_assoc]

theorem weight_le_weightOf {nest : Nest} {nests : List Nest} (hmember : nest ∈ nests) :
    nest.weight ofFront ofInner ≤ weightOf ofFront ofInner nests := by
  induction hmember with
  | head nests => exact Nat.le_max_left _ _
  | tail first _ ih => exact Nat.le_trans ih (Nat.le_max_right _ _)

theorem weightOf_inside_le (nest : Nest) :
    weightOf ofFront ofInner nest.inside ≤ nest.weight ofFront ofInner := by
  cases nest
  exact Nat.le_add_left _ _

end

mutual

/-- Every expression on a way down is one of the two sorts. -/
theorem weight_le : ∀ nest : Nest, nest.weight 1 1 ≤ nest.weight 0 1 + nest.weight 1 0
  | node front inside => by
      have hinside := weightOf_le inside
      cases front <;> simp only [weight, Bool.false_eq_true, if_true, if_false] <;> omega

theorem weightOf_le :
    ∀ nests : List Nest, weightOf 1 1 nests ≤ weightOf 0 1 nests + weightOf 1 0 nests
  | [] => Nat.le_refl 0
  | nest :: nests => by
      have hfirst := nest.weight_le
      have hrest := weightOf_le nests
      simp only [weightOf]
      omega

end

mutual

theorem weight_front_le : ∀ nest : Nest, nest.weight 1 0 ≤ nest.weight 1 1
  | node front inside => by
      have hinside := weightOf_front_le inside
      cases front <;> simp only [weight, Bool.false_eq_true, if_true, if_false] <;> omega

theorem weightOf_front_le : ∀ nests : List Nest, weightOf 1 0 nests ≤ weightOf 1 1 nests
  | [] => Nat.le_refl 0
  | nest :: nests => by
      have hfirst := nest.weight_front_le
      have hrest := weightOf_front_le nests
      simp only [weightOf]
      omega

end

theorem mem_partsOf {nest : Nest} {nests : List Nest} (hmember : nest ∈ nests) :
    nest ∈ partsOf nests := by
  induction hmember with
  | head nests =>
      cases nest
      exact List.mem_append_left _ List.mem_cons_self
  | tail first _ ih => exact List.mem_append_right _ ih

theorem weight_of_isFront {nest : Nest} (hfront : nest.isFront = false) :
    nest.weight 0 1 = nest.levels := by
  obtain ⟨front, inside⟩ := nest
  obtain rfl : front = false := hfront
  exact Nat.add_comm _ _

theorem weight_eq_height (nest : Nest) : nest.weight 1 1 = nest.height := by
  obtain ⟨front, inside⟩ := nest
  cases front <;> exact Nat.add_comm _ _

/-- Each expression is higher than those inside it, wherever they stand. -/
theorem height_lt_of_mem_inside {outer nest : Nest} (hmember : nest ∈ outer.inside) :
    nest.height < outer.height := by
  rw [← weight_eq_height]
  exact Nat.lt_succ_of_le (weight_le_weightOf hmember)

/-- The height is made up of levels and of expressions at the front of others.  Only the levels are
bounded. -/
theorem height_le (nest : Nest) : nest.height ≤ nest.levels + nest.fronts := by
  have hinside := weightOf_le nest.inside
  simp only [height, levels, fronts]
  omega

theorem fronts_lt_height (nest : Nest) : nest.fronts < nest.height :=
  Nat.lt_succ_of_le (weightOf_front_le nest.inside)

mutual

/-- What lies inside an expression has no more levels than the expression. -/
theorem levels_le_of_mem_parts :
    ∀ (nest : Nest) {part : Nest}, part ∈ nest.parts → part.levels ≤ nest.levels
  | node front inside, part, hpart => by
      rw [parts] at hpart
      rcases List.mem_cons.mp hpart with rfl | hinside
      · exact Nat.le_refl _
      · obtain ⟨nest, hmember, hlevels⟩ := levels_le_of_mem_partsOf inside hinside
        have hnest : weightOf 0 1 nest.inside ≤ nest.weight 0 1 := weightOf_inside_le nest
        have hweight : nest.weight 0 1 ≤ weightOf 0 1 inside := weight_le_weightOf hmember
        exact Nat.le_trans hlevels (Nat.succ_le_succ (Nat.le_trans hnest hweight))

theorem levels_le_of_mem_partsOf :
    ∀ (nests : List Nest) {part : Nest}, part ∈ partsOf nests →
      ∃ nest ∈ nests, part.levels ≤ nest.levels
  | [], _, hpart => nomatch hpart
  | nest :: nests, part, hpart => by
      rcases List.mem_append.mp hpart with hfirst | hrest
      · exact ⟨nest, List.mem_cons_self, nest.levels_le_of_mem_parts hfirst⟩
      · obtain ⟨other, hmember, hlevels⟩ := levels_le_of_mem_partsOf nests hrest
        exact ⟨other, List.mem_cons_of_mem nest hmember, hlevels⟩

end

end Nest

/-! ## Levels are the nesting -/

/-- An expression at the front of another one is not counted. -/
theorem Expression.weight_nest_front (expression : Expression) :
    (expression.nest true).weight 0 1 + 1 = (expression.nest false).weight 0 1 := by
  cases expression <;>
    simp only [nest, Nest.weight, Bool.false_eq_true, if_true, if_false, Nat.zero_add, Nat.add_comm]

mutual

theorem Expression.weight_nest :
    ∀ expression : Expression, (expression.nest false).weight 0 1 = expression.nesting
  | .identifier _ _ | .integer _ _ | .string _ _ | .boolean _ _ => rfl
  | .array _ elements => by
      have helements := weightOf_nestsOfExpressions elements
      simp only [Expression.nest, Nest.weight, Expression.nesting, helements, Bool.false_eq_true,
        if_false, Nat.add_comm]
  | .object _ properties => by
      have hproperties := weightOf_nestsOfProperties properties
      simp only [Expression.nest, Nest.weight, Expression.nesting, hproperties, Bool.false_eq_true,
        if_false, Nat.add_comm]
  | .unary _ _ operand => by
      have hoperand := operand.weight_nest
      simp only [Expression.nest, Nest.weight, Nest.weightOf, Expression.nesting, hoperand,
        Bool.false_eq_true, if_false, Nat.max_zero, Nat.add_comm]
  | .binary _ left _ right => by
      have hleft := left.weight_nest
      have hright := right.weight_nest
      have hfront := left.weight_nest_front
      simp only [Expression.nest, Nest.weight, Nest.weightOf, Expression.nesting, hright,
        Bool.false_eq_true, if_false, Nat.max_zero]
      omega
  | .conditional _ condition consequence alternative => by
      have hcondition := condition.weight_nest
      have hconsequence := consequence.weightOf_nests
      have halternative := weightOf_nestsOfAlternative alternative
      simp only [Expression.nest, Nest.weight, Nest.weightOf, Nest.weightOf_append,
        Expression.nesting, hcondition, hconsequence, halternative, Bool.false_eq_true, if_false,
        Nat.add_comm]
  | .function _ _ body => by
      have hbody := body.weightOf_nests
      simp only [Expression.nest, Nest.weight, Expression.nesting, hbody, Bool.false_eq_true,
        if_false, Nat.add_comm]
  | .call _ callee arguments => by
      have hcallee := callee.weight_nest
      have harguments := weightOf_nestsOfExpressions arguments
      have hfront := callee.weight_nest_front
      simp only [Expression.nest, Nest.weight, Nest.weightOf, Expression.nesting, harguments,
        Bool.false_eq_true, if_false]
      omega

theorem weightOf_nestsOfExpressions :
    ∀ expressions : List Expression,
      Nest.weightOf 0 1 (nestsOfExpressions expressions) = nestingOfExpressions expressions
  | [] => rfl
  | expression :: expressions =>
      congrArg₂ max expression.weight_nest (weightOf_nestsOfExpressions expressions)

theorem weightOf_nestsOfAlternative :
    ∀ alternative : Option Block,
      Nest.weightOf 0 1 (nestsOfAlternative alternative) = nestingOfAlternative alternative
  | none => rfl
  | some block => block.weightOf_nests

theorem weightOf_nestsOfValue :
    ∀ value : Option Expression, Nest.weightOf 0 1 (nestsOfValue value) = nestingOfValue value
  | none => rfl
  | some value => (Nat.max_zero _).trans value.weight_nest

/-- A key that stands for its value is read without opening a level. -/
theorem Property.weight_nest :
    ∀ property : Property, property.nest.weight 0 1 = property.nesting
  | ⟨key, value, span⟩ => by
      have hvalue := value.weight_nest
      cases hshort : Property.isShorthand ⟨key, value, span⟩ with
      | false => rw [Property.nest, hshort, hvalue, Property.nesting_of_written hshort]
      | true =>
          rw [Property.nest, hshort, Property.nesting_of_isShorthand hshort]
          cases value <;> first | rfl | cases hshort

theorem weightOf_nestsOfProperties :
    ∀ properties : List Property,
      Nest.weightOf 0 1 (nestsOfProperties properties) = nestingOfProperties properties
  | [] => rfl
  | property :: properties =>
      congrArg₂ max property.weight_nest (weightOf_nestsOfProperties properties)

theorem Block.weightOf_nests :
    ∀ block : Block, Nest.weightOf 0 1 block.nests = block.nesting
  | ⟨statements, _⟩ => weightOf_nestsOfStatements statements

theorem Statement.weightOf_nests :
    ∀ statement : Statement, Nest.weightOf 0 1 statement.nests = statement.nesting
  | .binding _ _ value _ => weightOf_nestsOfValue value
  | .function _ _ body _ => body.weightOf_nests
  | .returned value _ | .expression value _ => (Nat.max_zero _).trans value.weight_nest
  | .block body => body.weightOf_nests

theorem weightOf_nestsOfStatements :
    ∀ statements : List Statement,
      Nest.weightOf 0 1 (nestsOfStatements statements) = nestingOfStatements statements
  | [] => rfl
  | statement :: statements => by
      rw [nestsOfStatements, Nest.weightOf_append, statement.weightOf_nests,
        weightOf_nestsOfStatements statements, nestingOfStatements]

end

mutual

/-- The outermost expressions do not stand at the front of others. -/
theorem isFront_of_mem_blockNests :
    ∀ (block : Block) {nest : Nest}, nest ∈ block.nests → nest.isFront = false
  | ⟨statements, _⟩, _, hmember => isFront_of_mem_nestsOfStatements statements hmember

theorem isFront_of_mem_nests :
    ∀ (statement : Statement) {nest : Nest}, nest ∈ statement.nests → nest.isFront = false
  | .binding _ _ none _, _, hmember => nomatch hmember
  | .binding _ _ (some value) _, _, hmember | .returned value _, _, hmember
  | .expression value _, _, hmember => by
      obtain rfl := List.mem_singleton.mp hmember
      cases value <;> rfl
  | .function _ _ body _, _, hmember | .block body, _, hmember =>
      isFront_of_mem_blockNests body hmember

theorem isFront_of_mem_nestsOfStatements :
    ∀ (statements : List Statement) {nest : Nest},
      nest ∈ nestsOfStatements statements → nest.isFront = false
  | [], _, hmember => nomatch hmember
  | statement :: statements, _, hmember =>
      (List.mem_append.mp hmember).elim (isFront_of_mem_nests statement)
        (isFront_of_mem_nestsOfStatements statements)

end

/-- All expressions in a row of statements, at every depth. -/
def expressionsIn (statements : List Statement) : List Nest :=
  Nest.partsOf (nestsOfStatements statements)

/-- The nesting of statements bounds the levels of every expression in them, at whatever depth it
is. -/
theorem levels_le_nesting {statements : List Statement} {part : Nest}
    (hpart : part ∈ expressionsIn statements) : part.levels ≤ nestingOfStatements statements := by
  obtain ⟨nest, hmember, hlevels⟩ := Nest.levels_le_of_mem_partsOf _ hpart
  have hfront := isFront_of_mem_nestsOfStatements statements hmember
  calc
    part.levels ≤ nest.levels := hlevels
    _ = nest.weight 0 1 := (Nest.weight_of_isFront hfront).symm
    _ ≤ Nest.weightOf 0 1 (nestsOfStatements statements) := Nest.weight_le_weightOf hmember
    _ = nestingOfStatements statements := weightOf_nestsOfStatements statements

end Frontend
