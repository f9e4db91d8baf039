import Frontend.Proofs.Tree.Entries

/-!
# Trees with every property written out

Canonical texts write every property with its value, also those that were read as a key alone.  A
tree says by its spans which they are, so a tree of the canonical text has other spans.  Here the
keys stand at a place of their own and everything else nowhere in particular.  Only this takes
another level for the value of a property that was a key alone.
-/

namespace Frontend

/-- The place of a key that is not its own value, different from where such a value is put. -/
def keySpan : Span := ⟨0, 1⟩

mutual

/-- The same tree with keys that stand apart from their values, which is what its canonical text is
read as. -/
def Expression.writtenOut : Expression → Expression
  | .identifier span identifier => .identifier (nowhere span) (identifier.mapSpan nowhere)
  | .integer span value => .integer (nowhere span) value
  | .string span text => .string (nowhere span) text
  | .boolean span value => .boolean (nowhere span) value
  | .array span elements => .array (nowhere span) (writtenOutExpressions elements)
  | .object span properties => .object (nowhere span) (writtenOutProperties properties)
  | .unary span operator operand => .unary (nowhere span) operator operand.writtenOut
  | .binary span left operator right =>
      .binary (nowhere span) left.writtenOut operator right.writtenOut
  | .conditional span condition consequence alternative =>
      .conditional (nowhere span) condition.writtenOut consequence.writtenOut
        (writtenOutAlternative alternative)
  | .function span parameters body =>
      .function (nowhere span) (parameters.map (Identifier.mapSpan nowhere)) body.writtenOut
  | .call span callee arguments =>
      .call (nowhere span) callee.writtenOut (writtenOutExpressions arguments)
  termination_by structural expression => expression

def writtenOutExpressions : List Expression → List Expression
  | [] => []
  | expression :: expressions => expression.writtenOut :: writtenOutExpressions expressions
  termination_by structural expressions => expressions

def writtenOutAlternative : Option Block → Option Block
  | none => none
  | some block => some block.writtenOut
  termination_by structural alternative => alternative

def writtenOutValue : Option Expression → Option Expression
  | none => none
  | some value => some value.writtenOut
  termination_by structural value => value

def Property.writtenOut : Property → Property
  | ⟨key, value, span⟩ => ⟨⟨key.name, keySpan⟩, value.writtenOut, nowhere span⟩
  termination_by structural property => property

def writtenOutProperties : List Property → List Property
  | [] => []
  | property :: properties => property.writtenOut :: writtenOutProperties properties
  termination_by structural properties => properties

def Block.writtenOut : Block → Block
  | ⟨statements, span⟩ => ⟨writtenOutStatements statements, nowhere span⟩
  termination_by structural block => block

def Statement.writtenOut : Statement → Statement
  | .binding constant identifier value span =>
      .binding constant (identifier.mapSpan nowhere) (writtenOutValue value) (nowhere span)
  | .function identifier parameters body span =>
      .function (identifier.mapSpan nowhere) (parameters.map (Identifier.mapSpan nowhere))
        body.writtenOut (nowhere span)
  | .returned value span => .returned value.writtenOut (nowhere span)
  | .expression expression span => .expression expression.writtenOut (nowhere span)
  | .block body => .block body.writtenOut
  termination_by structural statement => statement

def writtenOutStatements : List Statement → List Statement
  | [] => []
  | statement :: statements => statement.writtenOut :: writtenOutStatements statements
  termination_by structural statements => statements

end

attribute [simp] Expression.writtenOut writtenOutExpressions writtenOutAlternative writtenOutValue
  Property.writtenOut writtenOutProperties Block.writtenOut Statement.writtenOut
  writtenOutStatements

/-- A key that stands apart from its value is not the whole property. -/
theorem Property.isShorthand_writtenOut (entry : Property) :
    entry.writtenOut.isShorthand = false := by
  obtain ⟨key, value, span⟩ := entry
  cases value <;> rfl

section

theorem writtenOutExpressions_eq_map (expressions : List Expression) :
    writtenOutExpressions expressions = expressions.map Expression.writtenOut := by
  induction expressions with
  | nil => rfl
  | cons expression expressions ih => rw [writtenOutExpressions, ih, List.map_cons]

theorem writtenOutProperties_eq_map (properties : List Property) :
    writtenOutProperties properties = properties.map Property.writtenOut := by
  induction properties with
  | nil => rfl
  | cons property properties ih => rw [writtenOutProperties, ih, List.map_cons]

theorem writtenOutStatements_eq_map (statements : List Statement) :
    writtenOutStatements statements = statements.map Statement.writtenOut := by
  induction statements with
  | nil => rfl
  | cons statement statements ih => rw [writtenOutStatements, ih, List.map_cons]

end

namespace Phrase

/-- The phrase with every property written out. -/
def writtenOut : Phrase → Phrase
  | .expression value => .expression value.writtenOut
  | .items values => .items (writtenOutExpressions values)
  | .property entry => .property entry.writtenOut
  | .properties entries => .properties (writtenOutProperties entries)
  | .parameters names => .parameters (names.map (Identifier.mapSpan nowhere))
  | .block body => .block body.writtenOut
  | .statement read => .statement read.writtenOut
  | .statements row => .statements (writtenOutStatements row)

/-- Spans make no difference to what is written out, which is the same up to spans. -/
theorem writtenOut_spans_steps (f : Span → Span) : Steps fun phrase =>
    (phrase.mapSpans f).writtenOut = phrase.writtenOut ∧
      phrase.writtenOut.mapSpans nowhere = phrase.mapSpans nowhere where
  identifier span name := ⟨rfl, rfl⟩
  integer span value := ⟨rfl, rfl⟩
  string span text := ⟨rfl, rfl⟩
  boolean span value := ⟨rfl, rfl⟩
  array span elements ih := by simp_all [writtenOut, mapSpans, nowhere]
  object span entries ih := by simp_all [writtenOut, mapSpans, nowhere]
  unary span operator operand ih := by simp_all [writtenOut, mapSpans, nowhere]
  binary span left operator right ihleft ihright := by simp_all [writtenOut, mapSpans, nowhere]
  conditional span condition consequence ihcondition ihconsequence := by
    simp_all [writtenOut, mapSpans, nowhere]
  alternative span condition consequence alternative ihcondition ihconsequence ihalternative := by
    simp_all [writtenOut, mapSpans, nowhere]
  function span names body ihnames ihbody := by simp_all [writtenOut, mapSpans, nowhere]
  call span callee arguments ihcallee iharguments := by simp_all [writtenOut, mapSpans, nowhere]
  items values ih := by
    simp_all [writtenOut, mapSpans, mapSpansOfExpressions_eq_map, writtenOutExpressions_eq_map]
  property key value span ih := by simp_all [writtenOut, mapSpans, Identifier.mapSpan, nowhere]
  properties entries ih := by
    simp_all [writtenOut, mapSpans, mapSpansOfProperties_eq_map, writtenOutProperties_eq_map]
  parameters names := by simp [writtenOut, mapSpans, Identifier.mapSpan, nowhere]
  block row span ih := by simp_all [writtenOut, mapSpans, nowhere]
  bindingWithoutValue constant name span := ⟨rfl, rfl⟩
  binding constant name value span ih := by
    simp_all [writtenOut, mapSpans, Identifier.mapSpan, nowhere]
  namedFunction name names body span ihnames ihbody := by
    simp_all [writtenOut, mapSpans, Identifier.mapSpan, nowhere]
  returned value span ih := by simp_all [writtenOut, mapSpans, nowhere]
  expression value span ih := by simp_all [writtenOut, mapSpans, nowhere]
  bareBlock body ih := by simp_all [writtenOut, mapSpans]
  statements row ih := by
    simp_all [writtenOut, mapSpans, mapSpansOfStatements_eq_map, writtenOutStatements_eq_map]

end Phrase

theorem sameUpToSpans_writtenOut (statements : List Statement) :
    SameUpToSpans (writtenOutStatements statements) statements := by
  have hsame := (Phrase.writtenOut_spans_steps nowhere).all (.statements statements)
  rw [SameUpToSpans, ← mapSpansOfStatements_eq_map, ← mapSpansOfStatements_eq_map]
  exact Phrase.statements.inj hsame.2

theorem writtenOut_of_same {statements statements' : List Statement}
    (hsame : SameUpToSpans statements statements') :
    writtenOutStatements statements = writtenOutStatements statements' := by
  have hspans (row : List Statement) :
      writtenOutStatements (mapSpansOfStatements nowhere row) = writtenOutStatements row :=
    Phrase.statements.inj ((Phrase.writtenOut_spans_steps nowhere).all (.statements row)).1
  rw [← hspans, ← hspans statements', mapSpansOfStatements_eq_map, mapSpansOfStatements_eq_map,
    hsame]

/-! ## Well-formedness -/

theorem Expression.tightness_writtenOut (value : Expression) :
    value.writtenOut.tightness = value.tightness := by
  cases value <;> rfl

theorem Expression.startsWithFunction_writtenOut (value : Expression) :
    value.writtenOut.startsWithFunction = value.startsWithFunction := by
  cases value with
  | binary _ left _ _ => exact left.startsWithFunction_writtenOut
  | call _ callee _ => exact callee.startsWithFunction_writtenOut
  | _ => rfl
  termination_by structural value

theorem names_writtenOut {names : List Identifier} (hnames : ∀ name ∈ names, IsName name.name) :
    ∀ name ∈ names.map (Identifier.mapSpan nowhere), IsName name.name := by
  rw [List.forall_mem_map]
  exact hnames

/-- Where every string is closed, nothing that is asked of a tree depends on its spans. -/
theorem Phrase.wellFormed_writtenOut_steps :
    Steps fun phrase => phrase.WellFormed → phrase.writtenOut.WellFormed where
  identifier span name hformed := hformed
  integer span value hformed := hformed
  string span text hformed := .inl (hformed.resolve_right fun hopen => nomatch hopen.2)
  boolean span value _ := trivial
  array span elements ih hformed := ih hformed
  object span entries ih hformed := ih hformed
  unary span operator operand ih hformed := by
    refine ⟨?_, ih hformed.2⟩
    rw [Expression.tightness_writtenOut]
    exact hformed.1
  binary span left operator right ihleft ihright hformed := by
    obtain ⟨htightLeft, htightRight, hleft, hright⟩ := hformed
    refine ⟨?_, ?_, ihleft hleft, ihright hright⟩
    · rw [Expression.tightness_writtenOut]
      exact htightLeft
    · rw [Expression.tightness_writtenOut]
      exact htightRight
  conditional span condition consequence ihcondition ihconsequence hformed :=
    ⟨ihcondition hformed.1, ihconsequence hformed.2.1, trivial⟩
  alternative span condition consequence alternative ihcondition ihconsequence ihalternative
      hformed :=
    ⟨ihcondition hformed.1, ihconsequence hformed.2.1, ihalternative hformed.2.2⟩
  function span names body ihnames ihbody hformed :=
    ⟨names_writtenOut hformed.1, ihbody hformed.2⟩
  call span callee arguments ihcallee iharguments hformed := by
    refine ⟨?_, ihcallee hformed.2.1, iharguments hformed.2.2⟩
    rw [Expression.tightness_writtenOut]
    exact hformed.1
  items values ih hformed := by
    induction values with
    | nil => trivial
    | cons value values ihvalues =>
        obtain ⟨hfirst, hrest⟩ := List.forall_mem_cons.mp ih
        exact ⟨hfirst hformed.1, ihvalues hrest hformed.2⟩
  property key value span ih hformed := ⟨hformed.1, ih hformed.2⟩
  properties entries ih hformed := by
    induction entries with
    | nil => trivial
    | cons entry entries ihentries =>
        obtain ⟨hfirst, hrest⟩ := List.forall_mem_cons.mp ih
        exact ⟨hfirst hformed.1, ihentries hrest hformed.2⟩
  parameters names hformed := names_writtenOut hformed
  block row span ih hformed := ih hformed
  bindingWithoutValue constant name span hformed := hformed
  binding constant name value span ih hformed := ⟨hformed.1, ih hformed.2⟩
  namedFunction name names body span ihnames ihbody hformed :=
    ⟨hformed.1, names_writtenOut hformed.2.1, ihbody hformed.2.2⟩
  returned value span ih hformed := ih hformed
  expression value span ih hformed := by
    refine ⟨?_, ih hformed.2⟩
    rw [Expression.startsWithFunction_writtenOut]
    exact hformed.1
  bareBlock body ih hformed := hformed.elim
  statements row ih hformed := by
    induction row with
    | nil => trivial
    | cons read row ihrow =>
        obtain ⟨hfirst, hrest⟩ := List.forall_mem_cons.mp ih
        exact ⟨hfirst hformed.1, ihrow hrest hformed.2⟩

/-! ## Nesting -/

namespace Phrase

/-- The largest number of expressions that are open inside one another. -/
def nesting : Phrase → Nat
  | .expression value => value.nesting
  | .items values => nestingOfExpressions values
  | .property entry => entry.nesting
  | .properties entries => nestingOfProperties entries
  | .parameters _ => 0
  | .block body => body.nesting
  | .statement read => read.nesting
  | .statements row => nestingOfStatements row

/-- Where no key is its own value, nothing more is open when all values are written out. -/
theorem nesting_writtenOut_steps : Steps fun phrase =>
    (∀ node ∈ phrase.nodes, node.isShorthand = false) →
      phrase.writtenOut.nesting = phrase.nesting where
  identifier span name _ := rfl
  integer span value _ := rfl
  string span text _ := rfl
  boolean span value _ := rfl
  array span elements ih := by
    simp_all [nodes, Expression.nodes, writtenOut, nesting, Expression.nesting]
  object span entries ih := by
    simp_all [nodes, Expression.nodes, writtenOut, nesting, Expression.nesting]
  unary span operator operand ih := by
    simp_all [nodes, Expression.nodes, writtenOut, nesting, Expression.nesting]
  binary span left operator right ihleft ihright := by
    simp_all [nodes, Expression.nodes, writtenOut, nesting, Expression.nesting, or_imp, forall_and]
  conditional span condition consequence ihcondition ihconsequence := by
    simp_all [nodes, Expression.nodes, nodesOfAlternative, writtenOut, nesting, Expression.nesting,
      nestingOfAlternative, or_imp, forall_and]
  alternative span condition consequence alternative ihcondition ihconsequence ihalternative := by
    simp_all [nodes, Expression.nodes, nodesOfAlternative, writtenOut, nesting, Expression.nesting,
      nestingOfAlternative, or_imp, forall_and]
  function span names body ihnames ihbody := by
    simp_all [nodes, Expression.nodes, writtenOut, nesting, Expression.nesting]
  call span callee arguments ihcallee iharguments := by
    simp_all [nodes, Expression.nodes, writtenOut, nesting, Expression.nesting, or_imp, forall_and]
  items values ih := by
    induction values with
    | nil => exact fun _ => rfl
    | cons value values ihvalues =>
        simp_all [nodes, nodesOfExpressions, writtenOut, nesting, nestingOfExpressions, or_imp,
          forall_and]
  property key value span ih hwritten := by
    obtain ⟨hkey, hvalue⟩ := List.forall_mem_cons.mp hwritten
    have hnesting : value.writtenOut.nesting = value.nesting := ih hvalue
    rw [writtenOut, nesting, nesting,
      Property.nesting_of_written (Property.isShorthand_writtenOut _),
      Property.nesting_of_written hkey]
    exact hnesting
  properties entries ih := by
    induction entries with
    | nil => exact fun _ => rfl
    | cons entry entries ihentries =>
        simp_all [nodes, nodesOfProperties, writtenOut, nesting, nestingOfProperties, or_imp,
          forall_and]
  parameters names _ := rfl
  block row span ih := by simp_all [nodes, Block.nodes, writtenOut, nesting, Block.nesting]
  bindingWithoutValue constant name span _ := rfl
  binding constant name value span ih := by
    simp_all [nodes, Statement.nodes, nodesOfValue, writtenOut, nesting, Statement.nesting,
      nestingOfValue]
  namedFunction name names body span ihnames ihbody := by
    simp_all [nodes, Statement.nodes, writtenOut, nesting, Statement.nesting]
  returned value span ih := by
    simp_all [nodes, Statement.nodes, writtenOut, nesting, Statement.nesting]
  expression value span ih := by
    simp_all [nodes, Statement.nodes, writtenOut, nesting, Statement.nesting]
  bareBlock body ih := by
    simp_all [nodes, Statement.nodes, writtenOut, nesting, Statement.nesting]
  statements row ih := by
    induction row with
    | nil => exact fun _ => rfl
    | cons read row ihrow =>
        simp_all [nodes, nodesOfStatements, writtenOut, nesting, nestingOfStatements, or_imp,
          forall_and]

end Phrase

end Frontend
