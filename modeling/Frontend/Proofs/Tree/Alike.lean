import Frontend.Proofs.Tree.Outline
import Frontend.Proofs.Tree.Spans
import Mathlib.Data.List.Forall2

/-!
# Trees of one shape

A tree whose spans are changed in two ways gives two trees of one shape.  Without their spans they
are equal, and the outlines of both have the same nodes, each of which was changed in the one way
and in the other.
-/

namespace Frontend

/-! ## Changing spans twice -/

theorem Identifier.mapSpan_mapSpan (f g : Span → Span) (identifier : Identifier) :
    (identifier.mapSpan f).mapSpan g = identifier.mapSpan (g ∘ f) := rfl

theorem Identifier.map_mapSpan (f g : Span → Span) (identifiers : List Identifier) :
    (identifiers.map (mapSpan f)).map (mapSpan g) = identifiers.map (mapSpan (g ∘ f)) :=
  List.map_map

section

variable (f g : Span → Span)

mutual

theorem Expression.mapSpans_mapSpans :
    ∀ expression : Expression, (expression.mapSpans f).mapSpans g = expression.mapSpans (g ∘ f)
  | .identifier _ _ | .integer _ _ | .string _ _ | .boolean _ _ => rfl
  | .array _ elements => by simp [mapSpansOfExpressions_mapSpans elements]
  | .object _ properties => by simp [mapSpansOfProperties_mapSpans properties]
  | .unary _ _ operand => by simp [operand.mapSpans_mapSpans]
  | .binary _ left _ right => by simp [left.mapSpans_mapSpans, right.mapSpans_mapSpans]
  | .conditional _ condition consequence alternative => by
      simp [condition.mapSpans_mapSpans, consequence.mapSpans_mapSpans,
        mapSpansOfAlternative_mapSpans alternative]
  | .function _ parameters body => by
      simp only [Expression.mapSpans, Identifier.map_mapSpan, body.mapSpans_mapSpans,
        Function.comp_apply]
  | .call _ callee arguments => by
      simp [callee.mapSpans_mapSpans, mapSpansOfExpressions_mapSpans arguments]

theorem mapSpansOfExpressions_mapSpans :
    ∀ expressions : List Expression,
      mapSpansOfExpressions g (mapSpansOfExpressions f expressions) =
        mapSpansOfExpressions (g ∘ f) expressions
  | [] => rfl
  | expression :: expressions => by
      simp [expression.mapSpans_mapSpans, mapSpansOfExpressions_mapSpans expressions]

theorem mapSpansOfAlternative_mapSpans :
    ∀ alternative : Option Block,
      mapSpansOfAlternative g (mapSpansOfAlternative f alternative) =
        mapSpansOfAlternative (g ∘ f) alternative
  | none => rfl
  | some block => by simp [block.mapSpans_mapSpans]

theorem mapSpansOfValue_mapSpans :
    ∀ value : Option Expression,
      mapSpansOfValue g (mapSpansOfValue f value) = mapSpansOfValue (g ∘ f) value
  | none => rfl
  | some value => by simp [value.mapSpans_mapSpans]

theorem Property.mapSpans_mapSpans :
    ∀ property : Property, (property.mapSpans f).mapSpans g = property.mapSpans (g ∘ f)
  | ⟨key, value, span⟩ => by simp [key.mapSpan_mapSpan, value.mapSpans_mapSpans]

theorem mapSpansOfProperties_mapSpans :
    ∀ properties : List Property,
      mapSpansOfProperties g (mapSpansOfProperties f properties) =
        mapSpansOfProperties (g ∘ f) properties
  | [] => rfl
  | property :: properties => by
      simp [property.mapSpans_mapSpans, mapSpansOfProperties_mapSpans properties]

theorem Block.mapSpans_mapSpans :
    ∀ block : Block, (block.mapSpans f).mapSpans g = block.mapSpans (g ∘ f)
  | ⟨statements, span⟩ => by simp [mapSpansOfStatements_mapSpans statements]

theorem Statement.mapSpans_mapSpans :
    ∀ statement : Statement, (statement.mapSpans f).mapSpans g = statement.mapSpans (g ∘ f)
  | .binding _ identifier value _ => by
      simp [identifier.mapSpan_mapSpan, mapSpansOfValue_mapSpans value]
  | .function identifier parameters body _ => by
      simp only [Statement.mapSpans, Identifier.map_mapSpan, identifier.mapSpan_mapSpan,
        body.mapSpans_mapSpans, Function.comp_apply]
  | .returned value _ => by simp [value.mapSpans_mapSpans]
  | .expression expression _ => by simp [expression.mapSpans_mapSpans]
  | .block body => by simp [body.mapSpans_mapSpans]

theorem mapSpansOfStatements_mapSpans :
    ∀ statements : List Statement,
      mapSpansOfStatements g (mapSpansOfStatements f statements) =
        mapSpansOfStatements (g ∘ f) statements
  | [] => rfl
  | statement :: statements => by
      simp [statement.mapSpans_mapSpans, mapSpansOfStatements_mapSpans statements]

end

/-- Statements whose spans were changed in two ways are the same up to spans. -/
theorem SameUpToSpans.of_map (statements : List Statement) :
    SameUpToSpans (statements.map (Statement.mapSpans f))
      (statements.map (Statement.mapSpans g)) := by
  rw [SameUpToSpans, List.map_map, List.map_map]
  refine List.map_congr_left fun statement _ => ?_
  exact (statement.mapSpans_mapSpans f nowhere).trans (statement.mapSpans_mapSpans g nowhere).symm

end

/-! ## Outlines of one shape -/

mutual

/-- The spans of the node and of all nodes under it. -/
def Outline.spans : Outline → List Span
  | .node span _ children => span :: spansOfOutlines children
  termination_by structural outline => outline

def spansOfOutlines : List Outline → List Span
  | [] => []
  | outline :: outlines => outline.spans ++ spansOfOutlines outlines
  termination_by structural outlines => outlines

end

theorem spansOfOutlines_append (left right : List Outline) :
    spansOfOutlines (left ++ right) = spansOfOutlines left ++ spansOfOutlines right := by
  induction left with
  | nil => rfl
  | cons outline outlines ih =>
      rw [List.cons_append, spansOfOutlines, spansOfOutlines, ih, List.append_assoc]

/-- The outlines have the same nodes, at spans that are related.  What the nodes tell of their text
is left aside. -/
inductive Outline.Alike (related : Span → Span → Prop) : Outline → Outline → Prop where
  | node {left right leftMark rightMark leftChildren rightChildren} (hspan : related left right)
      (hchildren : List.Forall₂ (Outline.Alike related) leftChildren rightChildren) :
      Alike related (.node left leftMark leftChildren) (.node right rightMark rightChildren)

section

variable {related : Span → Span → Prop} {f g : Span → Span}

/-- The changed spans are related, for all nodes of some outlines.  Then two trees that come from
one by changing spans are alike. -/
def Relates (related : Span → Span → Prop) (f g : Span → Span) (outlines : List Outline) : Prop :=
  ∀ span ∈ spansOfOutlines outlines, related (f span) (g span)

namespace Relates

theorem append {left right : List Outline} (hrelates : Relates related f g (left ++ right)) :
    Relates related f g left ∧ Relates related f g right := by
  rw [Relates, spansOfOutlines_append] at hrelates
  exact List.forall_mem_append.mp hrelates

theorem cons {outline : Outline} {outlines : List Outline}
    (hrelates : Relates related f g (outline :: outlines)) :
    Relates related f g [outline] ∧ Relates related f g outlines := by
  have hsplit : Relates related f g ([outline] ++ outlines) := hrelates
  exact hsplit.append

theorem node {span : Span} {mark : Mark} {children : List Outline}
    (hrelates : Relates related f g [.node span mark children]) :
    related (f span) (g span) ∧ Relates related f g children := by
  rw [Relates, spansOfOutlines, spansOfOutlines, List.append_nil, Outline.spans,
    List.forall_mem_cons] at hrelates
  exact hrelates

end Relates

theorem Identifier.outline_alike (identifier : Identifier)
    (hrelates : Relates related f g [identifier.outline]) :
    Outline.Alike related (identifier.mapSpan f).outline (identifier.mapSpan g).outline :=
  .node hrelates.node.1 .nil

theorem Identifier.outlines_alike :
    ∀ identifiers : List Identifier, Relates related f g (identifiers.map outline) →
      List.Forall₂ (Outline.Alike related) ((identifiers.map (mapSpan f)).map outline)
        ((identifiers.map (mapSpan g)).map outline)
  | [], _ => .nil
  | identifier :: identifiers, hrelates =>
      have ⟨hfirst, hrest⟩ := hrelates.cons
      .cons (identifier.outline_alike hfirst) (outlines_alike identifiers hrest)

/-- Names before a block. -/
theorem forall₂_concat {left right : List Outline} {last last' : Outline}
    (hnames : List.Forall₂ (Outline.Alike related) left right)
    (hlast : Outline.Alike related last last') :
    List.Forall₂ (Outline.Alike related) (left ++ [last]) (right ++ [last']) :=
  List.rel_append hnames (.cons hlast .nil)

mutual

theorem Expression.outline_alike :
    ∀ expression : Expression, Relates related f g [expression.outline] →
      Outline.Alike related (expression.mapSpans f).outline (expression.mapSpans g).outline
  | .identifier _ name, hrelates =>
      have ⟨hspan, hname⟩ := hrelates.node
      .node hspan (.cons (name.outline_alike hname) .nil)
  | .integer _ _, hrelates | .string _ _, hrelates | .boolean _ _, hrelates =>
      .node hrelates.node.1 .nil
  | .array _ elements, hrelates =>
      have ⟨hspan, helements⟩ := hrelates.node
      .node hspan (outlinesOfExpressions_alike elements helements)
  | .object _ properties, hrelates =>
      have ⟨hspan, hproperties⟩ := hrelates.node
      .node hspan (outlinesOfProperties_alike properties hproperties)
  | .unary _ _ operand, hrelates =>
      have ⟨hspan, hoperand⟩ := hrelates.node
      .node hspan (.cons (operand.outline_alike hoperand) .nil)
  | .binary _ left _ right, hrelates =>
      have ⟨hspan, hoperands⟩ := hrelates.node
      have ⟨hleft, hright⟩ := hoperands.cons
      .node hspan (.cons (left.outline_alike hleft) (.cons (right.outline_alike hright) .nil))
  | .conditional _ condition consequence alternative, hrelates =>
      have ⟨hspan, hparts⟩ := hrelates.node
      have ⟨hcondition, hblocks⟩ := hparts.cons
      have ⟨hconsequence, halternative⟩ := hblocks.cons
      .node hspan (.cons (condition.outline_alike hcondition)
        (.cons (consequence.outline_alike hconsequence)
          (outlinesOfAlternative_alike alternative halternative)))
  | .function _ parameters body, hrelates =>
      have ⟨hspan, hparts⟩ := hrelates.node
      have ⟨hnames, hbody⟩ := hparts.append
      .node hspan (forall₂_concat (Identifier.outlines_alike parameters hnames)
        (body.outline_alike hbody))
  | .call _ callee arguments, hrelates =>
      have ⟨hspan, hparts⟩ := hrelates.node
      have ⟨hcallee, harguments⟩ := hparts.cons
      .node hspan (.cons (callee.outline_alike hcallee)
        (outlinesOfExpressions_alike arguments harguments))

theorem outlinesOfExpressions_alike :
    ∀ expressions : List Expression, Relates related f g (outlinesOfExpressions expressions) →
      List.Forall₂ (Outline.Alike related)
        (outlinesOfExpressions (mapSpansOfExpressions f expressions))
        (outlinesOfExpressions (mapSpansOfExpressions g expressions))
  | [], _ => .nil
  | expression :: expressions, hrelates =>
      have ⟨hfirst, hrest⟩ := hrelates.cons
      .cons (expression.outline_alike hfirst) (outlinesOfExpressions_alike expressions hrest)

theorem outlinesOfAlternative_alike :
    ∀ alternative : Option Block, Relates related f g (outlinesOfAlternative alternative) →
      List.Forall₂ (Outline.Alike related)
        (outlinesOfAlternative (mapSpansOfAlternative f alternative))
        (outlinesOfAlternative (mapSpansOfAlternative g alternative))
  | none, _ => .nil
  | some block, hrelates => .cons (block.outline_alike hrelates) .nil

theorem outlinesOfValue_alike :
    ∀ value : Option Expression, Relates related f g (outlinesOfValue value) →
      List.Forall₂ (Outline.Alike related) (outlinesOfValue (mapSpansOfValue f value))
        (outlinesOfValue (mapSpansOfValue g value))
  | none, _ => .nil
  | some value, hrelates => .cons (value.outline_alike hrelates) .nil

theorem Property.outline_alike :
    ∀ property : Property, Relates related f g [property.outline] →
      Outline.Alike related (property.mapSpans f).outline (property.mapSpans g).outline
  | ⟨key, value, _⟩, hrelates =>
      have ⟨hspan, hparts⟩ := hrelates.node
      have ⟨hkey, hvalue⟩ := hparts.cons
      .node hspan (.cons (key.outline_alike hkey) (.cons (value.outline_alike hvalue) .nil))

theorem outlinesOfProperties_alike :
    ∀ properties : List Property, Relates related f g (outlinesOfProperties properties) →
      List.Forall₂ (Outline.Alike related)
        (outlinesOfProperties (mapSpansOfProperties f properties))
        (outlinesOfProperties (mapSpansOfProperties g properties))
  | [], _ => .nil
  | property :: properties, hrelates =>
      have ⟨hfirst, hrest⟩ := hrelates.cons
      .cons (property.outline_alike hfirst) (outlinesOfProperties_alike properties hrest)

theorem Block.outline_alike :
    ∀ block : Block, Relates related f g [block.outline] →
      Outline.Alike related (block.mapSpans f).outline (block.mapSpans g).outline
  | ⟨statements, _⟩, hrelates =>
      have ⟨hspan, hstatements⟩ := hrelates.node
      .node hspan (outlinesOfStatements_alike statements hstatements)

theorem Statement.outline_alike :
    ∀ statement : Statement, Relates related f g [statement.outline] →
      Outline.Alike related (statement.mapSpans f).outline (statement.mapSpans g).outline
  | .binding _ name value _, hrelates =>
      have ⟨hspan, hparts⟩ := hrelates.node
      have ⟨hname, hvalue⟩ := hparts.cons
      .node hspan (.cons (name.outline_alike hname) (outlinesOfValue_alike value hvalue))
  | .function name parameters body _, hrelates =>
      have ⟨hspan, hparts⟩ := hrelates.node
      have ⟨hname, hparts⟩ := hparts.cons
      have ⟨hnames, hbody⟩ := hparts.append
      .node hspan (.cons (name.outline_alike hname)
        (forall₂_concat (Identifier.outlines_alike parameters hnames) (body.outline_alike hbody)))
  | .returned value _, hrelates =>
      have ⟨hspan, hvalue⟩ := hrelates.node
      .node hspan (.cons (value.outline_alike hvalue) .nil)
  | .expression expression _, hrelates =>
      have ⟨hspan, hexpression⟩ := hrelates.node
      .node hspan (.cons (expression.outline_alike hexpression) .nil)
  | .block body, hrelates => body.outline_alike hrelates

theorem outlinesOfStatements_alike :
    ∀ statements : List Statement, Relates related f g (outlinesOfStatements statements) →
      List.Forall₂ (Outline.Alike related)
        (outlinesOfStatements (mapSpansOfStatements f statements))
        (outlinesOfStatements (mapSpansOfStatements g statements))
  | [], _ => .nil
  | statement :: statements, hrelates =>
      have ⟨hfirst, hrest⟩ := hrelates.cons
      .cons (statement.outline_alike hfirst) (outlinesOfStatements_alike statements hrest)

end

end

end Frontend
