import Frontend.Proofs.Tree.CanonicalText
import Frontend.Proofs.Tree.WrittenOut

/-!
# Canonical words as a spelling

Canonical words have parentheses around the operands of operators, which no spelling has.  Where
there are no operators they spell the tree with every property written out.
-/

namespace Frontend

/-- Neither an expression with an operator nor a string that is not closed.  Canonical text puts
parentheses around operators, and the grammar has none. -/
def Node.IsPlain : Node → Prop
  | .expression (.unary _ _ _) | .expression (.binary _ _ _ _) => False
  | .expression (.string _ text) => IsClosedString text
  | _ => True

section

variable {row : List Statement}

theorem spells_items {values : List Expression}
    (hspells : ∀ value ∈ values, Spells (.expression value.writtenOut) value.canonicalWords) :
    Spells (.items (writtenOutExpressions values))
      (separated (canonicalWordsOfExpressions values)) := by
  induction values with
  | nil => exact .noItems
  | cons value values ih =>
      obtain ⟨hfirst, hrest⟩ := List.forall_mem_cons.mp hspells
      cases values with
      | nil => exact .lastItem hfirst
      | cons second values => exact .moreItems hfirst (ih hrest)

theorem spells_properties {entries : List Property}
    (hspells : ∀ entry ∈ entries, Spells (.property entry.writtenOut) entry.canonicalWords) :
    Spells (.properties (writtenOutProperties entries))
      (separated (canonicalWordsOfProperties entries)) := by
  induction entries with
  | nil => exact .noProperties
  | cons entry entries ih =>
      obtain ⟨hfirst, hrest⟩ := List.forall_mem_cons.mp hspells
      cases entries with
      | nil => exact .lastProperty hfirst
      | cons second entries => exact .moreProperties hfirst (ih hrest)

theorem spells_parameters (names : List Identifier) :
    Spells (.parameters (names.map (Identifier.mapSpan nowhere)))
      (separated (names.map fun name => [name.word])) := by
  induction names with
  | nil => exact .noParameters
  | cons name names ih =>
      cases names with
      | nil => exact .lastParameter
      | cons second names => exact .moreParameters ih

theorem spells_statements
    (hspells : ∀ read ∈ row, Spells (.statement read.writtenOut) read.canonicalWords) :
    Spells (.statements (writtenOutStatements row)) (canonicalWordsOfStatements row).flatten := by
  induction row with
  | nil => exact .noStatements
  | cons read row ih =>
      obtain ⟨hfirst, hrest⟩ := List.forall_mem_cons.mp hspells
      exact .statement hfirst (ih hrest)

end

namespace Phrase

/-- The canonical words spell the phrase, if it is well formed and plain.  Those of parameters have
parentheses that are not part of the spelling. -/
def SpelledOut : Phrase → Prop
  | .parameters _ => True
  | phrase => phrase.WellFormed → (∀ node ∈ phrase.nodes, node.IsPlain) →
      Spells phrase.writtenOut phrase.canonicalWords

theorem spelledOut_steps : Steps SpelledOut where
  identifier span name _ _ := .identifier
  integer span value hformed _ :=
    have hnumeral := Numeral.ofInt_spells hformed.1
    .integer hnumeral.1 hnumeral.2
  string span text _ _ := .string
  boolean span value _ _ := .boolean
  array span elements ih hformed hplain := .array (ih hformed (List.forall_mem_cons.mp hplain).2)
  object span entries ih hformed hplain := .object (ih hformed (List.forall_mem_cons.mp hplain).2)
  unary span operator operand ih _ hplain := (hplain _ List.mem_cons_self).elim
  binary span left operator right ihleft ihright _ hplain := (hplain _ List.mem_cons_self).elim
  conditional span condition consequence ihcondition ihconsequence hformed hplain := by
    obtain ⟨hcondition, hconsequence, -⟩ := hformed
    obtain ⟨hbefore, hafter⟩ := List.forall_mem_append.mp (List.forall_mem_cons.mp hplain).2
    rw [canonicalWords, Expression.canonicalWords, canonicalWordsOfAlternative, List.append_nil]
    exact .conditional (ihcondition hcondition hbefore)
      (ihconsequence hconsequence (List.forall_mem_append.mp hafter).1)
  alternative span condition consequence alternative ihcondition ihconsequence ihalternative
      hformed hplain := by
    obtain ⟨hcondition, hconsequence, halternative⟩ := hformed
    obtain ⟨hbefore, hafter⟩ := List.forall_mem_append.mp (List.forall_mem_cons.mp hplain).2
    obtain ⟨hbody, helse⟩ := List.forall_mem_append.mp hafter
    have hspells := @Spells.alternative (nowhere span) _ _ _ _ _ _
      (ihcondition hcondition hbefore) (ihconsequence hconsequence hbody)
      (ihalternative halternative helse)
    simpa [writtenOut, canonicalWords, Expression.canonicalWords, canonicalWordsOfAlternative]
      using hspells
  function span names body ihnames ihbody hformed hplain := by
    have hspells := @Spells.function (nowhere span) _ _ _ _ (spells_parameters names)
      (ihbody hformed.2 (List.forall_mem_cons.mp hplain).2)
    simpa [writtenOut, canonicalWords, Expression.canonicalWords, canonicalWordsOfParameters]
      using hspells
  call span callee arguments ihcallee iharguments hformed hplain := by
    obtain ⟨-, hcallee, harguments⟩ := hformed
    obtain ⟨hfront, hgroup⟩ := List.forall_mem_append.mp (List.forall_mem_cons.mp hplain).2
    have hspells := @Spells.call (nowhere span) _ _ _ _ (ihcallee hcallee hfront)
      (iharguments harguments hgroup)
    simpa [writtenOut, canonicalWords, Expression.canonicalWords] using hspells
  items values ih hformed hplain := by
    refine spells_items fun value hvalue =>
      ih value hvalue (expressionsWellFormed_iff.mp hformed value hvalue) fun node hnode => ?_
    rw [nodes, nodesOfExpressions_eq_flatMap] at hplain
    exact hplain node (List.mem_flatMap.mpr ⟨value, hvalue, hnode⟩)
  property key value span ih hformed hplain :=
    .written (Property.isShorthand_writtenOut _) (ih hformed.2 (List.forall_mem_cons.mp hplain).2)
  properties entries ih hformed hplain := by
    refine spells_properties fun entry hentry =>
      ih entry hentry (propertiesWellFormed_iff.mp hformed entry hentry) fun node hnode => ?_
    rw [nodes, nodesOfProperties_eq_flatMap] at hplain
    exact hplain node (List.mem_flatMap.mpr ⟨entry, hentry, hnode⟩)
  parameters names := trivial
  block row span ih hformed hplain := .block (ih hformed hplain)
  bindingWithoutValue constant name span hformed _ := by
    obtain rfl : constant = false := hformed.2
    exact .letWithoutValue
  binding constant name value span ih hformed hplain :=
    .binding (ih hformed.2 (List.forall_mem_cons.mp hplain).2)
  namedFunction name names body span ihnames ihbody hformed hplain := by
    have hspells := @Spells.namedFunction (name.mapSpan nowhere) _ _ (nowhere span) _ _
      (spells_parameters names) (ihbody hformed.2.2 (List.forall_mem_cons.mp hplain).2)
    simpa [writtenOut, canonicalWords, Statement.canonicalWords, canonicalWordsOfParameters,
      Identifier.word, Identifier.mapSpan] using hspells
  returned value span ih hformed hplain := .returned (ih hformed (List.forall_mem_cons.mp hplain).2)
  expression value span ih hformed hplain :=
    .expression (ih hformed.2 (List.forall_mem_cons.mp hplain).2)
  bareBlock body ih hformed := hformed.elim
  statements row ih hformed hplain := by
    refine spells_statements fun read hread =>
      ih read hread (statementsWellFormed_iff.mp hformed read hread) fun node hnode => ?_
    rw [nodes, nodesOfStatements_eq_flatMap] at hplain
    exact hplain node (List.mem_flatMap.mpr ⟨read, hread, hnode⟩)

end Phrase

/-- The canonical words of plain statements spell them with every property written out.  So
canonical text is a text of the language. -/
theorem spells_writtenOut {statements : List Statement}
    (hformed : statementsWellFormed none statements)
    (hplain : ∀ node ∈ nodesOfStatements statements, node.IsPlain) :
    Spells (.statements (writtenOutStatements statements))
      (canonicalWordsOfStatements statements).flatten :=
  Phrase.spelledOut_steps.all (.statements statements) hformed hplain

end Frontend
