import Frontend.Proofs.Tree.CanonicalWords
import Frontend.Proofs.Tree.Nodes

/-!
# Colons and properties

A colon stands after a key that is written with its value and nowhere else.  Canonical words have
one for each property, and a spelling has none for a property that is a key alone.
-/

namespace Frontend

/-! ## Nodes of phrases -/

theorem nodesOfExpressions_eq_flatMap (expressions : List Expression) :
    nodesOfExpressions expressions = expressions.flatMap Expression.nodes := by
  induction expressions with
  | nil => rfl
  | cons expression expressions ih => rw [nodesOfExpressions, ih, List.flatMap_cons]

theorem nodesOfProperties_eq_flatMap (properties : List Property) :
    nodesOfProperties properties = properties.flatMap Property.nodes := by
  induction properties with
  | nil => rfl
  | cons property properties ih => rw [nodesOfProperties, ih, List.flatMap_cons]

theorem nodesOfStatements_eq_flatMap (statements : List Statement) :
    nodesOfStatements statements = statements.flatMap Statement.nodes := by
  induction statements with
  | nil => rfl
  | cons statement statements ih => rw [nodesOfStatements, ih, List.flatMap_cons]

/-- All statements, expressions and properties of a phrase, at every depth. -/
@[simp]
def Phrase.nodes : Phrase → List Node
  | .expression value => value.nodes
  | .items values => nodesOfExpressions values
  | .property entry => entry.nodes
  | .properties entries => nodesOfProperties entries
  | .parameters _ => []
  | .block body => body.nodes
  | .statement read => read.nodes
  | .statements row => nodesOfStatements row

/-- The node with every span changed. -/
@[simp]
def Node.mapSpans (f : Span → Span) : Node → Node
  | .statement read => .statement (read.mapSpans f)
  | .expression value => .expression (value.mapSpans f)
  | .property entry => .property (entry.mapSpans f)

/-- With other spans a phrase has the same nodes with other spans. -/
theorem Phrase.nodes_mapSpans_steps (f : Span → Span) :
    Steps fun phrase => (phrase.mapSpans f).nodes = phrase.nodes.map (Node.mapSpans f) where
  identifier span name := rfl
  integer span value := rfl
  string span text := rfl
  boolean span value := rfl
  array span elements ih := by simp_all [Expression.nodes]
  object span entries ih := by simp_all [Expression.nodes]
  unary span operator operand ih := by simp_all [Expression.nodes]
  binary span left operator right ihleft ihright := by simp_all [Expression.nodes]
  conditional span condition consequence ihcondition ihconsequence := by
    simp_all [Expression.nodes, nodesOfAlternative]
  alternative span condition consequence alternative ihcondition ihconsequence ihalternative := by
    simp_all [Expression.nodes, nodesOfAlternative]
  function span names body ihnames ihbody := by simp_all [Expression.nodes]
  call span callee arguments ihcallee iharguments := by simp_all [Expression.nodes]
  items values ih := by
    induction values with
    | nil => rfl
    | cons value values ihvalues => simp_all [nodesOfExpressions]
  property key value span ih := by simp_all [Property.nodes]
  properties entries ih := by
    induction entries with
    | nil => rfl
    | cons entry entries ihentries => simp_all [nodesOfProperties]
  parameters names := rfl
  block row span ih := by simp_all [Block.nodes]
  bindingWithoutValue constant name span := rfl
  binding constant name value span ih := by simp_all [Statement.nodes, nodesOfValue]
  namedFunction name names body span ihnames ihbody := by simp_all [Statement.nodes]
  returned value span ih := by simp_all [Statement.nodes]
  expression value span ih := by simp_all [Statement.nodes]
  bareBlock body ih := by simp_all [Statement.nodes]
  statements row ih := by
    induction row with
    | nil => rfl
    | cons read row ihrow => simp_all [nodesOfStatements]

theorem nodes_of_same {statements statements' : List Statement}
    (hsame : SameUpToSpans statements statements') :
    (nodesOfStatements statements).map (Node.mapSpans nowhere) =
      (nodesOfStatements statements').map (Node.mapSpans nowhere) := by
  have hnodes (row : List Statement) : nodesOfStatements (mapSpansOfStatements nowhere row) =
      (nodesOfStatements row).map (Node.mapSpans nowhere) :=
    (Phrase.nodes_mapSpans_steps nowhere).all (.statements row)
  rw [← hnodes, ← hnodes, mapSpansOfStatements_eq_map, mapSpansOfStatements_eq_map, hsame]

/-! ## Counting -/

@[simp]
def Node.isProperty : Node → Bool
  | .property _ => true
  | _ => false

/-- The node is a property that is a key alone. -/
def Node.isShorthand : Node → Bool
  | .property entry => entry.isShorthand
  | _ => false

def Word.isColon (word : Word) : Bool := word.kind = .colon

@[simp]
theorem Identifier.word_isColon (identifier : Identifier) : identifier.word.isColon = false := rfl

@[simp]
theorem Kind.word_isColon (kind : Kind) : kind.word.isColon = decide (kind = .colon) := rfl

theorem countP_separated (wordLists : List (List Word)) :
    (separated wordLists).countP Word.isColon = wordLists.flatten.countP Word.isColon := by
  fun_induction separated wordLists with
  | case1 => rfl
  | case2 words => simp
  | case3 words next rest ih => simp [ih]

theorem countP_parameters (names : List Identifier) :
    (canonicalWordsOfParameters names).countP Word.isColon = 0 := by
  have hnames : (names.map fun name => [name.word]).flatten.countP Word.isColon = 0 := by
    rw [List.countP_eq_zero, List.forall_mem_flatten, List.forall_mem_map]
    simp
  rw [← countP_separated] at hnames
  simp [canonicalWordsOfParameters, -List.countP_eq_zero, hnames]

/-- Canonical words have one colon for each property. -/
theorem Phrase.colons_steps : Steps fun phrase =>
    phrase.canonicalWords.countP Word.isColon = phrase.nodes.countP Node.isProperty where
  identifier span name := rfl
  integer span value := rfl
  string span text := rfl
  boolean span value := by cases value <;> rfl
  array span elements ih := by simp_all [Expression.canonicalWords, Expression.nodes]
  object span entries ih := by simp_all [Expression.canonicalWords, Expression.nodes]
  unary span operator operand ih := by
    cases operator <;>
      simp_all [Expression.canonicalWords, Expression.nodes, UnaryOperator.kind]
  binary span left operator right ihleft ihright := by
    cases operator <;>
      simp_all [Expression.canonicalWords, Expression.nodes, BinaryOperator.kind]
  conditional span condition consequence ihcondition ihconsequence := by
    simp_all [Expression.canonicalWords, Expression.nodes, canonicalWordsOfAlternative,
      nodesOfAlternative]
  alternative span condition consequence alternative ihcondition ihconsequence ihalternative := by
    simp_all [Expression.canonicalWords, Expression.nodes, canonicalWordsOfAlternative,
      nodesOfAlternative]
  function span names body ihnames ihbody := by
    simp_all [Expression.canonicalWords, Expression.nodes]
  call span callee arguments ihcallee iharguments := by
    simp_all [Expression.canonicalWords, Expression.nodes]
  items values ih := by
    simp only [canonicalWords, nodes, canonicalWordsOfExpressions_eq_map, countP_separated,
      nodesOfExpressions_eq_flatMap, List.countP_flatten, List.countP_flatMap, List.map_map]
    exact congrArg List.sum (List.map_congr_left ih)
  property key value span ih := by
    simp_all [Property.canonicalWords, Property.nodes, List.countP_cons]
  properties entries ih := by
    simp only [canonicalWords, nodes, canonicalWordsOfProperties_eq_map, countP_separated,
      nodesOfProperties_eq_flatMap, List.countP_flatten, List.countP_flatMap, List.map_map]
    exact congrArg List.sum (List.map_congr_left ih)
  parameters names := countP_parameters names
  block row span ih := by simp_all [Block.canonicalWords, Block.nodes]
  bindingWithoutValue constant name span := by cases constant <;> rfl
  binding constant name value span ih := by
    cases constant <;>
      simp_all [Statement.canonicalWords, Statement.nodes, canonicalWordsOfValue, nodesOfValue,
        bindingKind]
  namedFunction name names body span ihnames ihbody := by
    simp_all [Statement.canonicalWords, Statement.nodes]
  returned value span ih := by simp_all [Statement.canonicalWords, Statement.nodes]
  expression value span ih := by simp_all [Statement.canonicalWords, Statement.nodes]
  bareBlock body ih := by simp_all [Statement.canonicalWords, Statement.nodes]
  statements row ih := by
    simp only [canonicalWords, nodes, canonicalWordsOfStatements_eq_map, List.countP_flatten,
      nodesOfStatements_eq_flatMap, List.countP_flatMap, List.map_map]
    exact congrArg List.sum (List.map_congr_left ih)

/-- There is one colon among the words for each property that is not a key alone.  So the number of
keys alone can be told from the words. -/
def Matched (words : List Word) (nodes : List Node) : Prop :=
  words.countP Word.isColon + nodes.countP Node.isShorthand = nodes.countP Node.isProperty

namespace Matched

variable {word : Word} {words words' : List Word} {node : Node} {nodes nodes' : List Node}

theorem nil : Matched [] [] := rfl

theorem append (hfirst : Matched words nodes) (hsecond : Matched words' nodes') :
    Matched (words ++ words') (nodes ++ nodes') := by
  simp only [Matched, List.countP_append] at hfirst hsecond ⊢
  omega

theorem cons_word (hword : word.isColon = false) (hmatched : Matched words nodes) :
    Matched (word :: words) nodes := by
  rw [Matched, List.countP_cons_of_neg (Bool.eq_false_iff.mp hword)]
  exact hmatched

theorem concat (hword : word.isColon = false) (hmatched : Matched words nodes) :
    Matched (words ++ [word]) nodes := by
  have hlast : Matched [word] [] := .cons_word hword .nil
  have hboth := hmatched.append hlast
  rwa [List.append_nil] at hboth

theorem cons_node (hnode : node.isProperty = false) (hmatched : Matched words nodes) :
    Matched words (node :: nodes) := by
  have hshort : node.isShorthand = false := by
    cases node with
    | property => cases hnode
    | _ => rfl
  rw [Matched, List.countP_cons_of_neg (Bool.eq_false_iff.mp hnode),
    List.countP_cons_of_neg (Bool.eq_false_iff.mp hshort)]
  exact hmatched

/-- A property that is written with its value has a colon after its key. -/
theorem written {entry : Property} (hwritten : entry.isShorthand = false)
    (hmatched : Matched words nodes) :
    Matched (entry.key.word :: Kind.colon.word :: words) (.property entry :: nodes) := by
  have hnode : ¬ (Node.property entry).isShorthand = true := Bool.eq_false_iff.mp hwritten
  refine cons_word rfl ?_
  rw [Matched] at hmatched ⊢
  rw [List.countP_cons_of_neg hnode, List.countP_cons_of_pos rfl, List.countP_cons_of_pos rfl]
  omega

/-- The value of a key alone is a name. -/
theorem shorthand {entry : Property} (hshort : entry.isShorthand = true) :
    Matched [entry.key.word] entry.nodes := by
  obtain ⟨key, value, span⟩ := entry
  cases value with
  | identifier place name =>
      have hnode : (Node.property ⟨key, .identifier place name, span⟩).isShorthand = true := hshort
      refine cons_word rfl ?_
      rw [Matched, Property.nodes, List.countP_cons_of_pos hnode, List.countP_cons_of_pos rfl]
      rfl
  | _ => cases hshort

end Matched

/-- A spelling has one colon for each property that is not a key alone.  Two spellings of the same
words have as many keys alone. -/
theorem Spells.matched {phrase : Phrase} {words : List Word} (hspells : Spells phrase words) :
    Matched words phrase.nodes := by
  induction hspells with
  | identifier | integer | string => exact .cons_node rfl (.cons_word rfl .nil)
  | @boolean _ value => exact .cons_node rfl (.cons_word (by cases value <;> rfl) .nil)
  | array _ ih | object _ ih => exact .cons_node rfl (.concat rfl (.cons_word rfl ih))
  | @unary _ operator _ _ _ ih => exact .cons_node rfl (.cons_word (by cases operator <;> rfl) ih)
  | @binary _ _ operator _ _ _ _ _ ihleft ihright =>
      exact .cons_node rfl (ihleft.append (.cons_word (by cases operator <;> rfl) ihright))
  | conditional _ _ ihcondition ihbody =>
      rw [Phrase.nodes, Expression.nodes, nodesOfAlternative, List.append_nil]
      exact .cons_node rfl
        ((Matched.cons_word rfl (.cons_word rfl ihcondition)).append (.cons_word rfl ihbody))
  | alternative _ _ _ ihcondition ihbody ihelse =>
      rw [Phrase.nodes, Expression.nodes, nodesOfAlternative, ← List.append_assoc]
      exact .cons_node rfl
        (((Matched.cons_word rfl (.cons_word rfl ihcondition)).append
          (.cons_word rfl ihbody)).append (.cons_word rfl ihelse))
  | function _ _ ihnames ihbody =>
      exact .cons_node rfl
        ((Matched.cons_word rfl (.cons_word rfl ihnames)).append (.cons_word rfl ihbody))
  | call _ _ ihcallee iharguments =>
      rw [Phrase.nodes, Expression.nodes]
      exact .cons_node rfl (.concat rfl (ihcallee.append (.cons_word rfl iharguments)))
  | noItems | noProperties | noParameters | noStatements => exact .nil
  | lastItem _ ih | lastProperty _ ih =>
      rw [← List.append_nil (Phrase.nodes _)] at ih
      exact ih
  | moreItems _ _ ihfirst ihitems => exact ihfirst.append (.cons_word rfl ihitems)
  | moreProperties _ _ ihentry ihentries => exact ihentry.append (.cons_word rfl ihentries)
  | lastParameter => exact .cons_word rfl .nil
  | moreParameters _ ih => exact .cons_word rfl (.cons_word rfl ih)
  | shorthand hshort => exact .shorthand hshort
  | @written entry _ hwritten _ ih =>
      obtain ⟨key, value, span⟩ := entry
      exact .written hwritten ih
  | block _ ih => exact .concat rfl (.cons_word rfl ih)
  | letWithoutValue => exact .cons_node rfl (.cons_word rfl (.cons_word rfl (.cons_word rfl .nil)))
  | @binding constant _ _ _ _ _ ih =>
      exact .cons_node rfl
        (.concat rfl (.cons_word (by cases constant <;> rfl) (.cons_word rfl (.cons_word rfl ih))))
  | namedFunction _ _ ihnames ihbody =>
      exact .cons_node rfl
        ((Matched.cons_word rfl (.cons_word rfl (.cons_word rfl ihnames))).append
          (.cons_word rfl ihbody))
  | returned _ ih => exact .cons_node rfl (.concat rfl (.cons_word rfl ih))
  | expression _ ih => exact .cons_node rfl (.concat rfl ih)
  | statement _ _ ihfirst ihrest => exact ihfirst.append ihrest
  | unclosed _ _ _ ihvalue ihrest => exact (Matched.cons_node rfl ihvalue).append ihrest

end Frontend
