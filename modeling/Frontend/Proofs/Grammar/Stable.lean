import Frontend.Proofs.Grammar.BlockDepth
import Frontend.Proofs.Grammar.Rendering
import Frontend.Proofs.Grammar.Soundness
import Frontend.Proofs.Tree.CanonicalSpelling

/-!
# Canonical texts read back

The canonical text of a program without operators and open strings is read back as the program, if
its expressions do not nest too deeply there.  They nest as before but for the properties that were
a key alone: their values open an expression in the canonical text and none in the first one.
-/

namespace Frontend

/-- The canonical text of the program is read without a message, and as the same program, which has
the same canonical text again. -/
def Program.IsStable (program : Program) : Prop :=
  ∃ again, parse program.canonical false = .ok (again, []) ∧
    SameUpToSpans again.statements program.statements ∧ again.canonical = program.canonical

/-! ## Plain programs -/

theorem IsOpenString.not_closed {text : String} (hopen : IsOpenString text) :
    ¬ IsClosedString text := by
  obtain ⟨inner, htext, hinner⟩ := hopen
  rintro ⟨closed, hclosed, -⟩
  rw [htext, List.cons_append] at hclosed
  rw [(List.cons.inj hclosed).2] at hinner
  exact hinner (List.mem_append_right closed (List.mem_singleton_self _))

/-- An expression that ends with an open string is not plain. -/
theorem Expression.EndsWith.not_plain {text : String} {value : Expression}
    (hends : value.EndsWith text) (hopen : IsOpenString text) :
    ¬ (Node.expression value).IsPlain := by
  cases hends with
  | string => exact hopen.not_closed
  | unary => exact id
  | binary => exact id

/-- Every expression is one of its nodes. -/
theorem Expression.mem_nodes (value : Expression) : .expression value ∈ value.nodes := by
  cases value <;> exact List.mem_cons_self

theorem ClosedBeforeEnd.wellFormed {statements : List Statement}
    (hread : ClosedBeforeEnd statements)
    (hplain : ∀ node ∈ nodesOfStatements statements, node.IsPlain) :
    statementsWellFormed none statements := by
  cases hread with
  | closed hformed => exact hformed
  | @opened front value span text hfront hends hopen =>
      refine absurd (hplain (.expression value) ?_) (hends.not_plain hopen)
      rw [nodesOfStatements_eq_flatMap, List.mem_flatMap]
      exact ⟨.expression value span, List.mem_append_right front (List.mem_singleton_self _),
        List.mem_cons_of_mem _ value.mem_nodes⟩

/-! ## Reading the canonical text -/

section

variable {statements : List Statement}

theorem lex_canonicalLines (hformed : statementsWellFormed none statements) :
    (lex (canonicalLines statements)).dropLast.map Token.word =
      (canonicalWordsOfStatements statements).flatten := by
  rw [lex_wordsIn, wordsIn_closed hformed]

/-- What is written out as deep as may be is read back.  The values of keys alone count, since they
are written. -/
theorem readProgram_canonicalLines (hformed : statementsWellFormed none statements)
    (hplain : ∀ node ∈ nodesOfStatements statements, node.IsPlain)
    (hnesting : nestingOfStatements (writtenOutStatements statements) ≤ maxNesting) :
    (readProgram (canonicalLines statements)).diagnostics = [] ∧
      SameUpToSpans (readProgram (canonicalLines statements)).program.statements statements := by
  have hwritten : statementsWellFormed none (writtenOutStatements statements) :=
    Phrase.wellFormed_writtenOut_steps.all (.statements statements) hformed
  have hspells := spells_writtenOut hformed hplain
  rw [← lex_canonicalLines hformed] at hspells
  obtain ⟨hquiet, hsame⟩ := Grammar.readProgram_of_spells hwritten hnesting hspells
  exact ⟨hquiet, hsame.trans (sameUpToSpans_writtenOut statements)⟩

/-- What is read back from a canonical text has no key alone, so its nesting is the one with every
value written out. -/
theorem nesting_of_readProgram (hformed : statementsWellFormed none statements)
    (hquiet : (readProgram (canonicalLines statements)).diagnostics = [])
    (hsame : SameUpToSpans (readProgram (canonicalLines statements)).program.statements
      statements) :
    nestingOfStatements (writtenOutStatements statements) ≤ maxNesting := by
  have hderives := Grammar.readProgram_derives (canonicalLines statements)
  have hlexed := Lexer.tokens_lexed (Lexer.ofText (canonicalLines statements))
  generalize (readProgram (canonicalLines statements)).program.statements = again at *
  have hspells : Spells (.statements again) (canonicalWordsOfStatements statements).flatten := by
    rw [← lex_canonicalLines hformed, lex_dropLast]
    exact hderives.spells hquiet hlexed
  have hproperties : (nodesOfStatements again).countP Node.isProperty =
      (nodesOfStatements statements).countP Node.isProperty := by
    have hcount (nodes : List Node) :
        (nodes.map (Node.mapSpans nowhere)).countP Node.isProperty =
          nodes.countP Node.isProperty := by
      rw [List.countP_map]
      exact List.countP_congr fun node _ => by cases node <;> rfl
    rw [← hcount, nodes_of_same hsame, hcount]
  -- there are as many colons as properties, and none after a key alone
  have hshort : ∀ node ∈ nodesOfStatements again, node.isShorthand = false := by
    have hcolons := hspells.matched
    have hcanonical := Phrase.colons_steps.all (.statements statements)
    rw [Phrase.canonicalWords] at hcanonical
    rw [Matched, hcanonical, Phrase.nodes, Phrase.nodes, hproperties] at hcolons
    have hnone := List.countP_eq_zero.mp (Nat.add_eq_left.mp hcolons)
    exact fun node hnode => Bool.eq_false_iff.mpr (hnone node hnode)
  have hnesting := Phrase.nesting_writtenOut_steps.all (.statements again) hshort
  rw [Phrase.writtenOut, Phrase.nesting, Phrase.nesting, writtenOut_of_same hsame] at hnesting
  rw [hnesting]
  exact (hderives.inImage hlexed).2

end

/-- A program without operators and open strings is read back from its canonical text just if its
expressions may nest as they do with every property written out. -/
theorem parse_canonical_stable {source : String} {strict : Bool} {program : Program}
    (hparse : parse source strict = .ok (program, []))
    (hplain : ∀ node ∈ nodesOfStatements program.statements, node.IsPlain) :
    program.IsStable ↔
      nestingOfStatements (writtenOutStatements program.statements) ≤ maxNesting := by
  obtain ⟨rfl, -⟩ := parse_eq_ok hparse
  have hformed := (readProgram_closedBeforeEnd source).wellFormed hplain
  constructor
  · rintro ⟨again, hagain, hsame, -⟩
    obtain ⟨rfl, herrors⟩ := parse_eq_ok hagain
    exact nesting_of_readProgram hformed (List.map_eq_nil_iff.mp herrors.symm) hsame
  · intro hnesting
    obtain ⟨hquiet, hsame⟩ := readProgram_canonicalLines hformed hplain hnesting
    exact ⟨_, parse_of_diagnostics hquiet, hsame, Program.canonical_of_same hsame⟩

/-- An array of an object with a key alone and a string. -/
def keyAndString : Program where
  statements :=
    [.expression
      (.array ⟨0, 10⟩
        [.object ⟨1, 4⟩ [⟨⟨"a", ⟨2, 3⟩⟩, .identifier ⟨2, 3⟩ ⟨"a", ⟨2, 3⟩⟩, ⟨2, 3⟩⟩],
          .string ⟨6, 9⟩ "\"s\""])
      ⟨0, 10⟩]
  span := ⟨0, 10⟩

/-- The semicolon that is added and the value that is written out make no difference. -/
theorem parse_canonical_stable_keyAndString :
    parse "[{a}, \"s\"]" false = .ok (keyAndString, []) ∧
      (∀ node ∈ nodesOfStatements keyAndString.statements, node.IsPlain) ∧
      keyAndString.canonical = "[{a: a}, \"s\"];\n" ∧ keyAndString.IsStable := by
  have hparse : parse "[{a}, \"s\"]" false = .ok (keyAndString, []) := by with_unfolding_all rfl
  have hplain : ∀ node ∈ nodesOfStatements keyAndString.statements, node.IsPlain := by
    have hclosed : IsClosedString "\"s\"" := ⟨['s'], rfl, by decide⟩
    simp [keyAndString, nodesOfStatements, Statement.nodes, Expression.nodes, nodesOfExpressions,
      nodesOfProperties, Property.nodes, Node.IsPlain, hclosed]
  have hnesting : nestingOfStatements (writtenOutStatements keyAndString.statements) ≤
      maxNesting := by decide
  exact ⟨hparse, hplain, by decide, (parse_canonical_stable hparse hplain).mpr hnesting⟩

/-! ## A key alone at the bound -/

/-- An object with a key alone inside arrays.  Read, it takes one level for each array; with its
value written out it would take one more. -/
def keyInside : Nat → Expression
  | 0 => .object (.empty 0) [⟨⟨"a", .empty 0⟩, .identifier (.empty 0) ⟨"a", .empty 0⟩, .empty 0⟩]
  | further + 1 => .array (.empty 0) [keyInside further]

theorem keyInside_spells (further : Nat) :
    ∃ words, Spells (.expression (keyInside further)) words := by
  induction further with
  | zero => exact ⟨_, .object (.lastProperty (.shorthand rfl))⟩
  | succ further ih =>
      obtain ⟨words, hwords⟩ := ih
      exact ⟨_, .array (.lastItem hwords)⟩

theorem keyInside_wellFormed (further : Nat) : (keyInside further).WellFormed none := by
  have hname : IsName "a" := ⟨by decide, List.all_eq_true.mp rfl, by decide⟩
  induction further with
  | zero => exact ⟨⟨hname, hname⟩, trivial⟩
  | succ further ih => exact ⟨ih, trivial⟩

theorem keyInside_nesting (further : Nat) : (keyInside further).nesting = further + 1 := by
  induction further with
  | zero => rfl
  | succ further ih =>
      rw [keyInside, Expression.nesting, nestingOfExpressions, nestingOfExpressions, ih,
        Nat.max_zero]

/-- With its value written out the key opens an expression. -/
theorem keyInside_writtenOut_nesting (further : Nat) :
    (keyInside further).writtenOut.nesting = further + 2 := by
  induction further with
  | zero => rfl
  | succ further ih =>
      rw [keyInside, Expression.writtenOut, writtenOutExpressions, writtenOutExpressions,
        Expression.nesting, nestingOfExpressions, nestingOfExpressions, ih, Nat.max_zero]

theorem keyInside_plain (further : Nat) : ∀ node ∈ (keyInside further).nodes, node.IsPlain := by
  induction further with
  | zero => simp [keyInside, Expression.nodes, nodesOfProperties, Property.nodes, Node.IsPlain]
  | succ further ih =>
      simp only [keyInside, Expression.nodes, nodesOfExpressions, List.append_nil,
        List.forall_mem_cons]
      exact ⟨trivial, ih⟩

theorem Node.isPlain_mapSpans (f : Span → Span) (node : Node) :
    (node.mapSpans f).IsPlain ↔ node.IsPlain := by
  cases node with
  | expression value => cases value <;> exact Iff.rfl
  | _ => exact Iff.rfl

/-- Spans do not make a program plain. -/
theorem plain_of_same {statements statements' : List Statement}
    (hsame : SameUpToSpans statements statements')
    (hplain : ∀ node ∈ nodesOfStatements statements', node.IsPlain) :
    ∀ node ∈ nodesOfStatements statements, node.IsPlain := by
  intro node hnode
  have hmapped := List.mem_map_of_mem (f := Node.mapSpans nowhere) hnode
  rw [nodes_of_same hsame] at hmapped
  obtain ⟨other, hother, hnodes⟩ := List.mem_map.mp hmapped
  rw [← Node.isPlain_mapSpans nowhere, ← hnodes, Node.isPlain_mapSpans]
  exact hplain other hother

/-- A key alone may stand as deep as any expression, where its value cannot be written out. -/
theorem exists_plain_not_stable :
    ∃ source program, parse source false = .ok (program, []) ∧
      (∀ node ∈ nodesOfStatements program.statements, node.IsPlain) ∧ ¬ program.IsStable := by
  obtain ⟨words, hwords⟩ := keyInside_spells (maxNesting - 1)
  have hformed : statementsWellFormed none [.expression (keyInside (maxNesting - 1)) (.empty 0)] :=
    ⟨⟨rfl, keyInside_wellFormed _⟩, trivial⟩
  have hnesting : nestingOfStatements [.expression (keyInside (maxNesting - 1)) (.empty 0)] ≤
      maxNesting := by
    rw [nestingOfStatements, Statement.nesting, keyInside_nesting]
    decide
  obtain ⟨source, hquiet, hsame⟩ :=
    Grammar.exists_text_of_spells hformed hnesting (.statement (.expression hwords) .noStatements)
  have hplain : ∀ node ∈ nodesOfStatements (readProgram source).program.statements,
      node.IsPlain := by
    refine plain_of_same hsame ?_
    simp only [nodesOfStatements, Statement.nodes, List.append_nil, List.forall_mem_cons]
    exact ⟨trivial, keyInside_plain _⟩
  refine ⟨source, (readProgram source).program, parse_of_diagnostics hquiet, hplain, ?_⟩
  rintro ⟨again, hagain, hagainSame, -⟩
  obtain ⟨rfl, herrors⟩ := parse_eq_ok hagain
  have hdeep := nesting_of_readProgram ((readProgram_closedBeforeEnd source).wellFormed hplain)
    (List.map_eq_nil_iff.mp herrors.symm) hagainSame
  rw [writtenOut_of_same hsame, writtenOutStatements, writtenOutStatements, Statement.writtenOut,
    nestingOfStatements, nestingOfStatements, Statement.nesting,
    keyInside_writtenOut_nesting] at hdeep
  revert hdeep
  decide

end Frontend
