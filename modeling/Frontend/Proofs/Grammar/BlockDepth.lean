import Frontend.Proofs.Grammar.Completeness
import Frontend.Proofs.Grammar.Image
import Frontend.Proofs.Tree.BlockDepth

/-!
# How deep the blocks of a text lie

The bound on open expressions bounds the blocks that expressions open, and no others.  The body of
a named function is read without opening an expression, so named functions may lie inside one
another to any depth, and the reader has as many of their bodies open at a time.
-/

namespace Frontend

namespace Grammar

/-- What is written with a blank after each word of its spelling is read back.  This makes a text
out of any tree that has a spelling. -/
theorem exists_text_of_spells {statements : List Statement} {words : List Word}
    (hformed : statementsWellFormed none statements)
    (hnesting : nestingOfStatements statements ≤ maxNesting)
    (hspells : Spells (.statements statements) words) :
    ∃ source, (readProgram source).diagnostics = [] ∧
      SameUpToSpans (readProgram source).program.statements statements := by
  refine ⟨String.ofList (glue (apart words)), readProgram_of_spells hformed hnesting ?_⟩
  rw [lex_apart (hspells.words_isComplete hformed)]
  exact hspells

end Grammar

/-- A function with another one as its body, and so on, down to one that has nothing to do.  No
expression is opened in any of them. -/
def functionsInside : Nat → Statement
  | 0 => .function ⟨"f", .empty 0⟩ [] ⟨[], .empty 0⟩ (.empty 0)
  | further + 1 =>
      .function ⟨"f", .empty 0⟩ [] ⟨[functionsInside further], .empty 0⟩ (.empty 0)

theorem functionsInside_spells (further : Nat) :
    ∃ words, Spells (.statement (functionsInside further)) words := by
  induction further with
  | zero => exact ⟨_, .namedFunction .noParameters (.block .noStatements)⟩
  | succ further ih =>
      obtain ⟨words, hwords⟩ := ih
      exact ⟨_, .namedFunction .noParameters (.block (.statement hwords .noStatements))⟩

theorem functionsInside_wellFormed (further : Nat) :
    (functionsInside further).WellFormed none := by
  have hname : IsName "f" := ⟨by decide, List.all_eq_true.mp rfl, by decide⟩
  induction further with
  | zero => exact ⟨hname, nofun, trivial⟩
  | succ further ih => exact ⟨hname, nofun, ih, trivial⟩

/-- Functions with a name open no expression, however many lie inside one another. -/
theorem functionsInside_nesting (further : Nat) : (functionsInside further).nesting = 0 := by
  induction further with
  | zero => rfl
  | succ further ih =>
      simp only [functionsInside, Statement.nesting, Block.nesting, nestingOfStatements, ih,
        Nat.max_self]

/-- Each function opens one more block. -/
theorem functionsInside_blockDepth (further : Nat) :
    (functionsInside further).blockDepth = further + 1 := by
  rw [Statement.blockDepth]
  induction further with
  | zero => rfl
  | succ further ih =>
      simp only [functionsInside, Statement.blockWeight, Block.blockWeight,
        blockWeightOfStatements, ih, Nat.max_zero]

/-- There are texts of such functions, however many, and nothing is said against them.  Each is the
body of the one around it. -/
theorem exists_text_of_functionsInside (further : Nat) :
    ∃ source, (readProgram source).diagnostics = [] ∧
      SameUpToSpans (readProgram source).program.statements [functionsInside further] := by
  obtain ⟨words, hwords⟩ := functionsInside_spells further
  have hnesting : nestingOfStatements [functionsInside further] ≤ maxNesting := by
    rw [nestingOfStatements, functionsInside_nesting]
    exact Nat.zero_le maxNesting
  exact Grammar.exists_text_of_spells ⟨functionsInside_wellFormed further, trivial⟩ hnesting
    (.statement hwords .noStatements)

/-- There is no bound on the blocks inside one another, not even where nothing is wrong. -/
theorem exists_text_of_blockDepth (bound : Nat) :
    ∃ source program, (∀ strict, parse source strict = .ok (program, [])) ∧
      ∃ read ∈ program.statements, bound < read.blockDepth := by
  obtain ⟨source, hquiet, hlike⟩ := exists_text_of_functionsInside bound
  have hparse : ∀ strict, parse source strict = .ok ((readProgram source).program, []) := by
    intro strict
    simp [parse, hquiet, messages, verdict, Except.map]
  obtain ⟨read, hread, hspans⟩ := List.map_eq_singleton_iff.mp hlike
  refine ⟨source, _, hparse, read, ?_, ?_⟩
  · rw [hread]
    exact List.mem_singleton_self read
  · have hdepth := congrArg Statement.blockDepth hspans
    rw [Statement.blockDepth_mapSpans, Statement.blockDepth_mapSpans,
      functionsInside_blockDepth] at hdepth
    rw [hdepth]
    exact Nat.lt_succ_self bound

/-- The statement is one of the program of the text, for which `parse` must return a program. -/
def Statement.IsReadFrom (source : String) (read : Statement) : Prop :=
  ∃ strict program errors,
    parse source strict = .ok (program, errors) ∧ read ∈ program.statements

/-- The bound on open expressions leaves out the bodies of named functions, and these only. -/
theorem Statement.IsReadFrom.blockDepth_le {source : String} {read : Statement}
    (hread : read.IsReadFrom source) : read.blockDepth ≤ maxNesting + read.bodyDepth := by
  obtain ⟨strict, program, errors, hparse, hmember⟩ := hread
  obtain ⟨rfl, -⟩ := parse_eq_ok hparse
  obtain ⟨-, hnesting⟩ := (Grammar.readProgram_derives source).inImage (Lexer.tokens_lexed _)
  have hlevels : read.nesting ≤ maxNesting := nestingOfStatements_le_iff.mp hnesting read hmember
  exact (Statement.blockDepth_le read).trans (Nat.add_le_add_right hlevels read.bodyDepth)

/-- Apart from the bodies of named functions, no more blocks lie inside one another than expressions
may be open at a time.  So there is a bound for some texts just if there is one on how many of these
bodies lie inside one another. -/
theorem parse_blockDepth (sources : Set String) :
    (∀ source ∈ sources, ∀ read : Statement, read.IsReadFrom source →
      read.blockDepth ≤ maxNesting + read.bodyDepth) ∧
    ((∃ bound, ∀ source ∈ sources, ∀ read : Statement, read.IsReadFrom source →
        read.blockDepth ≤ bound) ↔
      ∃ bound, ∀ source ∈ sources, ∀ read : Statement, read.IsReadFrom source →
        read.bodyDepth ≤ bound) := by
  refine ⟨fun _ _ _ hread => hread.blockDepth_le, ?_, ?_⟩
  · rintro ⟨bound, hbound⟩
    refine ⟨bound, fun source hsource read hread => ?_⟩
    exact read.bodyDepth_le.trans (hbound source hsource read hread)
  · rintro ⟨bound, hbound⟩
    refine ⟨maxNesting + bound, fun source hsource read hread => ?_⟩
    exact hread.blockDepth_le.trans
      (Nat.add_le_add_left (hbound source hsource read hread) maxNesting)

/-- There is no bound for all texts. -/
theorem blockDepth_unbounded :
    ¬ ∃ bound, ∀ source, ∀ read : Statement, read.IsReadFrom source →
      read.blockDepth ≤ bound := by
  rintro ⟨bound, hbound⟩
  obtain ⟨source, program, hparse, read, hmember, hdeep⟩ := exists_text_of_blockDepth bound
  have hread : read.IsReadFrom source := ⟨false, program, [], hparse false, hmember⟩
  exact Nat.not_lt.mpr (hbound source read hread) hdeep

end Frontend
