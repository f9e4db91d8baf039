import Frontend.Proofs.Grammar.Adequacy
import Frontend.Proofs.Tree.Blocks
import Mathlib.Data.List.Basic

/-!
# No text is lost silently

Statements that are given up leave tokens behind that belong to no statement of the tree.  Wherever
such tokens stand together, between the statements of a program or of a block, a diagnostic shows
at one of them or at the token after them.  In a program without diagnostics every token is part of
a statement.

The reason is local.  What is skipped in one go ends in a diagnostic, and each statement covers the
tokens it was read from and no others; so the last of some lost tokens is also the last of a skip.
-/

namespace Frontend

/-- The token lies in the span. -/
def Token.Inside (token : Token) (span : Span) : Prop :=
  span.start ≤ token.span.start ∧ token.span.stop ≤ span.stop

/-- The token lies in none of the statements.  A reader looks for it in vain in the tree. -/
def Token.Lost (token : Token) (statements : List Statement) : Prop :=
  ∀ statement ∈ statements, ¬ token.Inside statement.span

/-- Tokens one after another that are all lost, and no more of them on either side.  A run is as
long as it can be, so that different runs do not share a diagnostic. -/
structure LostRun (statements : List Statement) (before run after : List Token) : Prop where
  ne_nil : run ≠ []
  lost : ∀ token ∈ run, token.Lost statements
  kept_before : ∀ token ∈ before.getLast?, ¬ token.Lost statements
  kept_after : ∀ token ∈ after.head?, ¬ token.Lost statements

/-- Of the tokens before `next`, none is missing from the statements without a diagnostic in the run
that it is lost with or at the token after this run. -/
structure Accounted (tokens : List Token) (next : Token) (statements : List Statement)
    (diagnostics : List Diagnostic) : Prop where
  shown : ∀ before run after, tokens = before ++ run ++ after →
    LostRun statements before run after →
      ∃ token ∈ run ++ [after.headD next], Grammar.ShowsAt diagnostics token
  kept : diagnostics = [] → ∀ token ∈ tokens, ∃ statement ∈ statements,
    token.Inside statement.span

/-- More diagnostics account for as much. -/
theorem Accounted.mono {tokens : List Token} {next : Token} {statements : List Statement}
    {few many : List Diagnostic} (haccounted : Accounted tokens next statements few)
    (hsubset : few ⊆ many) : Accounted tokens next statements many where
  shown before run after hsplit hrun := by
    obtain ⟨token, hmember, hshows⟩ := haccounted.shown before run after hsplit hrun
    exact ⟨token, hmember, hshows.mono hsubset⟩
  kept hquiet := haccounted.kept (List.subset_nil.mp (hquiet ▸ hsubset))

namespace Grammar

/-- A token of two lists in a row is in the first or in the second one. -/
theorem append_eq_append_cons {α : Type} {front back before after : List α} {a : α}
    (hsplit : front ++ back = before ++ a :: after) :
    (∃ middle, before = front ++ middle ∧ back = middle ++ a :: after) ∨
      ∃ middle, front = before ++ a :: middle ∧ after = middle ++ back := by
  rcases List.append_eq_append_iff.mp hsplit with hlater | ⟨middle, rfl, hfront⟩
  · exact .inl hlater
  · rcases List.cons_eq_append_iff.mp hfront with ⟨rfl, rfl⟩ | ⟨rest, rfl, rfl⟩
    · exact .inl ⟨[], by simp, rfl⟩
    · exact .inr ⟨rest, rfl, rfl⟩

/-! ## Spans over tokens in order -/

section Spans

variable {tokens front back : List Token} {token : Token}

theorem inside_spanOver (horder : InOrder tokens) (hmember : token ∈ tokens) :
    token.Inside (spanOver tokens) := by
  have hsome := List.ne_nil_of_mem hmember
  constructor
  · obtain ⟨first, rest, rfl⟩ := List.exists_cons_of_ne_nil hsome
    obtain ⟨hfirst, hlater, -⟩ := InOrder.cons_iff.mp horder
    rcases List.mem_cons.mp hmember with rfl | hmember
    · exact Nat.le_refl _
    · have hafter := hlater token hmember
      exact Nat.le_trans (Nat.le_of_lt hfirst) hafter
  · obtain ⟨rest, last, rfl⟩ := (List.eq_nil_or_concat' tokens).resolve_left hsome
    rw [spanOver_stop List.getLast?_concat]
    rcases List.mem_append.mp hmember with hmember | hmember
    · have hlast := horder.right.nonempty last List.mem_cons_self
      have hbefore := horder.stop_le_start hmember List.mem_cons_self
      exact Nat.le_trans hbefore (Nat.le_of_lt hlast)
    · obtain rfl := List.mem_singleton.mp hmember
      exact Nat.le_refl _

theorem not_inside_spanOver (horder : InOrder (front ++ back)) (hsome : front ≠ [])
    (hmember : token ∈ back) : ¬ token.Inside (spanOver front) := by
  obtain ⟨rest, last, rfl⟩ := (List.eq_nil_or_concat' front).resolve_left hsome
  rintro ⟨-, hstop⟩
  rw [spanOver_stop List.getLast?_concat] at hstop
  have hafter := horder.stop_le_start (List.mem_append_right rest List.mem_cons_self) hmember
  have hlength := horder.right.nonempty token hmember
  omega

end Spans

/-! ## Statements in a row -/

namespace Row

variable {levels : Nat} {statements : List Statement} {tokens : List Token} {next : Token}
variable {diagnostics : List Diagnostic}

/-- Each statement starts with a token. -/
theorem statement_start (hrow : Row levels next statements tokens diagnostics) :
    ∀ statement ∈ statements, ∃ token ∈ tokens, statement.span.start = token.span.start := by
  induction hrow with
  | none => simp
  | @read first statements front tokens _ _ hfirst _ ih =>
      intro statement hmember
      rcases List.mem_cons.mp hmember with rfl | hmember
      · obtain ⟨hsome, hspan⟩ := hfirst.statement_span
        obtain ⟨token, rest, rfl⟩ := List.exists_cons_of_ne_nil hsome
        exact ⟨token, by simp, by rw [hspan, spanOver]⟩
      · obtain ⟨token, htoken, hstart⟩ := ih statement hmember
        exact ⟨token, List.mem_append_right front htoken, hstart⟩
  | @skipped statements front tokens _ _ _ _ ih =>
      intro statement hmember
      obtain ⟨token, htoken, hstart⟩ := ih statement hmember
      exact ⟨token, List.mem_append_right front htoken, hstart⟩

/-- Tokens before a row are in none of its statements. -/
theorem lost_of_mem_front {front : List Token} {token : Token}
    (hrow : Row levels next statements tokens diagnostics) (horder : InOrder (front ++ tokens))
    (hmember : token ∈ front) : token.Lost statements := by
  intro statement hstatement
  rintro ⟨hinside, -⟩
  obtain ⟨first, hfirst, hstart⟩ := hrow.statement_start statement hstatement
  have hbefore := horder.stop_le_start hmember hfirst
  have hlength := horder.left.nonempty token hmember
  omega

/-- The last of some lost tokens, or the token after it, has a diagnostic.  These tokens were given
up one statement after another. -/
theorem shown_at_last {before after : List Token} {token : Token}
    (hrow : Row levels next statements tokens diagnostics) (horder : InOrder tokens)
    (hsplit : tokens = before ++ token :: after) (hlost : token.Lost statements)
    (hkept : ∀ later ∈ after.head?, ¬ later.Lost statements) :
    ShowsAt diagnostics token ∨ ShowsAt diagnostics (after.headD next) := by
  induction hrow generalizing before with
  | none => simp at hsplit
  | @read first statements front tokens _ _ hfirst hrest ih =>
      obtain ⟨hsome, hspan⟩ := hfirst.statement_span
      rcases append_eq_append_cons hsplit with ⟨middle, -, hlater⟩ | ⟨middle, rfl, -⟩
      · have hshown := ih horder.right hlater
          (fun statement hmember => hlost statement (List.mem_cons_of_mem first hmember)) ?_
        · exact hshown.imp (ShowsAt.mono (List.subset_append_right _ _))
            (ShowsAt.mono (List.subset_append_right _ _))
        · intro later hhead hlaterLost
          apply hkept later hhead
          intro statement hmember
          rcases List.mem_cons.mp hmember with rfl | hmember
          · rw [hspan]
            apply not_inside_spanOver horder hsome
            rw [hlater]
            exact List.mem_append_right _ (List.mem_cons_of_mem _ (List.mem_of_mem_head? hhead))
          · exact hlaterLost statement hmember
      · -- A token of the statement is not lost.
        have hinside := inside_spanOver horder.left
          (List.mem_append_right before List.mem_cons_self)
        rw [← hspan] at hinside
        exact absurd hinside (hlost first List.mem_cons_self)
  | @skipped statements front tokens _ _ hskip hrest ih =>
      obtain ⟨skipped, last, rfl, hshown⟩ := hskip
      rcases append_eq_append_cons hsplit with ⟨middle, -, hlater⟩ | ⟨middle, hfront, rfl⟩
      · have hshown := ih horder.right hlater hlost hkept
        exact hshown.imp (ShowsAt.mono (List.subset_append_right _ _))
          (ShowsAt.mono (List.subset_append_right _ _))
      · cases middle with
        | nil =>
            obtain rfl := List.singleton_inj.mp (List.append_inj' hfront rfl).2
            exact hshown.imp (ShowsAt.mono (List.subset_append_left _ _))
              (ShowsAt.mono (List.subset_append_left _ _))
        | cons later middle =>
            -- The lost tokens go on inside the skip.
            have hmember : later ∈ skipped ++ [last] := by simp [hfront]
            exact absurd (lost_of_mem_front hrest horder hmember) (hkept later rfl)

/-- Without a diagnostic, nothing has been skipped, so each token is in a statement. -/
theorem kept (hrow : Row levels next statements tokens diagnostics) (horder : InOrder tokens)
    (hquiet : diagnostics = []) :
    ∀ token ∈ tokens, ∃ statement ∈ statements, token.Inside statement.span := by
  induction hrow with
  | none => simp
  | @read first statements front tokens _ _ hfirst hrest ih =>
      obtain ⟨-, hquietRest⟩ := List.append_eq_nil_iff.mp hquiet
      intro token hmember
      rcases List.mem_append.mp hmember with hmember | hmember
      · refine ⟨first, List.mem_cons_self, ?_⟩
        rw [hfirst.statement_span.2]
        exact inside_spanOver horder.left hmember
      · obtain ⟨statement, hstatement, hinside⟩ := ih horder.right hquietRest token hmember
        exact ⟨statement, List.mem_cons_of_mem first hstatement, hinside⟩
  | skipped hskip hrest ih =>
      obtain ⟨hquietSkip, -⟩ := List.append_eq_nil_iff.mp hquiet
      exact absurd hquietSkip hskip.ne_nil

theorem accounted (hrow : Row levels next statements tokens diagnostics)
    (horder : InOrder tokens) : Accounted tokens next statements diagnostics where
  shown before run after hsplit hrun := by
    obtain ⟨front, last, rfl⟩ := (List.eq_nil_or_concat' run).resolve_left hrun.ne_nil
    have hlast : last.Lost statements := hrun.lost last (by simp)
    rw [List.append_assoc, List.append_assoc, List.singleton_append, ← List.append_assoc] at hsplit
    rcases hrow.shown_at_last horder hsplit hlast hrun.kept_after with hshown | hshown
    · exact ⟨last, by simp, hshown⟩
    · exact ⟨after.headD next, by simp, hshown⟩
  kept := hrow.kept horder

end Row

/-! ## Blocks -/

/-- All blocks of a part, those inside other blocks included. -/
def Part.blocks : Part → List Block
  | .operand _ _ value | .expression _ _ value => value.blocks
  | .items _ values => blocksOfExpressions values
  | .property _ entry => entry.blocks
  | .properties _ entries => blocksOfProperties entries
  | .parameters _ => []
  | .block _ body => body.blocks
  | .statement _ read => read.blocks
  | .statements _ read => blocksOfStatements read

/-- The block is derived from some of the tokens with some of the diagnostics.  Thus it is read like
a program of its own. -/
def Holds (tokens : List Token) (diagnostics : List Diagnostic) (block : Block) : Prop :=
  ∃ levels inner next found, inner <:+: tokens ∧ found ⊆ diagnostics ∧
    Derives (.block levels block) inner next found

section Holds

variable {tokens more : List Token} {few many : List Diagnostic} {left right blocks : List Block}

theorem holds_append (hleft : ∀ block ∈ left, Holds tokens few block)
    (hright : ∀ block ∈ right, Holds tokens few block) :
    ∀ block ∈ left ++ right, Holds tokens few block :=
  List.forall_mem_append.mpr ⟨hleft, hright⟩

theorem holds_within (hall : ∀ block ∈ blocks, Holds tokens few block) (htokens : tokens <:+: more)
    (hdiagnostics : few ⊆ many) : ∀ block ∈ blocks, Holds more many block := by
  intro block hmember
  obtain ⟨levels, inner, next, found, hinner, hfound, hderives⟩ := hall block hmember
  exact ⟨levels, inner, next, found, hinner.trans htokens, List.Subset.trans hfound hdiagnostics,
    hderives⟩

/-- Blocks on both sides of a token. -/
theorem holds_separated {separator : Token} (hleft : ∀ block ∈ left, Holds tokens few block)
    (hright : ∀ block ∈ right, Holds more many block) :
    ∀ block ∈ left ++ right, Holds (tokens ++ separator :: more) (few ++ many) block := by
  apply holds_append
  · exact holds_within hleft ⟨[], separator :: more, rfl⟩ (List.subset_append_left _ _)
  · exact holds_within hright ⟨tokens ++ [separator], [], by simp⟩ (List.subset_append_right _ _)

/-- Blocks of what stands in parentheses after a keyword, and of the body after it. -/
theorem holds_headed {keyword opener closer : Token}
    (hleft : ∀ block ∈ left, Holds tokens few block)
    (hright : ∀ block ∈ right, Holds more many block) :
    ∀ block ∈ left ++ right,
      Holds (keyword :: opener :: tokens ++ closer :: more) (few ++ many) block :=
  holds_separated (holds_within hleft ⟨[keyword, opener], [], by simp⟩ (List.Subset.refl _)) hright

end Holds

/-- Every block of a part is derived like the part itself, from some of the same tokens and with
some of the same diagnostics. -/
theorem Derives.holds {part : Part} {tokens : List Token} {next : Token}
    {diagnostics : List Diagnostic} (hderives : Derives part tokens next diagnostics) :
    ∀ block ∈ part.blocks, Holds tokens diagnostics block := by
  induction hderives with
  | name | integer | string | boolean | noItems | shorthand | noProperties | noParameters
  | lastParameter | moreParameters | letWithoutValue | noStatements =>
      intro block hmember
      cases hmember
  | expression _ _ ih | unclosed _ _ _ ih => exact ih
  | lastItem _ ih | lastProperty _ ih =>
      apply holds_append
      · exact ih
      · intro block hmember
        cases hmember
  | @unary _ _ _ _ sign _ _ _ _ _ ih =>
      exact holds_within ih ⟨[sign], [], by simp⟩ (List.Subset.refl _)
  | @array _ _ _ opener _ closer _ _ _ _ _ ih =>
      exact holds_within ih ⟨[opener], [closer], rfl⟩ (List.Subset.refl _)
  | @object _ _ _ opener _ closer _ _ _ _ _ ih =>
      exact holds_within ih ⟨[opener], [closer], rfl⟩ (List.Subset.refl _)
  | conditional _ _ _ _ _ ihcondition ihbody =>
      rw [Part.blocks, Expression.blocks, blocksOfAlternative, List.append_nil]
      exact holds_headed ihcondition ihbody
  | alternative _ _ _ _ _ _ _ ihcondition ihbody ihother =>
      rw [Part.blocks, Expression.blocks, blocksOfAlternative, ← List.append_assoc]
      exact holds_separated (holds_headed ihcondition ihbody) ihother
  | @function _ _ _ _ keyword opener tokens closer _ _ _ _ _ _ _ _ _ ihbody =>
      exact holds_within ihbody ⟨keyword :: opener :: tokens ++ [closer], [], by simp⟩
        (List.Subset.refl _)
  | @call _ _ _ _ _ _ _ closer _ _ _ _ _ _ _ _ ihcallee iharguments =>
      exact holds_within (holds_separated ihcallee iharguments) ⟨[], [closer], rfl⟩
        (List.Subset.refl _)
  | binary _ _ _ _ ihleft ihright => exact holds_separated ihleft ihright
  | moreItems _ _ _ ihfirst ihitems => exact holds_separated ihfirst ihitems
  | @written _ _ key colon tokens _ _ _ _ _ ih =>
      exact holds_within ih ⟨[key, colon], [], by simp⟩ (List.Subset.refl _)
  | moreProperties _ _ _ ihentry ihentries => exact holds_separated ihentry ihentries
  | @block levels _ opener tokens closer next diagnostics hopener hstatements hcloser ih =>
      intro block hmember
      rcases List.mem_cons.mp hmember with rfl | hmember
      · exact ⟨levels, _, next, diagnostics, List.infix_rfl, List.Subset.refl _,
          .block hopener hstatements hcloser⟩
      · exact holds_within ih ⟨[opener], [closer], rfl⟩ (List.Subset.refl _) block hmember
  | @binding _ _ _ keyword name sign _ closer _ _ _ _ _ _ _ ih =>
      exact holds_within ih ⟨[keyword, name, sign], [closer], rfl⟩ (List.Subset.refl _)
  | @namedFunction _ _ _ keyword name opener tokens closer _ _ _ _ _ _ _ _ _ _ ihbody =>
      exact holds_within ihbody
        ⟨keyword :: name :: opener :: tokens ++ [closer], [], by simp⟩ (List.Subset.refl _)
  | @returned _ _ keyword _ closer _ _ _ _ _ ih =>
      exact holds_within ih ⟨[keyword], [closer], rfl⟩ (List.Subset.refl _)
  | @closed _ _ tokens closer _ _ _ _ _ ih =>
      exact holds_within ih ⟨[], [closer], rfl⟩ (List.Subset.refl _)
  | @read _ _ _ front tokens _ _ _ _ _ ihfirst ihstatements =>
      apply holds_append
      · exact holds_within ihfirst ⟨[], tokens, rfl⟩ (List.subset_append_left _ _)
      · exact holds_within ihstatements ⟨front, [], by simp⟩
          (List.subset_append_right _ _)
  | @skipped _ _ front tokens _ _ _ _ _ ih =>
      exact holds_within ih ⟨front, [], by simp⟩ (List.subset_append_right _ _)

/-- The tokens between the braces of a block are accounted for, in the same way as those of a
text. -/
theorem Holds.accounted {tokens : List Token} {diagnostics : List Diagnostic} {block : Block}
    (hholds : Holds tokens diagnostics block) (horder : InOrder tokens) :
    ∃ before opener inner closer after,
      tokens = before ++ (opener :: inner ++ [closer]) ++ after ∧
        opener.kind = .lBrace ∧ closer.kind = .rBrace ∧
        block.span = ⟨opener.span.start, closer.span.stop⟩ ∧
        Accounted inner closer block.statements diagnostics := by
  obtain ⟨levels, inner, next, found, ⟨before, after, rfl⟩, hfound, hderives⟩ := hholds
  cases hderives with
  | @block _ statements opener inner closer _ _ hopener hstatements hcloser =>
      have hinner : InOrder inner := (InOrder.cons_iff.mp horder.left.right.left).2.2
      refine ⟨before, opener, inner, closer, after, rfl, hopener, hcloser, ?_, ?_⟩
      · exact spanOver_eq rfl (List.getLast?_concat (l := opener :: inner))
      · exact (hstatements.row.accounted hinner).mono hfound

end Grammar

/-- Lost tokens of a text are accounted for between the statements of the program and between
those of every block in it. -/
theorem readProgram_accounted (source : String) :
    Accounted (lex source).dropLast (.atEnd (Lexer.ofText source).stop)
        (readProgram source).program.statements (readProgram source).diagnostics ∧
      ∀ block ∈ blocksOfStatements (readProgram source).program.statements,
        ∃ before opener inner closer after,
          (lex source).dropLast = before ++ (opener :: inner ++ [closer]) ++ after ∧
            opener.kind = .lBrace ∧ closer.kind = .rBrace ∧
            block.span = ⟨opener.span.start, closer.span.stop⟩ ∧
            Accounted inner closer block.statements (readProgram source).diagnostics := by
  have hderives := Grammar.readProgram_derives source
  have horder := Lexer.tokens_inOrder (Lexer.ofText source)
  rw [lex_dropLast]
  constructor
  · exact hderives.row.accounted horder
  · intro block hmember
    exact (hderives.holds block hmember).accounted horder

end Frontend
