import Frontend.Proofs.Grammar.Locality

/-!
# What diagnostics quote

The wording of a problem is fixed but for the texts that it quotes from the program.  Whatever the
readers come across and however they go on after a fault, what they quote are names and integers
that stand from their cursor on, never strings or illegal characters.

So a property of all names and integers of a text is one of everything that is quoted from it.
There is a theorem for each reader, and they call one another as the readers do.
-/

namespace Frontend

/-- The texts of the program that stand in the wording of an expectation. -/
def Expectation.quoted : Expectation → List String
  | boundValue _ name | boundEnd name | functionParameters name | functionBody name => [name]
  | propertyColon key => [key]
  | _ => []

/-- The texts of the program that stand in the wording of a problem.  A problem in words of its own
quotes all of them. -/
def Problem.quoted : Problem → List String
  | missing what _ => what.quoted
  | constantWithoutValue name => [name]
  | integerTooLarge digits => [digits]
  | stated text => [text]
  | _ => []

/-- Everything that a problem quotes may be quoted. -/
def Problem.QuotesOnly (quotable : String → Prop) (problem : Problem) : Prop :=
  ∀ text ∈ problem.quoted, quotable text

variable {quotable : String → Prop}

namespace Cursor

/-- Each name and each integer from the cursor on may be quoted. -/
def Offers (quotable : String → Prop) (cursor : Cursor) : Prop :=
  ∀ token ∈ cursor.pending, token.kind = .ident ∨ token.kind = .int → quotable token.literal

namespace Offers

variable {cursor : Cursor}

theorem advance (hoffers : cursor.Offers quotable) : cursor.advance.Offers quotable :=
  fun token hmember => hoffers token (List.mem_of_mem_tail hmember)

theorem current (hoffers : cursor.Offers quotable)
    (hkind : cursor.current.kind = .ident ∨ cursor.current.kind = .int) :
    quotable cursor.current.literal := by
  obtain ⟨_ | ⟨token, tokens⟩, stop⟩ := cursor
  · -- The end token is neither a name nor an integer.
    rcases hkind with hkind | hkind <;> cases hkind
  · exact hoffers token List.mem_cons_self hkind

theorem name (hoffers : cursor.Offers quotable) (hkind : cursor.current.kind = .ident) :
    quotable cursor.identifier.name :=
  hoffers.current (.inl hkind)

end Offers

end Cursor

namespace Outcome

variable {α β : Type} {cursor : Cursor}

/-- Everything that is quoted on the way may be quoted, and so may the names and integers that are
left.  Only these come from the text; all other words of a message are fixed. -/
structure QuotesOnly (quotable : String → Prop) (outcome : Outcome cursor α) : Prop where
  quoted : ∀ diagnostic ∈ outcome.diagnostics, diagnostic.problem.QuotesOnly quotable
  offers : outcome.stop.Offers quotable

namespace QuotesOnly

theorem done {value : α} (hoffers : cursor.Offers quotable) :
    (Outcome.done cursor value).QuotesOnly quotable :=
  ⟨List.forall_mem_nil _, hoffers⟩

theorem fault {problem : Problem} {span : Span} (hoffers : cursor.Offers quotable)
    (hproblem : problem.QuotesOnly quotable) :
    (Outcome.fault cursor problem span : Outcome cursor α).QuotesOnly quotable :=
  ⟨List.forall_mem_singleton.mpr hproblem, hoffers⟩

/-- A problem that quotes nothing. -/
theorem plain {problem : Problem} {span : Span} (hoffers : cursor.Offers quotable)
    (hproblem : problem.quoted = []) :
    (Outcome.fault cursor problem span : Outcome cursor α).QuotesOnly quotable := by
  refine fault hoffers ?_
  rw [Problem.QuotesOnly, hproblem]
  exact List.forall_mem_nil _

theorem afterAdvance {outcome : Outcome cursor.advance α} (hquotes : outcome.QuotesOnly quotable) :
    (Outcome.afterAdvance outcome).QuotesOnly quotable :=
  ⟨hquotes.quoted, hquotes.offers⟩

theorem asStatement {outcome : Outcome cursor α} (hquotes : outcome.QuotesOnly quotable) :
    outcome.asStatement.QuotesOnly quotable :=
  ⟨hquotes.quoted, hquotes.offers⟩

theorem orNote {outcome : Outcome cursor α} (hquotes : outcome.QuotesOnly quotable) :
    (outcome.orNote .returnWithoutValue).QuotesOnly quotable := by
  cases hvalue : outcome.value with
  | some value => rwa [orNote_of_value hvalue]
  | none =>
      rw [orNote_of_fault hvalue]
      exact ⟨List.forall_mem_append.mpr
        ⟨hquotes.quoted, List.forall_mem_singleton.mpr (List.forall_mem_nil _)⟩, hquotes.offers⟩

theorem followedBy {first : Outcome cursor α} {second : Outcome first.stop β}
    (hfirst : first.QuotesOnly quotable) (hsecond : second.QuotesOnly quotable) :
    (first.followedBy second).QuotesOnly quotable :=
  ⟨List.forall_mem_append.mpr ⟨hfirst.quoted, hsecond.quoted⟩, hsecond.offers⟩

theorem andThen {first : Outcome cursor α}
    {rest : α → (next : Cursor) → next.size ≤ cursor.size → Outcome next β}
    (hfirst : first.QuotesOnly quotable)
    (hrest : ∀ value next hsize, next.Offers quotable →
      (rest value next hsize).QuotesOnly quotable) :
    (first.andThen rest).QuotesOnly quotable := by
  cases hvalue : first.value with
  | some value =>
      rw [andThen_of_value hvalue]
      exact hfirst.followedBy (hrest value _ _ hfirst.offers)
  | none =>
      rw [andThen_of_fault hvalue]
      exact ⟨hfirst.quoted, hfirst.offers⟩

theorem regardless {first : Outcome cursor α}
    {rest : Option α → (next : Cursor) → next.size ≤ cursor.size → Outcome next β}
    (hfirst : first.QuotesOnly quotable)
    (hrest : ∀ read next hsize, next.Offers quotable →
      (rest read next hsize).QuotesOnly quotable) :
    (first.regardless rest).QuotesOnly quotable :=
  hfirst.followedBy (hrest first.value _ _ hfirst.offers)

theorem expectThen {kind : Kind} {what : Expectation}
    {rest : Unit → (next : Cursor) → next.size ≤ cursor.size → Outcome next β}
    (hoffers : cursor.Offers quotable) (hwhat : ∀ text ∈ what.quoted, quotable text)
    (hrest : ∀ hsize, cursor.next.kind = kind →
      (rest () cursor.advance hsize).QuotesOnly quotable) :
    ((cursor.expect kind what).andThen rest).QuotesOnly quotable := by
  unfold Cursor.expect
  split
  · next hkind =>
      have hmoved : (Outcome.afterAdvance (.done cursor.advance ())).QuotesOnly quotable :=
        .afterAdvance (.done hoffers.advance)
      rw [andThen_of_value rfl]
      exact hmoved.followedBy (hrest cursor.size_advance_le hkind)
  · rw [andThen_of_fault rfl]
    exact .fault hoffers hwhat

end QuotesOnly

end Outcome

namespace Grammar

variable {cursor : Cursor}

theorem integer_quotesOnly (hoffers : cursor.Offers quotable)
    (hkind : cursor.current.kind = .int) : (integer cursor).QuotesOnly quotable := by
  rw [integer]
  split
  · exact .done hoffers
  · exact .fault hoffers (List.forall_mem_singleton.mpr (hoffers.current (.inr hkind)))

theorem propertySeparator_quotesOnly (hoffers : cursor.Offers quotable) :
    (propertySeparator cursor).QuotesOnly quotable := by
  rw [propertySeparator]
  split
  · exact .afterAdvance (.done hoffers.advance)
  · exact .done hoffers
  · exact .plain hoffers rfl
  · exact .plain hoffers rfl

theorem parameters_quotesOnly {cursor : Cursor} (hoffers : cursor.Offers quotable) :
    (parameters cursor).QuotesOnly quotable := by
  rw [parameters]
  split
  · exact .done hoffers
  · split
    · next hname =>
        have hsize : 0 < cursor.size := Cursor.size_pos_of_current (by simp [hname])
        refine .afterAdvance ?_
        split
        · refine .afterAdvance ?_
          exact (parameters_quotesOnly hoffers.advance.advance).andThen
            fun names last _ hlast => .done hlast
        · exact .done hoffers.advance
        · exact .plain hoffers.advance rfl
        · exact .plain hoffers.advance rfl
    · split
      · exact .plain hoffers rfl
      · exact .plain hoffers rfl
termination_by cursor.size
decreasing_by
  simp only [Cursor.size_advance]
  omega

mutual

theorem expression_quotesOnly (least : Precedence) (levels : Nat) {cursor : Cursor}
    (hoffers : cursor.Offers quotable) : (expression least levels cursor).QuotesOnly quotable := by
  rw [expression.eq_def]
  split
  · exact .plain hoffers rfl
  · next levels =>
      refine (operand_quotesOnly levels hoffers).andThen fun left last _ hlast => ?_
      exact extend_quotesOnly least levels left hlast
termination_by 8 * cursor.size + 3
decreasing_by all_goals omega

theorem operand_quotesOnly (levels : Nat) {cursor : Cursor} (hoffers : cursor.Offers quotable) :
    (operand levels cursor).QuotesOnly quotable := by
  rw [operand]
  split
  · exact .done hoffers
  · next hkind => exact integer_quotesOnly hoffers hkind
  · exact .done hoffers
  · exact .done hoffers
  · exact .done hoffers
  · exact unary_quotesOnly .not levels _ hoffers
  · exact unary_quotesOnly .negate levels _ hoffers
  · exact array_quotesOnly levels _ hoffers
  · exact object_quotesOnly levels hoffers
  · exact conditional_quotesOnly levels _ hoffers
  · exact function_quotesOnly levels _ hoffers
  · exact .plain hoffers rfl
termination_by 8 * cursor.size + 2
decreasing_by all_goals omega

theorem extend_quotesOnly (least : Precedence) (levels : Nat) (left : Expression) {cursor : Cursor}
    (hoffers : cursor.Offers quotable) :
    (extend least levels left cursor).QuotesOnly quotable := by
  rw [extend]
  split
  · next operator hoperator =>
      have hsize := Cursor.one_lt_size_of_next (BinaryOperator.ne_eof_of_ofKind? hoperator)
      have hmoved := cursor.size_advance
      have hmovedAgain := cursor.advance.size_advance
      split
      · refine .afterAdvance (.afterAdvance ?_)
        refine (expression_quotesOnly operator.precedence levels hoffers.advance.advance).andThen
          fun right last _ hlast => ?_
        exact extend_quotesOnly least levels _ hlast
      · exact .done hoffers
  · split
    · next hcall =>
        have hsize : 1 < cursor.size := Cursor.one_lt_size_of_next (by simp [hcall.1])
        have hmoved := cursor.size_advance
        have hmovedAgain := cursor.advance.size_advance
        refine .afterAdvance (.afterAdvance ?_)
        refine (items_quotesOnly .rParen levels rfl hoffers.advance.advance).andThen
          fun arguments last _ hlast => ?_
        exact extend_quotesOnly least levels _ hlast
    · exact .done hoffers
termination_by 8 * cursor.size + 2
decreasing_by all_goals omega

theorem unary_quotesOnly (operator : UnaryOperator) (levels : Nat) {cursor : Cursor}
    (hsize : 0 < cursor.size) (hoffers : cursor.Offers quotable) :
    (unary operator levels cursor hsize).QuotesOnly quotable := by
  have hmoved := cursor.size_advance
  rw [unary]
  refine .afterAdvance ?_
  exact (expression_quotesOnly .unary levels hoffers.advance).andThen
    fun inner last _ hlast => .done hlast
termination_by 8 * cursor.size + 1
decreasing_by all_goals omega

theorem array_quotesOnly (levels : Nat) {cursor : Cursor} (hsize : 0 < cursor.size)
    (hoffers : cursor.Offers quotable) : (array levels cursor hsize).QuotesOnly quotable := by
  have hmoved := cursor.size_advance
  rw [array]
  refine .afterAdvance ?_
  exact (items_quotesOnly .rBracket levels rfl hoffers.advance).andThen
    fun elements last _ hlast => .done hlast
termination_by 8 * cursor.size + 1
decreasing_by all_goals omega

theorem items_quotesOnly (closer : Kind) {what : Expectation} (levels : Nat) {cursor : Cursor}
    (hwhat : what.quoted = []) (hoffers : cursor.Offers quotable) :
    (items closer what levels cursor).QuotesOnly quotable := by
  rw [items]
  split
  · exact .done hoffers
  · refine (expression_quotesOnly .lowest levels hoffers).andThen fun first last _ hfirst => ?_
    refine (moreItems_quotesOnly closer levels hwhat hfirst).andThen fun rest last _ hlast => ?_
    exact .done hlast
termination_by 8 * cursor.size + 4
decreasing_by all_goals omega

theorem moreItems_quotesOnly (closer : Kind) {what : Expectation} (levels : Nat) {cursor : Cursor}
    (hwhat : what.quoted = []) (hoffers : cursor.Offers quotable) :
    (moreItems closer what levels cursor).QuotesOnly quotable := by
  rw [moreItems]
  split
  · next hcomma =>
      have hsize : 1 < cursor.size := Cursor.one_lt_size_of_next (by simp [hcomma])
      have hmoved := cursor.size_advance
      have hmovedAgain := cursor.advance.size_advance
      refine .afterAdvance (.afterAdvance ?_)
      refine (expression_quotesOnly .lowest levels hoffers.advance.advance).andThen
        fun item last _ hitem => ?_
      refine (moreItems_quotesOnly closer levels hwhat hitem).andThen fun rest last _ hlast => ?_
      exact .done hlast
  · exact .expectThen hoffers (hwhat ▸ List.forall_mem_nil _) fun _ _ => .done hoffers.advance
termination_by 8 * cursor.size
decreasing_by all_goals omega

theorem object_quotesOnly (levels : Nat) {cursor : Cursor} (hoffers : cursor.Offers quotable) :
    (object levels cursor).QuotesOnly quotable := by
  rw [object]
  exact (properties_quotesOnly levels hoffers).andThen fun entries last _ hlast => .done hlast
termination_by 8 * cursor.size + 1
decreasing_by omega

theorem properties_quotesOnly (levels : Nat) {cursor : Cursor}
    (hoffers : cursor.Offers quotable) : (properties levels cursor).QuotesOnly quotable := by
  rw [properties]
  split
  · exact .afterAdvance (.done hoffers.advance)
  · exact .plain hoffers rfl
  · next hname =>
      have hsize : 1 < cursor.size := Cursor.one_lt_size_of_next (by simp [hname])
      have hmoved := cursor.size_advance
      refine .afterAdvance ?_
      refine (property_quotesOnly levels hoffers.advance hname).andThen
        fun entry last _ hentry => ?_
      refine (propertySeparator_quotesOnly hentry).andThen fun _ last _ hseparator => ?_
      refine (properties_quotesOnly levels hseparator).andThen fun entries last _ hlast => ?_
      exact .done hlast
  · exact .plain hoffers rfl
termination_by 8 * cursor.size
decreasing_by all_goals omega

theorem property_quotesOnly (levels : Nat) {cursor : Cursor} (hoffers : cursor.Offers quotable)
    (hname : cursor.current.kind = .ident) : (property levels cursor).QuotesOnly quotable := by
  rw [property]
  split
  · exact .done hoffers
  · exact .done hoffers
  · next hcolon =>
      have hsize : 1 < cursor.size := Cursor.one_lt_size_of_next (by simp [hcolon])
      have hmoved := cursor.size_advance
      have hmovedAgain := cursor.advance.size_advance
      refine .afterAdvance (.afterAdvance ?_)
      exact (expression_quotesOnly .lowest levels hoffers.advance.advance).andThen
        fun value last _ hlast => .done hlast
  · exact .plain hoffers rfl
  · exact .fault hoffers (List.forall_mem_singleton.mpr (hoffers.name hname))
termination_by 8 * cursor.size
decreasing_by all_goals omega

theorem conditional_quotesOnly (levels : Nat) {cursor : Cursor} (hsize : 0 < cursor.size)
    (hoffers : cursor.Offers quotable) : (conditional levels cursor hsize).QuotesOnly quotable := by
  have hmoved := cursor.size_advance
  have hmovedAgain := cursor.advance.size_advance
  rw [conditional]
  refine .expectThen hoffers (List.forall_mem_nil _) fun _ _ => .afterAdvance ?_
  refine (expression_quotesOnly .lowest levels hoffers.advance.advance).andThen
    fun condition last _ hlast => ?_
  refine .expectThen hlast (List.forall_mem_nil _) fun _ _ => ?_
  refine .expectThen hlast.advance (List.forall_mem_nil _) fun _ _ => ?_
  have hmovedOn := last.size_advance
  have hmovedOnAgain := last.advance.size_advance
  refine (block_quotesOnly levels hlast.advance.advance).andThen
    fun consequence last _ hconsequence => ?_
  split
  · refine .afterAdvance ?_
    refine .expectThen hconsequence.advance (List.forall_mem_nil _) fun _ _ => ?_
    have hmovedPast := last.size_advance
    have hmovedPastAgain := last.advance.size_advance
    exact (block_quotesOnly levels hconsequence.advance.advance).andThen
      fun alternative last _ hlast => .done hlast
  · exact .done hconsequence
termination_by 8 * cursor.size + 1
decreasing_by all_goals omega

theorem function_quotesOnly (levels : Nat) {cursor : Cursor} (hsize : 0 < cursor.size)
    (hoffers : cursor.Offers quotable) : (function levels cursor hsize).QuotesOnly quotable := by
  have hmoved := cursor.size_advance
  have hmovedAgain := cursor.advance.size_advance
  rw [function]
  refine .expectThen hoffers (List.forall_mem_nil _) fun _ _ => .afterAdvance ?_
  refine (parameters_quotesOnly hoffers.advance.advance).andThen fun names last _ hlast => ?_
  have hmovedOn := last.size_advance
  refine .expectThen hlast (List.forall_mem_nil _) fun _ _ => ?_
  exact (block_quotesOnly levels hlast.advance).andThen fun body last _ hlast => .done hlast
termination_by 8 * cursor.size + 1
decreasing_by all_goals omega

theorem block_quotesOnly (levels : Nat) {cursor : Cursor} (hoffers : cursor.Offers quotable) :
    (block levels cursor).QuotesOnly quotable := by
  have hmoved := cursor.size_advance
  rw [block]
  refine .afterAdvance ?_
  exact (blockStatements_quotesOnly levels hoffers.advance).andThen
    fun statements last _ hlast => .done hlast
termination_by 8 * cursor.size + 7
decreasing_by all_goals omega

theorem blockStatements_quotesOnly (levels : Nat) {cursor : Cursor}
    (hoffers : cursor.Offers quotable) : (blockStatements levels cursor).QuotesOnly quotable := by
  rw [blockStatements]
  split
  · exact .done hoffers
  · split
    · exact .plain hoffers rfl
    · next hcurrent =>
        have hsize := Cursor.size_pos_of_current hcurrent
        refine (statement_quotesOnly levels hoffers).regardless fun read last _ hread => ?_
        have hmoved := last.size_advance
        refine .afterAdvance ?_
        exact (blockStatements_quotesOnly levels hread.advance).andThen
          fun statements last _ hlast => .done hlast
termination_by 8 * cursor.size + 6
decreasing_by all_goals omega

theorem statement_quotesOnly (levels : Nat) {cursor : Cursor} (hoffers : cursor.Offers quotable) :
    (statement levels cursor).QuotesOnly quotable := by
  rw [statement]
  refine .asStatement ?_
  split
  · exact binding_quotesOnly false levels hoffers
  · exact binding_quotesOnly true levels hoffers
  · exact functionDeclaration_quotesOnly levels _ hoffers
  · exact returned_quotesOnly levels hoffers
  · exact expressionStatement_quotesOnly levels hoffers
termination_by 8 * cursor.size + 5
decreasing_by all_goals omega

theorem binding_quotesOnly (constant : Bool) (levels : Nat) {cursor : Cursor}
    (hoffers : cursor.Offers quotable) : (binding constant levels cursor).QuotesOnly quotable := by
  rw [binding]
  refine .expectThen hoffers (List.forall_mem_nil _) fun _ hname => ?_
  have hquoted := List.forall_mem_singleton.mpr (hoffers.advance.name hname)
  dsimp only
  split
  · refine .afterAdvance ?_
    split
    · exact .fault hoffers.advance.advance hquoted
    · exact .done hoffers.advance.advance
  · have hmoved := cursor.advance.advance.size_advance
    refine .expectThen hoffers.advance hquoted fun _ _ => .afterAdvance ?_
    refine (expression_quotesOnly .lowest levels hoffers.advance.advance.advance).andThen
      fun value last _ hlast => ?_
    exact .expectThen hlast hquoted fun _ _ => .done hlast.advance
termination_by 8 * cursor.size + 4
decreasing_by all_goals omega

theorem functionDeclaration_quotesOnly (levels : Nat) {cursor : Cursor} (hsize : 0 < cursor.size)
    (hoffers : cursor.Offers quotable) :
    (functionDeclaration levels cursor hsize).QuotesOnly quotable := by
  have hmoved := cursor.advance.advance.size_advance
  rw [functionDeclaration]
  refine .expectThen hoffers (List.forall_mem_nil _) fun _ hname => ?_
  have hquoted := List.forall_mem_singleton.mpr (hoffers.advance.name hname)
  refine .expectThen hoffers.advance hquoted fun _ _ => .afterAdvance ?_
  refine (parameters_quotesOnly hoffers.advance.advance.advance).andThen
    fun names last _ hlast => ?_
  have hmovedOn := last.size_advance
  refine .expectThen hlast hquoted fun _ _ => ?_
  exact (block_quotesOnly levels hlast.advance).andThen fun body last _ hlast => .done hlast
termination_by 8 * cursor.size + 4
decreasing_by all_goals omega

theorem returned_quotesOnly (levels : Nat) {cursor : Cursor} (hoffers : cursor.Offers quotable) :
    (returned levels cursor).QuotesOnly quotable := by
  have hmoved := cursor.size_advance
  rw [returned]
  refine .afterAdvance ?_
  refine (expression_quotesOnly .lowest levels hoffers.advance).orNote.andThen
    fun value last _ hlast => ?_
  exact .expectThen hlast (List.forall_mem_nil _) fun _ _ => .done hlast.advance
termination_by 8 * cursor.size + 4
decreasing_by all_goals omega

theorem expressionStatement_quotesOnly (levels : Nat) {cursor : Cursor}
    (hoffers : cursor.Offers quotable) :
    (expressionStatement levels cursor).QuotesOnly quotable := by
  rw [expressionStatement]
  refine (expression_quotesOnly .lowest levels hoffers).andThen fun value last _ hlast => ?_
  split
  · exact .afterAdvance (.done hlast.advance)
  · exact .done hlast
termination_by 8 * cursor.size + 4
decreasing_by all_goals omega

end

theorem programStatements_quotesOnly {cursor : Cursor} (hoffers : cursor.Offers quotable) :
    (programStatements cursor).QuotesOnly quotable := by
  rw [programStatements]
  split
  · exact .done hoffers
  · next hcurrent =>
      have hsize := Cursor.size_pos_of_current hcurrent
      refine (statement_quotesOnly maxNesting hoffers).regardless fun read last _ hread => ?_
      have hmoved := last.size_advance
      refine .afterAdvance ?_
      exact (programStatements_quotesOnly hread.advance).andThen
        fun statements last _ hlast => .done hlast
termination_by cursor.size
decreasing_by omega

end Grammar

/-- Whatever a diagnostic quotes is a name or an integer of the text.  Neither of them can have a
line feed in it. -/
theorem readProgram_quotes (text : String) :
    ∀ diagnostic ∈ (readProgram text).diagnostics, ∀ quoted ∈ diagnostic.problem.quoted,
      ∃ token ∈ (Lexer.ofText text).tokens,
        (token.kind = .ident ∨ token.kind = .int) ∧ token.literal = quoted :=
  (Grammar.programStatements_quotesOnly fun token hmember hkind =>
    ⟨token, hmember, hkind, rfl⟩).quoted

end Frontend
