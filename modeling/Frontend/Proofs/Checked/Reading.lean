import Frontend.Proofs.Checked.Grammar
import Frontend.Proofs.Grammar.Adequacy
import Frontend.Proofs.Grammar.Beside
import Frontend.Proofs.Grammar.Readers

/-!
# Reading passes all checks

On tokens in the order of a text the readers with checks come to the same outcomes as those
without, and leave as many expressions open as they found.  No span runs backwards, because a
reader only moves on and because what it extends starts before the token that it stands on; and the
number of open expressions is what the bound exceeds the levels by, so counting it down again takes
it back to where it was.  There is a theorem for each reader, and they call one another as the
readers do.
-/

namespace Frontend

namespace Cursor

/-- The tokens from the cursor on are those of a text, in their order and up to its end.  With this
the span from any token to a later one does not run backwards. -/
structure InText (cursor : Cursor) : Prop where
  order : InOrder cursor.pending
  within : ∀ token ∈ cursor.pending, token.span.stop ≤ cursor.stop

namespace InText

variable {start stop : Cursor}

theorem ofLexer (lexer : Lexer) : (ofLexer lexer).InText :=
  ⟨lexer.tokens_inOrder, fun token hmember => (lexer.tokens_within token hmember).2⟩

theorem of_leads (htext : start.InText) (hleads : start.Leads stop) : stop.InText := by
  refine ⟨?_, fun token hmember => ?_⟩
  · obtain ⟨front, hfront⟩ := hleads.suffix
    exact (hfront ▸ htext.order).right
  · rw [hleads.stop_eq]
    exact htext.within token (hleads.suffix.subset hmember)

theorem advance (htext : start.InText) : start.advance.InText := htext.of_leads (.advance start)

/-- The current token does not run backwards, and neither does the end token. -/
theorem current_le (htext : start.InText) :
    start.current.span.start ≤ start.current.span.stop := by
  obtain ⟨_ | ⟨token, tokens⟩, offset⟩ := start
  · exact Nat.le_refl _
  · exact Nat.le_of_lt (htext.order.nonempty token List.mem_cons_self)

/-- Where a reader has moved on to, no token ends before the one that it came from. -/
theorem stop_le (htext : start.InText) (hleads : start.Leads stop) :
    start.current.span.stop ≤ stop.current.span.stop := by
  obtain ⟨front, hfront⟩ := hleads.suffix
  obtain ⟨pending, offset⟩ := start
  obtain ⟨rest, offset'⟩ := stop
  obtain rfl : offset' = offset := hleads.stop_eq
  obtain rfl : front ++ rest = pending := hfront
  cases front with
  | nil => exact Nat.le_refl _
  | cons token front =>
      cases rest with
      | nil => exact htext.within token List.mem_cons_self
      | cons other rest =>
          obtain ⟨-, hlater, hrest⟩ := InOrder.cons_iff.mp htext.order
          have hother := List.mem_append_right front (List.mem_cons_self (a := other) (l := rest))
          exact (hlater other hother).trans (Nat.le_of_lt (hrest.nonempty other hother))

/-- A span from the current token on does not run backwards.  The tokens are in order, and readers
only move on. -/
theorem checkedSpanFrom (htext : start.InText) (hleads : start.Leads stop) :
    stop.checkedSpanFrom start.current.span.start =
      .ok (stop.spanFrom start.current.span.start) :=
  Span.checked_of_le (htext.current_le.trans (htext.stop_le hleads))

end InText

end Cursor

namespace Guarded

variable {α β γ : Type} {cursor : Cursor} {opened : Nat}

/-- All checks are passed, the outcome is the one without checks, and as many expressions are open
as before.  Each reader with checks yields what its namesake in the library does. -/
structure Yields (guarded : Guarded cursor α) (opened : Nat) (outcome : Outcome cursor α) :
    Prop where
  run : guarded opened = .ok (outcome, opened)
  leads : cursor.Leads outcome.stop

namespace Yields

theorem lift {outcome : Outcome cursor α} (hleads : cursor.Leads outcome.stop) :
    (Guarded.lift outcome).Yields opened outcome :=
  ⟨rfl, hleads⟩

theorem done {value : α} : (Guarded.done cursor value).Yields opened (.done cursor value) :=
  .lift (.refl cursor)

theorem faultHere {problem : Problem} :
    (Guarded.lift (cursor.faultHere problem : Outcome cursor α)).Yields opened
      (cursor.faultHere problem) :=
  .lift (.refl cursor)

theorem faultNext {problem : Problem} :
    (Guarded.lift (cursor.faultNext problem : Outcome cursor α)).Yields opened
      (cursor.faultNext problem) :=
  .lift (.refl cursor)

theorem checking {check : Checked γ} {value : γ} {rest : γ → Guarded cursor α}
    {outcome : Outcome cursor α} (hcheck : check = .ok value)
    (hrest : (rest value).Yields opened outcome) :
    (Guarded.checking check rest).Yields opened outcome :=
  ⟨by rw [Guarded.checking, hcheck, Checked.ok_bind, hrest.run], hrest.leads⟩

theorem map {change : Outcome cursor α → Outcome cursor β} {guarded : Guarded cursor α}
    {outcome : Outcome cursor α} (hguarded : guarded.Yields opened outcome)
    (hstop : (change outcome).stop = outcome.stop) :
    (guarded.map change).Yields opened (change outcome) :=
  ⟨by rw [Guarded.map, hguarded.run]; rfl, hstop ▸ hguarded.leads⟩

theorem afterAdvance {guarded : Guarded cursor.advance α} {outcome : Outcome cursor.advance α}
    (hguarded : guarded.Yields opened outcome) :
    (Guarded.afterAdvance guarded).Yields opened (.afterAdvance outcome) :=
  ⟨by rw [Guarded.afterAdvance, Guarded.map, hguarded.run]; rfl,
    (Cursor.Leads.advance cursor).trans hguarded.leads⟩

theorem orNote {guarded : Guarded cursor α} {outcome : Outcome cursor α} {problem : Problem}
    (hguarded : guarded.Yields opened outcome) :
    (guarded.map (·.orNote problem)).Yields opened (outcome.orNote problem) := by
  refine hguarded.map ?_
  rw [Outcome.orNote]
  split <;> rfl

theorem nested_full {guarded : Guarded cursor α} (hfull : opened + 0 = maxNesting) :
    guarded.nested.Yields opened (cursor.faultHere .nestingTooDeep) :=
  ⟨by rw [Guarded.nested, if_pos (by omega)], .refl cursor⟩

theorem nested {guarded : Guarded cursor α} {outcome : Outcome cursor α} {levels : Nat}
    (hlevels : opened + (levels + 1) = maxNesting)
    (hguarded : guarded.Yields (opened + 1) outcome) : guarded.nested.Yields opened outcome := by
  refine ⟨?_, hguarded.leads⟩
  rw [Guarded.nested, if_neg (by omega), hguarded.run]
  rfl

section

variable {first : Guarded cursor α} {outcome : Outcome cursor α}

/-- What follows a part may depend on the value that was read, and on what is known of this
value. -/
theorem andThen_of
    {rest : α → (next : Cursor) → next.size ≤ cursor.size → Guarded next β}
    {rest' : α → (next : Cursor) → next.size ≤ cursor.size → Outcome next β}
    (hfirst : first.Yields opened outcome)
    (hrest : ∀ value, outcome.value = some value →
      (rest value outcome.stop outcome.size_le).Yields opened
        (rest' value outcome.stop outcome.size_le)) :
    (first.andThen rest).Yields opened (outcome.andThen rest') := by
  cases hvalue : outcome.value with
  | none =>
      rw [Outcome.andThen_of_fault hvalue]
      refine ⟨?_, hfirst.leads⟩
      rw [Guarded.andThen, hfirst.run, Checked.ok_bind]
      dsimp only
      rw [hvalue]
      rfl
  | some value =>
      rw [Outcome.andThen_of_value hvalue]
      have hsecond := hrest value hvalue
      refine ⟨?_, hfirst.leads.trans hsecond.leads⟩
      rw [Guarded.andThen, hfirst.run, Checked.ok_bind]
      dsimp only
      rw [hvalue]
      dsimp only
      rw [hsecond.run]
      rfl

theorem andThen
    {rest : α → (next : Cursor) → next.size ≤ cursor.size → Guarded next β}
    {rest' : α → (next : Cursor) → next.size ≤ cursor.size → Outcome next β}
    (hfirst : first.Yields opened outcome)
    (hrest : ∀ value next hsize, cursor.Leads next →
      (rest value next hsize).Yields opened (rest' value next hsize)) :
    (first.andThen rest).Yields opened (outcome.andThen rest') :=
  hfirst.andThen_of fun value _ => hrest value _ _ hfirst.leads

theorem regardless
    {rest : Option α → (next : Cursor) → next.size ≤ cursor.size → Guarded next β}
    {rest' : Option α → (next : Cursor) → next.size ≤ cursor.size → Outcome next β}
    (hfirst : first.Yields opened outcome)
    (hrest : ∀ read next hsize, cursor.Leads next →
      (rest read next hsize).Yields opened (rest' read next hsize)) :
    (first.regardless rest).Yields opened (outcome.regardless rest') := by
  have hsecond := hrest outcome.value _ outcome.size_le hfirst.leads
  refine ⟨?_, hfirst.leads.trans hsecond.leads⟩
  rw [Guarded.regardless, hfirst.run, Checked.ok_bind]
  dsimp only
  rw [hsecond.run]
  rfl

end

theorem expect {kind : Kind} {what : Expectation} :
    (cursor.guardedExpect kind what).Yields opened (cursor.expect kind what) := by
  refine .lift ?_
  unfold Cursor.expect
  split
  · exact .advance cursor
  · exact .refl cursor

end Yields

end Guarded

namespace Grammar

theorem integer_leads (cursor : Cursor) : cursor.Leads (integer cursor).stop := by
  rw [integer]
  split
  · exact .refl cursor
  · exact .refl cursor

theorem propertySeparator_leads (cursor : Cursor) :
    cursor.Leads (propertySeparator cursor).stop := by
  rw [propertySeparator]
  split
  · exact .advance cursor
  · exact .refl cursor
  · exact .refl cursor
  · exact .refl cursor

/-- An operand starts with the token that it was read from. -/
theorem operand_value_start {levels : Nat} {cursor : Cursor} {value : Expression}
    (hvalue : (operand levels cursor).value = some value) :
    value.span.start = cursor.current.span.start := by
  obtain ⟨tokens, hthrough, hderives⟩ :=
    (operand_delivers .lowest levels cursor).value value hvalue
  rw [hderives.operand_span, hthrough.spanOver_eq]
  rfl

mutual

theorem expression_yields (least : Precedence) {opened levels : Nat}
    (hlevels : opened + levels = maxNesting) (cursor : Cursor) (htext : cursor.InText) :
    (Checked.expression least cursor).Yields opened (expression least levels cursor) := by
  rw [expression.eq_def, Checked.expression]
  split
  · exact .nested_full hlevels
  · next levels =>
      have hopened : opened + 1 + levels = maxNesting := by omega
      have hoperand := operand_yields hopened cursor htext
      refine .nested hlevels (hoperand.andThen_of fun left hleft => ?_)
      have hlast := (operand levels cursor).size_le
      refine extend_yields least hopened left _ (htext.of_leads hoperand.leads) ?_
      rw [operand_value_start hleft]
      exact htext.current_le.trans (htext.stop_le hoperand.leads)
termination_by 8 * cursor.size + 3
decreasing_by all_goals omega

theorem operand_yields {opened levels : Nat} (hlevels : opened + levels = maxNesting)
    (cursor : Cursor) (htext : cursor.InText) :
    (Checked.operand cursor).Yields opened (operand levels cursor) := by
  rw [Checked.operand]
  refine .checking (Kind.checkedEntry_map _ _) ?_
  cases hstarts : cursor.current.kind.startsExpression with
  | false =>
      rw [operand_of_other hstarts]
      exact .faultHere
  | true =>
      rw [if_pos rfl]
      split
      · next hkind =>
          rw [operand_of_ident hkind]
          exact .done
      · next hkind =>
          rw [operand_of_int hkind]
          exact .lift (integer_leads cursor)
      · next hkind =>
          rw [operand_of_string hkind]
          exact .done
      · next hkind =>
          rw [operand_of_boolean (show cursor.current.kind = booleanKind true from hkind)]
          exact .done
      · next hkind =>
          rw [operand_of_boolean (show cursor.current.kind = booleanKind false from hkind)]
          exact .done
      · next hkind =>
          rw [operand_of_unary (show cursor.current.kind = UnaryOperator.not.kind from hkind)]
          exact unary_yields .not hlevels cursor _ htext
      · next hkind =>
          rw [operand_of_unary (show cursor.current.kind = UnaryOperator.negate.kind from hkind)]
          exact unary_yields .negate hlevels cursor _ htext
      · next hkind =>
          rw [operand_of_lBracket hkind]
          exact array_yields hlevels cursor _ htext
      · next hkind =>
          rw [operand_of_lBrace hkind]
          exact object_yields hlevels cursor htext
      · next hkind =>
          rw [operand_of_kwIf hkind]
          exact conditional_yields hlevels cursor _ htext
      · next hkind =>
          rw [operand_of_kwFunction hkind]
          exact function_yields hlevels cursor _ htext
      · simp_all [Kind.startsExpression]
termination_by 8 * cursor.size + 2
decreasing_by all_goals omega

theorem extend_yields (least : Precedence) {opened levels : Nat}
    (hlevels : opened + levels = maxNesting) (left : Expression) (cursor : Cursor)
    (htext : cursor.InText) (hleft : left.span.start ≤ cursor.current.span.stop) :
    (Checked.extend least left cursor).Yields opened (extend least levels left cursor) := by
  have hmoved := cursor.size_advance
  have hmoved' := cursor.advance.size_advance
  have hpast := (Cursor.Leads.advance cursor).trans (.advance cursor.advance)
  rw [Checked.extend]
  by_cases hlt : least < cursor.next.kind.precedence
  · rw [if_pos hlt]
    refine .checking (Kind.checkedEntry_map _ _) ?_
    obtain ⟨operator, hoperator, hleast⟩ | ⟨hparen, hleast⟩ := Kind.lt_precedence_cases hlt
    · have hnext := Cursor.one_lt_size_of_next (BinaryOperator.ne_eof_of_ofKind? hoperator)
      rw [extend_of_operator hoperator hleast, if_pos (by simp [Checked.goesOn, hoperator])]
      split
      · next other hother =>
          obtain rfl : operator = other := Option.some.inj (hoperator.symm.trans hother)
          refine .afterAdvance (.afterAdvance ?_)
          refine (expression_yields operator.precedence hlevels _ htext.advance.advance).andThen ?_
          intro right last hlast hleads
          have hstop := hleft.trans (htext.stop_le (hpast.trans hleads))
          refine .checking (Span.checked_of_le hstop) ?_
          exact extend_yields least hlevels (.binary (last.spanFrom left.span.start) left operator
            right) last (htext.of_leads (hpast.trans hleads)) hstop
      · simp_all
    · have hnext := Cursor.one_lt_size_of_next (show cursor.next.kind ≠ .eof by simp [hparen])
      rw [extend_of_lParen hparen hleast, if_pos (by simp [Checked.goesOn, hparen])]
      split
      · next operator hoperator =>
          rw [hparen] at hoperator
          cases hoperator
      · rw [dif_pos hparen]
        refine .afterAdvance (.afterAdvance ?_)
        refine (items_yields .rParen .argumentsEnd hlevels _ htext.advance.advance).andThen ?_
        intro arguments last hlast hleads
        have hstop := hleft.trans (htext.stop_le (hpast.trans hleads))
        refine .checking (Span.checked_of_le hstop) ?_
        exact extend_yields least hlevels (.call (last.spanFrom left.span.start) left arguments)
          last (htext.of_leads (hpast.trans hleads)) hstop
  · rw [if_neg hlt, extend_of_not_lt hlt]
    exact .done
termination_by 8 * cursor.size + 2
decreasing_by all_goals omega

theorem unary_yields (operator : UnaryOperator) {opened levels : Nat}
    (hlevels : opened + levels = maxNesting) (cursor : Cursor) (hsize : 0 < cursor.size)
    (htext : cursor.InText) :
    (Checked.unary operator cursor hsize).Yields opened (unary operator levels cursor hsize) := by
  have hmoved := cursor.size_advance
  rw [unary, Checked.unary]
  refine .afterAdvance ?_
  refine (expression_yields .unary hlevels cursor.advance htext.advance).andThen ?_
  intro inner last _ hlast
  exact .checking (htext.checkedSpanFrom ((Cursor.Leads.advance cursor).trans hlast)) .done
termination_by 8 * cursor.size + 1
decreasing_by omega

theorem array_yields {opened levels : Nat} (hlevels : opened + levels = maxNesting)
    (cursor : Cursor) (hsize : 0 < cursor.size) (htext : cursor.InText) :
    (Checked.array cursor hsize).Yields opened (array levels cursor hsize) := by
  have hmoved := cursor.size_advance
  rw [array, Checked.array]
  refine .afterAdvance ?_
  refine (items_yields .rBracket .arrayEnd hlevels cursor.advance htext.advance).andThen ?_
  intro elements last _ hlast
  exact .checking (htext.checkedSpanFrom ((Cursor.Leads.advance cursor).trans hlast)) .done
termination_by 8 * cursor.size + 1
decreasing_by omega

theorem items_yields (closer : Kind) (what : Expectation) {opened levels : Nat}
    (hlevels : opened + levels = maxNesting) (cursor : Cursor) (htext : cursor.InText) :
    (Checked.items closer what cursor).Yields opened (items closer what levels cursor) := by
  rw [items, Checked.items]
  split
  · exact .done
  · refine (expression_yields .lowest hlevels cursor htext).andThen ?_
    intro first last hsize hleads
    refine (moreItems_yields closer what hlevels last (htext.of_leads hleads)).andThen ?_
    intro rest last _ _
    exact .done
termination_by 8 * cursor.size + 4
decreasing_by all_goals omega

theorem moreItems_yields (closer : Kind) (what : Expectation) {opened levels : Nat}
    (hlevels : opened + levels = maxNesting) (cursor : Cursor) (htext : cursor.InText) :
    (Checked.moreItems closer what cursor).Yields opened
      (moreItems closer what levels cursor) := by
  have hmoved := cursor.size_advance
  have hmoved' := cursor.advance.size_advance
  rw [moreItems, Checked.moreItems]
  split
  · next hcomma =>
      have hnext := Cursor.one_lt_size_of_next (show cursor.next.kind ≠ .eof by simp [hcomma])
      refine .afterAdvance (.afterAdvance ?_)
      refine (expression_yields .lowest hlevels _ htext.advance.advance).andThen ?_
      intro item last hsize hleads
      refine (moreItems_yields closer what hlevels last
        (htext.advance.advance.of_leads hleads)).andThen ?_
      intro rest last _ _
      exact .done
  · refine Guarded.Yields.expect.andThen ?_
    intro _ last _ _
    exact .done
termination_by 8 * cursor.size
decreasing_by all_goals omega

theorem object_yields {opened levels : Nat} (hlevels : opened + levels = maxNesting)
    (cursor : Cursor) (htext : cursor.InText) :
    (Checked.object cursor).Yields opened (object levels cursor) := by
  rw [object, Checked.object]
  refine (properties_yields hlevels cursor htext).andThen ?_
  intro entries last _ hleads
  exact .checking (htext.checkedSpanFrom hleads) .done
termination_by 8 * cursor.size + 1
decreasing_by omega

theorem properties_yields {opened levels : Nat} (hlevels : opened + levels = maxNesting)
    (cursor : Cursor) (htext : cursor.InText) :
    (Checked.properties cursor).Yields opened (properties levels cursor) := by
  have hmoved := cursor.size_advance
  rw [Checked.properties]
  split
  · next hnext =>
      rw [properties_of_rBrace hnext]
      exact .afterAdvance .done
  · next hnext =>
      rw [properties_of_eof hnext]
      exact .faultNext
  · next hnext =>
      have hsize := Cursor.one_lt_size_of_next (show cursor.next.kind ≠ .eof by simp [hnext])
      rw [properties_of_ident hnext]
      refine .afterAdvance ((property_yields hlevels cursor.advance htext.advance).andThen ?_)
      intro entry last hlast hleads
      refine (Guarded.Yields.lift (propertySeparator_leads last)).andThen ?_
      intro _ separated hseparated hseparates
      have htext' := htext.advance.of_leads (hleads.trans hseparates)
      refine (properties_yields hlevels separated htext').andThen ?_
      intro entries last _ _
      exact .done
  · next hbrace heof hident =>
      rw [properties_of_other hbrace heof hident]
      exact .faultNext
termination_by 8 * cursor.size
decreasing_by all_goals omega

theorem property_yields {opened levels : Nat} (hlevels : opened + levels = maxNesting)
    (cursor : Cursor) (htext : cursor.InText) :
    (Checked.property cursor).Yields opened (property levels cursor) := by
  have hmoved := cursor.size_advance
  have hmoved' := cursor.advance.size_advance
  rw [Checked.property]
  split
  · next hnext =>
      rw [property_of_end (.inl hnext)]
      exact .done
  · next hnext =>
      rw [property_of_end (.inr hnext)]
      exact .done
  · next hnext =>
      have hsize := Cursor.one_lt_size_of_next (show cursor.next.kind ≠ .eof by simp [hnext])
      rw [property_of_colon hnext]
      refine .afterAdvance (.afterAdvance ?_)
      refine (expression_yields .lowest hlevels _ htext.advance.advance).andThen ?_
      intro value last _ _
      exact .checking (Span.checkedCover_of_le htext.current_le) .done
  · next hnext =>
      rw [property_of_eof hnext]
      exact .faultNext
  · next hcomma hbrace hcolon heof =>
      rw [property_of_other hcomma hbrace hcolon heof]
      exact .faultNext
termination_by 8 * cursor.size
decreasing_by omega

theorem conditional_yields {opened levels : Nat} (hlevels : opened + levels = maxNesting)
    (cursor : Cursor) (hsize : 0 < cursor.size) (htext : cursor.InText) :
    (Checked.conditional cursor hsize).Yields opened (conditional levels cursor hsize) := by
  rw [conditional, Checked.conditional]
  refine Guarded.Yields.expect.andThen ?_
  intro _ opener hopener hto
  have hmoved := opener.size_advance
  refine .afterAdvance ?_
  replace hto := hto.trans (.advance opener)
  refine (expression_yields .lowest hlevels _ (htext.of_leads hto)).andThen ?_
  intro condition closing hclosing hleads
  replace hto := hto.trans hleads
  refine Guarded.Yields.expect.andThen ?_
  intro _ closed hclosed hleads
  replace hto := hto.trans hleads
  refine Guarded.Yields.expect.andThen ?_
  intro _ brace hbrace hleads
  replace hto := hto.trans hleads
  refine (block_yields hlevels brace (htext.of_leads hto)).andThen ?_
  intro consequence last hlast hleads
  replace hto := hto.trans hleads
  have hmoved' := last.size_advance
  split
  · refine .afterAdvance (Guarded.Yields.expect.andThen ?_)
    intro _ brace hbrace' hleads
    replace hto := (hto.trans (.advance last)).trans hleads
    refine (block_yields hlevels brace (htext.of_leads hto)).andThen ?_
    intro alternative last _ hleads
    exact .checking (htext.checkedSpanFrom (hto.trans hleads)) .done
  · exact .checking (htext.checkedSpanFrom hto) .done
termination_by 8 * cursor.size + 1
decreasing_by all_goals omega

theorem function_yields {opened levels : Nat} (hlevels : opened + levels = maxNesting)
    (cursor : Cursor) (hsize : 0 < cursor.size) (htext : cursor.InText) :
    (Checked.function cursor hsize).Yields opened (function levels cursor hsize) := by
  rw [function, Checked.function]
  refine Guarded.Yields.expect.andThen ?_
  intro _ opener hopener hto
  have hmoved := opener.size_advance
  replace hto := hto.trans (.advance opener)
  refine .afterAdvance ?_
  refine (Guarded.Yields.lift (parameters_delivers opener.advance).leads).andThen ?_
  intro names closed hclosed hleads
  replace hto := hto.trans hleads
  refine Guarded.Yields.expect.andThen ?_
  intro _ brace hbrace hleads
  replace hto := hto.trans hleads
  refine (block_yields hlevels brace (htext.of_leads hto)).andThen ?_
  intro body last _ hleads
  exact .checking (htext.checkedSpanFrom (hto.trans hleads)) .done
termination_by 8 * cursor.size + 1
decreasing_by omega

theorem block_yields {opened levels : Nat} (hlevels : opened + levels = maxNesting)
    (cursor : Cursor) (htext : cursor.InText) :
    (Checked.block cursor).Yields opened (block levels cursor) := by
  have hmoved := cursor.size_advance
  rw [block, Checked.block]
  refine .afterAdvance ?_
  refine (blockStatements_yields hlevels cursor.advance htext.advance).andThen ?_
  intro statements last _ hleads
  exact .checking (htext.checkedSpanFrom ((Cursor.Leads.advance cursor).trans hleads)) .done
termination_by 8 * cursor.size + 7
decreasing_by omega

theorem blockStatements_yields {opened levels : Nat} (hlevels : opened + levels = maxNesting)
    (cursor : Cursor) (htext : cursor.InText) :
    (Checked.blockStatements cursor).Yields opened (blockStatements levels cursor) := by
  rw [blockStatements, Checked.blockStatements]
  split
  · exact .done
  · split
    · exact .faultHere
    · next hcurrent =>
        have hsize := Cursor.size_pos_of_current hcurrent
        refine (statement_yields hlevels cursor htext).regardless ?_
        intro read last hlast hleads
        have hmoved := last.size_advance
        refine .afterAdvance ?_
        refine (blockStatements_yields hlevels last.advance
          (htext.of_leads hleads).advance).andThen ?_
        intro statements last _ _
        exact .done
termination_by 8 * cursor.size + 6
decreasing_by all_goals omega

theorem statement_yields {opened levels : Nat} (hlevels : opened + levels = maxNesting)
    (cursor : Cursor) (htext : cursor.InText) :
    (Checked.statement cursor).Yields opened (statement levels cursor) := by
  rw [Checked.statement]
  split
  · next hkind =>
      rw [statement_of_binding (show cursor.current.kind = bindingKind false from hkind)]
      exact (binding_yields false hlevels cursor htext).map rfl
  · next hkind =>
      rw [statement_of_binding (show cursor.current.kind = bindingKind true from hkind)]
      exact (binding_yields true hlevels cursor htext).map rfl
  · next hkind =>
      rw [statement_of_kwFunction hkind]
      exact (functionDeclaration_yields hlevels cursor _ htext).map rfl
  · next hkind =>
      rw [statement_of_kwReturn hkind]
      exact (returned_yields hlevels cursor htext).map rfl
  · next hlet hconst hfunction hreturn =>
      rw [statement_of_other hlet hconst hfunction hreturn]
      exact (expressionStatement_yields hlevels cursor htext).map rfl
termination_by 8 * cursor.size + 5
decreasing_by all_goals omega

theorem binding_yields (constant : Bool) {opened levels : Nat}
    (hlevels : opened + levels = maxNesting) (cursor : Cursor) (htext : cursor.InText) :
    (Checked.binding constant cursor).Yields opened (binding constant levels cursor) := by
  rw [binding, Checked.binding]
  refine Guarded.Yields.expect.andThen ?_
  intro _ named hnamed hto
  dsimp only
  split
  · refine .afterAdvance ?_
    cases constant with
    | true => exact .faultHere
    | false => exact .checking (htext.checkedSpanFrom (hto.trans (.advance named))) .done
  · refine Guarded.Yields.expect.andThen ?_
    intro _ sign hsign hleads
    have hmoved := sign.size_advance
    replace hto := (hto.trans hleads).trans (.advance sign)
    refine .afterAdvance ?_
    refine (expression_yields .lowest hlevels _ (htext.of_leads hto)).andThen ?_
    intro value last _ hleads
    replace hto := hto.trans hleads
    refine Guarded.Yields.expect.andThen ?_
    intro _ last _ hleads
    exact .checking (htext.checkedSpanFrom (hto.trans hleads)) .done
termination_by 8 * cursor.size + 4
decreasing_by omega

theorem functionDeclaration_yields {opened levels : Nat}
    (hlevels : opened + levels = maxNesting) (cursor : Cursor) (hsize : 0 < cursor.size)
    (htext : cursor.InText) :
    (Checked.functionDeclaration cursor hsize).Yields opened
      (functionDeclaration levels cursor hsize) := by
  rw [functionDeclaration, Checked.functionDeclaration]
  refine Guarded.Yields.expect.andThen ?_
  intro _ named hnamed hto
  refine Guarded.Yields.expect.andThen ?_
  intro _ opener hopener hleads
  have hmoved := opener.size_advance
  replace hto := (hto.trans hleads).trans (.advance opener)
  refine .afterAdvance ?_
  refine (Guarded.Yields.lift (parameters_delivers opener.advance).leads).andThen ?_
  intro names closed hclosed hleads
  replace hto := hto.trans hleads
  refine Guarded.Yields.expect.andThen ?_
  intro _ brace hbrace hleads
  replace hto := hto.trans hleads
  refine (block_yields hlevels brace (htext.of_leads hto)).andThen ?_
  intro body last _ hleads
  exact .checking (htext.checkedSpanFrom (hto.trans hleads)) .done
termination_by 8 * cursor.size + 4
decreasing_by omega

theorem returned_yields {opened levels : Nat} (hlevels : opened + levels = maxNesting)
    (cursor : Cursor) (htext : cursor.InText) :
    (Checked.returned cursor).Yields opened (returned levels cursor) := by
  have hmoved := cursor.size_advance
  rw [returned, Checked.returned]
  refine .afterAdvance ?_
  have hvalue := expression_yields .lowest hlevels cursor.advance htext.advance
  refine hvalue.orNote.andThen ?_
  intro value last _ hto
  refine Guarded.Yields.expect.andThen ?_
  intro _ last _ hleads
  have hpast := (Cursor.Leads.advance cursor).trans (hto.trans hleads)
  exact .checking (htext.checkedSpanFrom hpast) .done
termination_by 8 * cursor.size + 4
decreasing_by omega

theorem expressionStatement_yields {opened levels : Nat}
    (hlevels : opened + levels = maxNesting) (cursor : Cursor) (htext : cursor.InText) :
    (Checked.expressionStatement cursor).Yields opened (expressionStatement levels cursor) := by
  rw [expressionStatement, Checked.expressionStatement]
  refine (expression_yields .lowest hlevels cursor htext).andThen ?_
  intro value last _ hto
  split
  · refine .afterAdvance ?_
    exact .checking (htext.checkedSpanFrom (hto.trans (.advance last))) .done
  · exact .checking (htext.checkedSpanFrom hto) .done
termination_by 8 * cursor.size + 4
decreasing_by omega

end

theorem programStatements_yields (cursor : Cursor) (htext : cursor.InText) :
    (Checked.programStatements cursor).Yields 0 (programStatements cursor) := by
  rw [programStatements, Checked.programStatements]
  split
  · exact .done
  · next hcurrent =>
      have hsize := Cursor.size_pos_of_current hcurrent
      refine (statement_yields (Nat.zero_add maxNesting) cursor htext).regardless ?_
      intro read last hlast hleads
      have hmoved := last.size_advance
      refine .afterAdvance ?_
      refine (programStatements_yields last.advance (htext.of_leads hleads).advance).andThen ?_
      intro statements last _ _
      exact .done
termination_by cursor.size
decreasing_by omega

end Grammar

/-- A whole text is read as without checks, because each of its readers is. -/
theorem Cursor.InText.checkedProgram {cursor : Cursor} (htext : cursor.InText) :
    cursor.checkedProgram = .ok cursor.readProgram := by
  rw [Cursor.checkedProgram, (Grammar.programStatements_yields cursor htext).run, Checked.ok_bind]
  dsimp only
  rw [Span.checked_of_le (Nat.zero_le _)]
  rfl

end Frontend
