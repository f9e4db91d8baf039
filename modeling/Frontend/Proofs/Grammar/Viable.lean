import Frontend.Proofs.Grammar.Adequacy
import Frontend.Proofs.Grammar.Beside
import Frontend.Proofs.Grammar.Sentence

/-!
# The first fault is not noticed early

Until a reader of the grammar finds the first fault it has read words that the rules allow: what it
read could still be completed to a sentence.  A reader without a fault has read a whole one.  The
bound on nesting is the exception, since the rules have none.

Readers start on the first token of a part or on the last one before it, so it is said of each
outcome from which token on its words count.
-/

namespace Frontend

open Grammar

namespace Outcome

variable {α β : Type} {cursor start : Cursor} {good result : List Word → Prop}

/-- Without diagnostics the words from a token on through the one where reading stopped are good.
The first diagnostic shows at a token up to which they can be completed. -/
structure Viable (outcome : Outcome cursor α) (start : Cursor) (good : List Word → Prop) :
    Prop where
  quiet : outcome.diagnostics = [] → ∃ tokens,
    start.pending = tokens ++ outcome.stop.advance.pending ∧ outcome.stop.stop = start.stop ∧
      good (tokens.map Token.word)
  loud : ∀ first ∈ outcome.diagnostics.head?, ∃ (before : List Token) (place : Cursor),
    start.pending = before ++ place.pending ∧ place.stop = start.stop ∧
      first.span = some place.current.span ∧
      (first.problem ≠ .nestingTooDeep →
        Completable fun more => good (before.map Token.word ++ more))
  lost : outcome.value = none → outcome.diagnostics ≠ []

namespace Viable

theorem pending_of_current (hcurrent : start.current.kind ≠ .eof) :
    start.pending = start.current :: start.advance.pending := by
  obtain ⟨_ | ⟨token, tokens⟩, stop⟩ := start
  · exact absurd rfl hcurrent
  · rfl

/-- A part of one token. -/
theorem doneHere {value : α} (hcurrent : cursor.current.kind ≠ .eof)
    (hgood : good [cursor.current.word]) : (Outcome.done cursor value).Viable cursor good where
  quiet _ := ⟨[cursor.current], pending_of_current hcurrent, rfl, hgood⟩
  loud _ hnone := by cases hnone
  lost hnone := by cases hnone

/-- Nothing more is read. -/
theorem done {value : α} (hgood : good []) :
    (Outcome.done cursor value).Viable cursor.advance good where
  quiet _ := ⟨[], rfl, rfl, hgood⟩
  loud _ hnone := by cases hnone
  lost hnone := by cases hnone

/-- A fault at the first token that counts. -/
theorem fault (start : Cursor) {problem : Problem}
    (hgood : problem ≠ .nestingTooDeep → Completable good) :
    (Outcome.fault cursor problem start.current.span : Outcome cursor α).Viable start good where
  quiet hnone := by cases hnone
  loud first hfirst := by
    obtain rfl := Option.some.inj hfirst
    exact ⟨[], start, rfl, rfl, rfl, hgood⟩
  lost _ := List.cons_ne_nil _ _

theorem faultHere {problem : Problem} (hgood : problem ≠ .nestingTooDeep → Completable good) :
    (cursor.faultHere problem : Outcome cursor α).Viable cursor good :=
  .fault cursor hgood

theorem faultNext {problem : Problem} (hgood : problem ≠ .nestingTooDeep → Completable good) :
    (cursor.faultNext problem : Outcome cursor α).Viable cursor.advance good :=
  .fault cursor.advance hgood

theorem afterAdvance {outcome : Outcome cursor.advance α} (hviable : outcome.Viable start good) :
    (Outcome.afterAdvance outcome).Viable start good :=
  ⟨hviable.quiet, hviable.loud, hviable.lost⟩

theorem asStatement {outcome : Outcome cursor α} (hviable : outcome.Viable start good) :
    outcome.asStatement.Viable start good :=
  ⟨hviable.quiet, hviable.loud, hviable.lost⟩

/-- A note after a fault is not the first diagnostic. -/
theorem orNote {outcome : Outcome cursor α} {problem : Problem}
    (hviable : outcome.Viable start good) : (outcome.orNote problem).Viable start good := by
  cases hvalue : outcome.value with
  | some value =>
      rw [orNote_of_value hvalue]
      exact hviable
  | none =>
      rw [orNote_of_fault hvalue]
      obtain ⟨first, rest, hdiagnostics⟩ := List.exists_cons_of_ne_nil (hviable.lost hvalue)
      refine ⟨fun hnone => ?_, fun diagnostic hhead => hviable.loud diagnostic ?_, fun _ => ?_⟩
      · simp at hnone
      · simpa [hdiagnostics] using hhead
      · simp

/-- The word that the start stands on comes first. -/
theorem cons {outcome : Outcome cursor α} (hcurrent : start.current.kind ≠ .eof)
    (hviable : outcome.Viable start.advance fun more => good (start.current.word :: more)) :
    outcome.Viable start good where
  quiet hnone := by
    obtain ⟨tokens, hpending, hstop, hgood⟩ := hviable.quiet hnone
    refine ⟨start.current :: tokens, ?_, hstop, hgood⟩
    rw [pending_of_current hcurrent, hpending, List.cons_append]
  loud first hfirst := by
    obtain ⟨before, place, hpending, hstop, hspan, hgood⟩ := hviable.loud first hfirst
    refine ⟨start.current :: before, place, ?_, hstop, hspan, hgood⟩
    rw [pending_of_current hcurrent, hpending, List.cons_append]
  lost := hviable.lost

/-- Reading on after a part, whether or not it has a value.  Only without a fault in the first part
does the second one matter. -/
theorem followedBy {first : Outcome cursor α} {second : Outcome first.stop β}
    (hfirst : first.Viable start good)
    (hfill : ∀ words, good words → Completable fun more => result (words ++ more))
    (hsecond : first.diagnostics = [] → ∀ words, good words →
      second.Viable first.stop.advance fun more => result (words ++ more)) :
    (first.followedBy second).Viable start result where
  quiet hnone := by
    obtain ⟨hfirstNone, hsecondNone⟩ := List.append_eq_nil_iff.mp hnone
    obtain ⟨tokens, hpending, hstop, hgood⟩ := hfirst.quiet hfirstNone
    obtain ⟨later, hlater, hlaterStop, hresult⟩ := (hsecond hfirstNone _ hgood).quiet hsecondNone
    refine ⟨tokens ++ later, ?_, hlaterStop.trans hstop, by rwa [List.map_append]⟩
    rw [hpending, hlater, List.append_assoc]
    rfl
  loud diagnostic hhead := by
    cases hdiagnostics : first.diagnostics with
    | nil =>
        obtain ⟨tokens, hpending, hstop, hgood⟩ := hfirst.quiet hdiagnostics
        have hhead' : diagnostic ∈ second.diagnostics.head? := by
          simpa only [Outcome.followedBy, hdiagnostics, List.nil_append] using hhead
        obtain ⟨before, place, hbefore, hplace, hspan, hresult⟩ :=
          (hsecond hdiagnostics _ hgood).loud diagnostic hhead'
        refine ⟨tokens ++ before, place, ?_, hplace.trans hstop, hspan, fun hproblem => ?_⟩
        · rw [hpending, hbefore, List.append_assoc]
        · simpa only [List.map_append, List.append_assoc] using hresult hproblem
    | cons earlier later =>
        have hhead' : diagnostic ∈ first.diagnostics.head? := by
          rw [hdiagnostics]
          simpa only [Outcome.followedBy, hdiagnostics, List.cons_append, List.head?_cons]
            using hhead
        obtain ⟨before, place, hbefore, hplace, hspan, hgood⟩ := hfirst.loud diagnostic hhead'
        exact ⟨before, place, hbefore, hplace, hspan,
          fun hproblem => (hgood hproblem).trans hfill⟩
  lost hnone hnil := by
    obtain ⟨hfirstNone, hsecondNone⟩ := List.append_eq_nil_iff.mp hnil
    obtain ⟨tokens, -, -, hgood⟩ := hfirst.quiet hfirstNone
    exact (hsecond hfirstNone _ hgood).lost hnone hsecondNone

theorem andThen {first : Outcome cursor α}
    {rest : α → (next : Cursor) → next.size ≤ cursor.size → Outcome next β}
    (hfirst : first.Viable start good)
    (hfill : ∀ words, good words → Completable fun more => result (words ++ more))
    (hrest : ∀ value next hsize words, good words →
      (rest value next hsize).Viable next.advance fun more => result (words ++ more)) :
    (first.andThen rest).Viable start result := by
  cases hvalue : first.value with
  | some value =>
      rw [andThen_of_value hvalue]
      exact hfirst.followedBy hfill fun _ words hwords => hrest value _ _ words hwords
  | none =>
      have hlost := hfirst.lost hvalue
      rw [andThen_of_fault hvalue]
      refine ⟨fun hnone => absurd hnone hlost, fun diagnostic hhead => ?_, fun _ => hlost⟩
      obtain ⟨before, place, hpending, hstop, hspan, hgood⟩ := hfirst.loud diagnostic hhead
      exact ⟨before, place, hpending, hstop, hspan, fun hproblem => (hgood hproblem).trans hfill⟩

/-- Nothing is read after a part. -/
theorem andDone {first : Outcome cursor α} {value : α → Cursor → β}
    (hfirst : first.Viable start good) (hresult : ∀ words, good words → result words) :
    (first.andThen fun read last _ => .done last (value read last)).Viable start result := by
  have hnil : ∀ words, good words → result (words ++ []) := fun words hwords =>
    (List.append_nil words).symm ▸ hresult words hwords
  exact hfirst.andThen (fun words hwords => .of_nil (hnil words hwords))
    fun _ _ _ words hwords => .done (hnil words hwords)

/-- Reading on at the next token, whether or not there is a value. -/
theorem regardless {first : Outcome cursor α}
    {rest : Option α → (next : Cursor) → next.size ≤ cursor.size → Outcome next β}
    (hfirst : first.Viable start good)
    (hfill : ∀ words, good words → Completable fun more => result (words ++ more))
    (hrest : ∀ read next hsize words, good words →
      (rest read next hsize).Viable next.advance fun more => result (words ++ more)) :
    (first.regardless rest).Viable start result :=
  hfirst.followedBy hfill fun _ words hwords => hrest _ _ _ words hwords

/-- Reading on behind a token of a given kind. -/
theorem expectThen {kind : Kind} {what : Expectation} (hkind : kind ≠ .eof)
    {rest : Unit → (next : Cursor) → next.size ≤ cursor.size → Outcome next β}
    (hfill : Completable result)
    (hrest : ∀ hsize : cursor.advance.size ≤ cursor.size, cursor.next.kind = kind →
      (rest () cursor.advance hsize).Viable cursor.advance.advance fun more =>
        result (cursor.next.word :: more)) :
    ((cursor.expect kind what).andThen rest).Viable cursor.advance result := by
  unfold Cursor.expect
  split
  · next hnext =>
      have hlater : (rest () cursor.advance _).Viable cursor.advance result :=
        .cons (hnext ▸ hkind) (hrest cursor.size_advance_le hnext)
      rw [andThen_of_value rfl]
      exact ⟨hlater.quiet, hlater.loud, hlater.lost⟩
  · have hfault : (cursor.faultNext (.missing what cursor.next.kind) : Outcome cursor β).Viable
        cursor.advance result := .faultNext fun _ => hfill
    rw [andThen_of_fault rfl]
    exact ⟨hfault.quiet, hfault.loud, hfault.lost⟩

/-- Reading on behind a token that is taken whatever it is. -/
theorem advanceThen {value : α} (hnext : cursor.next.kind ≠ .eof)
    {rest : α → (next : Cursor) → next.size ≤ cursor.size → Outcome next β}
    (hrest : ∀ hsize : cursor.advance.size ≤ cursor.size,
      (rest value cursor.advance hsize).Viable cursor.advance.advance fun more =>
        result (cursor.next.word :: more)) :
    ((Outcome.afterAdvance (.done cursor.advance value)).andThen rest).Viable cursor.advance
      result := by
  have hlater : (rest value cursor.advance _).Viable cursor.advance result :=
    .cons hnext (hrest cursor.size_advance_le)
  rw [andThen_of_value rfl]
  exact ⟨hlater.quiet, hlater.loud, hlater.lost⟩

theorem doneThen {value : α}
    {rest : α → (next : Cursor) → next.size ≤ cursor.size → Outcome next β}
    (hrest : (rest value cursor (Nat.le_refl _)).Viable start result) :
    ((Outcome.done cursor value).andThen rest).Viable start result :=
  ⟨hrest.quiet, hrest.loud, hrest.lost⟩

theorem faultNextThen {problem : Problem}
    {rest : α → (next : Cursor) → next.size ≤ cursor.size → Outcome next β}
    (hfill : Completable result) :
    ((cursor.faultNext problem).andThen rest).Viable cursor.advance result := by
  have hfault : (cursor.faultNext problem : Outcome cursor β).Viable cursor.advance result :=
    .faultNext fun _ => hfill
  exact ⟨hfault.quiet, hfault.loud, hfault.lost⟩

/-- What is known of the first word makes the words better: it is the one that the reader was chosen
by. -/
theorem sharpen {outcome : Outcome cursor α} (hviable : outcome.Viable start good)
    (hcurrent : ∀ more, good (start.current.word :: more) → result (start.current.word :: more))
    (hsome : ¬ good []) (hfill : Completable result) : outcome.Viable start result where
  quiet hnone := by
    obtain ⟨tokens, hpending, hstop, hgood⟩ := hviable.quiet hnone
    refine ⟨tokens, hpending, hstop, ?_⟩
    cases tokens with
    | nil => exact absurd hgood hsome
    | cons token tokens =>
        rw [List.map_cons, ← Cursor.current_of_pending hpending] at hgood ⊢
        exact hcurrent _ hgood
  loud first hfirst := by
    obtain ⟨before, place, hpending, hstop, hspan, hgood⟩ := hviable.loud first hfirst
    refine ⟨before, place, hpending, hstop, hspan, fun hproblem => ?_⟩
    cases before with
    | nil => exact hfill
    | cons token before =>
        obtain ⟨kinds, hkinds, hgood⟩ := hgood hproblem
        refine ⟨kinds, hkinds, ?_⟩
        rw [List.map_cons, List.cons_append, ← Cursor.current_of_pending hpending] at hgood ⊢
        exact hcurrent _ hgood
  lost := hviable.lost

end Viable

end Outcome

namespace Grammar

theorem parameters_viable (cursor : Cursor) :
    (parameters cursor).Viable cursor (Closed .parameters .rParen) := by
  have hnone : Completable (Closed .parameters .rParen) :=
    closed_completable (by decide) .noParameters
  rw [parameters]
  split
  · next hcloser =>
      exact .doneHere (hcloser ▸ by decide) ⟨[], _, rfl, hcloser, .noParameters⟩
  · split
    · next hname =>
        have hcurrent : cursor.current.kind ≠ .eof := hname ▸ by decide
        have hlast : Completable fun more =>
            Closed .parameters .rParen (cursor.current.word :: more) :=
          closed_completable (by decide) (.lastParameter hname)
        refine .cons hcurrent (.afterAdvance ?_)
        split
        · next hcomma =>
            have hsize : 0 < cursor.size := Cursor.size_pos_of_current hcurrent
            refine .cons (hcomma ▸ by decide) (.afterAdvance ?_)
            refine (parameters_viable cursor.advance.advance).andDone ?_
            rintro _ ⟨front, closer, rfl, hcloser, hnames⟩
            exact ⟨_ :: _ :: front, closer, rfl, hcloser, .moreParameters hname hcomma hnames⟩
        · next hcloser =>
            exact .doneHere (hcloser ▸ by decide) ⟨[_], _, rfl, hcloser, .lastParameter hname⟩
        · exact .faultHere fun _ => hlast
        · exact .faultHere fun _ => hlast
    · split
      · exact .faultHere fun _ => hnone
      · exact .faultHere fun _ => hnone
termination_by cursor.size
decreasing_by
  simp only [Cursor.size_advance]
  omega

/-- What follows an item, up to the closing token: whatever expression is put in front of it, the
whole is a row of items. -/
def Follows (closer : Kind) (more : List Word) : Prop :=
  ∀ item, Sentence .expression item → Closed .row closer (item ++ more)

mutual

theorem expression_viable (least : Precedence) (levels : Nat) (cursor : Cursor) :
    (expression least levels cursor).Viable cursor (Sentence .expression) := by
  rw [expression.eq_def]
  split
  · exact .faultHere fun hproblem => absurd rfl hproblem
  · next levels =>
      refine (operand_viable levels cursor).andThen ?_ ?_
      · intro words hwords
        exact .of_nil (by rwa [List.append_nil])
      · intro left last _ words hwords
        exact extend_viable least levels left last hwords
termination_by 8 * cursor.size + 3
decreasing_by all_goals omega

theorem operand_viable (levels : Nat) (cursor : Cursor) :
    (operand levels cursor).Viable cursor (Sentence .expression) := by
  rw [operand]
  split
  · next hkind => exact .doneHere (hkind ▸ by decide) (.name hkind)
  · next hkind =>
      rw [integer]
      split
      · next hvalue => exact .doneHere (hkind ▸ by decide) (.integer hkind hvalue)
      · exact .faultHere fun _ => expression_completable
  · next hkind => exact .doneHere (hkind ▸ by decide) (.string hkind)
  · next hkind =>
      have hboolean : cursor.current.word.kind = booleanKind true := hkind
      exact .doneHere (hkind ▸ by decide) (.boolean hboolean)
  · next hkind =>
      have hboolean : cursor.current.word.kind = booleanKind false := hkind
      exact .doneHere (hkind ▸ by decide) (.boolean hboolean)
  · next hkind => exact unary_viable .not levels cursor _ hkind
  · next hkind => exact unary_viable .negate levels cursor _ hkind
  · next hkind => exact array_viable levels cursor _ hkind
  · next hkind => exact object_viable levels cursor hkind
  · next hkind => exact conditional_viable levels cursor _ hkind
  · next hkind => exact function_viable levels cursor _ hkind
  · exact .faultHere fun _ => expression_completable
termination_by 8 * cursor.size + 2
decreasing_by all_goals omega

/-- An operand read so far, through the cursor, is extended to an expression. -/
theorem extend_viable (least : Precedence) (levels : Nat) (left : Expression) (cursor : Cursor)
    {words : List Word} (hleft : Sentence .expression words) :
    (extend least levels left cursor).Viable cursor.advance fun more =>
      Sentence .expression (words ++ more) := by
  have hwords : Sentence .expression (words ++ []) := (List.append_nil words).symm ▸ hleft
  rw [extend]
  split
  · next operator hoperator =>
      have hnext : cursor.next.kind ≠ .eof := BinaryOperator.ne_eof_of_ofKind? hoperator
      have hsize := Cursor.one_lt_size_of_next hnext
      have hsign := BinaryOperator.kind_of_ofKind? hoperator
      split
      · refine .cons hnext (.afterAdvance (.afterAdvance ?_))
        refine (expression_viable operator.precedence levels cursor.advance.advance).andThen ?_ ?_
        · intro right hright
          exact .of_nil (by simpa using Sentence.binary hleft hsign hright)
        · intro second last hlast right hright
          simpa using extend_viable least levels _ last (.binary hleft hsign hright)
      · exact .done hwords
  · split
    · next hcall =>
        have hnext : cursor.next.kind ≠ .eof := by simp [hcall.1]
        have hsize := Cursor.one_lt_size_of_next hnext
        refine .cons hnext (.afterAdvance (.afterAdvance ?_))
        refine (items_viable .rParen .argumentsEnd (by decide) (by decide) levels
          cursor.advance.advance).andThen ?_ ?_
        · rintro _ ⟨front, closer, rfl, hcloser, harguments⟩
          exact .of_nil (by simpa using Sentence.call hleft hcall.1 harguments hcloser)
        · rintro arguments last hlast _ ⟨front, closer, rfl, hcloser, harguments⟩
          simpa using extend_viable least levels _ last (.call hleft hcall.1 harguments hcloser)
    · exact .done hwords
termination_by 8 * cursor.size + 2
decreasing_by
  all_goals
    simp only [Cursor.size_advance] at *
    omega

theorem unary_viable (operator : UnaryOperator) (levels : Nat) (cursor : Cursor)
    (hsize : 0 < cursor.size) (hkind : cursor.current.kind = operator.kind) :
    (unary operator levels cursor hsize).Viable cursor (Sentence .expression) := by
  rw [unary]
  refine .cons (by cases operator <;> simp [hkind, UnaryOperator.kind]) (.afterAdvance ?_)
  exact (expression_viable .unary levels cursor.advance).andDone fun _ hwords =>
    .unary hkind hwords
termination_by 8 * cursor.size + 1
decreasing_by simp only [Cursor.size_advance]; omega

theorem array_viable (levels : Nat) (cursor : Cursor) (hsize : 0 < cursor.size)
    (hkind : cursor.current.kind = .lBracket) :
    (array levels cursor hsize).Viable cursor (Sentence .expression) := by
  rw [array]
  refine .cons (hkind ▸ by decide) (.afterAdvance ?_)
  refine (items_viable .rBracket .arrayEnd (by decide) (by decide) levels cursor.advance).andDone ?_
  rintro _ ⟨front, closer, rfl, hcloser, helements⟩
  exact .array hkind helements hcloser
termination_by 8 * cursor.size + 1
decreasing_by simp only [Cursor.size_advance]; omega

theorem items_viable (closer : Kind) (what : Expectation) (hcloser : closer ≠ .eof)
    (hfills : Fills closer) (levels : Nat) (cursor : Cursor) :
    (items closer what levels cursor).Viable cursor (Closed .items closer) := by
  have hitems : ∀ words, Closed .row closer words → Closed .items closer words := by
    rintro _ ⟨front, last, rfl, hlast, hrow⟩
    exact ⟨front, last, rfl, hlast, .items hrow⟩
  rw [items]
  split
  · next hclosed => exact .doneHere (hclosed ▸ hcloser) ⟨[], _, rfl, hclosed, .noItems⟩
  · refine (expression_viable .lowest levels cursor).andThen ?_ ?_
    · intro item hitem
      exact (closed_completable hfills (.lastItem hitem)).mono fun _ => hitems _
    · intro first last hlast item hitem
      refine (moreItems_viable closer what hcloser hfills levels last).andDone ?_
      exact fun more hmore => hitems _ (hmore item hitem)
termination_by 8 * cursor.size + 4
decreasing_by all_goals omega

theorem moreItems_viable (closer : Kind) (what : Expectation) (hcloser : closer ≠ .eof)
    (hfills : Fills closer) (levels : Nat) (cursor : Cursor) :
    (moreItems closer what levels cursor).Viable cursor.advance (Follows closer) := by
  rw [moreItems]
  split
  · next hcomma =>
      have hsize : 1 < cursor.size := Cursor.one_lt_size_of_next (by simp [hcomma])
      have hmore : ∀ words, Closed .row closer words →
          Follows closer (cursor.next.word :: words) := by
        rintro _ ⟨front, last, rfl, hlast, hrow⟩ item hitem
        exact ⟨item ++ cursor.next.word :: front, last, by simp, hlast,
          .moreItems hitem hcomma hrow⟩
      refine .cons (hcomma ▸ by decide) (.afterAdvance (.afterAdvance ?_))
      refine (expression_viable .lowest levels cursor.advance.advance).andThen ?_ ?_
      · intro item hitem
        exact (closed_completable hfills (.lastItem hitem)).mono fun _ => hmore _
      · intro second last hlast item hitem
        refine (moreItems_viable closer what hcloser hfills levels last).andDone ?_
        exact fun more hfollows => hmore _ (hfollows item hitem)
  · refine .expectThen hcloser ?_ fun _ hclosed => .done ?_
    · exact .next closer hfills (.of_nil fun item hitem =>
        ⟨item, _, rfl, filler_kind closer, .lastItem hitem⟩)
    · exact fun item hitem => ⟨item, _, rfl, hclosed, .lastItem hitem⟩
termination_by 8 * cursor.size
decreasing_by
  all_goals
    simp only [Cursor.size_advance] at *
    omega

theorem object_viable (levels : Nat) (cursor : Cursor) (hkind : cursor.current.kind = .lBrace) :
    (object levels cursor).Viable cursor (Sentence .expression) := by
  rw [object]
  refine .cons (hkind ▸ by decide) ((properties_viable levels cursor).andDone ?_)
  rintro _ ⟨front, closer, rfl, hcloser, hentries⟩
  exact .object hkind hentries hcloser
termination_by 8 * cursor.size + 1
decreasing_by omega

theorem properties_viable (levels : Nat) (cursor : Cursor) :
    (properties levels cursor).Viable cursor.advance (Closed .properties .rBrace) := by
  have hnone : Completable (Closed .properties .rBrace) :=
    closed_completable (by decide) .noProperties
  rw [properties]
  split
  · next hclosed =>
      exact .afterAdvance
        (.doneHere (by simp [hclosed]) ⟨[], _, rfl, hclosed, .noProperties⟩)
  · exact .faultNext fun _ => hnone
  · next hname =>
      have hsize : 1 < cursor.size := Cursor.one_lt_size_of_next (by simp [hname])
      have hfill : ∀ words, Sentence .property words →
          Completable fun more => Closed .properties .rBrace (words ++ more) :=
        fun words hwords => closed_completable (by decide) (.lastProperty hwords)
      refine .afterAdvance ?_
      refine (property_viable levels cursor.advance hname).andThen hfill ?_
      intro entry last hlast words hwords
      rw [propertySeparator]
      split
      · next hcomma =>
          refine .advanceThen (by simp [hcomma]) fun hseparator => ?_
          refine (properties_viable levels last.advance).andDone ?_
          rintro _ ⟨front, closer, rfl, hcloser, hentries⟩
          exact ⟨words ++ last.next.word :: front, closer, by simp, hcloser,
            .moreProperties hwords hcomma hentries⟩
      · next hclosed =>
          refine .doneThen ?_
          rw [properties_of_rBrace hclosed]
          exact .advanceThen (by simp [hclosed]) fun _ =>
            .done ⟨words, last.next.word, rfl, hclosed, .lastProperty hwords⟩
      · exact .faultNextThen (hfill words hwords)
      · exact .faultNextThen (hfill words hwords)
  · exact .faultNext fun _ => hnone
termination_by 8 * cursor.size
decreasing_by
  all_goals
    simp only [Cursor.size_advance] at *
    omega

theorem property_viable (levels : Nat) (cursor : Cursor) (hkey : cursor.current.kind = .ident) :
    (property levels cursor).Viable cursor (Sentence .property) := by
  have hcurrent : cursor.current.kind ≠ .eof := hkey ▸ by decide
  have hshort : Sentence .property [cursor.current.word] := .shorthand hkey
  rw [property]
  split
  · exact .doneHere hcurrent hshort
  · exact .doneHere hcurrent hshort
  · next hcolon =>
      have hnext : cursor.next.kind ≠ .eof := by simp [hcolon]
      have hsize := Cursor.one_lt_size_of_next hnext
      refine .cons hcurrent (.cons hnext (.afterAdvance (.afterAdvance ?_)))
      exact (expression_viable .lowest levels cursor.advance.advance).andDone fun _ hwords =>
        .written hkey hcolon hwords
  · exact .cons hcurrent (.faultNext fun _ => .of_nil hshort)
  · exact .cons hcurrent (.faultNext fun _ => .of_nil hshort)
termination_by 8 * cursor.size
decreasing_by
  simp only [Cursor.size_advance] at *
  omega

theorem conditional_viable (levels : Nat) (cursor : Cursor) (hsize : 0 < cursor.size)
    (hkind : cursor.current.kind = .kwIf) :
    (conditional levels cursor hsize).Viable cursor (Sentence .expression) := by
  -- What is missing is told backwards, from the block to the opening parenthesis.
  have hbody : ∀ opener closer condition, opener.kind = .lParen → closer.kind = .rParen →
      Sentence .expression condition → Completable fun more => Sentence .expression
        (cursor.current.word :: opener :: condition ++ closer :: more) :=
    fun _ _ _ hopener hcloser hcondition => block_completable.mono fun _ hblock =>
      .conditional hkind hopener hcondition hcloser hblock
  have hcloser : ∀ opener condition, opener.kind = .lParen → Sentence .expression condition →
      Completable fun more => Sentence .expression
        (cursor.current.word :: opener :: condition ++ more) :=
    fun _ _ hopener hcondition =>
      .next .rParen (by decide) (hbody _ _ _ hopener rfl hcondition)
  have hopener : Completable fun more => Sentence .expression (cursor.current.word :: more) :=
    .next .lParen (by decide) (expression_completable.part fun _ hcondition =>
      hcloser _ _ rfl hcondition)
  rw [conditional]
  refine .cons (hkind ▸ by decide) ?_
  refine .expectThen (by decide) hopener fun hopened hopener => .afterAdvance ?_
  refine (expression_viable .lowest levels cursor.advance.advance).andThen
    (fun _ => hcloser _ _ hopener) fun condition final hfinal words hwords => ?_
  refine .expectThen (by decide) (hcloser _ _ hopener hwords) fun hclosedSize hclosed => ?_
  refine .expectThen (by decide) (hbody _ _ _ hopener hclosed hwords) fun hbraceSize hbrace => ?_
  refine (block_viable levels final.advance.advance hbrace).andThen ?_ ?_
  · intro body hblock
    exact .of_nil (by simpa using Sentence.conditional hkind hopener hwords hclosed hblock)
  · intro consequence last hlast body hblock
    split
    · next helse =>
        have halternative : ∀ other, Sentence .block other → Sentence .expression
            (cursor.current.word :: cursor.next.word :: words ++
              final.next.word :: final.advance.next.word :: body ++ last.next.word :: other) :=
          fun _ => .alternative hkind hopener hwords hclosed hblock helse
        simp only [List.append_assoc, List.cons_append] at halternative
        refine .cons (helse ▸ by decide) (.afterAdvance (.expectThen (by decide) ?_ ?_))
        · exact block_completable.mono halternative
        · intro hotherSize hother
          exact (block_viable levels last.advance.advance hother).andDone fun other =>
            halternative (last.advance.next.word :: other)
    · exact .done (by simpa using Sentence.conditional hkind hopener hwords hclosed hblock)
termination_by 8 * cursor.size + 1
decreasing_by all_goals simp only [Cursor.size_advance] at *; omega

theorem function_viable (levels : Nat) (cursor : Cursor) (hsize : 0 < cursor.size)
    (hkind : cursor.current.kind = .kwFunction) :
    (function levels cursor hsize).Viable cursor (Sentence .expression) := by
  have hbody : ∀ opener closer names, opener.kind = .lParen → closer.kind = .rParen →
      Sentence .parameters names → Completable fun more => Sentence .expression
        (cursor.current.word :: opener :: names ++ closer :: more) :=
    fun _ _ _ hopener hcloser hnames => block_completable.mono fun _ hblock =>
      .function hkind hopener hnames hcloser hblock
  rw [function]
  refine .cons (hkind ▸ by decide) ?_
  refine .expectThen (by decide) ?_ fun hopened hopener => .afterAdvance ?_
  · exact .next .lParen (by decide) (.next .rParen (by decide)
      (hbody (filler .lParen) (filler .rParen) [] rfl rfl .noParameters))
  refine (parameters_viable cursor.advance.advance).andThen ?_ ?_
  · rintro _ ⟨names, closer, rfl, hcloser, hnames⟩
    simpa using hbody _ _ _ hopener hcloser hnames
  · rintro parameters last hlast _ ⟨names, closer, rfl, hcloser, hnames⟩
    refine .expectThen (by decide) ?_ fun hbraceSize hbrace => ?_
    · simpa using hbody _ _ _ hopener hcloser hnames
    · refine (block_viable levels last.advance hbrace).andDone fun body hblock => ?_
      simpa using Sentence.function hkind hopener hnames hcloser hblock
termination_by 8 * cursor.size + 1
decreasing_by simp only [Cursor.size_advance] at *; omega

/-- A block, from the token after its opening brace on. -/
theorem block_viable (levels : Nat) (cursor : Cursor) (hkind : cursor.current.kind = .lBrace) :
    (block levels cursor).Viable cursor.advance fun more =>
      Sentence .block (cursor.current.word :: more) := by
  have hsize : 0 < cursor.size := Cursor.size_pos_of_current (by simp [hkind])
  rw [block]
  refine .afterAdvance ((blockStatements_viable levels cursor.advance).andDone ?_)
  rintro _ ⟨front, closer, rfl, hcloser, hstatements⟩
  exact .block hkind hstatements hcloser
termination_by 8 * cursor.size + 7
decreasing_by simp only [Cursor.size_advance]; omega

theorem blockStatements_viable (levels : Nat) (cursor : Cursor) :
    (blockStatements levels cursor).Viable cursor (Closed .statements .rBrace) := by
  rw [blockStatements]
  split
  · next hclosed => exact .doneHere (by simp [hclosed]) ⟨[], _, rfl, hclosed, .noStatements⟩
  · split
    · exact .faultHere fun _ => closed_completable (by decide) .noStatements
    · next hcurrent =>
        have hsize := Cursor.size_pos_of_current hcurrent
        refine (statement_viable levels cursor).regardless ?_ ?_
        · intro words hwords
          refine .next .rBrace (by decide) (.of_nil ⟨words, _, rfl, rfl, ?_⟩)
          simpa using Sentence.statements hwords .noStatements
        · intro read last hlast words hwords
          refine .afterAdvance ((blockStatements_viable levels last.advance).andDone ?_)
          rintro _ ⟨front, closer, rfl, hcloser, hstatements⟩
          exact ⟨words ++ front, closer, by simp, hcloser, .statements hwords hstatements⟩
termination_by 8 * cursor.size + 6
decreasing_by
  · omega
  · simp only [Cursor.size_advance]
    omega

theorem statement_viable (levels : Nat) (cursor : Cursor) :
    (statement levels cursor).Viable cursor (Sentence .statement) := by
  rw [statement]
  refine .asStatement ?_
  split
  · next hkind => exact binding_viable false levels cursor hkind
  · next hkind => exact binding_viable true levels cursor hkind
  · next hkind => exact functionDeclaration_viable levels cursor _ hkind
  · next hkind => exact returned_viable levels cursor hkind
  · next hkind _ => exact expressionStatement_viable levels cursor hkind
termination_by 8 * cursor.size + 5
decreasing_by all_goals omega

theorem binding_viable (constant : Bool) (levels : Nat) (cursor : Cursor)
    (hkind : cursor.current.kind = bindingKind constant) :
    (binding constant levels cursor).Viable cursor (Sentence .statement) := by
  have hend : ∀ name sign value, name.kind = .ident → sign.kind = .assign →
      Sentence .expression value → Completable fun more => Sentence .statement
        (cursor.current.word :: name :: sign :: value ++ more) :=
    fun _ _ _ hname hsign hvalue => .next .semicolon (by decide)
      (.of_nil (.binding hkind hname hsign hvalue rfl))
  have hsign : ∀ name, name.kind = .ident → Completable fun more => Sentence .statement
      (cursor.current.word :: name :: more) :=
    fun _ hname => .next .assign (by decide) (expression_completable.part fun _ hvalue =>
      hend _ _ _ hname rfl hvalue)
  rw [binding]
  refine .cons (by cases constant <;> simp [hkind, bindingKind]) ?_
  refine .expectThen (by decide) ?_ fun hnamed hname => ?_
  · exact .next .ident (by decide) (hsign _ rfl)
  dsimp only
  split
  · next hcloser =>
      refine .afterAdvance ?_
      split
      · exact .faultHere fun _ => hsign _ hname
      · next hconstant =>
          obtain rfl : constant = false := by simpa using hconstant
          exact .doneHere (hcloser ▸ by decide) (.letWithoutValue hkind hname hcloser)
  · refine .expectThen (by decide) (hsign _ hname) fun hsigned hsign => .afterAdvance ?_
    refine (expression_viable .lowest levels cursor.advance.advance.advance).andThen
      (fun _ => hend _ _ _ hname hsign) fun value last hlast words hwords => ?_
    exact .expectThen (by decide) (hend _ _ _ hname hsign hwords) fun _ hcloser =>
      .done (.binding hkind hname hsign hwords hcloser)
termination_by 8 * cursor.size + 4
decreasing_by simp only [Cursor.size_advance] at *; omega

theorem functionDeclaration_viable (levels : Nat) (cursor : Cursor) (hsize : 0 < cursor.size)
    (hkind : cursor.current.kind = .kwFunction) :
    (functionDeclaration levels cursor hsize).Viable cursor (Sentence .statement) := by
  have hbody : ∀ name opener closer names, name.kind = .ident → opener.kind = .lParen →
      closer.kind = .rParen → Sentence .parameters names → Completable fun more =>
        Sentence .statement
          (cursor.current.word :: name :: opener :: names ++ closer :: more) :=
    fun _ _ _ _ hname hopener hcloser hnames => block_completable.mono fun _ hblock =>
      .namedFunction hkind hname hopener hnames hcloser hblock
  have hopener : ∀ name, name.kind = .ident → Completable fun more => Sentence .statement
      (cursor.current.word :: name :: more) :=
    fun name hname => .next .lParen (by decide) (.next .rParen (by decide)
      (hbody name (filler .lParen) (filler .rParen) [] hname rfl rfl .noParameters))
  rw [functionDeclaration]
  refine .cons (hkind ▸ by decide) ?_
  refine .expectThen (by decide) ?_ fun hnamed hname => ?_
  · exact .next .ident (by decide) (hopener _ rfl)
  refine .expectThen (by decide) (hopener _ hname) fun hopened hopener => .afterAdvance ?_
  refine (parameters_viable cursor.advance.advance.advance).andThen ?_ ?_
  · rintro _ ⟨names, closer, rfl, hcloser, hnames⟩
    simpa using hbody _ _ _ _ hname hopener hcloser hnames
  · rintro parameters last hlast _ ⟨names, closer, rfl, hcloser, hnames⟩
    refine .expectThen (by decide) ?_ fun hbraceSize hbrace => ?_
    · simpa using hbody _ _ _ _ hname hopener hcloser hnames
    · refine (block_viable levels last.advance hbrace).andDone fun body hblock => ?_
      simpa using Sentence.namedFunction hkind hname hopener hnames hcloser hblock
termination_by 8 * cursor.size + 4
decreasing_by simp only [Cursor.size_advance] at *; omega

theorem returned_viable (levels : Nat) (cursor : Cursor)
    (hkind : cursor.current.kind = .kwReturn) :
    (returned levels cursor).Viable cursor (Sentence .statement) := by
  have hend : ∀ value, Sentence .expression value → Completable fun more => Sentence .statement
      (cursor.current.word :: value ++ more) :=
    fun _ hvalue => .next .semicolon (by decide) (.of_nil (.returned hkind hvalue rfl))
  rw [returned]
  refine .cons (hkind ▸ by decide) (.afterAdvance ?_)
  refine (expression_viable .lowest levels cursor.advance).orNote.andThen hend ?_
  intro value last hlast words hwords
  exact .expectThen (by decide) (hend words hwords) fun _ hcloser =>
    .done (.returned hkind hwords hcloser)
termination_by 8 * cursor.size + 4
decreasing_by simp only [Cursor.size_advance] at *; omega

theorem expressionStatement_viable (levels : Nat) (cursor : Cursor)
    (hkind : cursor.current.kind ≠ .kwFunction) :
    (expressionStatement levels cursor).Viable cursor (Sentence .statement) := by
  have hvalue : (expression .lowest levels cursor).Viable cursor fun words =>
      Sentence .expression words ∧ ∀ word ∈ words.head?, word.kind ≠ .kwFunction := by
    refine (expression_viable .lowest levels cursor).sharpen ?_ ?_ ?_
    · intro more hwords
      refine ⟨hwords, fun word hhead => ?_⟩
      obtain rfl := Option.some.inj hhead
      exact hkind
    · exact fun hnil => hnil.expression_ne_nil rfl
    · exact .next .ident (by decide) (.of_nil ⟨.name rfl, by simp [filler]⟩)
  rw [expressionStatement]
  refine hvalue.andThen ?_ ?_
  · rintro words ⟨hwords, hstart⟩
    exact .of_nil ((List.append_nil words).symm ▸ .unclosed hstart hwords)
  · rintro value last hlast words ⟨hwords, hstart⟩
    split
    · next hcloser =>
        exact .afterAdvance (.doneHere (by simp [hcloser]) (.closed hstart hwords hcloser))
    · exact .done ((List.append_nil words).symm ▸ .unclosed hstart hwords)
termination_by 8 * cursor.size + 4
decreasing_by omega

end

theorem programStatements_viable (cursor : Cursor)
    (hreal : ∀ token ∈ cursor.pending, token.kind ≠ .eof) :
    (programStatements cursor).Viable cursor (Sentence .statements) := by
  rw [programStatements]
  split
  · next hend =>
      obtain ⟨_ | ⟨token, tokens⟩, stop⟩ := cursor
      · exact .done .noStatements
      · exact absurd hend (hreal token List.mem_cons_self)
  · next hcurrent =>
      have hsize := Cursor.size_pos_of_current hcurrent
      have hlast := (statement maxNesting cursor).size_le
      have hleads := (statement_delivers maxNesting cursor).leads.trans (.advance _)
      have hlater := programStatements_viable (statement maxNesting cursor).stop.advance
        fun token hmember => hreal token (hleads.suffix.subset hmember)
      refine (statement_viable maxNesting cursor).followedBy ?_ ?_
      · intro words hwords
        exact .of_nil (.statements hwords .noStatements)
      · intro _ words hwords
        exact .afterAdvance (hlater.andDone fun _ => .statements hwords)
termination_by cursor.size
decreasing_by
  simp only [Cursor.size_advance]
  omega

end Grammar

end Frontend
