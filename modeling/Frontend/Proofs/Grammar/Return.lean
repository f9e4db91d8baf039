import Frontend.Proofs.Grammar.Readers

/-!
# What readers return

A reader that meets no fault returns a value without a diagnostic and stops at a known place.  As
for what readers deliver, there is one rule for each way of putting readers together, and then one
for each way in which the readers of the grammar go on.
-/

namespace Frontend

namespace Outcome

variable {α β : Type} {cursor middle final : Cursor}

/-- The outcome is a good value, read without a diagnostic through the token at `final`.  This is
the form in which each reader is run. -/
structure Returns (outcome : Outcome cursor α) (good : α → Prop) (final : Cursor) : Prop where
  value : ∃ value, outcome.value = some value ∧ good value
  stop : outcome.stop = final
  quiet : outcome.diagnostics = []

namespace Returns

variable {good : α → Prop} {result : β → Prop}

theorem imp {outcome : Outcome cursor α} {other : α → Prop} (hreturns : outcome.Returns good final)
    (himplies : ∀ value, good value → other value) : outcome.Returns other final := by
  obtain ⟨⟨value, hvalue, hgood⟩, hstop, hquiet⟩ := hreturns
  exact ⟨⟨value, hvalue, himplies value hgood⟩, hstop, hquiet⟩

theorem done {value : α} (hgood : good value) : (Outcome.done cursor value).Returns good cursor :=
  ⟨⟨value, rfl, hgood⟩, rfl, rfl⟩

theorem afterAdvance {outcome : Outcome cursor.advance α} (hreturns : outcome.Returns good final) :
    (Outcome.afterAdvance outcome).Returns good final :=
  ⟨hreturns.value, hreturns.stop, hreturns.quiet⟩

theorem asStatement {outcome : Outcome cursor α} (hreturns : outcome.Returns good final) :
    (Outcome.asStatement outcome).Returns good final :=
  ⟨hreturns.value, hreturns.stop, hreturns.quiet⟩

theorem orNote {outcome : Outcome cursor α} {problem : Problem}
    (hreturns : outcome.Returns good final) : (outcome.orNote problem).Returns good final := by
  obtain ⟨value, hvalue, -⟩ := hreturns.value
  simpa only [Outcome.orNote, hvalue] using hreturns

theorem regardless {first : Outcome cursor α}
    {rest : Option α → (next : Cursor) → next.size ≤ cursor.size → Outcome next β}
    (hfirst : first.Returns good middle)
    (hrest : ∀ value hsize, good value → (rest (some value) middle hsize).Returns result final) :
    (first.regardless rest).Returns result final := by
  obtain ⟨⟨value, hvalue, hgood⟩, rfl, hquiet⟩ := hfirst
  obtain ⟨hlast, hstop, hlater⟩ := hrest value first.size_le hgood
  refine ⟨?_, ?_, ?_⟩
  · simpa only [Outcome.regardless, Outcome.followedBy, hvalue] using hlast
  · simpa only [Outcome.regardless, Outcome.followedBy, hvalue] using hstop
  · simp only [Outcome.regardless, Outcome.followedBy, hvalue, hquiet, hlater, List.append_nil]

theorem andThen {first : Outcome cursor α}
    {rest : α → (next : Cursor) → next.size ≤ cursor.size → Outcome next β}
    (hfirst : first.Returns good middle)
    (hrest : ∀ value hsize, good value → (rest value middle hsize).Returns result final) :
    (first.andThen rest).Returns result final := by
  obtain ⟨⟨value, hvalue, hgood⟩, rfl, hquiet⟩ := hfirst
  obtain ⟨hlast, hstop, hlater⟩ := hrest value first.size_le hgood
  have hthen : first.andThen rest = first.followedBy (rest value first.stop first.size_le) := by
    unfold Outcome.andThen
    split <;> simp_all
  rw [hthen]
  exact ⟨hlast, hstop, by simp only [Outcome.followedBy, hquiet, hlater, List.append_nil]⟩

theorem expectThen {kind : Kind} {what : Expectation}
    {rest : Unit → (next : Cursor) → next.size ≤ cursor.size → Outcome next β}
    (hkind : cursor.next.kind = kind)
    (hrest : ∀ hsize, (rest () cursor.advance hsize).Returns result final) :
    ((cursor.expect kind what).andThen rest).Returns result final := by
  have hexpect : (cursor.expect kind what).Returns (fun _ => True) cursor.advance := by
    rw [Cursor.expect, if_pos hkind]
    exact .afterAdvance (.done trivial)
  exact hexpect.andThen fun _ hsize _ => hrest hsize

end Returns

end Outcome

namespace Grammar

section Readers

variable {least : Precedence} {levels : Nat} {cursor middle final : Cursor}
variable {good : Expression → Prop} {result : Expression → Prop} {left : Expression}

theorem expression_returns (hoperand : (operand levels cursor).Returns good middle)
    (hextend : ∀ read, good read → (extend least levels read middle).Returns result final) :
    (expression least (levels + 1) cursor).Returns result final := by
  rw [expression]
  exact hoperand.andThen fun read _ hgood => hextend read hgood

theorem operand_unary_returns {operator : UnaryOperator}
    (hkind : cursor.current.kind = operator.kind)
    (hinner : (expression .unary levels cursor.advance).Returns good middle)
    (hresult : ∀ span read, good read → result (.unary span operator read)) :
    (operand levels cursor).Returns result middle := by
  have hsize : 0 < cursor.size :=
    Cursor.size_pos_of_current (by rw [hkind]; cases operator <;> decide)
  rw [operand_of_unary hkind hsize, unary]
  exact .afterAdvance (hinner.andThen fun read _ hgood => .done (hresult _ read hgood))

theorem operand_array_returns {elements : List Expression → Prop}
    (hkind : cursor.current.kind = .lBracket)
    (helements : (items .rBracket .arrayEnd levels cursor.advance).Returns elements middle)
    (hresult : ∀ span read, elements read → result (.array span read)) :
    (operand levels cursor).Returns result middle := by
  have hsize : 0 < cursor.size := Cursor.size_pos_of_current (by rw [hkind]; decide)
  rw [operand_of_lBracket hkind hsize, array]
  exact .afterAdvance (helements.andThen fun read _ hgood => .done (hresult _ read hgood))

theorem operand_object_returns {entries : List Property → Prop}
    (hkind : cursor.current.kind = .lBrace)
    (hentries : (properties levels cursor).Returns entries middle)
    (hresult : ∀ span read, entries read → result (.object span read)) :
    (operand levels cursor).Returns result middle := by
  rw [operand_of_lBrace hkind, object]
  exact hentries.andThen fun read _ hgood => .done (hresult _ read hgood)

section Conditional

variable {last : Cursor} {body other : Block → Prop}

theorem operand_conditional_returns (hkind : cursor.current.kind = .kwIf)
    (hopener : cursor.next.kind = .lParen)
    (hcondition : (expression .lowest levels cursor.advance.advance).Returns good middle)
    (hcloser : middle.next.kind = .rParen) (hbrace : middle.advance.next.kind = .lBrace)
    (hbody : (block levels middle.advance.advance).Returns body last)
    (hend : last.next.kind ≠ .kwElse)
    (hresult : ∀ span read block, good read → body block →
      result (.conditional span read block none)) :
    (operand levels cursor).Returns result last := by
  have hsize : 0 < cursor.size := Cursor.size_pos_of_current (by rw [hkind]; decide)
  rw [operand_of_kwIf hkind hsize, conditional]
  apply Outcome.Returns.expectThen hopener
  intro _
  apply Outcome.Returns.afterAdvance
  apply hcondition.andThen
  intro read _ hgood
  apply Outcome.Returns.expectThen hcloser
  intro _
  apply Outcome.Returns.expectThen hbrace
  intro _
  apply hbody.andThen
  intro block _ hblock
  rw [if_neg hend]
  exact .done (hresult _ read block hgood hblock)

theorem operand_alternative_returns (hkind : cursor.current.kind = .kwIf)
    (hopener : cursor.next.kind = .lParen)
    (hcondition : (expression .lowest levels cursor.advance.advance).Returns good middle)
    (hcloser : middle.next.kind = .rParen) (hbrace : middle.advance.next.kind = .lBrace)
    (hbody : (block levels middle.advance.advance).Returns body last)
    (helse : last.next.kind = .kwElse) (hotherBrace : last.advance.next.kind = .lBrace)
    (hother : (block levels last.advance.advance).Returns other final)
    (hresult : ∀ span read block alternative, good read → body block → other alternative →
      result (.conditional span read block (some alternative))) :
    (operand levels cursor).Returns result final := by
  have hsize : 0 < cursor.size := Cursor.size_pos_of_current (by rw [hkind]; decide)
  rw [operand_of_kwIf hkind hsize, conditional]
  apply Outcome.Returns.expectThen hopener
  intro _
  apply Outcome.Returns.afterAdvance
  apply hcondition.andThen
  intro read _ hgood
  apply Outcome.Returns.expectThen hcloser
  intro _
  apply Outcome.Returns.expectThen hbrace
  intro _
  apply hbody.andThen
  intro block _ hblock
  rw [if_pos helse]
  apply Outcome.Returns.afterAdvance
  apply Outcome.Returns.expectThen hotherBrace
  intro _
  apply hother.andThen
  intro alternative _ halternative
  exact .done (hresult _ read block alternative hgood hblock halternative)

end Conditional

theorem operand_function_returns {names : List Identifier → Prop} {body : Block → Prop}
    (hkind : cursor.current.kind = .kwFunction) (hopener : cursor.next.kind = .lParen)
    (hnames : (parameters cursor.advance.advance).Returns names middle)
    (hbrace : middle.next.kind = .lBrace)
    (hbody : (block levels middle.advance).Returns body final)
    (hresult : ∀ span read block, names read → body block → result (.function span read block)) :
    (operand levels cursor).Returns result final := by
  have hsize : 0 < cursor.size := Cursor.size_pos_of_current (by rw [hkind]; decide)
  rw [operand_of_kwFunction hkind hsize, function]
  apply Outcome.Returns.expectThen hopener
  intro _
  apply Outcome.Returns.afterAdvance
  apply hnames.andThen
  intro read _ hread
  apply Outcome.Returns.expectThen hbrace
  intro _
  exact hbody.andThen fun block _ hblock => .done (hresult _ read block hread hblock)

theorem extend_binary_returns {operator : BinaryOperator} (hkind : cursor.next.kind = operator.kind)
    (hleast : least < operator.precedence)
    (hright : (expression operator.precedence levels cursor.advance.advance).Returns good middle)
    (hextend : ∀ span right, good right →
      (extend least levels (.binary span left operator right) middle).Returns result final) :
    (extend least levels left cursor).Returns result final := by
  rw [extend]
  split
  · next found hfound =>
      rw [hkind, BinaryOperator.ofKind?_kind, Option.some.injEq] at hfound
      subst hfound
      rw [if_pos hleast]
      apply Outcome.Returns.afterAdvance
      apply Outcome.Returns.afterAdvance
      exact hright.andThen fun right _ hgood => hextend _ right hgood
  · next hnone =>
      rw [hkind, BinaryOperator.ofKind?_kind] at hnone
      cases hnone

theorem extend_call_returns {arguments : List Expression → Prop}
    (hkind : cursor.next.kind = .lParen) (hleast : least < .call)
    (harguments : (items .rParen .argumentsEnd levels cursor.advance.advance).Returns arguments
      middle)
    (hextend : ∀ span read, arguments read →
      (extend least levels (.call span left read) middle).Returns result final) :
    (extend least levels left cursor).Returns result final := by
  rw [extend]
  split
  · next found hfound =>
      rw [hkind] at hfound
      cases hfound
  · rw [dif_pos ⟨hkind, hleast⟩]
    apply Outcome.Returns.afterAdvance
    apply Outcome.Returns.afterAdvance
    exact harguments.andThen fun read _ hgood => hextend _ read hgood

variable {closer : Kind} {what : Expectation} {list : List Expression → Prop}

theorem items_returns (hstart : cursor.current.kind ≠ closer)
    (hfirst : (expression .lowest levels cursor).Returns good middle)
    (hmore : ∀ first, good first →
      (moreItems closer what levels middle).Returns (fun rest => list (first :: rest)) final) :
    (items closer what levels cursor).Returns list final := by
  rw [items, if_neg hstart]
  exact hfirst.andThen fun first _ hgood => (hmore first hgood).andThen fun rest _ hrest =>
    .done hrest

theorem moreItems_of_comma (hcomma : cursor.next.kind = .comma)
    (hstart : cursor.advance.advance.current.kind ≠ closer)
    (hitems : (items closer what levels cursor.advance.advance).Returns list final) :
    (moreItems closer what levels cursor).Returns list final := by
  rw [items, if_neg hstart] at hitems
  rw [moreItems, dif_pos hcomma]
  exact .afterAdvance (.afterAdvance hitems)

theorem moreItems_of_closer (hclosed : cursor.next.kind = closer) (hcloser : closer ≠ .comma)
    (hlist : list []) : (moreItems closer what levels cursor).Returns list cursor.advance := by
  rw [moreItems, dif_neg (by rwa [hclosed])]
  exact .expectThen hclosed fun _ => .done hlist

variable {entry : Property → Prop} {entries : List Property → Prop}

theorem property_returns (hcolon : cursor.next.kind = .colon)
    (hvalue : (expression .lowest levels cursor.advance.advance).Returns good middle)
    (hentry : ∀ span value, good value → entry ⟨cursor.identifier, value, span⟩) :
    (property levels cursor).Returns entry middle := by
  rw [property_of_colon hcolon]
  exact .afterAdvance (.afterAdvance (hvalue.andThen fun value _ hgood =>
    .done (hentry _ value hgood)))

/-- A property before a comma is followed by others. -/
theorem properties_of_comma (hname : cursor.next.kind = .ident)
    (hentry : (property levels cursor.advance).Returns entry middle)
    (hcomma : middle.next.kind = .comma)
    (hrest : ∀ first, entry first →
      (properties levels middle.advance).Returns (fun rest => entries (first :: rest)) final) :
    (properties levels cursor).Returns entries final := by
  rw [properties_of_ident hname]
  apply Outcome.Returns.afterAdvance
  apply hentry.andThen
  intro first _ hfirst
  rw [propertySeparator_of_comma hcomma]
  have hseparator : (Outcome.afterAdvance (.done middle.advance ())).Returns (fun _ => True)
      middle.advance := .afterAdvance (.done trivial)
  exact hseparator.andThen fun _ _ _ => (hrest first hfirst).andThen fun rest _ hgood => .done hgood

/-- A property before the closing brace is the last one. -/
theorem properties_of_last (hname : cursor.next.kind = .ident)
    (hentry : (property levels cursor.advance).Returns entry middle)
    (hclosed : middle.next.kind = .rBrace) (hlist : ∀ first, entry first → entries [first]) :
    (properties levels cursor).Returns entries middle.advance := by
  rw [properties_of_ident hname]
  apply Outcome.Returns.afterAdvance
  apply hentry.andThen
  intro first _ hfirst
  rw [propertySeparator_of_rBrace hclosed]
  have hseparator : (Outcome.done middle ()).Returns (fun _ => True) middle := .done trivial
  apply hseparator.andThen
  intro _ _ _
  rw [properties_of_rBrace hclosed]
  have hempty : (Outcome.afterAdvance (.done middle.advance [])).Returns
      (fun rest : List Property => rest = []) middle.advance := .afterAdvance (.done rfl)
  apply hempty.andThen
  rintro rest _ rfl
  exact .done (hlist first hfirst)

/-! ### Statements -/

theorem block_returns {body : Block → Prop} {statements : List Statement → Prop}
    (hstatements : (blockStatements levels cursor.advance).Returns statements middle)
    (hresult : ∀ span read, statements read → body ⟨read, span⟩) :
    (block levels cursor).Returns body middle := by
  rw [block]
  exact .afterAdvance (hstatements.andThen fun read _ hgood => .done (hresult _ read hgood))

variable {read : Statement → Prop} {row : List Statement → Prop}

theorem statement_let_returns (hkind : cursor.current.kind = .kwLet)
    (hname : cursor.next.kind = .ident) (hclosed : cursor.advance.next.kind = .semicolon)
    (hresult : ∀ span, read (.binding false cursor.advance.identifier none span)) :
    (statement levels cursor).Returns read cursor.advance.advance := by
  have hbinding : cursor.current.kind = bindingKind false := hkind
  rw [statement_of_binding hbinding, binding]
  apply Outcome.Returns.asStatement
  apply Outcome.Returns.expectThen hname
  intro _
  rw [if_pos hclosed]
  exact .afterAdvance (.done (hresult _))

theorem statement_binding_returns {constant : Bool}
    (hkind : cursor.current.kind = bindingKind constant) (hname : cursor.next.kind = .ident)
    (hsign : cursor.advance.next.kind = .assign)
    (hvalue : (expression .lowest levels cursor.advance.advance.advance).Returns good middle)
    (hclosed : middle.next.kind = .semicolon)
    (hresult : ∀ span value, good value →
      read (.binding constant cursor.advance.identifier (some value) span)) :
    (statement levels cursor).Returns read middle.advance := by
  rw [statement_of_binding hkind, binding]
  apply Outcome.Returns.asStatement
  apply Outcome.Returns.expectThen hname
  intro _
  rw [if_neg (by rw [hsign]; decide)]
  apply Outcome.Returns.expectThen hsign
  intro _
  apply Outcome.Returns.afterAdvance
  apply hvalue.andThen
  intro value _ hgood
  apply Outcome.Returns.expectThen hclosed
  intro _
  exact .done (hresult _ value hgood)

theorem statement_function_returns {names : List Identifier → Prop} {body : Block → Prop}
    (hkind : cursor.current.kind = .kwFunction) (hname : cursor.next.kind = .ident)
    (hopener : cursor.advance.next.kind = .lParen)
    (hnames : (parameters cursor.advance.advance.advance).Returns names middle)
    (hbrace : middle.next.kind = .lBrace)
    (hbody : (block levels middle.advance).Returns body final)
    (hresult : ∀ span list block, names list → body block →
      read (.function cursor.advance.identifier list block span)) :
    (statement levels cursor).Returns read final := by
  have hsize : 0 < cursor.size := Cursor.size_pos_of_current (by rw [hkind]; decide)
  rw [statement_of_kwFunction hkind hsize, functionDeclaration]
  apply Outcome.Returns.asStatement
  apply Outcome.Returns.expectThen hname
  intro _
  apply Outcome.Returns.expectThen hopener
  intro _
  apply Outcome.Returns.afterAdvance
  apply hnames.andThen
  intro list _ hlist
  apply Outcome.Returns.expectThen hbrace
  intro _
  exact hbody.andThen fun block _ hblock => .done (hresult _ list block hlist hblock)

theorem statement_return_returns (hkind : cursor.current.kind = .kwReturn)
    (hvalue : (expression .lowest levels cursor.advance).Returns good middle)
    (hclosed : middle.next.kind = .semicolon)
    (hresult : ∀ span value, good value → read (.returned value span)) :
    (statement levels cursor).Returns read middle.advance := by
  rw [statement_of_kwReturn hkind, returned]
  apply Outcome.Returns.asStatement
  apply Outcome.Returns.afterAdvance
  apply hvalue.orNote.andThen
  intro value _ hgood
  apply Outcome.Returns.expectThen hclosed
  intro _
  exact .done (hresult _ value hgood)

section ExpressionStatement

variable (hstart : cursor.current.kind.startsExpression = true)
variable (hfunction : cursor.current.kind ≠ .kwFunction)
variable (hvalue : (expression .lowest levels cursor).Returns good middle)
variable (hresult : ∀ span value, good value → read (.expression value span))

include hstart hfunction hvalue hresult

theorem statement_closed_returns (hclosed : middle.next.kind = .semicolon) :
    (statement levels cursor).Returns read middle.advance := by
  rw [statement_of_startsExpression hstart hfunction, expressionStatement]
  apply Outcome.Returns.asStatement
  apply hvalue.andThen
  intro value _ hgood
  rw [if_pos hclosed]
  exact .afterAdvance (.done (hresult _ value hgood))

theorem statement_unclosed_returns (hopen : middle.next.kind ≠ .semicolon) :
    (statement levels cursor).Returns read middle := by
  rw [statement_of_startsExpression hstart hfunction, expressionStatement]
  apply Outcome.Returns.asStatement
  apply hvalue.andThen
  intro value _ hgood
  rw [if_neg hopen]
  exact .done (hresult _ value hgood)

end ExpressionStatement

theorem blockStatements_returns (hstart : cursor.current.kind.startsStatement = true)
    (hfirst : (statement levels cursor).Returns read middle)
    (hrest : ∀ first, read first →
      (blockStatements levels middle.advance).Returns (fun rest => row (first :: rest)) final) :
    (blockStatements levels cursor).Returns row final := by
  rw [blockStatements, if_neg (Kind.ne_of_startsStatement hstart rfl),
    dif_neg (Kind.ne_of_startsStatement hstart rfl)]
  apply hfirst.regardless
  intro first _ hgood
  exact .afterAdvance ((hrest first hgood).andThen fun rest _ hrow => .done hrow)

theorem programStatements_returns (hstart : cursor.current.kind.startsStatement = true)
    (hfirst : (statement maxNesting cursor).Returns read middle)
    (hrest : ∀ first, read first →
      (programStatements middle.advance).Returns (fun rest => row (first :: rest)) final) :
    (programStatements cursor).Returns row final := by
  rw [programStatements, dif_neg (Kind.ne_of_startsStatement hstart rfl)]
  apply hfirst.regardless
  intro first _ hgood
  exact .afterAdvance ((hrest first hgood).andThen fun rest _ hrow => .done hrow)

end Readers

end Grammar

end Frontend
