import Frontend.Proofs.Grammar.Adequacy
import Frontend.Proofs.Grammar.Beside

/-!
# What readers look at

Each reader of the grammar does the same on the same tokens in two texts, if it is settled on the
left.  What settles it is told by what may follow the part it reads.  An expression may go on at
the next token, so the text on the right must end at the joint.  A block or a statement up to its
last delimiter is closed by a token of its own, so anything may follow.  A key without a value is
one because of the token after it and is never settled by itself.

There is a theorem for each reader, and they call one another as the readers do.
-/

namespace Frontend

/-- An expression that is a statement without a semicolon of its own.  Whether it ends where it does
depends on the token after it. -/
def Statement.IsUnclosed : Statement → Prop
  | .expression value span => span = value.span
  | _ => False

namespace Grammar

variable {joint : Joint}

theorem parameters_follows (left right : Cursor) (hbeside : joint.Beside left right) :
    joint.Follows (fun _ => True) (List.map (Identifier.mapSpan (Span.moved joint.move)))
      (parameters left) (parameters right) := by
  refine .of_current fun hcurrent => ?_
  have hkind := hbeside.current_kind hcurrent
  rw [parameters.eq_def left, parameters.eq_def right, hkind]
  split
  · exact .done hbeside rfl
  · split
    · next hname =>
        refine .afterAdvance hbeside fun _ hshares hadvance => ?_
        rw [hbeside.next_kind hshares]
        split
        · refine .afterAdvance hadvance fun _ _ hrest => ?_
          have hsize : 0 < left.size := Cursor.size_pos_of_current (by simp [hkind, hname])
          refine (parameters_follows _ _ hrest).andThen (fun _ _ _ => trivial) ?_
          intro names last last' _ _ hlast
          refine .done hlast ?_
          rw [hbeside.identifier hcurrent, List.map_cons]
        · refine .done hadvance ?_
          rw [hbeside.identifier hcurrent, List.map_singleton]
        · exact .faultHere hadvance
        · exact .faultHere hadvance
    · split
      · exact .faultHere hbeside
      · exact .faultHere hbeside
termination_by left.size
decreasing_by
  simp only [Cursor.size_advance]
  omega

theorem integer_follows {left right : Cursor} (hbeside : joint.Beside left right)
    (hcurrent : joint.Shares 1 left) :
    joint.Follows (fun _ => joint.Sealed) (Expression.mapSpans (Span.moved joint.move))
      (integer left) (integer right) := by
  have htoken := hbeside.current hcurrent
  have hliteral : left.current.literal = right.current.literal := by
    rw [htoken, Token.moved_literal]
  rw [integer, integer, hliteral]
  split
  · exact .done hbeside (by rw [htoken]; rfl)
  · exact .faultHere hbeside

/-- A separator may be left to what follows, which has to look at it again.  A closing brace is not
consumed when it is seen first. -/
theorem propertySeparator_follows (left right : Cursor) (hbeside : joint.Beside left right) :
    joint.Follows (fun _ => False) id (propertySeparator left) (propertySeparator right) := by
  refine .of_next_of_never fun hshares => ?_
  rw [propertySeparator, propertySeparator, hbeside.next_kind hshares]
  split
  · exact .afterAdvance hbeside fun _ _ hadvance => .done hadvance rfl
  · exact .done hbeside rfl
  · exact .faultNext hbeside hshares
  · exact .faultNext hbeside hshares

/-- Properties that are read to the end include their closing brace. -/
theorem properties_moves (levels : Nat) (cursor : Cursor) : (properties levels cursor).Moves := by
  rw [properties]
  split
  · next hbrace =>
      exact .afterAdvance (Nat.lt_of_succ_lt (Cursor.one_lt_size_of_next (by simp [hbrace])))
  · exact .faultNext
  · next hident =>
      exact .afterAdvance (Nat.lt_of_succ_lt (Cursor.one_lt_size_of_next (by simp [hident])))
  · exact .faultNext

/-- An expression spans the text from the first token through the one where reading stopped. -/
theorem expression_value_span {least : Precedence} {levels : Nat} {cursor : Cursor}
    {value : Expression} (hvalue : (expression least levels cursor).value = some value) :
    value.span = (expression least levels cursor).stop.spanFrom cursor.current.span.start := by
  obtain ⟨tokens, hthrough, hderives⟩ :=
    (expression_delivers least levels cursor).value value hvalue
  rw [hderives.expression_span.2, hthrough.spanOver_eq]

mutual

theorem expression_follows (least : Precedence) (levels : Nat) (left right : Cursor)
    (hbeside : joint.Beside left right) :
    joint.Follows (fun _ => joint.Sealed) (Expression.mapSpans (Span.moved joint.move))
      (expression least levels left) (expression least levels right) := by
  rw [expression.eq_def _ _ left, expression.eq_def _ _ right]
  split
  · exact .faultHere hbeside
  · next levels =>
      refine (operand_follows levels left right hbeside).andThen (fun _ _ hsealed => hsealed) ?_
      intro value last last' _ _ hlast
      exact extend_follows least levels value last last' hlast
termination_by 8 * left.size + 3
decreasing_by all_goals omega

theorem operand_follows (levels : Nat) (left right : Cursor) (hbeside : joint.Beside left right) :
    joint.Follows (fun _ => joint.Sealed) (Expression.mapSpans (Span.moved joint.move))
      (operand levels left) (operand levels right) := by
  refine .of_current fun hcurrent => ?_
  have htoken := hbeside.current hcurrent
  have hsame := (hbeside.current_kind hcurrent).symm
  rw [operand.eq_def levels left]
  split
  · next hkind =>
      rw [operand_of_ident (hsame.trans hkind), hbeside.identifier hcurrent, htoken]
      exact .done hbeside rfl
  · next hkind =>
      rw [operand_of_int (hsame.trans hkind)]
      exact integer_follows hbeside hcurrent
  · next hkind =>
      rw [operand_of_string (hsame.trans hkind), htoken]
      exact .done hbeside rfl
  · next hkind =>
      rw [operand_of_boolean (hsame.trans hkind : _ = booleanKind true), htoken]
      exact .done hbeside rfl
  · next hkind =>
      rw [operand_of_boolean (hsame.trans hkind : _ = booleanKind false), htoken]
      exact .done hbeside rfl
  · next hkind =>
      rw [operand_of_unary (hsame.trans hkind : _ = UnaryOperator.not.kind)
        (Cursor.size_pos_of_current (by simp [hsame, hkind]))]
      exact unary_follows .not levels left right _ _ hbeside hcurrent
  · next hkind =>
      rw [operand_of_unary (hsame.trans hkind : _ = UnaryOperator.negate.kind)
        (Cursor.size_pos_of_current (by simp [hsame, hkind]))]
      exact unary_follows .negate levels left right _ _ hbeside hcurrent
  · next hkind =>
      rw [operand_of_lBracket (hsame.trans hkind)
        (Cursor.size_pos_of_current (by simp [hsame, hkind]))]
      exact array_follows levels left right _ _ hbeside hcurrent
  · next hkind =>
      rw [operand_of_lBrace (hsame.trans hkind)]
      exact object_follows levels left right hbeside hcurrent
  · next hkind =>
      rw [operand_of_kwIf (hsame.trans hkind)
        (Cursor.size_pos_of_current (by simp [hsame, hkind]))]
      exact conditional_follows levels left right _ _ hbeside hcurrent
  · next hkind =>
      rw [operand_of_kwFunction (hsame.trans hkind)
        (Cursor.size_pos_of_current (by simp [hsame, hkind]))]
      exact function_follows levels left right _ _ hbeside hcurrent
  · have hkind : left.current.kind.startsExpression = false := by
      unfold Kind.startsExpression
      split <;> first | contradiction | rfl
    rw [operand_of_other (hsame ▸ hkind), hsame]
    exact .faultHere hbeside
termination_by 8 * left.size + 2
decreasing_by all_goals omega

theorem extend_follows (least : Precedence) (levels : Nat) (value : Expression)
    (left right : Cursor) (hbeside : joint.Beside left right) :
    joint.Follows (fun _ => joint.Sealed) (Expression.mapSpans (Span.moved joint.move))
      (extend least levels (value.mapSpans (Span.moved joint.move)) left)
      (extend least levels value right) := by
  by_cases hleast : least < left.next.kind.precedence
  · rcases Kind.lt_precedence_cases hleast with ⟨operator, hoperator, hleast⟩ | ⟨hparen, hleast⟩
    · have hsize := Cursor.one_lt_size_of_next (BinaryOperator.ne_eof_of_ofKind? hoperator)
      have hmoved := left.size_advance
      rw [extend_of_operator hoperator hleast]
      refine .of_next (.afterAdvance (Nat.lt_of_succ_lt hsize)) fun hshares => ?_
      rw [hbeside.next_kind hshares] at hoperator
      rw [extend_of_operator hoperator hleast]
      refine .afterAdvance hbeside fun _ _ hadvance => .afterAdvance hadvance fun _ _ hrest => ?_
      refine (expression_follows operator.precedence levels _ _ hrest).andThen
        (fun _ _ hsealed => hsealed) ?_
      intro second last last' hlastSize _ hlast
      refine .of_current fun hcurrent => ?_
      rw [hlast.spanFrom hcurrent (congrArg Span.start (value.span_mapSpans _))]
      exact extend_follows least levels (.binary _ value operator second) last last' hlast
    · have hsize : 1 < left.size := Cursor.one_lt_size_of_next (by simp [hparen])
      have hmoved := left.size_advance
      rw [extend_of_lParen hparen hleast]
      refine .of_next (.afterAdvance (Nat.lt_of_succ_lt hsize)) fun hshares => ?_
      rw [hbeside.next_kind hshares] at hparen
      rw [extend_of_lParen hparen hleast]
      refine .afterAdvance hbeside fun _ _ hadvance => .afterAdvance hadvance fun _ _ hrest => ?_
      refine (items_follows .rParen .argumentsEnd (by decide) levels _ _ hrest).andThen
        (fun _ _ hsealed => hsealed) ?_
      intro arguments last last' hlastSize _ hlast
      refine .of_current fun hcurrent => ?_
      rw [hlast.spanFrom hcurrent (congrArg Span.start (value.span_mapSpans _))]
      exact extend_follows least levels (.call _ value arguments) last last' hlast
  · rw [extend_of_not_lt hleast]
    refine .done_of_next hbeside id (fun _ => rfl) fun hnext => extend_of_not_lt ?_
    rcases hnext with hsame | heof
    · rwa [hsame]
    · rw [heof]
      exact Precedence.not_lt_lowest least
termination_by 8 * left.size + 2
decreasing_by all_goals omega

theorem items_follows (closer : Kind) (what : Expectation) (hcloser : closer ≠ .eof) (levels : Nat)
    (left right : Cursor) (hbeside : joint.Beside left right) :
    joint.Follows (fun _ => joint.Sealed) (mapSpansOfExpressions (Span.moved joint.move))
      (items closer what levels left) (items closer what levels right) := by
  refine .of_current fun hcurrent => ?_
  rw [items.eq_def _ _ _ left, items.eq_def _ _ _ right, hbeside.current_kind hcurrent]
  split
  · exact .done hbeside rfl
  · refine (expression_follows .lowest levels left right hbeside).andThen
      (fun _ _ hsealed => hsealed) ?_
    intro first last last' _ _ hlast
    refine (moreItems_follows closer what hcloser levels last last' hlast).andThen
      (fun _ _ hsealed => hsealed) ?_
    intro rest last last' _ _ hlast
    exact .done hlast rfl
termination_by 8 * left.size + 4
decreasing_by all_goals omega

theorem moreItems_follows (closer : Kind) (what : Expectation) (hcloser : closer ≠ .eof)
    (levels : Nat) (left right : Cursor) (hbeside : joint.Beside left right) :
    joint.Follows (fun _ => joint.Sealed) (mapSpansOfExpressions (Span.moved joint.move))
      (moreItems closer what levels left) (moreItems closer what levels right) := by
  rw [moreItems.eq_def _ _ _ left]
  split
  · next hcomma =>
      have hsize : 1 < left.size := Cursor.one_lt_size_of_next (by simp [hcomma])
      have hmoved := left.size_advance
      refine .of_next (.afterAdvance (Nat.lt_of_succ_lt hsize)) fun hshares => ?_
      rw [hbeside.next_kind hshares] at hcomma
      rw [moreItems.eq_def _ _ _ right, dif_pos hcomma]
      refine .afterAdvance hbeside fun _ _ hadvance => .afterAdvance hadvance fun _ _ hrest => ?_
      refine (expression_follows .lowest levels _ _ hrest).andThen (fun _ _ hsealed => hsealed) ?_
      intro item last last' hlastSize _ hlast
      refine (moreItems_follows closer what hcloser levels last last' hlast).andThen
        (fun _ _ hsealed => hsealed) ?_
      intro rest last last' _ _ hlast
      exact .done hlast rfl
  · next hcomma =>
      refine .of_next (.expectThen hcloser) fun hshares => ?_
      rw [hbeside.next_kind hshares] at hcomma
      rw [moreItems.eq_def _ _ _ right, dif_neg hcomma]
      exact .expectThen hcloser hbeside fun _ _ _ _ hadvance => .done hadvance rfl
termination_by 8 * left.size
decreasing_by all_goals omega

theorem unary_follows (operator : UnaryOperator) (levels : Nat) (left right : Cursor)
    (hsize : 0 < left.size) (hsize' : 0 < right.size) (hbeside : joint.Beside left right)
    (hcurrent : joint.Shares 1 left) :
    joint.Follows (fun _ => joint.Sealed) (Expression.mapSpans (Span.moved joint.move))
      (unary operator levels left hsize) (unary operator levels right hsize') := by
  have hmoved := left.size_advance
  rw [unary.eq_def _ _ left, unary.eq_def _ _ right]
  refine .afterAdvance hbeside fun _ _ hadvance => ?_
  refine (expression_follows .unary levels _ _ hadvance).andThen (fun _ _ hsealed => hsealed) ?_
  intro inner last last' _ _ hlast
  refine .of_current fun hstop => .done hlast ?_
  rw [hlast.spanFrom hstop (hbeside.current_start hcurrent), Expression.mapSpans]
termination_by 8 * left.size + 1
decreasing_by all_goals omega

theorem array_follows (levels : Nat) (left right : Cursor) (hsize : 0 < left.size)
    (hsize' : 0 < right.size) (hbeside : joint.Beside left right)
    (hcurrent : joint.Shares 1 left) :
    joint.Follows (fun _ => joint.Sealed) (Expression.mapSpans (Span.moved joint.move))
      (array levels left hsize) (array levels right hsize') := by
  have hmoved := left.size_advance
  rw [array.eq_def _ left, array.eq_def _ right]
  refine .afterAdvance hbeside fun _ _ hadvance => ?_
  refine (items_follows .rBracket .arrayEnd (by decide) levels _ _ hadvance).andThen
    (fun _ _ hsealed => hsealed) ?_
  intro elements last last' _ _ hlast
  refine .of_current fun hstop => .done hlast ?_
  rw [hlast.spanFrom hstop (hbeside.current_start hcurrent), Expression.mapSpans]
termination_by 8 * left.size + 1
decreasing_by all_goals omega

theorem object_follows (levels : Nat) (left right : Cursor) (hbeside : joint.Beside left right)
    (hcurrent : joint.Shares 1 left) :
    joint.Follows (fun _ => joint.Sealed) (Expression.mapSpans (Span.moved joint.move))
      (object levels left) (object levels right) := by
  rw [object.eq_def _ left, object.eq_def _ right]
  refine (properties_follows levels left right hbeside).andThen (fun _ _ hsealed => hsealed) ?_
  intro entries last last' _ _ hlast
  refine .of_current fun hstop => .done hlast ?_
  rw [hlast.spanFrom hstop (hbeside.current_start hcurrent), Expression.mapSpans]
termination_by 8 * left.size + 1
decreasing_by all_goals omega

theorem properties_follows (levels : Nat) (left right : Cursor)
    (hbeside : joint.Beside left right) :
    joint.Follows (fun _ => joint.Sealed) (mapSpansOfProperties (Span.moved joint.move))
      (properties levels left) (properties levels right) := by
  refine .of_next (properties_moves levels left) fun hshares => ?_
  have hsame := (hbeside.next_kind hshares).symm
  rw [properties.eq_def _ left]
  split
  · next hbrace =>
      rw [properties_of_rBrace (hsame.trans hbrace)]
      exact .afterAdvance hbeside fun _ _ hadvance => .done hadvance rfl
  · next heof =>
      rw [properties_of_eof (hsame.trans heof)]
      exact .faultNext hbeside hshares
  · next hident =>
      have hsize : 1 < left.size := Cursor.one_lt_size_of_next (by simp [hident])
      have hmoved := left.size_advance
      rw [properties_of_ident (hsame.trans hident)]
      refine .afterAdvance hbeside fun _ _ hadvance => ?_
      refine (property_follows levels _ _ hadvance).andThen_moves ?_ ?_
      · intro entry last _
        exact .andThen fun _ last _ => .andThen_left (properties_moves levels last)
      · intro entry last last' hlastSize _ hlast
        refine (propertySeparator_follows last last' hlast).andThen_moves ?_ ?_
        · exact fun _ last _ => .andThen_left (properties_moves levels last)
        · intro _ last last' hlastSize _ hlast
          refine (properties_follows levels last last' hlast).andThen
            (fun _ _ hsealed => hsealed) ?_
          intro entries last last' _ _ hlast
          exact .done hlast rfl
  · next hbrace heof hident =>
      rw [properties_of_other (hsame ▸ hbrace) (hsame ▸ heof) (hsame ▸ hident), hsame]
      exact .faultNext hbeside hshares
termination_by 8 * left.size
decreasing_by all_goals omega

theorem property_follows (levels : Nat) (left right : Cursor) (hbeside : joint.Beside left right) :
    joint.Follows (fun _ => False) (Property.mapSpans (Span.moved joint.move))
      (property levels left) (property levels right) := by
  refine .of_next_of_never fun hshares => ?_
  have hcurrent : joint.Shares 1 left := hshares.of_le (by omega)
  have hkey := hbeside.identifier hcurrent
  have hsame := (hbeside.next_kind hshares).symm
  rw [property.eq_def _ left]
  dsimp only
  split
  · next hcomma =>
      rw [property_of_end (.inl (hsame.trans hcomma)), hkey]
      exact .done hbeside rfl
  · next hbrace =>
      rw [property_of_end (.inr (hsame.trans hbrace)), hkey]
      exact .done hbeside rfl
  · next hcolon =>
      have hsize : 1 < left.size := Cursor.one_lt_size_of_next (by simp [hcolon])
      have hmoved := left.size_advance
      rw [property_of_colon (hsame.trans hcolon), hkey]
      refine .afterAdvance hbeside fun _ _ hadvance => .afterAdvance hadvance fun _ _ hrest => ?_
      refine (expression_follows .lowest levels _ _ hrest).andThen (fun _ _ => False.elim) ?_
      intro value last last' _ _ hlast
      refine .done hlast ?_
      rw [Expression.span_mapSpans, Property.mapSpans, Span.moved_cover joint.monotone]
      rfl
  · next heof =>
      rw [property_of_eof (hsame.trans heof)]
      exact .faultNext hbeside hshares
  · next hcomma hbrace hcolon heof =>
      rw [property_of_other (hsame ▸ hcomma) (hsame ▸ hbrace) (hsame ▸ hcolon) (hsame ▸ heof),
        hsame, hkey]
      exact .faultNext hbeside hshares
termination_by 8 * left.size
decreasing_by all_goals omega

theorem conditional_follows (levels : Nat) (left right : Cursor) (hsize : 0 < left.size)
    (hsize' : 0 < right.size) (hbeside : joint.Beside left right)
    (hcurrent : joint.Shares 1 left) :
    joint.Follows (fun _ => joint.Sealed) (Expression.mapSpans (Span.moved joint.move))
      (conditional levels left hsize) (conditional levels right hsize') := by
  have hstart := hbeside.current_start hcurrent
  rw [conditional.eq_def _ left, conditional.eq_def _ right]
  refine .expectThen (by decide) hbeside fun _ _ _ _ hopener => ?_
  refine .afterAdvance hopener fun _ _ hadvance => ?_
  refine (expression_follows .lowest levels _ _ hadvance).andThen (fun _ _ hsealed => hsealed) ?_
  intro condition last last' _ _ hlast
  refine .expectThen (by decide) hlast fun _ _ _ _ hcloser => ?_
  refine .expectThen (by decide) hcloser fun _ _ _ _ hbrace => ?_
  refine (block_follows levels _ _ hbrace).andThen (fun _ _ _ => trivial) ?_
  intro consequence last last' _ _ hlast
  by_cases helse : last.next.kind = .kwElse
  · have hlastSize : 0 < last.size :=
      Nat.lt_of_succ_lt (Cursor.one_lt_size_of_next (by simp [helse]))
    rw [if_pos helse]
    refine .of_next (.afterAdvance hlastSize) fun hshares => ?_
    rw [if_pos (hlast.next_kind hshares ▸ helse)]
    refine .afterAdvance hlast fun _ _ hadvance => ?_
    refine .expectThen (by decide) hadvance fun _ _ _ _ hbrace => ?_
    refine (block_follows levels _ _ hbrace).andThen (fun _ _ _ => trivial) ?_
    intro alternative last last' _ _ hlast
    refine .of_current fun hstop => .done hlast ?_
    rw [hlast.spanFrom hstop hstart, Expression.mapSpans, mapSpansOfAlternative]
  · rw [if_neg helse]
    refine .done_of_next hlast id (fun hstop => ?_) fun hnext => if_neg ?_
    · rw [hlast.spanFrom hstop hstart, Expression.mapSpans, mapSpansOfAlternative]
    · rcases hnext with hsame | heof
      · rwa [hsame]
      · simp [heof]
termination_by 8 * left.size + 1
decreasing_by all_goals omega

theorem function_follows (levels : Nat) (left right : Cursor) (hsize : 0 < left.size)
    (hsize' : 0 < right.size) (hbeside : joint.Beside left right)
    (hcurrent : joint.Shares 1 left) :
    joint.Follows (fun _ => joint.Sealed) (Expression.mapSpans (Span.moved joint.move))
      (function levels left hsize) (function levels right hsize') := by
  have hstart := hbeside.current_start hcurrent
  rw [function.eq_def _ left, function.eq_def _ right]
  refine .expectThen (by decide) hbeside fun _ _ _ _ hopener => ?_
  refine .afterAdvance hopener fun _ _ hadvance => ?_
  refine (parameters_follows _ _ hadvance).andThen (fun _ _ _ => trivial) ?_
  intro names last last' _ _ hlast
  refine .expectThen (by decide) hlast fun _ _ _ _ hbrace => ?_
  refine (block_follows levels _ _ hbrace).andThen (fun _ _ _ => trivial) ?_
  intro body last last' _ _ hlast
  refine .of_current fun hstop => .done hlast ?_
  rw [hlast.spanFrom hstop hstart, Expression.mapSpans]
termination_by 8 * left.size + 1
decreasing_by all_goals omega

theorem block_follows (levels : Nat) (left right : Cursor) (hbeside : joint.Beside left right) :
    joint.Follows (fun _ => True) (Block.mapSpans (Span.moved joint.move))
      (block levels left) (block levels right) := by
  refine .of_current fun hcurrent => ?_
  rw [block.eq_def _ left, block.eq_def _ right]
  refine .afterAdvance hbeside fun _ _ hadvance => ?_
  refine (blockStatements_follows levels _ _ hadvance).andThen (fun _ _ _ => trivial) ?_
  intro statements last last' _ _ hlast
  refine .of_current fun hstop => .done hlast ?_
  rw [hlast.spanFrom hstop (hbeside.current_start hcurrent), Block.mapSpans,
    mapSpansOfStatements_eq_map]
termination_by 8 * left.size + 7
decreasing_by all_goals omega

theorem blockStatements_follows (levels : Nat) (left right : Cursor)
    (hbeside : joint.Beside left right) :
    joint.Follows (fun _ => True) (List.map (Statement.mapSpans (Span.moved joint.move)))
      (blockStatements levels left) (blockStatements levels right) := by
  refine .of_current fun hcurrent => ?_
  have hkind := hbeside.current_kind hcurrent
  rw [blockStatements.eq_def _ left, blockStatements.eq_def _ right, hkind]
  split
  · exact .done hbeside rfl
  · split
    · exact .faultHere hbeside
    · next hend =>
        have hsize : 0 < left.size := Cursor.size_pos_of_current (hkind ▸ hend)
        refine (statement_follows levels left right hbeside).regardless_afterAdvance ?_
        intro read last last' _ _ hadvance
        have hmoved := last.size_advance
        refine (blockStatements_follows levels _ _ hadvance).andThen (fun _ _ _ => trivial) ?_
        intro statements last last' _ _ hlast
        refine .done hlast ?_
        rw [List.map_append, Option.toList_map]
termination_by 8 * left.size + 6
decreasing_by all_goals omega

theorem statement_follows (levels : Nat) (left right : Cursor)
    (hbeside : joint.Beside left right) :
    joint.Follows (fun read => read.IsUnclosed → joint.Sealed)
      (Statement.mapSpans (Span.moved joint.move))
      (statement levels left) (statement levels right) := by
  refine .of_current fun hcurrent => ?_
  have hsame := (hbeside.current_kind hcurrent).symm
  rw [statement.eq_def _ left]
  split
  · next hkind =>
      rw [statement_of_binding (hsame.trans hkind : _ = bindingKind false)]
      exact (binding_follows false levels left right hbeside hcurrent).asStatement.mono
        fun _ _ => trivial
  · next hkind =>
      rw [statement_of_binding (hsame.trans hkind : _ = bindingKind true)]
      exact (binding_follows true levels left right hbeside hcurrent).asStatement.mono
        fun _ _ => trivial
  · next hkind =>
      rw [statement_of_kwFunction (hsame.trans hkind)
        (Cursor.size_pos_of_current (by simp [hsame, hkind]))]
      exact (functionDeclaration_follows levels left right _ _ hbeside hcurrent).asStatement.mono
        fun _ _ => trivial
  · next hkind =>
      rw [statement_of_kwReturn (hsame.trans hkind)]
      exact (returned_follows levels left right hbeside hcurrent).asStatement.mono
        fun _ _ => trivial
  · next hlet hconst hfunction hreturn =>
      rw [statement_of_other (hsame ▸ hlet) (hsame ▸ hconst) (hsame ▸ hfunction)
        (hsame ▸ hreturn)]
      exact (expressionStatement_follows levels left right hbeside hcurrent).asStatement
termination_by 8 * left.size + 5
decreasing_by all_goals omega

theorem binding_follows (constant : Bool) (levels : Nat) (left right : Cursor)
    (hbeside : joint.Beside left right) (hcurrent : joint.Shares 1 left) :
    joint.Follows (fun _ => True) (Statement.mapSpans (Span.moved joint.move))
      (binding constant levels left) (binding constant levels right) := by
  have hstart := hbeside.current_start hcurrent
  rw [binding.eq_def _ _ left, binding.eq_def _ _ right]
  refine .expectThen (by decide) hbeside fun _ _ _ hshares hnamed => ?_
  refine .of_current fun hcurrent => ?_
  have hname := hnamed.identifier hcurrent
  dsimp only
  by_cases hcloser : left.advance.next.kind = .semicolon
  · have hsize := Cursor.one_lt_size_of_next (hcloser ▸ by decide : left.advance.next.kind ≠ .eof)
    rw [if_pos hcloser]
    refine .of_next (.afterAdvance (Nat.lt_of_succ_lt hsize)) fun hshares => ?_
    have hcloser' := (hnamed.next_kind hshares).symm.trans hcloser
    rw [if_pos hcloser']
    refine .afterAdvance hnamed fun _ _ hadvance => ?_
    rw [hname]
    split
    · exact .faultHere hadvance
    · refine .of_current fun hstop => .done hadvance ?_
      rw [hadvance.spanFrom hstop hstart, Statement.mapSpans, mapSpansOfValue]
  · rw [if_neg hcloser]
    refine .of_next (.expectThen (by decide)) fun hshares => ?_
    rw [if_neg (hnamed.next_kind hshares ▸ hcloser), hname]
    refine .expectThen (by decide) hnamed fun _ _ _ _ hsign => ?_
    refine .afterAdvance hsign fun _ _ hadvance => ?_
    refine (expression_follows .lowest levels _ _ hadvance).andThen_moves
      (fun _ _ _ => .expectThen (by decide)) ?_
    intro value last last' _ _ hlast
    refine .expectThen (by decide) hlast fun _ _ _ _ hend => ?_
    refine .of_current fun hstop => .done hend ?_
    rw [hend.spanFrom hstop hstart, Statement.mapSpans, mapSpansOfValue]
termination_by 8 * left.size + 4
decreasing_by all_goals omega

theorem functionDeclaration_follows (levels : Nat) (left right : Cursor) (hsize : 0 < left.size)
    (hsize' : 0 < right.size) (hbeside : joint.Beside left right)
    (hcurrent : joint.Shares 1 left) :
    joint.Follows (fun _ => True) (Statement.mapSpans (Span.moved joint.move))
      (functionDeclaration levels left hsize) (functionDeclaration levels right hsize') := by
  have hstart := hbeside.current_start hcurrent
  rw [functionDeclaration.eq_def _ left, functionDeclaration.eq_def _ right]
  refine .expectThen (by decide) hbeside fun _ _ _ _ hnamed => ?_
  refine .of_current fun hcurrent => ?_
  rw [hnamed.identifier hcurrent]
  refine .expectThen (by decide) hnamed fun _ _ _ _ hopener => ?_
  refine .afterAdvance hopener fun _ _ hadvance => ?_
  refine (parameters_follows _ _ hadvance).andThen (fun _ _ _ => trivial) ?_
  intro names last last' _ _ hlast
  refine .expectThen (by decide) hlast fun _ _ _ _ hbrace => ?_
  refine (block_follows levels _ _ hbrace).andThen (fun _ _ _ => trivial) ?_
  intro body last last' _ _ hlast
  refine .of_current fun hstop => .done hlast ?_
  rw [hlast.spanFrom hstop hstart, Statement.mapSpans]
termination_by 8 * left.size + 4
decreasing_by all_goals omega

theorem returned_follows (levels : Nat) (left right : Cursor) (hbeside : joint.Beside left right)
    (hcurrent : joint.Shares 1 left) :
    joint.Follows (fun _ => True) (Statement.mapSpans (Span.moved joint.move))
      (returned levels left) (returned levels right) := by
  rw [returned.eq_def _ left, returned.eq_def _ right]
  refine .afterAdvance hbeside fun _ _ hadvance => ?_
  refine (expression_follows .lowest levels _ _ hadvance).orNote.andThen_moves
    (fun _ _ _ => .expectThen (by decide)) ?_
  intro value last last' _ _ hlast
  refine .expectThen (by decide) hlast fun _ _ _ _ hend => ?_
  refine .of_current fun hstop => .done hend ?_
  rw [hend.spanFrom hstop (hbeside.current_start hcurrent), Statement.mapSpans]
termination_by 8 * left.size + 4
decreasing_by all_goals omega

theorem expressionStatement_follows (levels : Nat) (left right : Cursor)
    (hbeside : joint.Beside left right) (hcurrent : joint.Shares 1 left) :
    joint.Follows (fun read => read.IsUnclosed → joint.Sealed)
      (Statement.mapSpans (Span.moved joint.move))
      (expressionStatement levels left) (expressionStatement levels right) := by
  have hstart := hbeside.current_start hcurrent
  rw [expressionStatement.eq_def _ left, expressionStatement.eq_def _ right]
  refine (expression_follows .lowest levels left right hbeside).andThen_of ?_ ?_
  · intro value read hvalue hread hok
    have hspan := expression_value_span hvalue
    generalize (expression .lowest levels left).stop = last at hspan hread ⊢
    by_cases hcloser : last.next.kind = .semicolon
    · have hsize : 1 < last.size := Cursor.one_lt_size_of_next (by simp [hcloser])
      rw [if_pos hcloser]
      exact .inr (Cursor.size_advance_lt (Nat.lt_of_succ_lt hsize))
    · rw [if_neg hcloser] at hread
      obtain rfl := Option.some.inj hread
      exact .inl (hok hspan.symm)
  · intro value hvalue hlast
    have hspan := expression_value_span hvalue
    generalize (expression .lowest levels left).stop = last at hspan hlast ⊢
    by_cases hcloser : last.next.kind = .semicolon
    · have hsize : 1 < last.size := Cursor.one_lt_size_of_next (by simp [hcloser])
      rw [if_pos hcloser]
      refine .of_next (.afterAdvance (Nat.lt_of_succ_lt hsize)) fun hshares => ?_
      have hcloser' := (hlast.next_kind hshares).symm.trans hcloser
      rw [if_pos hcloser']
      refine .afterAdvance hlast fun _ _ hadvance => ?_
      refine .of_current fun hstop => .done hadvance ?_
      rw [hadvance.spanFrom hstop hstart, Statement.mapSpans]
    · rw [if_neg hcloser]
      refine .done_of_next hlast (fun hok => hok hspan.symm) (fun hstop => ?_)
        fun hnext => if_neg ?_
      · rw [hlast.spanFrom hstop hstart, Statement.mapSpans]
      · rcases hnext with hsame | heof
        · rwa [hsame]
        · simp [heof]
termination_by 8 * left.size + 4
decreasing_by omega

end

end Grammar

end Frontend
