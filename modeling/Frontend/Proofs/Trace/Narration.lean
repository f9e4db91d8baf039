import Frontend.Proofs.Trace.Walk
import Frontend.Proofs.Tree.Nodes

/-!
# Readers take walks

Each reader of the grammar walks from the token that it starts on to the one where it stops, and if
nothing is wrong, the statements that it tells of on the way are those of the tree that it reads, in
the order of the tree.  There is a theorem for each reader, and they call one another as the readers
do.
-/

namespace Frontend

/-- The offset of the statement that an event tells of. -/
def Event.started? : Event → Option Nat
  | .statementStarted _ offset => some offset
  | _ => none

/-- The offsets of the statements that some events tell of. -/
def startsOf (events : List Event) : List Nat := events.filterMap Event.started?

@[simp]
theorem startsOf_append (earlier later : List Event) :
    startsOf (earlier ++ later) = startsOf earlier ++ startsOf later :=
  List.filterMap_append

@[simp]
theorem startsOf_warnings (tokens : List Token) : startsOf (Event.warnings tokens) = [] := by
  refine List.filterMap_eq_nil_iff.mpr fun event hmember => ?_
  obtain ⟨token, -, hevent⟩ := List.mem_filterMap.mp hmember
  rw [Event.warning?] at hevent
  split at hevent
  · obtain ⟨c, -, rfl⟩ := Option.map_eq_some_iff.mp hevent
    rfl
  · cases hevent

@[simp]
theorem startsOf_broughtIntoView (cursor : Cursor) : startsOf cursor.broughtIntoView = [] :=
  startsOf_warnings _

/-- The offsets at which the statements among some nodes start. -/
def startsAmong (nodes : List Node) : List Nat :=
  (statementsAmong nodes).map fun read => read.span.start

@[simp]
theorem startsAmong_statement (read : Statement) (nodes : List Node) :
    startsAmong (.statement read :: nodes) = read.span.start :: startsAmong nodes := rfl

@[simp]
theorem startsAmong_expression (value : Expression) (nodes : List Node) :
    startsAmong (.expression value :: nodes) = startsAmong nodes := rfl

@[simp]
theorem startsAmong_append (left right : List Node) :
    startsAmong (left ++ right) = startsAmong left ++ startsAmong right := by
  rw [startsAmong, statementsAmong_append, List.map_append, startsAmong, startsAmong]

namespace Outcome

variable {α β : Type} {cursor : Cursor} {origin : Stage} {noting : Prop}
variable {told : α → List Nat → Prop} {result : β → List Nat → Prop}

/-- A reader walks to where it stops, which is after a fault if there is no value.  Without
diagnostics the value and the statements that were told of belong together. -/
structure Narrates (outcome : Outcome cursor α) (origin : Stage) (noting : Prop)
    (told : α → List Nat → Prop) : Prop where
  read : outcome.value.isSome →
    Walk origin cursor outcome.diagnostics outcome.events .reading outcome.stop
  lost : outcome.value = none →
    Walk origin cursor outcome.diagnostics outcome.events .failed outcome.stop ∨
      noting ∧ Walk origin cursor outcome.diagnostics outcome.events .noted outcome.stop
  told : outcome.diagnostics = [] → ∀ value, outcome.value = some value →
    told value (startsOf outcome.events)

namespace Narrates

/-- Something is wrong if there is no value. -/
theorem ne_nil {outcome : Outcome cursor α} (hnarrates : outcome.Narrates origin noting told)
    (hsound : origin.IsSound) (hnone : outcome.value = none) : outcome.diagnostics ≠ [] := by
  intro hquiet
  rcases hnarrates.lost hnone with hwalk | ⟨-, hwalk⟩
  · exact hwalk.isSound hquiet hsound
  · exact hwalk.isSound hquiet hsound

/-- Whether or not there is a value, the cursor may move on. -/
theorem leaves {outcome : Outcome cursor α} (hnarrates : outcome.Narrates origin noting told) :
    ∃ stage, stage ≠ .arrived ∧
      Walk origin cursor outcome.diagnostics outcome.events stage outcome.stop := by
  cases hvalue : outcome.value with
  | some value => exact ⟨.reading, nofun, hnarrates.read (hvalue ▸ rfl)⟩
  | none =>
      rcases hnarrates.lost hvalue with hwalk | ⟨-, hwalk⟩
      · exact ⟨.failed, nofun, hwalk⟩
      · exact ⟨.noted, nofun, hwalk⟩

theorem done {value : α} (htold : told value []) :
    (Outcome.done cursor value).Narrates .reading noting told where
  read _ := .stay
  lost hnone := by cases hnone
  told _ _ hvalue := Option.some.inj hvalue ▸ htold

theorem faultHere {problem : Problem} (hblames : problem.Blames cursor.current.kind) :
    (cursor.faultHere problem : Outcome cursor α).Narrates .reading noting told where
  read hsome := by cases hsome
  lost _ := .inl (.faultHere hblames .stay)
  told hquiet := by cases hquiet

theorem faultNext {problem : Problem} (hblames : problem.Blames cursor.next.kind) :
    (cursor.faultNext problem : Outcome cursor α).Narrates .reading noting told where
  read hsome := by cases hsome
  lost _ := .inl (.faultNext hblames .stay)
  told hquiet := by cases hquiet

/-- A reader that starts no statement with the first token. -/
theorem pass {outcome : Outcome cursor α} (hnarrates : outcome.Narrates .reading noting told) :
    outcome.Narrates .arrived noting told where
  read hsome := .pass (hnarrates.read hsome)
  lost hnone := (hnarrates.lost hnone).imp .pass (And.imp_right .pass)
  told := hnarrates.told

theorem imp {outcome : Outcome cursor α} {other : α → List Nat → Prop}
    (hnarrates : outcome.Narrates origin noting told)
    (himp : ∀ value starts, told value starts → other value starts) :
    outcome.Narrates origin noting other :=
  ⟨hnarrates.read, hnarrates.lost,
    fun hquiet value hvalue => himp value _ (hnarrates.told hquiet value hvalue)⟩

theorem mono {outcome : Outcome cursor α} (hnarrates : outcome.Narrates origin False told) :
    outcome.Narrates origin noting told :=
  ⟨hnarrates.read, fun hnone => .inl ((hnarrates.lost hnone).resolve_right And.left),
    hnarrates.told⟩

/-- A reader that may start a statement with the next token. -/
theorem afterArrival {outcome : Outcome cursor.advance α}
    (hnarrates : outcome.Narrates .arrived noting told) :
    (Outcome.afterAdvance outcome).Narrates .reading noting told where
  read hsome := .move nofun (hnarrates.read hsome)
  lost hnone := (hnarrates.lost hnone).imp (.move nofun) (And.imp_right (.move nofun))
  told hquiet value hvalue := by
    simpa only [Outcome.afterAdvance, startsOf_append, startsOf_broughtIntoView, List.nil_append]
      using hnarrates.told hquiet value hvalue

theorem afterAdvance {outcome : Outcome cursor.advance α}
    (hnarrates : outcome.Narrates .reading noting told) :
    (Outcome.afterAdvance outcome).Narrates .reading noting told :=
  hnarrates.pass.afterArrival

theorem asStatement {outcome : Outcome cursor α} (hcurrent : cursor.current.kind ≠ .eof)
    (hnarrates : outcome.Narrates .reading noting fun value starts =>
      told value (cursor.current.span.start :: starts)) :
    outcome.asStatement.Narrates .arrived noting told where
  read hsome := .start hcurrent (hnarrates.read hsome)
  lost hnone := (hnarrates.lost hnone).imp (.start hcurrent) (And.imp_right (.start hcurrent))
  told := hnarrates.told

theorem orNote {outcome : Outcome cursor α} (hnarrates : outcome.Narrates origin False told) :
    (outcome.orNote .returnWithoutValue).Narrates origin True told := by
  cases hvalue : outcome.value with
  | some value =>
      rw [orNote_of_value hvalue]
      exact hnarrates.mono
  | none =>
      have hwalk := ((hnarrates.lost hvalue).resolve_right And.left).trans (.note .stay)
      rw [List.append_nil] at hwalk
      rw [orNote_of_fault hvalue]
      refine ⟨fun hsome => ?_, fun _ => .inr ⟨trivial, hwalk⟩, fun hquiet => ?_⟩
      · rw [hvalue] at hsome
        cases hsome
      · exact absurd hquiet (List.append_ne_nil_of_right_ne_nil _ (List.cons_ne_nil _ _))

/-- Two parts in order, of which the first has a value. -/
theorem followedBy {first : Outcome cursor α} {second : Outcome first.stop β} {value : α}
    (hfirst : first.Narrates origin noting told) (hvalue : first.value = some value)
    (hsecond : second.Narrates .reading noting fun last starts =>
      ∀ earlier, told value earlier → result last (earlier ++ starts)) :
    (first.followedBy second).Narrates origin noting result := by
  have hwalk := hfirst.read (hvalue ▸ rfl)
  constructor
  · exact fun hsome => hwalk.trans (hsecond.read hsome)
  · exact fun hnone => (hsecond.lost hnone).imp hwalk.trans (And.imp_right hwalk.trans)
  · intro hquiet last hlast
    obtain ⟨hquietFirst, hquietSecond⟩ := List.append_eq_nil_iff.mp hquiet
    rw [Outcome.followedBy, startsOf_append]
    exact hsecond.told hquietSecond last hlast _ (hfirst.told hquietFirst value hvalue)

theorem andThen {first : Outcome cursor α}
    {rest : α → (next : Cursor) → next.size ≤ cursor.size → Outcome next β}
    (hfirst : first.Narrates origin noting told)
    (hrest : ∀ value next hsize, (rest value next hsize).Narrates .reading noting
      fun last starts => ∀ earlier, told value earlier → result last (earlier ++ starts)) :
    (first.andThen rest).Narrates origin noting result := by
  cases hvalue : first.value with
  | some value =>
      rw [andThen_of_value hvalue]
      exact hfirst.followedBy hvalue (hrest value _ _)
  | none =>
      rw [andThen_of_fault hvalue]
      exact ⟨nofun, fun _ => hfirst.lost hvalue, nofun⟩

/-- Nothing is read after a part. -/
theorem andDone {first : Outcome cursor α} {value : α → Cursor → β}
    (hfirst : first.Narrates origin noting told)
    (hresult : ∀ read last starts, told read starts → result (value read last) starts) :
    (first.andThen fun read last _ => .done last (value read last)).Narrates origin noting
      result :=
  hfirst.andThen fun read last _ => .done fun earlier htold =>
    (List.append_nil earlier).symm ▸ hresult read last earlier htold

/-- A statement and the reading that goes on at the token after it, whether or not the statement
has a value. -/
theorem regardless {first : Outcome cursor α}
    {rest : Option α → (next : Cursor) → next.size ≤ cursor.size → Outcome next.advance β}
    (hfirst : first.Narrates .arrived True told)
    (hrest : ∀ read next hsize, (rest read next hsize).Narrates .arrived noting
      fun last starts => ∀ value earlier, read = some value → told value earlier →
        result last (earlier ++ starts)) :
    (first.regardless fun read next hsize => .afterAdvance (rest read next hsize)).Narrates
      .arrived noting result := by
  obtain ⟨stage, hleaves, hwalk⟩ := hfirst.leaves
  have hlater := hrest first.value first.stop first.size_le
  constructor
  · exact fun hsome => hwalk.trans (.move hleaves (hlater.read hsome))
  · exact fun hnone => (hlater.lost hnone).imp (fun hlast => hwalk.trans (.move hleaves hlast))
      (And.imp_right fun hlast => hwalk.trans (.move hleaves hlast))
  · intro hquiet last hlast
    obtain ⟨hquietFirst, hquietRest⟩ := List.append_eq_nil_iff.mp hquiet
    cases hvalue : first.value with
    | none => exact absurd hquietFirst (hfirst.ne_nil trivial hvalue)
    | some value =>
        have htold := hlater.told hquietRest last hlast value _ hvalue
          (hfirst.told hquietFirst value hvalue)
        simpa only [Outcome.regardless, Outcome.followedBy, Outcome.afterAdvance, startsOf_append,
          startsOf_broughtIntoView, List.nil_append] using htold

theorem expectThen {kind : Kind} {what : Expectation}
    {rest : Unit → (next : Cursor) → next.size ≤ cursor.size → Outcome next β}
    (hrest : ∀ hsize, (rest () cursor.advance hsize).Narrates .reading noting result) :
    ((cursor.expect kind what).andThen rest).Narrates .reading noting result := by
  unfold Cursor.expect
  split
  · have hmoved : (Outcome.afterAdvance (.done cursor.advance ())).Narrates .reading noting
        fun _ starts => starts = [] := .afterAdvance (.done rfl)
    have hlater := hrest cursor.size_advance_le
    rw [andThen_of_value rfl]
    refine hmoved.followedBy rfl ⟨hlater.read, hlater.lost, ?_⟩
    intro hquiet last hlast earlier hnil
    rw [hnil]
    exact hlater.told hquiet last hlast
  · rw [andThen_of_fault rfl]
    exact .faultNext rfl

end Narrates

end Outcome

namespace Grammar

variable {noting : Prop}

theorem integer_narrates (cursor : Cursor) :
    (integer cursor).Narrates .reading noting fun value starts =>
      startsAmong value.nodes = starts := by
  rw [integer]
  split
  · exact .done rfl
  · exact .faultHere trivial

theorem propertySeparator_narrates (cursor : Cursor) :
    (propertySeparator cursor).Narrates .reading noting fun _ starts => starts = [] := by
  rw [propertySeparator]
  split
  · exact .afterAdvance (.done rfl)
  · exact .done rfl
  · exact .faultNext trivial
  · exact .faultNext rfl

theorem parameters_narrates (cursor : Cursor) :
    (parameters cursor).Narrates .reading noting fun _ starts => starts = [] := by
  rw [parameters]
  split
  · exact .done rfl
  · split
    · next hname =>
        have hsize : 0 < cursor.size := Cursor.size_pos_of_current (by simp [hname])
        refine .afterAdvance ?_
        split
        · exact .afterAdvance ((parameters_narrates _).andDone fun _ _ _ hnil => hnil)
        · exact .done rfl
        · exact .faultHere trivial
        · exact .faultHere rfl
    · split
      · exact .faultHere trivial
      · exact .faultHere rfl
termination_by cursor.size
decreasing_by
  simp only [Cursor.size_advance]
  omega

mutual

theorem expression_narrates {noting : Prop} (least : Precedence) (levels : Nat) (cursor : Cursor) :
    (expression least levels cursor).Narrates .reading noting fun value starts =>
      startsAmong value.nodes = starts := by
  rw [expression.eq_def]
  split
  · exact .faultHere trivial
  · next levels =>
      refine (operand_narrates levels cursor).andThen fun left last _ => ?_
      refine (extend_narrates least levels left last).imp ?_
      intro value starts htold earlier hearlier
      rw [htold, hearlier]
termination_by 8 * cursor.size + 3
decreasing_by all_goals omega

theorem operand_narrates {noting : Prop} (levels : Nat) (cursor : Cursor) :
    (operand levels cursor).Narrates .reading noting fun value starts =>
      startsAmong value.nodes = starts := by
  rw [operand]
  split
  · exact .done rfl
  · exact integer_narrates cursor
  · exact .done rfl
  · exact .done rfl
  · exact .done rfl
  · exact unary_narrates .not levels cursor _
  · exact unary_narrates .negate levels cursor _
  · exact array_narrates levels cursor _
  · exact object_narrates levels cursor
  · exact conditional_narrates levels cursor _
  · exact function_narrates levels cursor _
  · exact .faultHere rfl
termination_by 8 * cursor.size + 2
decreasing_by all_goals omega

theorem extend_narrates {noting : Prop} (least : Precedence) (levels : Nat) (left : Expression)
    (cursor : Cursor) :
    (extend least levels left cursor).Narrates .reading noting fun value starts =>
      startsAmong value.nodes = startsAmong left.nodes ++ starts := by
  rw [extend]
  split
  · next operator hoperator =>
      have hsize := Cursor.one_lt_size_of_next (BinaryOperator.ne_eof_of_ofKind? hoperator)
      have hmoved := cursor.size_advance
      have hmovedAgain := cursor.advance.size_advance
      split
      · refine .afterAdvance (.afterAdvance ?_)
        refine (expression_narrates operator.precedence levels _).andThen fun right last _ => ?_
        refine (extend_narrates least levels _ last).imp ?_
        intro value starts htold earlier hearlier
        rw [htold, ← hearlier, Expression.nodes, startsAmong_expression, startsAmong_append,
          List.append_assoc]
      · exact .done (by simp)
  · split
    · next hcall =>
        have hsize : 1 < cursor.size := Cursor.one_lt_size_of_next (by simp [hcall.1])
        have hmoved := cursor.size_advance
        have hmovedAgain := cursor.advance.size_advance
        refine .afterAdvance (.afterAdvance ?_)
        refine (items_narrates .rParen .argumentsEnd levels _).andThen fun arguments last _ => ?_
        refine (extend_narrates least levels _ last).imp ?_
        intro value starts htold earlier hearlier
        rw [htold, ← hearlier, Expression.nodes, startsAmong_expression, startsAmong_append,
          List.append_assoc]
    · exact .done (by simp)
termination_by 8 * cursor.size + 2
decreasing_by all_goals omega

theorem unary_narrates {noting : Prop} (operator : UnaryOperator) (levels : Nat) (cursor : Cursor)
    (hsize : 0 < cursor.size) :
    (unary operator levels cursor hsize).Narrates .reading noting fun value starts =>
      startsAmong value.nodes = starts := by
  have hmoved := cursor.size_advance
  rw [unary]
  exact .afterAdvance ((expression_narrates .unary levels _).andDone fun _ _ _ htold => htold)
termination_by 8 * cursor.size + 1
decreasing_by all_goals omega

theorem array_narrates {noting : Prop} (levels : Nat) (cursor : Cursor) (hsize : 0 < cursor.size) :
    (array levels cursor hsize).Narrates .reading noting fun value starts =>
      startsAmong value.nodes = starts := by
  have hmoved := cursor.size_advance
  rw [array]
  exact .afterAdvance
    ((items_narrates .rBracket .arrayEnd levels _).andDone fun _ _ _ htold => htold)
termination_by 8 * cursor.size + 1
decreasing_by all_goals omega

theorem items_narrates {noting : Prop} (closer : Kind) (what : Expectation) (levels : Nat)
    (cursor : Cursor) :
    (items closer what levels cursor).Narrates .reading noting fun values starts =>
      startsAmong (nodesOfExpressions values) = starts := by
  rw [items]
  split
  · exact .done rfl
  · refine (expression_narrates .lowest levels cursor).andThen fun first last _ => ?_
    refine (moreItems_narrates closer what levels last).andDone fun rest _ starts htold => ?_
    rintro _ rfl
    rw [nodesOfExpressions, startsAmong_append, htold]
termination_by 8 * cursor.size + 4
decreasing_by all_goals omega

theorem moreItems_narrates {noting : Prop} (closer : Kind) (what : Expectation) (levels : Nat)
    (cursor : Cursor) :
    (moreItems closer what levels cursor).Narrates .reading noting fun values starts =>
      startsAmong (nodesOfExpressions values) = starts := by
  rw [moreItems]
  split
  · next hcomma =>
      have hsize : 1 < cursor.size := Cursor.one_lt_size_of_next (by simp [hcomma])
      have hmoved := cursor.size_advance
      have hmovedAgain := cursor.advance.size_advance
      refine .afterAdvance (.afterAdvance ?_)
      refine (expression_narrates .lowest levels _).andThen fun first last _ => ?_
      refine (moreItems_narrates closer what levels last).andDone fun rest _ starts htold => ?_
      rintro _ rfl
      rw [nodesOfExpressions, startsAmong_append, htold]
  · exact .expectThen fun _ => .done rfl
termination_by 8 * cursor.size
decreasing_by all_goals omega

theorem object_narrates {noting : Prop} (levels : Nat) (cursor : Cursor) :
    (object levels cursor).Narrates .reading noting fun value starts =>
      startsAmong value.nodes = starts := by
  rw [object]
  exact (properties_narrates levels cursor).andDone fun _ _ _ htold => htold
termination_by 8 * cursor.size + 1
decreasing_by all_goals omega

theorem properties_narrates {noting : Prop} (levels : Nat) (cursor : Cursor) :
    (properties levels cursor).Narrates .reading noting fun entries starts =>
      startsAmong (nodesOfProperties entries) = starts := by
  rw [properties]
  split
  · exact .afterAdvance (.done rfl)
  · exact .faultNext trivial
  · next hident =>
      have hsize : 1 < cursor.size := Cursor.one_lt_size_of_next (by simp [hident])
      have hmoved := cursor.size_advance
      refine .afterAdvance ?_
      refine (property_narrates levels _).andThen fun entry last _ => ?_
      refine (propertySeparator_narrates last).andThen fun _ last _ => ?_
      refine (properties_narrates levels last).andDone fun entries _ starts htold => ?_
      rintro _ rfl _ rfl
      rw [nodesOfProperties, startsAmong_append, htold, List.nil_append]
  · exact .faultNext rfl
termination_by 8 * cursor.size
decreasing_by all_goals omega

theorem property_narrates {noting : Prop} (levels : Nat) (cursor : Cursor) :
    (property levels cursor).Narrates .reading noting fun entry starts =>
      startsAmong entry.nodes = starts := by
  rw [property]
  split
  · exact .done rfl
  · exact .done rfl
  · next hcolon =>
      have hsize : 1 < cursor.size := Cursor.one_lt_size_of_next (by simp [hcolon])
      have hmoved := cursor.size_advance
      have hmovedAgain := cursor.advance.size_advance
      refine .afterAdvance (.afterAdvance ?_)
      exact (expression_narrates .lowest levels _).andDone fun _ _ _ htold => htold
  · exact .faultNext trivial
  · exact .faultNext rfl
termination_by 8 * cursor.size
decreasing_by all_goals omega

theorem conditional_narrates {noting : Prop} (levels : Nat) (cursor : Cursor)
    (hsize : 0 < cursor.size) :
    (conditional levels cursor hsize).Narrates .reading noting fun value starts =>
      startsAmong value.nodes = starts := by
  have hmoved := cursor.size_advance
  have hmovedAgain := cursor.advance.size_advance
  rw [conditional]
  refine .expectThen fun _ => .afterAdvance ?_
  refine (expression_narrates .lowest levels _).andThen fun condition last _ => ?_
  refine .expectThen fun _ => .expectThen fun _ => ?_
  refine (block_narrates levels _).andThen fun consequence last _ => ?_
  split
  · have hlastMoved := last.size_advance
    refine .afterAdvance (.expectThen fun _ => ?_)
    refine (block_narrates levels _).andDone fun alternative _ starts htold => ?_
    rintro _ rfl _ rfl
    simp only [Expression.nodes, nodesOfAlternative, startsAmong_expression, startsAmong_append,
      htold]
  · refine .done ?_
    rintro _ rfl _ rfl
    simp [Expression.nodes, nodesOfAlternative]
termination_by 8 * cursor.size + 1
decreasing_by all_goals omega

theorem function_narrates {noting : Prop} (levels : Nat) (cursor : Cursor)
    (hsize : 0 < cursor.size) :
    (function levels cursor hsize).Narrates .reading noting fun value starts =>
      startsAmong value.nodes = starts := by
  have hmoved := cursor.size_advance
  have hmovedAgain := cursor.advance.size_advance
  rw [function]
  refine .expectThen fun _ => .afterAdvance ?_
  refine (parameters_narrates _).andThen fun names last _ => ?_
  refine .expectThen fun _ => ?_
  refine (block_narrates levels _).andDone fun body _ starts htold => ?_
  rintro _ rfl
  exact htold
termination_by 8 * cursor.size + 1
decreasing_by all_goals omega

theorem block_narrates {noting : Prop} (levels : Nat) (cursor : Cursor) :
    (block levels cursor).Narrates .reading noting fun body starts =>
      startsAmong body.nodes = starts := by
  have hmoved := cursor.size_advance
  rw [block]
  exact .afterArrival ((blockStatements_narrates levels _).andDone fun _ _ _ htold => htold)
termination_by 8 * cursor.size + 7
decreasing_by all_goals omega

theorem blockStatements_narrates {noting : Prop} (levels : Nat) (cursor : Cursor) :
    (blockStatements levels cursor).Narrates .arrived noting fun read starts =>
      startsAmong (nodesOfStatements read) = starts := by
  rw [blockStatements]
  split
  · exact .pass (.done rfl)
  · split
    · exact .pass (.faultHere trivial)
    · next hcurrent =>
        have hsize := Cursor.size_pos_of_current hcurrent
        refine (statement_narrates levels cursor hcurrent).regardless fun read last _ => ?_
        have hmoved := last.size_advance
        refine (blockStatements_narrates levels _).andDone fun statements _ starts htold => ?_
        rintro first _ rfl rfl
        rw [Option.toList_some, List.singleton_append, nodesOfStatements, startsAmong_append,
          htold]
termination_by 8 * cursor.size + 6
decreasing_by all_goals omega

theorem statement_narrates (levels : Nat) (cursor : Cursor)
    (hcurrent : cursor.current.kind ≠ .eof) :
    (statement levels cursor).Narrates .arrived True fun read starts =>
      startsAmong read.nodes = starts := by
  rw [statement]
  refine .asStatement hcurrent ?_
  split
  · exact binding_narrates false levels cursor
  · exact binding_narrates true levels cursor
  · exact functionDeclaration_narrates levels cursor _
  · exact returned_narrates levels cursor
  · exact expressionStatement_narrates levels cursor
termination_by 8 * cursor.size + 5
decreasing_by all_goals omega

theorem binding_narrates {noting : Prop} (constant : Bool) (levels : Nat) (cursor : Cursor) :
    (binding constant levels cursor).Narrates .reading noting fun read starts =>
      startsAmong read.nodes = cursor.current.span.start :: starts := by
  rw [binding]
  refine .expectThen fun _ => ?_
  dsimp only
  split
  · refine .afterAdvance ?_
    split
    · exact .faultHere trivial
    · exact .done rfl
  · have hmoved := cursor.advance.advance.size_advance
    refine .expectThen fun _ => .afterAdvance ?_
    refine (expression_narrates .lowest levels _).andThen fun value last _ => ?_
    refine .expectThen fun _ => .done ?_
    rintro _ rfl
    rw [Statement.nodes, nodesOfValue, startsAmong_statement, List.append_nil]
    rfl
termination_by 8 * cursor.size + 4
decreasing_by all_goals omega

theorem functionDeclaration_narrates {noting : Prop} (levels : Nat) (cursor : Cursor)
    (hsize : 0 < cursor.size) :
    (functionDeclaration levels cursor hsize).Narrates .reading noting fun read starts =>
      startsAmong read.nodes = cursor.current.span.start :: starts := by
  have hmoved := cursor.advance.advance.size_advance
  rw [functionDeclaration]
  refine .expectThen fun _ => .expectThen fun _ => .afterAdvance ?_
  refine (parameters_narrates _).andThen fun names last _ => ?_
  refine .expectThen fun _ => ?_
  refine (block_narrates levels _).andDone fun body _ starts htold => ?_
  rintro _ rfl
  rw [Statement.nodes, startsAmong_statement, htold]
  rfl
termination_by 8 * cursor.size + 4
decreasing_by all_goals omega

theorem returned_narrates (levels : Nat) (cursor : Cursor) :
    (returned levels cursor).Narrates .reading True fun read starts =>
      startsAmong read.nodes = cursor.current.span.start :: starts := by
  have hmoved := cursor.size_advance
  rw [returned]
  refine .afterAdvance ?_
  refine (expression_narrates .lowest levels _).orNote.andThen fun value last _ => ?_
  refine .expectThen fun _ => .done ?_
  rintro _ rfl
  rw [Statement.nodes, startsAmong_statement, List.append_nil]
  rfl
termination_by 8 * cursor.size + 4
decreasing_by all_goals omega

theorem expressionStatement_narrates {noting : Prop} (levels : Nat) (cursor : Cursor) :
    (expressionStatement levels cursor).Narrates .reading noting fun read starts =>
      startsAmong read.nodes = cursor.current.span.start :: starts := by
  rw [expressionStatement]
  refine (expression_narrates .lowest levels cursor).andThen fun value last _ => ?_
  split
  · refine .afterAdvance (.done ?_)
    rintro _ rfl
    rw [Statement.nodes, startsAmong_statement, List.append_nil]
    rfl
  · refine .done ?_
    rintro _ rfl
    rw [Statement.nodes, startsAmong_statement, List.append_nil]
    rfl
termination_by 8 * cursor.size + 4
decreasing_by all_goals omega

end

theorem programStatements_narrates (cursor : Cursor) :
    (programStatements cursor).Narrates .arrived noting fun read starts =>
      startsAmong (nodesOfStatements read) = starts := by
  rw [programStatements]
  split
  · exact .pass (.done rfl)
  · next hcurrent =>
      have hsize := Cursor.size_pos_of_current hcurrent
      refine (statement_narrates maxNesting cursor hcurrent).regardless fun read last _ => ?_
      have hmoved := last.size_advance
      refine (programStatements_narrates _).andDone fun statements _ starts htold => ?_
      rintro first _ rfl rfl
      rw [Option.toList_some, List.singleton_append, nodesOfStatements, startsAmong_append, htold]
termination_by cursor.size
decreasing_by omega

end Grammar

end Frontend
