import Frontend.Proofs.Grammar.Adequacy
import Frontend.Proofs.Grammar.Placement
import Frontend.Proofs.Grammar.Return
import Frontend.Proofs.Lexing.Layout

/-!
# Completeness

However a well-formed tree is spelled, its statements are read from the words without a diagnostic,
and the tree that comes back differs from the first one in its spans only.

An expression grows while it is read: a reader that has come to the end of a left operand does not
know yet whether it is one.  So what is shown of an expression is that reading it comes down to
extending it, and a left operand is used in that form.
-/

namespace Frontend.Grammar

open Outcome

/-- A token of this kind leaves an expression before it as it is: it neither extends it nor starts
an alternative. -/
def Ends (next : Kind) (tightness : Precedence) : Prop :=
  next.precedence ≤ tightness ∧ next ≠ .kwElse

theorem Ends.of_lowest {next : Kind} {tightness : Precedence} (hnext : next.precedence = .lowest)
    (helse : next ≠ .kwElse) : Ends next tightness := by
  refine ⟨?_, helse⟩
  rw [hnext]
  exact Precedence.lowest_le tightness

/-- Statements that are read one after another, from the cursor up to the final one.  Each starts
with a kind of token that starts one, so that no round is spent on anything else. -/
inductive ReadsRow (levels : Nat) (final : Cursor) : List Statement → Cursor → Prop where
  | nil : ReadsRow levels final [] final
  | cons {first statements cursor middle}
      (hstart : cursor.current.kind.startsStatement = true)
      (hfirst : (statement levels cursor).Returns
        (fun read => read.mapSpans nowhere = first.mapSpans nowhere) middle)
      (hrest : ReadsRow levels final statements middle.advance) :
      ReadsRow levels final (first :: statements) cursor

/-- Wherever the words stand, the phrase is read from them.  An expression may be the front of a
larger one, so it is read together with whatever extends it. -/
def Readable (words : List Word) : Phrase → Prop
  | .expression value => ∀ least levels cursor last back result final,
      cursor.Covers words last back → value.nesting ≤ levels + 1 → least < .call →
      least.Admits value.tightness → Ends (back.headD (.atEnd cursor.stop)).kind value.tightness →
      (∀ read, read.mapSpans nowhere = value.mapSpans nowhere →
        (extend least levels read ⟨last :: back, cursor.stop⟩).Returns result final) →
      (expression least (levels + 1) cursor).Returns result final
  | .items values => ∀ closer what levels cursor closing back,
      closer = .rParen ∨ closer = .rBracket → cursor.Faces words (closing :: back) →
      closing.kind = closer → nestingOfExpressions values ≤ levels →
      (items closer what levels cursor).Returns
        (fun read => mapSpansOfExpressions nowhere read = mapSpansOfExpressions nowhere values)
        ⟨closing :: back, cursor.stop⟩
  | .property entry => ∀ levels cursor last next back,
      cursor.Covers words last (next :: back) → next.kind = .comma ∨ next.kind = .rBrace →
      entry.nesting ≤ levels →
      (property levels cursor).Returns
        (fun read => read.mapSpans nowhere = entry.mapSpans nowhere)
        ⟨last :: next :: back, cursor.stop⟩
  | .properties entries => ∀ levels cursor closing back,
      cursor.advance.Faces words (closing :: back) → closing.kind = .rBrace →
      nestingOfProperties entries ≤ levels →
      (properties levels cursor).Returns
        (fun read => mapSpansOfProperties nowhere read = mapSpansOfProperties nowhere entries)
        ⟨closing :: back, cursor.stop⟩
  | .parameters names => ∀ cursor closing back,
      cursor.Faces words (closing :: back) → closing.kind = .rParen →
      (parameters cursor).Returns
        (fun read => read.map (Identifier.mapSpan nowhere) = names.map (Identifier.mapSpan nowhere))
        ⟨closing :: back, cursor.stop⟩
  | .block body => ∀ levels cursor last back,
      cursor.Covers words last back → body.nesting ≤ levels →
      cursor.current.kind = .lBrace ∧
        (block levels cursor).Returns
          (fun read => read.mapSpans nowhere = body.mapSpans nowhere) ⟨last :: back, cursor.stop⟩
  | .statement value => ∀ levels cursor last back,
      cursor.Covers words last back → value.nesting ≤ levels →
      (statement levels cursor).Returns
        (fun read => read.mapSpans nowhere = value.mapSpans nowhere) ⟨last :: back, cursor.stop⟩
  | .statements values => ∀ levels cursor rest,
      cursor.Faces words rest → nestingOfStatements values ≤ levels →
      (rest.headD (.atEnd cursor.stop)).kind = .rBrace ∨
        (rest.headD (.atEnd cursor.stop)).kind = .eof →
      ReadsRow levels ⟨rest, cursor.stop⟩ values cursor

namespace ReadsRow

variable {levels stop : Nat} {statements : List Statement} {cursor final : Cursor}

theorem blockStatements (hrow : ReadsRow levels final statements cursor)
    (hfinal : final.current.kind = .rBrace) :
    (blockStatements levels cursor).Returns
      (fun read => mapSpansOfStatements nowhere read = mapSpansOfStatements nowhere statements)
      final := by
  induction hrow with
  | nil =>
      rw [Grammar.blockStatements, if_pos hfinal]
      exact .done rfl
  | cons hstart hfirst _ ih =>
      apply blockStatements_returns hstart hfirst
      intro first hlike
      apply ih.imp
      intro rest hrest
      rw [mapSpansOfStatements, mapSpansOfStatements, hlike, hrest]

theorem programStatements (hrow : ReadsRow maxNesting final statements cursor)
    (hfinal : final.current.kind = .eof) :
    (programStatements cursor).Returns
      (fun read => mapSpansOfStatements nowhere read = mapSpansOfStatements nowhere statements)
      final := by
  induction hrow with
  | nil =>
      rw [Grammar.programStatements, dif_pos hfinal]
      exact .done rfl
  | cons hstart hfirst _ ih =>
      apply programStatements_returns hstart hfirst
      intro first hlike
      apply ih.imp
      intro rest hrest
      rw [mapSpansOfStatements, mapSpansOfStatements, hlike, hrest]

end ReadsRow

/-! ## Expressions -/

section Expressions

variable {value : Expression} {words : List Word} {span : Span}

/-- An expression is read up to a token that ends it.  What could have extended it further is then
nothing at all. -/
theorem Readable.returns (hreadable : Readable words (.expression value)) {least : Precedence}
    {levels : Nat} {cursor : Cursor} {last : Token} {back : List Token}
    (hcovers : cursor.Covers words last back) (hnesting : value.nesting ≤ levels)
    (hleast : least < .call) (hadmits : least.Admits value.tightness)
    (hends : Ends (back.headD (.atEnd cursor.stop)).kind value.tightness)
    (hheld : (back.headD (.atEnd cursor.stop)).kind.precedence ≤ least) :
    (expression least levels cursor).Returns
      (fun read => read.mapSpans nowhere = value.mapSpans nowhere) ⟨last :: back, cursor.stop⟩ := by
  obtain ⟨further, rfl⟩ := Nat.exists_eq_add_of_lt (Nat.lt_of_lt_of_le value.nesting_pos hnesting)
  rw [Nat.zero_add] at hnesting ⊢
  apply hreadable _ _ _ _ _ _ _ hcovers hnesting hleast hadmits hends
  intro read hlike
  have hend : ¬ least < (back.headD (.atEnd cursor.stop)).kind.precedence :=
    Precedence.not_lt.mpr hheld
  rw [extend_of_not_lt hend]
  exact .done hlike

/-- Where an expression may hold as loosely as it likes, it is read up to a token that does not
hold it. -/
theorem Readable.returns_lowest (hreadable : Readable words (.expression value))
    {levels : Nat} {cursor : Cursor} {last : Token} {back : List Token}
    (hcovers : cursor.Covers words last back) (hnesting : value.nesting ≤ levels)
    (hnext : (back.headD (.atEnd cursor.stop)).kind.precedence = .lowest)
    (helse : (back.headD (.atEnd cursor.stop)).kind ≠ .kwElse) :
    (expression .lowest levels cursor).Returns
      (fun read => read.mapSpans nowhere = value.mapSpans nowhere) ⟨last :: back, cursor.stop⟩ := by
  apply hreadable.returns hcovers hnesting (by decide) (.inl value.lowest_lt_tightness)
  · exact .of_lowest hnext helse
  · rw [hnext]
    exact Precedence.lowest_le _

/-- Reading an operand comes down to extending it, as the loop of `parse_expression_at` does after
the first part. -/
theorem readable_of_operand
    (hoperand : ∀ levels cursor last back, cursor.Covers words last back →
      value.nesting ≤ levels + 1 → Ends (back.headD (.atEnd cursor.stop)).kind value.tightness →
      (operand levels cursor).Returns
        (fun read => read.mapSpans nowhere = value.mapSpans nowhere)
        ⟨last :: back, cursor.stop⟩) :
    Readable words (.expression value) := by
  intro least levels cursor last back result final hcovers hnesting _ _ hends hextend
  exact expression_returns (hoperand levels cursor last back hcovers hnesting hends) hextend

theorem readable_identifier {identifier : Identifier} :
    Readable [identifier.word] (.expression (.identifier span identifier)) := by
  apply readable_of_operand
  intro levels cursor last back hcovers _ _
  obtain ⟨hword, hcursor⟩ := hcovers.singleton
  rw [hcursor, operand_of_ident (congrArg Word.kind hword)]
  apply Returns.done
  rw [Expression.mapSpans, Expression.mapSpans, Cursor.identifier_mapSpan hword]
  rfl

theorem readable_integer {number : Int} {digits : String}
    (hvalue : (Numeral.ofDecimal digits.toList : Int) = number) (hrange : number ≤ maxInteger) :
    Readable [⟨.int, digits⟩] (.expression (.integer span number)) := by
  apply readable_of_operand
  intro levels cursor last back hcovers _ _
  obtain ⟨hword, hcursor⟩ := hcovers.singleton
  have hliteral : cursor.current.literal = digits := congrArg Word.literal hword
  rw [hcursor, operand_of_int (congrArg Word.kind hword), integer, hliteral,
    if_pos (Int.ofNat_le.mp (hvalue ▸ hrange))]
  apply Returns.done
  rw [Expression.mapSpans, Expression.mapSpans, hvalue]
  rfl

theorem readable_string {text : String} :
    Readable [⟨.string, text⟩] (.expression (.string span text)) := by
  apply readable_of_operand
  intro levels cursor last back hcovers _ _
  obtain ⟨hword, hcursor⟩ := hcovers.singleton
  have hliteral : cursor.current.literal = text := congrArg Word.literal hword
  rw [hcursor, operand_of_string (congrArg Word.kind hword), hliteral]
  exact .done rfl

theorem readable_boolean {truth : Bool} :
    Readable [(booleanKind truth).word] (.expression (.boolean span truth)) := by
  apply readable_of_operand
  intro levels cursor last back hcovers _ _
  obtain ⟨hword, hcursor⟩ := hcovers.singleton
  have hkind : cursor.current.kind = booleanKind truth := congrArg Word.kind hword
  rw [hcursor, operand_of_boolean hkind]
  exact .done rfl

theorem readable_unary {operator : UnaryOperator} (hoperand : Readable words (.expression value))
    (hsome : words ≠ []) (htight : .unary ≤ value.tightness) :
    Readable (operator.kind.word :: words) (.expression (.unary span operator value)) := by
  apply readable_of_operand
  intro levels cursor last back hcovers hnesting hends
  obtain ⟨hword, hinner⟩ := hcovers.cons hsome
  have hunary : Precedence.unary < .call := by decide
  have hread := hoperand.returns hinner (Nat.le_of_succ_le_succ hnesting) hunary (.inr htight)
    ⟨Nat.le_trans hends.1 htight, hends.2⟩ hends.1
  apply operand_unary_returns (congrArg Word.kind hword) hread
  intro _ read hlike
  rw [Expression.mapSpans, Expression.mapSpans, hlike]
  rfl

theorem readable_array {elements : List Expression} (helements : Readable words (.items elements)) :
    Readable (Kind.lBracket.word :: words ++ [Kind.rBracket.word])
      (.expression (.array span elements)) := by
  apply readable_of_operand
  intro levels cursor last back hcovers hnesting _
  obtain ⟨hcloser, hfront⟩ := hcovers.concat
  obtain ⟨hopener, hinner⟩ := hfront.cons
  have hread := helements .rBracket .arrayEnd levels cursor.advance last back (.inr rfl) hinner
    (congrArg Word.kind hcloser) (Nat.le_of_succ_le_succ hnesting)
  apply operand_array_returns (congrArg Word.kind hopener) hread
  intro _ read hlike
  rw [Expression.mapSpans, Expression.mapSpans, hlike]
  rfl

theorem readable_object {entries : List Property}
    (hentries : Readable words (.properties entries)) :
    Readable (Kind.lBrace.word :: words ++ [Kind.rBrace.word])
      (.expression (.object span entries)) := by
  apply readable_of_operand
  intro levels cursor last back hcovers hnesting _
  obtain ⟨hcloser, hfront⟩ := hcovers.concat
  obtain ⟨hopener, hinner⟩ := hfront.cons
  have hread := hentries levels cursor last back hinner (congrArg Word.kind hcloser)
    (Nat.le_of_succ_le_succ hnesting)
  apply operand_object_returns (congrArg Word.kind hopener) hread
  intro _ read hlike
  rw [Expression.mapSpans, Expression.mapSpans, hlike]
  rfl

variable {conditionWords blockWords elseWords nameWords : List Word}
variable {condition : Expression} {body alternative : Block}

theorem readable_conditional (hcondition : Readable conditionWords (.expression condition))
    (hsome : conditionWords ≠ []) (hbody : Readable blockWords (.block body))
    (hblock : blockWords ≠ []) :
    Readable
      (Kind.kwIf.word :: Kind.lParen.word :: conditionWords ++ Kind.rParen.word :: blockWords)
      (.expression (.conditional span condition body none)) := by
  apply readable_of_operand
  intro levels cursor last back hcovers hnesting hends
  obtain ⟨hconditionNesting, hblockNesting⟩ := Nat.max_le.mp (Nat.le_of_succ_le_succ hnesting)
  obtain ⟨closer, after, hcloser, hfront, hlater⟩ := hcovers.divided hblock
  obtain ⟨hkeyword, hfront⟩ := hfront.cons
  obtain ⟨hopener, hfront⟩ := hfront.cons
  obtain ⟨conditionLast, hinner⟩ := hfront.covers hsome
  have hclosed : closer.kind = .rParen := congrArg Word.kind hcloser
  have hread := hcondition.returns_lowest hinner hconditionNesting
    (congrArg Kind.precedence hclosed) (ne_of_eq_of_ne hclosed (by decide))
  obtain ⟨hbrace, hreadBody⟩ := hbody levels ⟨after, cursor.stop⟩ last back (hlater cursor.stop)
    (Nat.le_trans (Nat.le_max_left _ _) hblockNesting)
  apply operand_conditional_returns (congrArg Word.kind hkeyword) (congrArg Word.kind hopener) hread
    hclosed hbrace hreadBody hends.2
  intro _ read block hlike hlikeBody
  rw [Expression.mapSpans, Expression.mapSpans, hlike, hlikeBody]
  rfl

theorem readable_alternative (hcondition : Readable conditionWords (.expression condition))
    (hsome : conditionWords ≠ []) (hbody : Readable blockWords (.block body))
    (hblock : blockWords ≠ []) (halternative : Readable elseWords (.block alternative))
    (helse : elseWords ≠ []) :
    Readable
      (Kind.kwIf.word :: Kind.lParen.word :: conditionWords ++
        Kind.rParen.word :: blockWords ++ Kind.kwElse.word :: elseWords)
      (.expression (.conditional span condition body (some alternative))) := by
  apply readable_of_operand
  intro levels cursor last back hcovers hnesting _
  obtain ⟨hconditionNesting, hblockNesting⟩ := Nat.max_le.mp (Nat.le_of_succ_le_succ hnesting)
  obtain ⟨separator, other, hseparator, hfront, hother⟩ := hcovers.divided helse
  obtain ⟨closer, after, hcloser, hfront, hlater⟩ := hfront.divided
  obtain ⟨hkeyword, hfront⟩ := hfront.cons
  obtain ⟨hopener, hfront⟩ := hfront.cons
  obtain ⟨conditionLast, hinner⟩ := hfront.covers hsome
  obtain ⟨bodyLast, hmiddle⟩ := (hlater cursor.stop).covers hblock
  have hclosed : closer.kind = .rParen := congrArg Word.kind hcloser
  have hread := hcondition.returns_lowest hinner hconditionNesting
    (congrArg Kind.precedence hclosed) (ne_of_eq_of_ne hclosed (by decide))
  obtain ⟨hbrace, hreadBody⟩ := hbody levels ⟨after, cursor.stop⟩ bodyLast (separator :: other)
    hmiddle (Nat.le_trans (Nat.le_max_left _ _) hblockNesting)
  obtain ⟨hotherBrace, hreadOther⟩ := halternative levels ⟨other, cursor.stop⟩ last back
    (hother cursor.stop) (Nat.le_trans (Nat.le_max_right _ _) hblockNesting)
  apply operand_alternative_returns (congrArg Word.kind hkeyword) (congrArg Word.kind hopener) hread
    hclosed hbrace hreadBody (congrArg Word.kind hseparator) hotherBrace hreadOther
  intro _ read block otherBlock hlike hlikeBody hlikeOther
  rw [Expression.mapSpans, Expression.mapSpans, hlike, hlikeBody, mapSpansOfAlternative,
    mapSpansOfAlternative, hlikeOther]
  rfl

theorem readable_function {names : List Identifier}
    (hnames : Readable nameWords (.parameters names)) (hbody : Readable blockWords (.block body))
    (hblock : blockWords ≠ []) :
    Readable
      (Kind.kwFunction.word :: Kind.lParen.word :: nameWords ++ Kind.rParen.word :: blockWords)
      (.expression (.function span names body)) := by
  apply readable_of_operand
  intro levels cursor last back hcovers hnesting _
  obtain ⟨closer, after, hcloser, hfront, hlater⟩ := hcovers.divided hblock
  obtain ⟨hkeyword, hfront⟩ := hfront.cons
  obtain ⟨hopener, hinner⟩ := hfront.cons
  have hread := hnames _ closer after hinner (congrArg Word.kind hcloser)
  obtain ⟨hbrace, hreadBody⟩ := hbody levels ⟨after, cursor.stop⟩ last back (hlater cursor.stop)
    (Nat.le_of_succ_le_succ hnesting)
  apply operand_function_returns (congrArg Word.kind hkeyword) (congrArg Word.kind hopener) hread
    hbrace hreadBody
  intro _ read block hlike hlikeBody
  rw [Expression.mapSpans, Expression.mapSpans, hlike, hlikeBody]
  rfl

variable {left right callee : Expression} {leftWords rightWords calleeWords : List Word}

theorem readable_binary {operator : BinaryOperator} (hleft : Readable leftWords (.expression left))
    (hleftSome : leftWords ≠ []) (hright : Readable rightWords (.expression right))
    (hrightSome : rightWords ≠ []) (hleftTight : operator.precedence ≤ left.tightness)
    (hrightTight : operator.precedence < right.tightness) :
    Readable (leftWords ++ operator.kind.word :: rightWords)
      (.expression (.binary span left operator right)) := by
  intro least levels cursor last back result final hcovers hnesting hleast hadmits hends hextend
  obtain ⟨hleftNesting, hrightNesting⟩ := Nat.max_le.mp hnesting
  obtain ⟨sign, after, hsign, hfront, hlater⟩ := hcovers.divided hrightSome
  obtain ⟨leftLast, hinner⟩ := hfront.covers hleftSome
  have hkind : sign.kind = operator.kind := congrArg Word.kind hsign
  have hbinds : least < operator.precedence := BinaryOperator.lt_of_admits hadmits
  have hleftEnds : Ends sign.kind left.tightness := by
    rw [hkind]
    exact ⟨operator.precedence_kind ▸ hleftTight, by cases operator <;> decide⟩
  apply hleft least levels cursor leftLast (sign :: after) result final hinner hleftNesting hleast
    (.inl (Nat.lt_of_lt_of_le hbinds hleftTight)) hleftEnds
  intro read hlike
  have hreadRight := hright.returns (hlater cursor.stop) (Nat.le_of_succ_le_succ hrightNesting)
    operator.precedence_lt_call (.inl hrightTight)
    ⟨Nat.le_trans hends.1 (Nat.le_of_lt hrightTight), hends.2⟩ hends.1
  have hnext : (⟨leftLast :: sign :: after, cursor.stop⟩ : Cursor).next.kind = operator.kind :=
    hkind
  apply extend_binary_returns hnext hbinds hreadRight
  intro _ readRight hlikeRight
  apply hextend
  rw [Expression.mapSpans, Expression.mapSpans, hlike, hlikeRight]
  rfl

theorem readable_call {arguments : List Expression}
    (hcallee : Readable calleeWords (.expression callee)) (hsome : calleeWords ≠ [])
    (harguments : Readable words (.items arguments)) (htight : callee.tightness = .call) :
    Readable (calleeWords ++ Kind.lParen.word :: words ++ [Kind.rParen.word])
      (.expression (.call span callee arguments)) := by
  intro least levels cursor last back result final hcovers hnesting hleast _ _ hextend
  obtain ⟨hcalleeNesting, hargumentsNesting⟩ := Nat.max_le.mp hnesting
  obtain ⟨hcloser, hcovered⟩ := hcovers.concat
  obtain ⟨opener, after, hopener, hfront, hlater⟩ := hcovered.divided
  obtain ⟨calleeLast, hinner⟩ := hfront.covers hsome
  have hkind : opener.kind = .lParen := congrArg Word.kind hopener
  have hcalleeEnds : Ends opener.kind callee.tightness := by
    rw [hkind, htight]
    exact ⟨Nat.le_refl _, by decide⟩
  apply hcallee least levels cursor calleeLast (opener :: after) result final hinner hcalleeNesting
    hleast (htight ▸ Precedence.admits_of_call) hcalleeEnds
  intro read hlike
  have hread := harguments .rParen .argumentsEnd levels _ last back (.inl rfl) (hlater cursor.stop)
    (congrArg Word.kind hcloser) (Nat.le_of_succ_le_succ hargumentsNesting)
  have hnext : (⟨calleeLast :: opener :: after, cursor.stop⟩ : Cursor).next.kind = .lParen := hkind
  apply extend_call_returns hnext hleast hread
  intro _ readArguments hlikeArguments
  apply hextend
  rw [Expression.mapSpans, Expression.mapSpans, hlike, hlikeArguments]
  rfl

end Expressions

/-! ## Lists -/

section Lists

variable {words firstWords : List Word}

/-- The tokens that close a list of expressions neither extend an expression nor start one, and they
do not go on with the list. -/
theorem closer_facts {closer : Kind} (hcloser : closer = .rParen ∨ closer = .rBracket) :
    closer.startsExpression = false ∧ closer.precedence = .lowest ∧ closer ≠ .kwElse ∧
      closer ≠ .comma := by
  rcases hcloser with rfl | rfl <;> decide

theorem readable_noItems : Readable [] (.items []) := by
  intro closer what levels cursor closing back _ hfaces hclosed _
  have hcurrent : cursor.current.kind = closer := hfaces.nil ▸ hclosed
  rw [items, if_pos hcurrent, hfaces.nil]
  exact .done rfl

/-- A word that an expression may start with does not close a list. -/
theorem current_ne_closer {cursor : Cursor} {rest : List Token} {closer : Kind}
    (hstarts : ∃ word later, words = word :: later ∧ word.kind.startsExpression = true)
    (hcloser : closer = .rParen ∨ closer = .rBracket) (hfaces : cursor.Faces words rest) :
    cursor.current.kind ≠ closer := by
  obtain ⟨word, later, rfl, hword⟩ := hstarts
  have hcurrent : cursor.current.kind = word.kind := congrArg Word.kind hfaces.cons.1
  rw [hcurrent]
  exact Kind.ne_of_startsExpression hword (closer_facts hcloser).1

variable {first : Expression} {items : List Expression}

theorem readable_lastItem (hfirst : Readable words (.expression first))
    (hspells : Spells (.expression first) words) : Readable words (.items [first]) := by
  rintro _ what levels cursor closing back hcloser hfaces rfl hnesting
  obtain ⟨-, hlowest, helse, hcomma⟩ := closer_facts hcloser
  obtain ⟨last, hcovers⟩ := hfaces.covers hspells.expression_ne_nil
  have hread := hfirst.returns_lowest hcovers (Nat.max_le.mp hnesting).1 hlowest helse
  apply items_returns (current_ne_closer hspells.expression_starts hcloser hfaces) hread
  intro read hlike
  have hnext : (⟨last :: closing :: back, cursor.stop⟩ : Cursor).next.kind = closing.kind := rfl
  apply moreItems_of_closer hnext hcomma
  simp only [mapSpansOfExpressions, hlike]

theorem readable_moreItems (hfirst : Readable firstWords (.expression first))
    (hspells : Spells (.expression first) firstWords) (hitems : Readable words (.items items))
    (hitemsSpells : Spells (.items items) words) (hsome : items ≠ []) :
    Readable (firstWords ++ Kind.comma.word :: words) (.items (first :: items)) := by
  intro closer what levels cursor closing back hcloser hfaces hclosed hnesting
  obtain ⟨hfirstNesting, hitemsNesting⟩ := Nat.max_le.mp hnesting
  obtain ⟨separator, after, hseparator, hfront, hlater⟩ := hfaces.divided
  obtain ⟨last, hcovers⟩ := hfront.covers hspells.expression_ne_nil
  have hcomma : separator.kind = .comma := congrArg Word.kind hseparator
  have hread := hfirst.returns_lowest hcovers hfirstNesting (congrArg Kind.precedence hcomma)
    (ne_of_eq_of_ne hcomma (by decide))
  have hmore := hitems closer what levels _ closing back hcloser (hlater cursor.stop) hclosed
    hitemsNesting
  apply items_returns (current_ne_closer hspells.expression_starts hcloser hfront) hread
  intro read hlike
  have hnext : (⟨last :: separator :: after, cursor.stop⟩ : Cursor).next.kind = .comma := hcomma
  apply moreItems_of_comma hnext
  · exact current_ne_closer (hitemsSpells.startsWith.resolve_left hsome) hcloser
      (hlater cursor.stop)
  · apply hmore.imp
    intro later hlikeItems
    rw [mapSpansOfExpressions, mapSpansOfExpressions, hlike, hlikeItems]

variable {entry : Property} {entries : List Property} {entryWords : List Word}

theorem readable_shorthand (hshort : entry.isShorthand = true) :
    Readable [entry.key.word] (.property entry) := by
  intro levels cursor last next back hcovers hnext _
  obtain ⟨hword, hcursor⟩ := hcovers.singleton
  have hend : cursor.next.kind = .comma ∨ cursor.next.kind = .rBrace := hcursor ▸ hnext
  rw [hcursor, property_of_end hend]
  apply Returns.done
  obtain ⟨key, value, _⟩ := entry
  cases value with
  | identifier _ identifier =>
      obtain ⟨-, rfl⟩ := of_decide_eq_true hshort
      rw [Property.mapSpans, Property.mapSpans, Expression.mapSpans, Expression.mapSpans,
        Cursor.identifier_mapSpan hword]
      rfl
  | _ => cases hshort

theorem readable_written (hwritten : entry.isShorthand = false)
    (hvalue : Readable words (.expression entry.value)) (hsome : words ≠ []) :
    Readable (entry.key.word :: Kind.colon.word :: words) (.property entry) := by
  intro levels cursor last next back hcovers hnext hnesting
  obtain ⟨hword, hrest⟩ := hcovers.cons (List.cons_ne_nil _ _)
  obtain ⟨hcolon, hinner⟩ := hrest.cons hsome
  rw [Property.nesting_of_written hwritten] at hnesting
  have hread := hvalue.returns_lowest hinner hnesting
    (show next.kind.precedence = _ by rcases hnext with hnext | hnext <;> rw [hnext] <;> rfl)
    (show next.kind ≠ _ by rcases hnext with hnext | hnext <;> rw [hnext] <;> decide)
  apply property_returns (congrArg Word.kind hcolon) hread
  intro span value hlike
  obtain ⟨key, _, _⟩ := entry
  rw [Property.mapSpans, Property.mapSpans, Cursor.identifier_mapSpan hword, hlike]
  rfl

theorem readable_noProperties : Readable [] (.properties []) := by
  intro levels cursor closing back hfaces hclosed _
  have hnext : cursor.next.kind = .rBrace := by
    rw [← Cursor.current_advance, ← hfaces.nil]
    exact hclosed
  rw [properties_of_rBrace hnext]
  apply Returns.afterAdvance
  have hend : (⟨closing :: back, cursor.stop⟩ : Cursor) = cursor.advance := hfaces.nil
  rw [hend]
  exact .done rfl

theorem readable_lastProperty (hentry : Readable words (.property entry))
    (hspells : Spells (.property entry) words) : Readable words (.properties [entry]) := by
  intro levels cursor closing back hfaces hclosed hnesting
  obtain ⟨rest, rfl⟩ := hspells.startsWith
  obtain ⟨last, hcovers⟩ := hfaces.covers (List.cons_ne_nil _ _)
  have hread := hentry levels cursor.advance last closing back hcovers (.inr hclosed)
    (Nat.max_le.mp hnesting).1
  have hname : cursor.next.kind = .ident := congrArg Word.kind hfaces.cons.1
  have hnext : (⟨last :: closing :: back, cursor.stop⟩ : Cursor).next.kind = .rBrace := hclosed
  apply properties_of_last hname hread hnext
  intro first hlike
  simp only [mapSpansOfProperties, hlike]

theorem readable_moreProperties (hentry : Readable entryWords (.property entry))
    (hspells : Spells (.property entry) entryWords)
    (hentries : Readable words (.properties entries)) :
    Readable (entryWords ++ Kind.comma.word :: words) (.properties (entry :: entries)) := by
  intro levels cursor closing back hfaces hclosed hnesting
  obtain ⟨hentryNesting, hentriesNesting⟩ := Nat.max_le.mp hnesting
  obtain ⟨separator, after, hseparator, hfront, hlater⟩ := hfaces.divided
  obtain ⟨rest, rfl⟩ := hspells.startsWith
  obtain ⟨last, hcovers⟩ := hfront.covers (List.cons_ne_nil _ _)
  have hcomma : separator.kind = .comma := congrArg Word.kind hseparator
  have hread := hentry levels cursor.advance last separator after hcovers (.inl hcomma)
    hentryNesting
  have hmore := hentries levels ⟨separator :: after, cursor.stop⟩ closing back (hlater cursor.stop)
    hclosed hentriesNesting
  have hname : cursor.next.kind = .ident := congrArg Word.kind hfront.cons.1
  have hnext : (⟨last :: separator :: after, cursor.stop⟩ : Cursor).next.kind = .comma := hcomma
  apply properties_of_comma hname hread hnext
  intro first hlike
  apply hmore.imp
  intro later hlikeEntries
  rw [mapSpansOfProperties, mapSpansOfProperties, hlike, hlikeEntries]

variable {parameter : Identifier} {parameters : List Identifier}

theorem readable_noParameters : Readable [] (.parameters []) := by
  intro cursor closing back hfaces hclosed
  have hcurrent : cursor.current.kind = .rParen := by
    rw [← hfaces.nil]
    exact hclosed
  rw [parameters_of_rParen hcurrent, hfaces.nil]
  exact .done rfl

theorem readable_lastParameter : Readable [parameter.word] (.parameters [parameter]) := by
  intro cursor closing back hfaces hclosed
  obtain ⟨hword, hrest⟩ := hfaces.cons
  have hnext : cursor.next.kind = .rParen := by
    rw [← Cursor.current_advance, ← hrest.nil]
    exact hclosed
  rw [parameters_of_last (congrArg Word.kind hword) hnext]
  apply Returns.afterAdvance
  have hend : (⟨closing :: back, cursor.stop⟩ : Cursor) = cursor.advance := hrest.nil
  rw [hend]
  apply Returns.done
  rw [List.map_singleton, List.map_singleton, Cursor.identifier_mapSpan hword]

theorem readable_moreParameters (hparameters : Readable words (.parameters parameters)) :
    Readable (parameter.word :: Kind.comma.word :: words)
      (.parameters (parameter :: parameters)) := by
  intro cursor closing back hfaces hclosed
  obtain ⟨hword, hrest⟩ := hfaces.cons
  obtain ⟨hcomma, hlater⟩ := hrest.cons
  rw [parameters_of_comma (congrArg Word.kind hword) (congrArg Word.kind hcomma)]
  apply Returns.afterAdvance
  apply Returns.afterAdvance
  apply (hparameters _ closing back hlater hclosed).andThen
  intro names _ hlike
  apply Returns.done
  rw [List.map_cons, List.map_cons, Cursor.identifier_mapSpan hword, hlike]

end Lists

/-! ## Statements -/

section Statements

variable {value : Expression} {body : Block} {identifier : Identifier} {span : Span}
variable {words nameWords blockWords : List Word}

theorem readable_block {statements : List Statement}
    (hstatements : Readable words (.statements statements)) :
    Readable (Kind.lBrace.word :: words ++ [Kind.rBrace.word]) (.block ⟨statements, span⟩) := by
  intro levels cursor last back hcovers hnesting
  obtain ⟨hcloser, hfront⟩ := hcovers.concat
  obtain ⟨hopener, hinner⟩ := hfront.cons
  have hclosed : last.kind = .rBrace := congrArg Word.kind hcloser
  have hrow := hstatements levels cursor.advance (last :: back) hinner hnesting (.inl hclosed)
  refine ⟨congrArg Word.kind hopener, block_returns (hrow.blockStatements hclosed) ?_⟩
  intro _ read hlike
  rw [Block.mapSpans, Block.mapSpans, hlike]
  rfl

theorem readable_letWithoutValue :
    Readable [Kind.kwLet.word, identifier.word, Kind.semicolon.word]
      (.statement (.binding false identifier none span)) := by
  intro levels cursor last back hcovers _
  obtain ⟨hkeyword, hrest⟩ := hcovers.cons (List.cons_ne_nil _ _)
  obtain ⟨hname, hrest⟩ := hrest.cons (List.cons_ne_nil _ _)
  obtain ⟨hclosed, hcursor⟩ := hrest.singleton
  have hend : (⟨last :: back, cursor.stop⟩ : Cursor) = cursor.advance.advance := hcursor
  rw [hend]
  apply statement_let_returns (congrArg Word.kind hkeyword) (congrArg Word.kind hname)
    (congrArg Word.kind hclosed)
  intro _
  rw [Statement.mapSpans, Statement.mapSpans, Cursor.identifier_mapSpan hname]
  rfl

theorem readable_binding {constant : Bool} (hvalue : Readable words (.expression value))
    (hsome : words ≠ []) :
    Readable
      ((bindingKind constant).word :: identifier.word :: Kind.assign.word :: words ++
        [Kind.semicolon.word])
      (.statement (.binding constant identifier (some value) span)) := by
  intro levels cursor last back hcovers hnesting
  obtain ⟨hsemicolon, hfront⟩ := hcovers.concat
  obtain ⟨hkeyword, hfront⟩ := hfront.cons
  obtain ⟨hname, hfront⟩ := hfront.cons
  obtain ⟨hsign, hfront⟩ := hfront.cons
  obtain ⟨valueLast, hinner⟩ := hfront.covers hsome
  have hclosed : last.kind = .semicolon := congrArg Word.kind hsemicolon
  have hread := hvalue.returns_lowest hinner hnesting (congrArg Kind.precedence hclosed)
    (ne_of_eq_of_ne hclosed (by decide))
  apply statement_binding_returns (congrArg Word.kind hkeyword) (congrArg Word.kind hname)
    (congrArg Word.kind hsign) hread hclosed
  intro _ read hlike
  rw [Statement.mapSpans, Statement.mapSpans, Cursor.identifier_mapSpan hname, mapSpansOfValue,
    mapSpansOfValue, hlike]
  rfl

theorem readable_namedFunction {names : List Identifier}
    (hnames : Readable nameWords (.parameters names)) (hbody : Readable blockWords (.block body))
    (hblock : blockWords ≠ []) :
    Readable
      (Kind.kwFunction.word :: identifier.word :: Kind.lParen.word :: nameWords ++
        Kind.rParen.word :: blockWords)
      (.statement (.function identifier names body span)) := by
  intro levels cursor last back hcovers hnesting
  obtain ⟨closer, after, hcloser, hfront, hlater⟩ := hcovers.divided hblock
  obtain ⟨hkeyword, hfront⟩ := hfront.cons
  obtain ⟨hname, hfront⟩ := hfront.cons
  obtain ⟨hopener, hinner⟩ := hfront.cons
  have hread := hnames _ closer after hinner (congrArg Word.kind hcloser)
  obtain ⟨hbrace, hreadBody⟩ := hbody levels ⟨after, cursor.stop⟩ last back (hlater cursor.stop)
    hnesting
  apply statement_function_returns (congrArg Word.kind hkeyword) (congrArg Word.kind hname)
    (congrArg Word.kind hopener) hread hbrace hreadBody
  intro _ read block hlike hlikeBody
  rw [Statement.mapSpans, Statement.mapSpans, Cursor.identifier_mapSpan hname, hlike, hlikeBody]
  rfl

theorem readable_returned (hvalue : Readable words (.expression value)) (hsome : words ≠ []) :
    Readable (Kind.kwReturn.word :: words ++ [Kind.semicolon.word])
      (.statement (.returned value span)) := by
  intro levels cursor last back hcovers hnesting
  obtain ⟨hsemicolon, hfront⟩ := hcovers.concat
  obtain ⟨hkeyword, hfront⟩ := hfront.cons
  obtain ⟨valueLast, hinner⟩ := hfront.covers hsome
  have hclosed : last.kind = .semicolon := congrArg Word.kind hsemicolon
  have hread := hvalue.returns_lowest hinner hnesting (congrArg Kind.precedence hclosed)
    (ne_of_eq_of_ne hclosed (by decide))
  apply statement_return_returns (congrArg Word.kind hkeyword) hread hclosed
  intro _ read hlike
  rw [Statement.mapSpans, Statement.mapSpans, hlike]
  rfl

/-- What an expression statement starts with. -/
theorem current_of_expressionStatement {cursor : Cursor} {rest : List Token}
    (hspells : Spells (.expression value) words) (hstart : value.startsWithFunction = false)
    (hfaces : cursor.Faces words rest) :
    cursor.current.kind.startsExpression = true ∧ cursor.current.kind ≠ .kwFunction := by
  obtain ⟨word, later, rfl, hword, hfunction⟩ := hspells.startsWith
  have hcurrent : cursor.current.kind = word.kind := congrArg Word.kind hfaces.cons.1
  rw [hcurrent]
  refine ⟨hword, fun hkind => ?_⟩
  rw [hfunction hkind] at hstart
  cases hstart

theorem readable_expressionStatement (hvalue : Readable words (.expression value))
    (hspells : Spells (.expression value) words) (hstart : value.startsWithFunction = false) :
    Readable (words ++ [Kind.semicolon.word]) (.statement (.expression value span)) := by
  intro levels cursor last back hcovers hnesting
  obtain ⟨hsemicolon, hfront⟩ := hcovers.concat
  obtain ⟨hstarts, hfunction⟩ := current_of_expressionStatement hspells hstart hfront
  obtain ⟨valueLast, hinner⟩ := hfront.covers hspells.expression_ne_nil
  have hclosed : last.kind = .semicolon := congrArg Word.kind hsemicolon
  have hread := hvalue.returns_lowest hinner hnesting (congrArg Kind.precedence hclosed)
    (ne_of_eq_of_ne hclosed (by decide))
  apply statement_closed_returns hstarts hfunction hread _ hclosed
  intro _ read hlike
  rw [Statement.mapSpans, Statement.mapSpans, hlike]
  rfl

variable {first : Statement} {statements : List Statement} {firstWords valueWords : List Word}

theorem readable_noStatements : Readable [] (.statements []) := by
  intro levels cursor rest hfaces _ _
  rw [hfaces.nil]
  exact .nil

theorem readable_statement (hfirst : Readable firstWords (.statement first))
    (hspells : Spells (.statement first) firstWords)
    (hstatements : Readable words (.statements statements)) :
    Readable (firstWords ++ words) (.statements (first :: statements)) := by
  intro levels cursor rest hfaces hnesting hend
  obtain ⟨hfirstNesting, hrestNesting⟩ := Nat.max_le.mp hnesting
  obtain ⟨word, later, rfl, hword⟩ := hspells.startsWith
  obtain ⟨last, after, hcovers, hlater⟩ := hfaces.append (List.cons_ne_nil _ _)
  have hcurrent : cursor.current.kind = word.kind := congrArg Word.kind hcovers.faces.cons.1
  apply ReadsRow.cons
  · rw [hcurrent]
    exact hword
  · exact hfirst levels cursor last after hcovers hfirstNesting
  · exact hstatements levels ⟨after, cursor.stop⟩ rest hlater hrestNesting hend

/-- What stands after an expression statement that has no semicolon. -/
theorem current_after_unclosed {cursor : Cursor} {rest : List Token}
    (hspells : Spells (.statements statements) words) (hend : EndExpression words)
    (hfaces : cursor.Faces words rest)
    (hclosed : (rest.headD (.atEnd cursor.stop)).kind = .rBrace ∨
      (rest.headD (.atEnd cursor.stop)).kind = .eof) :
    cursor.current.kind.precedence = .lowest ∧ cursor.current.kind ≠ .kwElse ∧
      cursor.current.kind ≠ .semicolon := by
  cases words with
  | nil =>
      rw [← hfaces.nil]
      rcases hclosed with hkind | hkind <;>
        exact ⟨congrArg Kind.precedence hkind, ne_of_eq_of_ne hkind (by decide),
          ne_of_eq_of_ne hkind (by decide)⟩
  | cons word later =>
      have hcurrent : cursor.current.kind = word.kind := congrArg Word.kind hfaces.cons.1
      have hword : word.kind.startsStatement = true := hspells.startsWith word rfl
      rw [hcurrent]
      exact ⟨hend word rfl, Kind.ne_of_startsStatement hword rfl,
        Kind.ne_of_startsStatement hword rfl⟩

theorem readable_unclosed (hvalue : Readable valueWords (.expression value))
    (hspells : Spells (.expression value) valueWords) (hstart : value.startsWithFunction = false)
    (hstatements : Readable words (.statements statements))
    (hrest : Spells (.statements statements) words) (hend : EndExpression words) :
    Readable (valueWords ++ words) (.statements (.expression value span :: statements)) := by
  intro levels cursor rest hfaces hnesting hclosed
  obtain ⟨hvalueNesting, hrestNesting⟩ := Nat.max_le.mp hnesting
  obtain ⟨last, after, hcovers, hlater⟩ := hfaces.append hspells.expression_ne_nil
  obtain ⟨hstarts, hfunction⟩ := current_of_expressionStatement hspells hstart hcovers.faces
  obtain ⟨hlowest, helse, hopen⟩ := current_after_unclosed hrest hend hlater hclosed
  have hread := hvalue.returns_lowest hcovers hvalueNesting hlowest helse
  apply ReadsRow.cons (Kind.startsStatement_of_startsExpression hstarts)
  · apply statement_unclosed_returns hstarts hfunction hread _ hopen
    intro _ read hlike
    rw [Statement.mapSpans, Statement.mapSpans, hlike]
    rfl
  · exact hstatements levels ⟨after, cursor.stop⟩ rest hlater hrestNesting hclosed

end Statements

/-- Every spelling of a well-formed part of a tree is read as that part, wherever it stands.  The
induction is on the spelling. -/
theorem readable_of_spells {phrase : Phrase} {words : List Word} (hspells : Spells phrase words)
    (hformed : phrase.WellFormed) : Readable words phrase := by
  induction hspells with
  | identifier => exact readable_identifier
  | integer _ hvalue => exact readable_integer hvalue hformed.2
  | string => exact readable_string
  | boolean => exact readable_boolean
  | array _ ih => exact readable_array (ih hformed)
  | object _ ih => exact readable_object (ih hformed)
  | unary hoperand ih =>
      obtain ⟨htight, hinner⟩ := hformed
      exact readable_unary (ih hinner) hoperand.expression_ne_nil htight
  | binary hleft hright ihleft ihright =>
      obtain ⟨hleftTight, hrightTight, hleftFormed, hrightFormed⟩ := hformed
      exact readable_binary (ihleft hleftFormed) hleft.expression_ne_nil (ihright hrightFormed)
        hright.expression_ne_nil hleftTight hrightTight
  | conditional hcondition hbody ihcondition ihbody =>
      obtain ⟨hconditionFormed, hbodyFormed, -⟩ := hformed
      exact readable_conditional (ihcondition hconditionFormed) hcondition.expression_ne_nil
        (ihbody hbodyFormed) hbody.block_ne_nil
  | alternative hcondition hbody helse ihcondition ihbody ihelse =>
      obtain ⟨hconditionFormed, hbodyFormed, helseFormed⟩ := hformed
      exact readable_alternative (ihcondition hconditionFormed) hcondition.expression_ne_nil
        (ihbody hbodyFormed) hbody.block_ne_nil (ihelse helseFormed) helse.block_ne_nil
  | function _ hbody ihnames ihbody =>
      obtain ⟨hnamesFormed, hbodyFormed⟩ := hformed
      exact readable_function (ihnames hnamesFormed) (ihbody hbodyFormed) hbody.block_ne_nil
  | call hcallee _ ihcallee iharguments =>
      obtain ⟨htight, hcalleeFormed, hargumentsFormed⟩ := hformed
      exact readable_call (ihcallee hcalleeFormed) hcallee.expression_ne_nil
        (iharguments hargumentsFormed) htight
  | noItems => exact readable_noItems
  | lastItem hitem ih => exact readable_lastItem (ih hformed.1) hitem
  | moreItems hfirst hitems ihfirst ihitems =>
      exact readable_moreItems (ihfirst hformed.1) hfirst (ihitems hformed.2) hitems
        (List.cons_ne_nil _ _)
  | shorthand hshort => exact readable_shorthand hshort
  | written hwritten hvalue ih =>
      exact readable_written hwritten (ih (Property.wellFormed_iff.mp hformed).2)
        hvalue.expression_ne_nil
  | noProperties => exact readable_noProperties
  | lastProperty hproperty ih => exact readable_lastProperty (ih hformed.1) hproperty
  | moreProperties hproperty _ ihproperty ihproperties =>
      exact readable_moreProperties (ihproperty hformed.1) hproperty (ihproperties hformed.2)
  | noParameters => exact readable_noParameters
  | lastParameter => exact readable_lastParameter
  | moreParameters _ ih => exact readable_moreParameters (ih (List.forall_mem_cons.mp hformed).2)
  | block _ ih => exact readable_block (ih hformed)
  | letWithoutValue => exact readable_letWithoutValue
  | binding hvalue ih => exact readable_binding (ih hformed.2) hvalue.expression_ne_nil
  | namedFunction _ hbody ihnames ihbody =>
      obtain ⟨-, hnamesFormed, hbodyFormed⟩ := hformed
      exact readable_namedFunction (ihnames hnamesFormed) (ihbody hbodyFormed) hbody.block_ne_nil
  | returned hvalue ih => exact readable_returned (ih hformed) hvalue.expression_ne_nil
  | expression hvalue ih => exact readable_expressionStatement (ih hformed.2) hvalue hformed.1
  | noStatements => exact readable_noStatements
  | statement hfirst _ ihfirst ihrest =>
      exact readable_statement (ihfirst hformed.1) hfirst (ihrest hformed.2)
  | unclosed hvalue hrest hend ihvalue ihrest =>
      obtain ⟨⟨hstart, hvalueFormed⟩, hrestFormed⟩ := hformed
      exact readable_unclosed (ihvalue hvalueFormed) hvalue hstart (ihrest hrestFormed) hrest hend

/-- The words of a text are read as the statements that they spell, with nothing said against
them. -/
theorem readProgram_of_spells {statements : List Statement} {source : String}
    (hformed : statementsWellFormed none statements)
    (hnesting : nestingOfStatements statements ≤ maxNesting)
    (hspells : Spells (.statements statements) ((lex source).dropLast.map Token.word)) :
    (readProgram source).diagnostics = [] ∧
      SameUpToSpans (readProgram source).program.statements statements := by
  have hfaces : (Cursor.ofLexer (Lexer.ofText source)).Faces
      ((lex source).dropLast.map Token.word) [] := by
    refine ⟨(Lexer.ofText source).tokens, ?_, (List.append_nil _).symm⟩
    rw [lex_dropLast]
  have hrow := readable_of_spells hspells hformed maxNesting _ [] hfaces hnesting (.inr rfl)
  obtain ⟨⟨read, hvalue, hlike⟩, -, hquiet⟩ := hrow.programStatements rfl
  rw [mapSpansOfStatements_eq_map, mapSpansOfStatements_eq_map] at hlike
  refine ⟨hquiet, ?_⟩
  have hread : (readProgram source).program.statements = read := by
    simp only [readProgram, Cursor.readProgram, hvalue, Option.getD_some]
  rw [hread]
  exact hlike

end Frontend.Grammar

namespace Frontend

/-- The text is read without a message, and as these statements, wherever they are in it. -/
def ReadsAs (source : String) (statements : List Statement) : Prop :=
  ∃ program, parse source false = .ok (program, []) ∧ SameUpToSpans program.statements statements

/-- However well-formed statements are spelled and however the words are spaced, they are read back.
The spans of `shown` say which properties are written as a key alone; otherwise it is the tree
that is read. -/
theorem parse_of_spells {statements shown : List Statement} {words : List Word}
    (hsame : SameUpToSpans shown statements) (hformed : statementsWellFormed none shown)
    (hnesting : nestingOfStatements shown ≤ maxNesting)
    (hspells : Spells (.statements shown) words) :
    (∀ source, (lex source).dropLast.map Token.word = words → ReadsAs source statements) ∧
      ∀ lead pieces, IsTrivia lead → Spaced pieces → pieces.map Piece.word = words →
        ReadsAs (String.ofList (lead ++ glue pieces)) statements := by
  have hreads : ∀ source, (lex source).dropLast.map Token.word = words →
      ReadsAs source statements := by
    rintro source rfl
    obtain ⟨hquiet, hlike⟩ := Grammar.readProgram_of_spells hformed hnesting hspells
    exact ⟨(readProgram source).program, parse_of_diagnostics hquiet, hlike.trans hsame⟩
  refine ⟨hreads, ?_⟩
  rintro lead pieces hlead hspaced rfl
  have hcomplete : ∀ piece ∈ pieces, piece.word.IsComplete := by
    intro piece hmember
    exact hspells.words_isComplete hformed _ (List.mem_map_of_mem hmember)
  exact hreads _ (lex_glue_words hlead hcomplete hspaced)

/-- The sum of a name and a negated name, read nowhere in particular. -/
def sumOfNegated : List Statement :=
  [.expression
    (.binary (.empty 0) (.identifier (.empty 0) ⟨"a", .empty 0⟩) .add
      (.unary (.empty 0) .negate (.identifier (.empty 0) ⟨"b", .empty 0⟩)))
    (.empty 0)]

/-- The words of the sum with a blank after each. -/
def spacedSum : List Piece :=
  [⟨.ident, "a"⟩, Kind.plus.word, Kind.minus.word, ⟨.ident, "b"⟩].map fun word =>
    ⟨word, [' '], .blank rfl .nil⟩

/-- Between two of the words there may be nothing or a blank. -/
theorem parse_of_spells_sumOfNegated :
    SameUpToSpans sumOfNegated sumOfNegated ∧ statementsWellFormed none sumOfNegated ∧
      nestingOfStatements sumOfNegated ≤ maxNesting ∧
      Spells (.statements sumOfNegated) (spacedSum.map Piece.word) ∧
      ReadsAs "a+-b" sumOfNegated ∧
      ReadsAs (String.ofList (['\n'] ++ glue spacedSum)) sumOfNegated := by
  have hfirst : IsName "a" := ⟨by decide, List.all_eq_true.mp rfl, by decide⟩
  have hsecond : IsName "b" := ⟨by decide, List.all_eq_true.mp rfl, by decide⟩
  have hformed : statementsWellFormed none sumOfNegated :=
    ⟨⟨rfl, by decide, by decide, hfirst, by decide, hsecond⟩, trivial⟩
  have hnesting : nestingOfStatements sumOfNegated ≤ maxNesting := by decide
  have hspells : Spells (.statements sumOfNegated) (spacedSum.map Piece.word) :=
    .unclosed (.binary .identifier (.unary .identifier)) .noStatements nofun
  have hspaced : Spaced spacedSum := by
    refine ⟨?_, ?_, ?_, ?_, trivial⟩ <;> exact Word.endsBefore_of_isBlank _ rfl
  obtain ⟨htext, hlayout⟩ := parse_of_spells rfl hformed hnesting hspells
  refine ⟨rfl, hformed, hnesting, hspells, htext _ (by decide +kernel), ?_⟩
  exact hlayout _ _ (.blank rfl .nil) hspaced rfl

end Frontend
