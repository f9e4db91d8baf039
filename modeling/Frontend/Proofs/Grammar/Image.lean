import Frontend.Proofs.Grammar.Adequacy

/-!
# The image of the parser

Whatever the text, the statements that are read from it are well formed and nest to a bounded
depth, whether or not other statements had to be given up.  What is kept while an operand grows is
stronger than what is claimed of it in the end: the token after it must not hold more tightly than
its outermost operator, or that token would have gone to a part further inside.
-/

namespace Frontend.Grammar

/-- What holds of an expression read before a token of the kind `next`: it could be written, it is
held tightly enough on either side, and it stands below the levels that are left. -/
structure Fits (last : Option Token) (least : Precedence) (levels : Nat) (tokens : List Token)
    (next : Kind) (value : Expression) : Prop where
  wellFormed : value.WellFormed last
  nesting_le : value.nesting ≤ levels
  held : next.precedence ≤ value.tightness
  tight : least.Admits value.tightness
  start : value.startsWithFunction = true → ∀ after, (tokens.headD after).kind = .kwFunction

namespace Fits

variable {last : Option Token} {least : Precedence} {levels : Nat} {tokens : List Token}
variable {next : Kind} {value : Expression}

/-- An expression that does not come apart, other than a function or the call of one. -/
theorem of_tightness (htightness : value.tightness = .call)
    (hstart : value.startsWithFunction = false) (hformed : value.WellFormed last)
    (hnesting : value.nesting ≤ levels) : Fits last least levels tokens next value where
  wellFormed := hformed
  nesting_le := hnesting
  held := htightness ▸ Precedence.le_call _
  tight := htightness ▸ Precedence.admits_of_call
  start hfunction := by rw [hstart] at hfunction; cases hfunction

/-- The right operand of an operator holds more tightly than the operator. -/
theorem right_tight {operator : BinaryOperator}
    (hfits : Fits last operator.precedence levels tokens next value) :
    operator.precedence < value.tightness := by
  rcases hfits.tight with htight | hunary
  · exact htight
  · exact Nat.lt_of_lt_of_le operator.precedence_lt_unary hunary

/-- The operand of a unary operator is no binary expression. -/
theorem unary_tight (hfits : Fits last .unary levels tokens next value) :
    .unary ≤ value.tightness := by
  rcases hfits.tight with htight | hunary
  · exact Nat.le_of_lt htight
  · exact hunary

/-- What is written after an expression does not change what it starts with, as it is at the front
of the longer one. -/
theorem start_append (hfits : Fits last least levels tokens next value) (hsome : tokens ≠ [])
    (later : List Token) (hfunction : value.startsWithFunction = true) (after : Token) :
    ((tokens ++ later).headD after).kind = .kwFunction := by
  obtain ⟨token, tokens, rfl⟩ := List.exists_cons_of_ne_nil hsome
  exact hfits.start hfunction after

/-- Where no function may start, no expression starts with one: the keyword is read as that of a
statement. -/
theorem startsWithFunction_eq_false (hfits : Fits last least levels tokens next value)
    {after : Token} (hstart : (tokens.headD after).kind ≠ .kwFunction) :
    value.startsWithFunction = false :=
  Bool.eq_false_iff.mpr fun hfunction => hstart (hfits.start hfunction after)

section

variable {front : List Token} {keyword sign : Token} {inner : Kind} {span : Span}
variable {condition callee left right : Expression} {consequence body : Block}
variable {alternative : Option Block} {names : List Identifier} {arguments : List Expression}

/-- The operand of a unary operator takes all that holds more tightly than the operator. -/
theorem unary {operator : UnaryOperator} (hoperand : Fits last .unary levels tokens next value)
    (hend : ¬ Precedence.unary < next.precedence) :
    Fits last least (levels + 1) (sign :: tokens) next (.unary span operator value) where
  wellFormed := ⟨hoperand.unary_tight, hoperand.wellFormed⟩
  nesting_le := Nat.succ_le_succ hoperand.nesting_le
  held := Precedence.not_lt.mp hend
  tight := .inr (Nat.le_refl _)
  start hfunction := by cases hfunction

/-- The parts of a conditional are one level further inside. -/
theorem conditional (hcondition : Fits last .lowest levels front inner condition)
    (hconsequence : consequence.WellFormed last ∧ consequence.nesting ≤ levels)
    (halternative : alternativeWellFormed last alternative ∧
      nestingOfAlternative alternative ≤ levels) :
    Fits last least (levels + 1) tokens next
      (.conditional span condition consequence alternative) := by
  apply of_tightness rfl rfl
  · exact ⟨hcondition.wellFormed, hconsequence.1, halternative.1⟩
  · have hdeepest := Nat.max_le.mpr ⟨hconsequence.2, halternative.2⟩
    exact Nat.succ_le_succ (Nat.max_le.mpr ⟨hcondition.nesting_le, hdeepest⟩)

/-- A function starts with its keyword, so a statement has to be told apart from it. -/
theorem function (hkeyword : keyword.kind = .kwFunction) (hnames : ∀ name ∈ names, IsName name.name)
    (hbody : body.WellFormed last ∧ body.nesting ≤ levels) :
    Fits last least (levels + 1) (keyword :: tokens) next (.function span names body) where
  wellFormed := ⟨hnames, hbody.1⟩
  nesting_le := Nat.succ_le_succ hbody.2
  held := Precedence.le_call _
  tight := Precedence.admits_of_call
  start _ _ := hkeyword

/-- What is called holds as tightly as a call, as the parenthesis after it was left to it. -/
theorem call (hcallee : Fits last least (levels + 1) front .lParen callee) (hsome : front ≠ [])
    (harguments : expressionsWellFormed last arguments ∧ nestingOfExpressions arguments ≤ levels) :
    Fits last least (levels + 1) (front ++ tokens) next (.call span callee arguments) where
  wellFormed := ⟨Precedence.eq_call_of_le hcallee.held, hcallee.wellFormed, harguments.1⟩
  nesting_le := Nat.max_le.mpr ⟨hcallee.nesting_le, Nat.succ_le_succ harguments.2⟩
  held := Precedence.le_call _
  tight := Precedence.admits_of_call
  start := hcallee.start_append hsome tokens

/-- The left operand does not hold less tightly than the operator, as the operator was left to it;
the right operand holds more tightly. -/
theorem binary {operator : BinaryOperator}
    (hleft : Fits last least (levels + 1) front operator.kind left) (hsome : front ≠ [])
    (hleast : least < operator.precedence)
    (hright : Fits last operator.precedence levels tokens next right)
    (hend : ¬ operator.precedence < next.precedence) :
    Fits last least (levels + 1) (front ++ sign :: tokens) next
      (.binary span left operator right) where
  wellFormed := by
    have hheld := hleft.held
    rw [BinaryOperator.precedence_kind] at hheld
    exact ⟨hheld, hright.right_tight, hleft.wellFormed, hright.wellFormed⟩
  nesting_le := Nat.max_le.mpr ⟨hleft.nesting_le, Nat.succ_le_succ hright.nesting_le⟩
  held := Precedence.not_lt.mp hend
  tight := .inl hleast
  start := hleft.start_append hsome (sign :: tokens)

end

end Fits

/-- What holds of a part that was read from the tokens before a token of the kind `next`, with
nothing said of where it stands. -/
def Part.InImage (last : Option Token) (tokens : List Token) (next : Kind) : Part → Prop
  | .operand least levels value => Fits last least (levels + 1) tokens next value
  | .expression least levels value => Fits last least levels tokens next value
  | .items levels values => expressionsWellFormed last values ∧ nestingOfExpressions values ≤ levels
  | .property levels entry => entry.WellFormed last ∧ entry.nesting ≤ levels
  | .properties levels entries =>
      propertiesWellFormed last entries ∧ nestingOfProperties entries ≤ levels
  | .parameters names => ∀ name ∈ names, IsName name.name
  | .block levels body => body.WellFormed last ∧ body.nesting ≤ levels
  | .statement levels read => read.WellFormed last ∧ read.nesting ≤ levels
  | .statements levels read =>
      statementsWellFormed last read ∧ nestingOfStatements read ≤ levels

/-- A string is closed, or it is the last token. -/
theorem string_wellFormed {last : Option Token} {token : Token}
    (hlexed : Lexed last [token]) (hkind : token.kind = .string) :
    (Expression.string token.span token.literal).WellFormed last := by
  rcases hlexed.closed token List.mem_cons_self hkind with hclosed | hlast
  · exact .inl hclosed
  · refine (Token.isString_of_kind hlexed.head hkind).imp_right fun hopen => ⟨hopen, ?_⟩
    rw [hlast, ← hkind]

namespace Derives

variable {part : Part} {tokens : List Token} {next : Token} {diagnostics : List Diagnostic}
variable {last : Option Token}

/-- Everything that is derived from the tokens of a text is well formed.  The induction is on the
derivation, in which each operand knows the token after it. -/
theorem inImage (hderives : Derives part tokens next diagnostics) (hlexed : Lexed last tokens) :
    part.InImage last tokens next.kind := by
  induction hderives with
  | @name _ levels _ _ hkind =>
      exact Fits.of_tightness rfl rfl (Token.isName_of_kind hlexed.head hkind)
        (Nat.le_add_left 1 levels)
  | @integer _ levels _ _ hkind hvalue =>
      exact Fits.of_tightness rfl rfl ⟨Int.natCast_nonneg _, Int.ofNat_le.mpr hvalue⟩
        (Nat.le_add_left 1 levels)
  | @string _ levels _ _ hkind =>
      exact Fits.of_tightness rfl rfl (string_wellFormed hlexed hkind) (Nat.le_add_left 1 levels)
  | @boolean _ levels _ _ _ hkind =>
      exact Fits.of_tightness rfl rfl trivial (Nat.le_add_left 1 levels)
  | unary hsign hinner ih =>
      cases hinner with
      | expression _ hend => exact (ih hlexed.tail).unary hend
  | array hopener helements hcloser ih =>
      obtain ⟨hformed, hnesting⟩ := ih hlexed.left.tail
      exact Fits.of_tightness rfl rfl hformed (Nat.succ_le_succ hnesting)
  | object hopener hentries hcloser ih =>
      obtain ⟨hformed, hnesting⟩ := ih hlexed.left.tail
      exact Fits.of_tightness rfl rfl hformed (Nat.succ_le_succ hnesting)
  | conditional hkeyword hopener hcondition hcloser hbody ihcondition ihbody =>
      exact (ihcondition hlexed.left.tail.tail).conditional (ihbody hlexed.right.tail)
        ⟨trivial, Nat.zero_le _⟩
  | alternative hkeyword hopener hcondition hcloser hbody hseparator hother ihcondition ihbody
      ihother =>
      exact (ihcondition hlexed.left.left.tail.tail).conditional (ihbody hlexed.left.right.tail)
        (ihother hlexed.right.tail)
  | function hkeyword hopener hnames hcloser hbody ihnames ihbody =>
      exact Fits.function hkeyword (ihnames hlexed.left.tail.tail) (ihbody hlexed.right.tail)
  | call hcallee hopener hleast harguments hcloser ihcallee iharguments =>
      have hfront := ihcallee hlexed.left.left
      rw [hopener] at hfront
      rw [List.append_assoc]
      exact hfront.call hcallee.operand_ne_nil (iharguments hlexed.left.right.tail)
  | binary hleft hsign hleast hright ihleft ihright =>
      have hfront := ihleft hlexed.left
      rw [hsign] at hfront
      cases hright with
      | expression _ hend =>
          exact hfront.binary hleft.operand_ne_nil hleast (ihright hlexed.right.tail) hend
  | expression hoperand hend ih => exact ih hlexed
  | noItems => exact ⟨trivial, Nat.zero_le _⟩
  | lastItem hitem ih =>
      have hfits := ih hlexed
      exact ⟨⟨hfits.wellFormed, trivial⟩, Nat.max_le.mpr ⟨hfits.nesting_le, Nat.zero_le _⟩⟩
  | moreItems hfirst hseparator hitems ihfirst ihitems =>
      have hfits := ihfirst hlexed.left
      obtain ⟨hformed, hnesting⟩ := ihitems hlexed.right.tail
      exact ⟨⟨hfits.wellFormed, hformed⟩, Nat.max_le.mpr ⟨hfits.nesting_le, hnesting⟩⟩
  | shorthand hkey =>
      have hname := Token.isName_of_kind hlexed.head hkey
      refine ⟨⟨hname, hname⟩, ?_⟩
      rw [Property.nesting_of_isShorthand (isShorthand_nameOf _)]
      exact Nat.zero_le _
  | written hkey hcolon hvalue ih =>
      have hfits := ih hlexed.tail.tail
      exact ⟨⟨Token.isName_of_kind hlexed.head hkey, hfits.wellFormed⟩,
        Property.nesting_le hfits.nesting_le⟩
  | noProperties => exact ⟨trivial, Nat.zero_le _⟩
  | lastProperty hentry ih =>
      obtain ⟨hformed, hnesting⟩ := ih hlexed
      exact ⟨⟨hformed, trivial⟩, Nat.max_le.mpr ⟨hnesting, Nat.zero_le _⟩⟩
  | moreProperties hentry hseparator hentries ihentry ihentries =>
      obtain ⟨hformed, hnesting⟩ := ihentry hlexed.left
      obtain ⟨hlaterFormed, hlaterNesting⟩ := ihentries hlexed.right.tail
      exact ⟨⟨hformed, hlaterFormed⟩, Nat.max_le.mpr ⟨hnesting, hlaterNesting⟩⟩
  | noParameters => exact List.forall_mem_nil _
  | lastParameter hkind =>
      exact List.forall_mem_singleton.mpr (Token.isName_of_kind hlexed.head hkind)
  | moreParameters hkind hseparator hnames ih =>
      exact List.forall_mem_cons.mpr
        ⟨Token.isName_of_kind hlexed.head hkind, ih hlexed.tail.tail⟩
  | block hopener hstatements hcloser ih => exact ih hlexed.left.tail
  | letWithoutValue hkeyword hname hcloser =>
      exact ⟨⟨Token.isName_of_kind hlexed.tail.head hname, rfl⟩, Nat.zero_le _⟩
  | binding hkeyword hname hsign hvalue hcloser ih =>
      have hfits := ih hlexed.left.tail.tail.tail
      exact ⟨⟨Token.isName_of_kind hlexed.left.tail.head hname, hfits.wellFormed⟩,
        hfits.nesting_le⟩
  | namedFunction hkeyword hname hopener hnames hcloser hbody ihnames ihbody =>
      obtain ⟨hformed, hnesting⟩ := ihbody hlexed.right.tail
      exact ⟨⟨Token.isName_of_kind hlexed.left.tail.head hname,
        ihnames hlexed.left.tail.tail.tail, hformed⟩, hnesting⟩
  | returned hkeyword hvalue hcloser ih =>
      have hfits := ih hlexed.left.tail
      exact ⟨hfits.wellFormed, hfits.nesting_le⟩
  | closed hstart hvalue hcloser ih =>
      have hfits := ih hlexed.left
      exact ⟨⟨hfits.startsWithFunction_eq_false hstart, hfits.wellFormed⟩, hfits.nesting_le⟩
  | unclosed hstart hvalue hnext ih =>
      have hfits := ih hlexed
      exact ⟨⟨hfits.startsWithFunction_eq_false hstart, hfits.wellFormed⟩, hfits.nesting_le⟩
  | noStatements => exact ⟨trivial, Nat.zero_le _⟩
  | read hfirst hstatements ihfirst ihstatements =>
      obtain ⟨hformed, hnesting⟩ := ihfirst hlexed.left
      obtain ⟨hlaterFormed, hlaterNesting⟩ := ihstatements hlexed.right
      exact ⟨⟨hformed, hlaterFormed⟩, Nat.max_le.mpr ⟨hnesting, hlaterNesting⟩⟩
  | skipped hlost hstatements ih => exact ih hlexed.right

end Derives

end Frontend.Grammar

namespace Frontend

/-- Every statement that is read from a text is well formed, with the last token of the text as the
only string that may be open, and nests no deeper than the bound. -/
theorem parse_wellFormed {source : String} {strict : Bool} {program : Program}
    {errors : List String} (hparse : parse source strict = .ok (program, errors)) :
    ∀ statement ∈ program.statements,
      statement.WellFormed (lex source).dropLast.getLast? ∧ statement.nesting ≤ maxNesting := by
  obtain ⟨rfl, -⟩ := parse_eq_ok hparse
  obtain ⟨hformed, hnesting⟩ :=
    (Grammar.readProgram_derives source).inImage (Lexer.tokens_lexed _)
  intro statement hmember
  rw [lex_dropLast]
  exact ⟨statementsWellFormed_iff.mp hformed statement hmember,
    nestingOfStatements_le_iff.mp hnesting statement hmember⟩

/-- A fault and an open string, between and after which statements are read. -/
theorem parse_wellFormed_around_fault :
    parse "a; 1 <; \"x" false =
        .ok ((readProgram "a; 1 <; \"x").program, ["no prefix parse function for SEMICOLON"]) ∧
      ∀ statement ∈ (readProgram "a; 1 <; \"x").program.statements,
        statement.WellFormed (lex "a; 1 <; \"x").dropLast.getLast? ∧
          statement.nesting ≤ maxNesting :=
  have hdiagnostics : (readProgram "a; 1 <; \"x").diagnostics =
      [⟨.noOperand .semicolon, some ⟨6, 7⟩⟩] := by decide +kernel
  have hparse := parse_of_diagnostics hdiagnostics
  ⟨hparse, parse_wellFormed hparse⟩

end Frontend
