import Frontend.Proofs.Lexing.Composed
import Frontend.Proofs.Tree.CanonicalWords
import Mathlib.Data.List.Forall2

/-!
# Canonical texts are made of canonical words

The lexer finds the canonical words in the canonical text of a well-formed tree in which every
string is closed.
-/

namespace Frontend

/-! ## Parts of canonical texts -/

theorem Numeral.digits_ne_nil (base : Nat) (hbase : 2 ≤ base) (n : Nat) :
    digits base hbase n ≠ [] := by
  rw [digits]
  split
  · exact List.cons_ne_nil _ _
  · exact List.append_ne_nil_of_right_ne_nil _ (List.cons_ne_nil _ _)

/-- The text of a number that is not negative is a numeral, and stands for the number. -/
theorem Numeral.ofInt_spells {value : Int} (hvalue : 0 ≤ value) :
    IsNumeral (ofInt value) ∧ (ofDecimal (ofInt value).toList : Int) = value := by
  obtain ⟨n, rfl⟩ := Int.eq_ofNat_of_zero_le hvalue
  have htext : (ofInt n).toList = decimal n := String.toList_ofList
  refine ⟨⟨?_, ?_⟩, ?_⟩
  · rw [htext, decimal]
    exact fun hnil => digits_ne_nil 10 (by decide) n (List.map_eq_nil_iff.mp hnil)
  · have hdigit : ∀ digit < 10, Lexeme.isDigit (Nat.digitChar digit) = true := by decide
    rw [htext, decimal, List.forall_mem_map]
    exact fun digit hmember => hdigit digit (digits_lt 10 (by decide) n digit hmember)
  · rw [htext, ofDecimal_decimal]

namespace ReadsBefore

variable {suits : List Char → Prop} {text text' : String} {words words' : List Word}

/-- A text before which anything may stand, after one that may stand before anything. -/
theorem before (hfirst : ReadsBefore (fun _ => True) text words)
    (hsecond : ReadsBefore suits text' words') :
    ReadsBefore suits (text ++ text') (words ++ words') :=
  hfirst.append hsecond fun _ _ => trivial

/-- A text that starts with a delimiter, after one that has to stand apart from it. -/
theorem apart (hfirst : ReadsBefore StartsApart text words)
    (hsecond : ReadsBefore suits text' words')
    (hfront : text'.toList.head?.any (· ∈ delimiters) = true) :
    ReadsBefore suits (text ++ text') (words ++ words') :=
  hfirst.append hsecond fun after _ => .of_text hfront after

theorem openParen : ReadsBefore suits "(" [Kind.lParen.word] := symbol rfl rfl

theorem closeParen : ReadsBefore suits ")" [Kind.rParen.word] := symbol rfl rfl

theorem semicolon : ReadsBefore suits ";" [Kind.semicolon.word] := symbol rfl rfl

/-- Each of some texts reads as its words. -/
theorem each {α : Type} {items : List α} {write : α → String} {told : α → List Word}
    (hitems : ∀ item ∈ items, ReadsBefore suits (write item) (told item)) :
    List.Forall₂ (ReadsBefore suits) (items.map write) (items.map told) := by
  rw [List.forall₂_map_left_iff, List.forall₂_map_right_iff, List.forall₂_same]
  exact hitems

/-- Texts between commas. -/
theorem commas {texts : List String} {wordLists : List (List Word)}
    (hreads : List.Forall₂ (ReadsBefore StartsApart) texts wordLists) :
    ReadsBefore StartsApart (joined ", " texts) (separated wordLists) := by
  induction hreads with
  | nil => exact nil
  | cons hfirst hrest ih =>
      cases hrest with
      | nil => exact hfirst
      | cons hsecond hrest =>
          have hcomma : ReadsBefore (fun _ => True) ", " [Kind.comma.word] := spaced (by decide)
          have hstart (after : List Char) : StartsApart (", ".toList ++ after) := by
            simp [StartsApart, delimiters]
          rw [joined, separated, List.append_cons]
          exact (hfirst.append hcomma fun after _ => hstart after).before ih

/-- Texts of which each may stand right before a separator that is not seen. -/
theorem inOrder {separator : String} {texts : List String}
    {wordLists : List (List Word)} (hseparator : ReadsBefore (fun _ => True) separator [])
    (hstart : ∀ after, suits (separator.toList ++ after))
    (hreads : List.Forall₂ (ReadsBefore suits) texts wordLists) :
    ReadsBefore suits (joined separator texts) wordLists.flatten := by
  induction hreads with
  | nil => exact nil
  | cons hfirst hrest ih =>
      cases hrest with
      | nil =>
          rw [joined, List.flatten_cons, List.flatten_nil, List.append_nil]
          exact hfirst
      | cons hsecond hrest =>
          have hboth := (hfirst.append hseparator fun after _ => hstart after).before ih
          rw [List.append_nil] at hboth
          exact hboth

end ReadsBefore

/-- A unary operator may stand before anything but an equals sign, with which a `!` would be another
operator. -/
theorem ReadsBefore.operator (operator : UnaryOperator) :
    ReadsBefore operator.kind.word.EndsBefore operator.symbol [operator.kind.word] := by
  have hcomplete : operator.kind.word.IsComplete :=
    Kind.word_isComplete (UnaryOperator.kind_spelled operator)
  have hread (after : List Char) (hends : operator.kind.word.EndsBefore after) :=
    wordsIn_word hcomplete hends
  cases operator <;> exact hread

/-- No expression is written with an equals sign at its front. -/
theorem Expression.head_canonical_ne (value : Expression) (hformed : value.WellFormed none)
    (after : List Char) : ∀ c ∈ (value.canonical.toList ++ after).head?, c ≠ '=' := by
  have hjoined {text : List Char} {kind : Kind} (hsome : text ≠ [])
      (hjoins : ∀ c ∈ text, kind.joins c = true) (hequals : kind.joins '=' = false) :
      ∀ c ∈ (text ++ after).head?, c ≠ '=' := by
    obtain ⟨first, rest, rfl⟩ := List.exists_cons_of_ne_nil hsome
    rintro c hc rfl
    obtain rfl := Option.some.inj hc
    rw [hjoins _ List.mem_cons_self] at hequals
    cases hequals
  cases value with
  | identifier _ name => exact @hjoined _ .ident hformed.1 hformed.2.1 rfl
  | integer _ value =>
      have hnumeral := (Numeral.ofInt_spells hformed.1).1
      exact @hjoined _ .int hnumeral.1 hnumeral.2 rfl
  | string _ text =>
      obtain ⟨inner, htext, -⟩ := hformed.resolve_right fun hopen => nomatch hopen.2
      simp [Expression.canonical, htext]
  | boolean _ value => cases value <;> simp [Expression.canonical]
  | call _ callee arguments =>
      simp only [Expression.canonical, String.toList_append, List.append_assoc]
      exact callee.head_canonical_ne hformed.2.1 _
  | _ => simp [Expression.canonical]
  termination_by structural value

/-- A unary operator is over where its operand starts. -/
theorem Expression.endsBefore_canonical (value : Expression) (hformed : value.WellFormed none)
    (operator : UnaryOperator) (after : List Char) :
    operator.kind.word.EndsBefore (value.canonical.toList ++ after) := by
  intro c hc
  have hequals := value.head_canonical_ne hformed after c hc
  cases operator with
  | not => exact decide_eq_false hequals
  | negate => rfl

/-! ## Expressions and statements -/

/-- Parameters stand apart from what is before them. -/
theorem startsApart_canonicalParameters (names : List Identifier) (after : List Char) :
    StartsApart ((canonicalParameters names).toList ++ after) := by
  simp [StartsApart, canonicalParameters, delimiters]

/-- What a name is bound to stands apart from the name. -/
theorem startsApart_canonicalValue (value : Option Expression) {after : List Char}
    (hafter : StartsApart after) : StartsApart ((canonicalValue value).toList ++ after) := by
  cases value with
  | none => exact hafter
  | some value => simp [StartsApart, canonicalValue, delimiters]

namespace ReadsBefore

section

variable {span : Span} {condition callee left right value operand : Expression}
variable {elements : List Expression} {entries : List Property} {names : List Identifier}
variable {body consequence : Block} {other : Option Block} {key : Identifier}

theorem name {identifier : Identifier} (hname : IsName identifier.name) :
    ReadsBefore StartsApart identifier.name [identifier.word] :=
  word (Identifier.word_isComplete hname)

theorem parameters (hnames : ∀ name ∈ names, IsName name.name) :
    ReadsBefore (fun _ => True) (canonicalParameters names) (canonicalWordsOfParameters names) := by
  have hcommas := commas (each fun identifier hmember => name (hnames identifier hmember))
  exact (openParen.before hcommas).apart closeParen rfl

theorem boolean (value : Bool) :
    ReadsBefore StartsApart (if value then "true" else "false") [(booleanKind value).word] := by
  cases value with
  | true => exact keyword rfl
  | false => exact keyword rfl

theorem array (helements : List.Forall₂ (ReadsBefore StartsApart) (canonicalExpressions elements)
      (canonicalWordsOfExpressions elements)) :
    ReadsBefore StartsApart (Expression.array span elements).canonical
      (Expression.array span elements).canonicalWords := by
  have hopener : ReadsBefore (fun _ => True) "[" [Kind.lBracket.word] := symbol rfl rfl
  have hcloser : ReadsBefore StartsApart "]" [Kind.rBracket.word] := symbol rfl rfl
  rw [Expression.canonical, Expression.canonicalWords]
  exact (hopener.before (commas helements)).apart hcloser rfl

theorem object (hentries : List.Forall₂ (ReadsBefore StartsApart) (canonicalProperties entries)
      (canonicalWordsOfProperties entries)) :
    ReadsBefore StartsApart (Expression.object span entries).canonical
      (Expression.object span entries).canonicalWords := by
  have hopener : ReadsBefore (fun _ => True) "\x7b" [Kind.lBrace.word] := symbol rfl rfl
  have hcloser : ReadsBefore StartsApart "\x7d" [Kind.rBrace.word] := symbol rfl rfl
  rw [Expression.canonical, Expression.canonicalWords]
  exact (hopener.before (commas hentries)).apart hcloser rfl

theorem unary (operator : UnaryOperator) (hformed : operand.WellFormed none)
    (hoperand : ReadsBefore StartsApart operand.canonical operand.canonicalWords) :
    ReadsBefore StartsApart (Expression.unary span operator operand).canonical
      (Expression.unary span operator operand).canonicalWords := by
  have hsigned := (ReadsBefore.operator operator).append hoperand fun after _ =>
    operand.endsBefore_canonical hformed operator after
  rw [Expression.canonical, Expression.canonicalWords, @String.append_assoc "("]
  exact (openParen.before hsigned).apart closeParen rfl

/-- The front of a binary expression, up to its right operand. -/
theorem leftOperand (operator : BinaryOperator)
    (hleft : ReadsBefore StartsApart left.canonical left.canonicalWords) :
    ReadsBefore (fun _ => True) ("(" ++ left.canonical ++ " " ++ operator.symbol ++ " ")
      (Kind.lParen.word :: (left.canonicalWords ++ [operator.kind.word])) := by
  have hsign : ReadsBefore StartsApart operator.symbol [operator.kind.word] :=
    keyword (by cases operator <;> rfl)
  have hblank : ReadsBefore (fun _ => True) " " [] := blank
  have hall := (((openParen.before hleft).apart hblank rfl).before hsign).apart hblank rfl
  simpa using hall

theorem binary (operator : BinaryOperator)
    (hleft : ReadsBefore StartsApart left.canonical left.canonicalWords)
    (hright : ReadsBefore StartsApart right.canonical right.canonicalWords) :
    ReadsBefore StartsApart (Expression.binary span left operator right).canonical
      (Expression.binary span left operator right).canonicalWords := by
  have hcloser : ReadsBefore StartsApart ")" [Kind.rParen.word] := closeParen
  have hall := ((leftOperand operator hleft).before hright).apart hcloser rfl
  rw [Expression.canonical, Expression.canonicalWords]
  simpa using hall

theorem alternative (hbody : ∀ body ∈ other,
      ReadsBefore (fun _ => True) body.canonical body.canonicalWords) :
    ReadsBefore (fun _ => True) (canonicalAlternative other)
      (canonicalWordsOfAlternative other) := by
  cases other with
  | none => exact nil
  | some body =>
      have hblank : ReadsBefore (fun _ => True) " " [] := blank
      have hkeyword : ReadsBefore (fun _ => True) "else " [Kind.kwElse.word] := spaced (by decide)
      have hfront : " else " = " " ++ "else " := by decide
      rw [canonicalAlternative, canonicalWordsOfAlternative, hfront]
      exact (hblank.before hkeyword).before (hbody body rfl)

theorem conditional
    (hcondition : ReadsBefore StartsApart condition.canonical condition.canonicalWords)
    (hconsequence : ReadsBefore (fun _ => True) consequence.canonical consequence.canonicalWords)
    (halternative : ReadsBefore (fun _ => True) (canonicalAlternative other)
      (canonicalWordsOfAlternative other)) :
    ReadsBefore suits (Expression.conditional span condition consequence other).canonical
      (Expression.conditional span condition consequence other).canonicalWords := by
  have hkeyword : ReadsBefore (fun _ => True) "if " [Kind.kwIf.word] := spaced (by decide)
  have hcloser : ReadsBefore (fun _ => True) ") " [Kind.rParen.word] := spaced (by decide)
  have hopener : "if (" = "if " ++ "(" := by decide
  have hfront := ((hkeyword.before openParen).before hcondition).apart hcloser rfl
  have hall := (hfront.before hconsequence).before halternative
  rw [Expression.canonical, Expression.canonicalWords, hopener]
  refine mono ?_ fun _ _ => trivial
  simpa using hall

theorem function (hnames : ∀ name ∈ names, IsName name.name)
    (hbody : ReadsBefore (fun _ => True) body.canonical body.canonicalWords) :
    ReadsBefore suits (Expression.function span names body).canonical
      (Expression.function span names body).canonicalWords := by
  have hkeyword : ReadsBefore StartsApart "function" [Kind.kwFunction.word] := keyword rfl
  have hblank : ReadsBefore (fun _ => True) " " [] := blank
  have hfront := hkeyword.append (parameters hnames)
    fun after _ => startsApart_canonicalParameters names after
  have hall := (hfront.before hblank).before hbody
  rw [Expression.canonical, Expression.canonicalWords]
  refine mono ?_ fun _ _ => trivial
  simpa using hall

theorem call (hcallee : ReadsBefore StartsApart callee.canonical callee.canonicalWords)
    (harguments : List.Forall₂ (ReadsBefore StartsApart) (canonicalExpressions elements)
      (canonicalWordsOfExpressions elements)) :
    ReadsBefore StartsApart (Expression.call span callee elements).canonical
      (Expression.call span callee elements).canonicalWords := by
  have hcloser : ReadsBefore StartsApart ")" [Kind.rParen.word] := closeParen
  have hall := ((hcallee.apart openParen rfl).before (commas harguments)).apart hcloser rfl
  rw [Expression.canonical, Expression.canonicalWords]
  simpa using hall

theorem entry (hkey : IsName key.name)
    (hvalue : ReadsBefore StartsApart value.canonical value.canonicalWords) :
    ReadsBefore StartsApart (Property.mk key value span).canonical
      (Property.mk key value span).canonicalWords := by
  have hcolon : ReadsBefore (fun _ => True) ": " [Kind.colon.word] := spaced (by decide)
  rw [Property.canonical, Property.canonicalWords]
  exact ((name hkey).apart hcolon rfl).before hvalue

/-- Between the braces of a block without statements stands a blank. -/
theorem block {row : List Statement}
    (hrow : List.Forall₂ (ReadsBefore fun _ => True) (canonicalStatements row)
      (canonicalWordsOfStatements row)) :
    ReadsBefore (fun _ => True) (Block.mk row span).canonical
      (Block.mk row span).canonicalWords := by
  have hopener : ReadsBefore (fun _ => True) "\x7b " [Kind.lBrace.word] := spaced (by decide)
  have hblank : ReadsBefore (fun _ => True) " " [] := blank
  have hcloser : ReadsBefore (fun _ => True) "\x7d" [Kind.rBrace.word] := symbol rfl rfl
  rw [Block.canonical, Block.canonicalWords]
  cases row with
  | nil =>
      have hempty : "\x7b \x7d" = "\x7b " ++ "\x7d" := by decide
      rw [canonicalStatements, canonicalBraces, hempty]
      exact hopener.before hcloser
  | cons read row =>
      have hend : " \x7d" = " " ++ "\x7d" := by decide
      have hinner := inOrder hblank (fun _ => trivial) hrow
      have hall := (hopener.before hinner).before (hblank.before hcloser)
      rw [← hend] at hall
      exact hall

theorem bound {value : Option Expression} (hvalue : ∀ bound ∈ value,
      ReadsBefore StartsApart bound.canonical bound.canonicalWords) :
    ReadsBefore StartsApart (canonicalValue value) (canonicalWordsOfValue value) := by
  cases value with
  | none => exact nil
  | some bound =>
      have hblank : ReadsBefore (fun _ => True) " " [] := blank
      have hsign : ReadsBefore (fun _ => True) "= " [Kind.assign.word] := spaced (by decide)
      have hfront : " = " = " " ++ "= " := by decide
      rw [canonicalValue, canonicalWordsOfValue, hfront]
      exact (hblank.before hsign).before (hvalue bound rfl)

theorem binding {constant : Bool} {value : Option Expression} (hkey : IsName key.name)
    (hvalue : ReadsBefore StartsApart (canonicalValue value) (canonicalWordsOfValue value)) :
    ReadsBefore (fun _ => True) (Statement.binding constant key value span).canonical
      (Statement.binding constant key value span).canonicalWords := by
  have hkeyword : ReadsBefore (fun _ => True) (if constant then "const " else "let ")
      [(bindingKind constant).word] := by
    cases constant with
    | true => exact spaced (by decide)
    | false => exact spaced (by decide)
  have hnamed := (name hkey).append hvalue fun _ hafter => startsApart_canonicalValue value hafter
  have hcloser : ReadsBefore (fun _ => True) ";" [Kind.semicolon.word] := semicolon
  have hall := (hkeyword.before hnamed).apart hcloser rfl
  rw [Statement.canonical, Statement.canonicalWords]
  simpa [String.append_assoc] using hall

theorem namedFunction (hkey : IsName key.name) (hnames : ∀ name ∈ names, IsName name.name)
    (hbody : ReadsBefore (fun _ => True) body.canonical body.canonicalWords) :
    ReadsBefore (fun _ => True) (Statement.function key names body span).canonical
      (Statement.function key names body span).canonicalWords := by
  have hkeyword : ReadsBefore (fun _ => True) "function " [Kind.kwFunction.word] :=
    spaced (by decide)
  have hblank : ReadsBefore (fun _ => True) " " [] := blank
  have hfront := (hkeyword.before (name hkey)).append (parameters hnames)
    fun after _ => startsApart_canonicalParameters names after
  have hall := (hfront.before hblank).before hbody
  rw [Statement.canonical, Statement.canonicalWords]
  simpa using hall

theorem returned (hvalue : ReadsBefore StartsApart value.canonical value.canonicalWords) :
    ReadsBefore (fun _ => True) (Statement.returned value span).canonical
      (Statement.returned value span).canonicalWords := by
  have hkeyword : ReadsBefore (fun _ => True) "return " [Kind.kwReturn.word] :=
    spaced (by decide)
  rw [Statement.canonical, Statement.canonicalWords]
  exact (hkeyword.before hvalue).apart semicolon rfl

end

end ReadsBefore

namespace Phrase

/-- The members of a phrase read as their canonical words before what stands apart from them.
Blocks and statements end with a delimiter of their own, so anything may follow them. -/
def Reads : Phrase → Prop
  | expression value => value.WellFormed none →
      ReadsBefore StartsApart value.canonical value.canonicalWords
  | items values => expressionsWellFormed none values →
      List.Forall₂ (ReadsBefore StartsApart) (canonicalExpressions values)
        (canonicalWordsOfExpressions values)
  | property entry => entry.WellFormed none →
      ReadsBefore StartsApart entry.canonical entry.canonicalWords
  | properties entries => propertiesWellFormed none entries →
      List.Forall₂ (ReadsBefore StartsApart) (canonicalProperties entries)
        (canonicalWordsOfProperties entries)
  | parameters names => (∀ name ∈ names, IsName name.name) →
      ReadsBefore (fun _ => True) (canonicalParameters names) (canonicalWordsOfParameters names)
  | block body => body.WellFormed none →
      ReadsBefore (fun _ => True) body.canonical body.canonicalWords
  | statement read => read.WellFormed none →
      ReadsBefore (fun _ => True) read.canonical read.canonicalWords
  | statements row => statementsWellFormed none row →
      List.Forall₂ (ReadsBefore fun _ => True) (canonicalStatements row)
        (canonicalWordsOfStatements row)

/-- Canonical texts read as canonical words.  There is a step for each constructor, and each puts
the texts of the parts together. -/
theorem reads_steps : Steps Reads where
  identifier _ _ hformed := ReadsBefore.name hformed
  integer _ value hformed := by
    have hnumeral := (Numeral.ofInt_spells hformed.1).1
    exact @ReadsBefore.word ⟨.int, Numeral.ofInt value⟩ ⟨hnumeral, fun hstring => nomatch hstring⟩
  string _ text hformed := by
    have hclosed := hformed.resolve_right fun hopen => nomatch hopen.2
    exact @ReadsBefore.word ⟨.string, text⟩ ⟨.inl hclosed, fun _ => hclosed⟩
  boolean _ value _ := ReadsBefore.boolean value
  array _ _ ih hformed := ReadsBefore.array (ih hformed)
  object _ _ ih hformed := ReadsBefore.object (ih hformed)
  unary _ operator _ ih hformed := ReadsBefore.unary operator hformed.2 (ih hformed.2)
  binary _ _ operator _ ihleft ihright hformed := by
    obtain ⟨-, -, hleft, hright⟩ := hformed
    exact ReadsBefore.binary operator (ihleft hleft) (ihright hright)
  conditional _ _ _ ihcondition ihconsequence hformed :=
    ReadsBefore.conditional (ihcondition hformed.1) (ihconsequence hformed.2.1)
      (ReadsBefore.alternative fun _ hnone => nomatch hnone)
  alternative _ _ _ _ ihcondition ihconsequence ihalternative hformed := by
    obtain ⟨hcondition, hconsequence, halternative⟩ := hformed
    refine ReadsBefore.conditional (ihcondition hcondition) (ihconsequence hconsequence)
      (ReadsBefore.alternative fun body hbody => ?_)
    obtain rfl := Option.some.inj hbody
    exact ihalternative halternative
  function _ _ _ _ ihbody hformed := ReadsBefore.function hformed.1 (ihbody hformed.2)
  call _ _ _ ihcallee iharguments hformed := by
    obtain ⟨-, hcallee, harguments⟩ := hformed
    exact ReadsBefore.call (ihcallee hcallee) (iharguments harguments)
  items values ih hformed := by
    rw [canonicalExpressions_eq_map, canonicalWordsOfExpressions_eq_map]
    exact ReadsBefore.each fun value hvalue =>
      ih value hvalue (expressionsWellFormed_iff.mp hformed value hvalue)
  property _ _ _ ih hformed := ReadsBefore.entry hformed.1 (ih hformed.2)
  properties entries ih hformed := by
    rw [canonicalProperties_eq_map, canonicalWordsOfProperties_eq_map]
    exact ReadsBefore.each fun entry hentry =>
      ih entry hentry (propertiesWellFormed_iff.mp hformed entry hentry)
  parameters _ hformed := ReadsBefore.parameters hformed
  block _ _ ih hformed := ReadsBefore.block (ih hformed)
  bindingWithoutValue _ _ _ hformed :=
    ReadsBefore.binding hformed.1 (ReadsBefore.bound fun _ hnone => nomatch hnone)
  binding _ _ _ _ ih hformed := by
    refine ReadsBefore.binding hformed.1 (ReadsBefore.bound fun bound hbound => ?_)
    obtain rfl := Option.some.inj hbound
    exact ih hformed.2
  namedFunction _ _ _ _ _ ihbody hformed := by
    obtain ⟨hname, hnames, hbody⟩ := hformed
    exact ReadsBefore.namedFunction hname hnames (ihbody hbody)
  returned _ _ ih hformed := ReadsBefore.returned (ih hformed)
  expression value span ih hformed := by
    rw [Statement.canonical, Statement.canonicalWords]
    exact (ih hformed.2).apart .semicolon rfl
  bareBlock _ _ hformed := hformed.elim
  statements row ih hformed := by
    rw [canonicalStatements_eq_map, canonicalWordsOfStatements_eq_map]
    exact ReadsBefore.each fun read hread =>
      ih read hread (statementsWellFormed_iff.mp hformed read hread)

end Phrase

/-! ## Programs -/

/-- The statements of a program, each on a line of its own: the `Display` text of `Program`, which
`ast` prints in the format `source`. -/
def canonicalLines (statements : List Statement) : String :=
  joined "" (statements.map fun statement => statement.canonical ++ "\n")

theorem canonicalLines_concat (front : List Statement) (last : Statement) :
    canonicalLines (front ++ [last]) = canonicalLines front ++ (last.canonical ++ "\n") := by
  induction front with
  | nil => rfl
  | cons first front ih =>
      have hcons (rest : List Statement) :
          canonicalLines (first :: rest) = first.canonical ++ "\n" ++ canonicalLines rest := by
        cases rest with
        | nil => exact String.append_empty.symm
        | cons second rest =>
            rw [canonicalLines, List.map_cons, List.map_cons, joined, String.append_empty]
            rfl
      rw [List.cons_append, hcons, ih, hcons, ← String.append_assoc]

/-- Lines of well-formed statements give the words of the statements whatever stands after them, as
each line is closed. -/
theorem ReadsBefore.lines {statements : List Statement}
    (hformed : statementsWellFormed none statements) :
    ReadsBefore (fun _ => True) (canonicalLines statements)
      (canonicalWordsOfStatements statements).flatten := by
  have hreads := Phrase.reads_steps.all (.statements statements) hformed
  have hlines : List.Forall₂ (ReadsBefore fun _ => True)
      (statements.map fun statement => statement.canonical ++ "\n")
      (canonicalWordsOfStatements statements) := by
    rw [canonicalStatements_eq_map, List.forall₂_map_left_iff] at hreads
    refine List.forall₂_map_left_iff.mpr (hreads.imp fun statement words hread => ?_)
    have hnewline : ReadsBefore (fun _ => True) "\n" [] := newline
    have hline := hread.append hnewline fun _ _ => trivial
    rwa [List.append_nil] at hline
  exact inOrder nil (fun _ => trivial) hlines

end Frontend
