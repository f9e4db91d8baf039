import Frontend.Parser.Grammar
import Frontend.Proofs.Tree.Spelling

/-!
# Sentences

The grammar as a set of rules on words.  Each rule is one way of writing a part of a program.  No
tree is built by them, so nothing is said of how tightly operators hold, and nesting has no bound.
A list of words is a program of the language if it is a sentence made of statements; the question
whether a part of a text could still become one is asked of these rules, without the parser.
-/

namespace Frontend.Grammar

/-- The parts that there are rules for.  A row is one item or more; items may be none at all. -/
inductive Form where
  | expression | row | items | property | properties | parameters | block | statement | statements

/-- The words are written by the rules for the form, the grammar of the language without spans,
precedence or nesting.  It says nothing of how anything is read. -/
inductive Sentence : Form → List Word → Prop where
  | name {word} (hkind : word.kind = .ident) : Sentence .expression [word]
  | integer {word} (hkind : word.kind = .int)
      (hvalue : Numeral.ofDecimal word.literal.toList ≤ maxInteger) : Sentence .expression [word]
  | string {word} (hkind : word.kind = .string) : Sentence .expression [word]
  | boolean {word value} (hkind : word.kind = booleanKind value) : Sentence .expression [word]
  | unary {sign words} {operator : UnaryOperator} (hsign : sign.kind = operator.kind)
      (hoperand : Sentence .expression words) : Sentence .expression (sign :: words)
  | binary {left sign right} {operator : BinaryOperator} (hleft : Sentence .expression left)
      (hsign : sign.kind = operator.kind) (hright : Sentence .expression right) :
      Sentence .expression (left ++ sign :: right)
  | call {callee opener words closer} (hcallee : Sentence .expression callee)
      (hopener : opener.kind = .lParen) (harguments : Sentence .items words)
      (hcloser : closer.kind = .rParen) :
      Sentence .expression (callee ++ opener :: words ++ [closer])
  | array {opener words closer} (hopener : opener.kind = .lBracket)
      (helements : Sentence .items words) (hcloser : closer.kind = .rBracket) :
      Sentence .expression (opener :: words ++ [closer])
  | object {opener words closer} (hopener : opener.kind = .lBrace)
      (hproperties : Sentence .properties words) (hcloser : closer.kind = .rBrace) :
      Sentence .expression (opener :: words ++ [closer])
  | conditional {keyword opener words closer body} (hkeyword : keyword.kind = .kwIf)
      (hopener : opener.kind = .lParen) (hcondition : Sentence .expression words)
      (hcloser : closer.kind = .rParen) (hbody : Sentence .block body) :
      Sentence .expression (keyword :: opener :: words ++ closer :: body)
  | alternative {keyword opener words closer body separator other}
      (hkeyword : keyword.kind = .kwIf) (hopener : opener.kind = .lParen)
      (hcondition : Sentence .expression words) (hcloser : closer.kind = .rParen)
      (hbody : Sentence .block body) (hseparator : separator.kind = .kwElse)
      (hother : Sentence .block other) :
      Sentence .expression (keyword :: opener :: words ++ closer :: body ++ separator :: other)
  | function {keyword opener words closer body} (hkeyword : keyword.kind = .kwFunction)
      (hopener : opener.kind = .lParen) (hparameters : Sentence .parameters words)
      (hcloser : closer.kind = .rParen) (hbody : Sentence .block body) :
      Sentence .expression (keyword :: opener :: words ++ closer :: body)
  | lastItem {words} (hitem : Sentence .expression words) : Sentence .row words
  | moreItems {first separator words} (hitem : Sentence .expression first)
      (hseparator : separator.kind = .comma) (hrow : Sentence .row words) :
      Sentence .row (first ++ separator :: words)
  | noItems : Sentence .items []
  | items {words} (hrow : Sentence .row words) : Sentence .items words
  | shorthand {key} (hkey : key.kind = .ident) : Sentence .property [key]
  | written {key colon words} (hkey : key.kind = .ident) (hcolon : colon.kind = .colon)
      (hvalue : Sentence .expression words) : Sentence .property (key :: colon :: words)
  | noProperties : Sentence .properties []
  | lastProperty {words} (hproperty : Sentence .property words) : Sentence .properties words
  | moreProperties {first separator words} (hproperty : Sentence .property first)
      (hseparator : separator.kind = .comma) (hproperties : Sentence .properties words) :
      Sentence .properties (first ++ separator :: words)
  | noParameters : Sentence .parameters []
  | lastParameter {name} (hname : name.kind = .ident) : Sentence .parameters [name]
  | moreParameters {name separator words} (hname : name.kind = .ident)
      (hseparator : separator.kind = .comma) (hparameters : Sentence .parameters words) :
      Sentence .parameters (name :: separator :: words)
  | block {opener words closer} (hopener : opener.kind = .lBrace)
      (hstatements : Sentence .statements words) (hcloser : closer.kind = .rBrace) :
      Sentence .block (opener :: words ++ [closer])
  | letWithoutValue {keyword name closer} (hkeyword : keyword.kind = .kwLet)
      (hname : name.kind = .ident) (hcloser : closer.kind = .semicolon) :
      Sentence .statement [keyword, name, closer]
  | binding {constant keyword name sign words closer}
      (hkeyword : keyword.kind = bindingKind constant) (hname : name.kind = .ident)
      (hsign : sign.kind = .assign) (hvalue : Sentence .expression words)
      (hcloser : closer.kind = .semicolon) :
      Sentence .statement (keyword :: name :: sign :: words ++ [closer])
  | namedFunction {keyword name opener words closer body} (hkeyword : keyword.kind = .kwFunction)
      (hname : name.kind = .ident) (hopener : opener.kind = .lParen)
      (hparameters : Sentence .parameters words) (hcloser : closer.kind = .rParen)
      (hbody : Sentence .block body) :
      Sentence .statement (keyword :: name :: opener :: words ++ closer :: body)
  | returned {keyword words closer} (hkeyword : keyword.kind = .kwReturn)
      (hvalue : Sentence .expression words) (hcloser : closer.kind = .semicolon) :
      Sentence .statement (keyword :: words ++ [closer])
  | closed {words closer} (hstart : ∀ word ∈ words.head?, word.kind ≠ .kwFunction)
      (hvalue : Sentence .expression words) (hcloser : closer.kind = .semicolon) :
      Sentence .statement (words ++ [closer])
  | unclosed {words} (hstart : ∀ word ∈ words.head?, word.kind ≠ .kwFunction)
      (hvalue : Sentence .expression words) : Sentence .statement words
  | noStatements : Sentence .statements []
  | statements {first words} (hfirst : Sentence .statement first)
      (hrest : Sentence .statements words) : Sentence .statements (first ++ words)

/-- An expression has words. -/
theorem Sentence.expression_ne_nil {words : List Word} (hsentence : Sentence .expression words) :
    words ≠ [] := by
  cases hsentence <;> simp

/-- Words of the form with the word behind them that closes them. -/
def Closed (form : Form) (closer : Kind) (words : List Word) : Prop :=
  ∃ front last, words = front ++ [last] ∧ last.kind = closer ∧ Sentence form front

/-! ## What could follow -/

/-- A word of the kind: a name, or the only word of the kind.  It stands in for the words that a
text has no room for yet. -/
def filler : Kind → Word
  | .ident => ⟨.ident, "x"⟩
  | kind => kind.word

@[simp]
theorem filler_kind (kind : Kind) : (filler kind).kind = kind := by
  cases kind <;> rfl

/-- The kinds of names and of words with one spelling. -/
def Fills (kind : Kind) : Prop := kind = .ident ∨ kind.spelling?.isSome

instance (kind : Kind) : Decidable (Fills kind) :=
  inferInstanceAs (Decidable (kind = .ident ∨ kind.spelling?.isSome))

theorem filler_isComplete {kind : Kind} (hfills : Fills kind) : (filler kind).IsComplete := by
  have hname : IsName "x" := ⟨by decide, List.all_eq_true.mp rfl, by decide⟩
  rcases hfills with rfl | hspelled
  · exact ⟨hname, nofun⟩
  · have hword : filler kind = kind.word := by
      cases kind <;> first | rfl | cases hspelled
    rw [hword]
    exact Kind.word_isComplete hspelled

/-- Some words make a list of them good.  What is completable can still become a program, however it
goes on. -/
def Completable (good : List Word → Prop) : Prop :=
  ∃ kinds : List Kind, (∀ kind ∈ kinds, Fills kind) ∧ good (kinds.map filler)

namespace Completable

variable {good result : List Word → Prop} {before : List Word}

theorem of_nil (hgood : good []) : Completable good := ⟨[], nofun, hgood⟩

/-- What makes the words good can itself be made into more. -/
theorem trans (hgood : Completable fun more => good (before ++ more))
    (hresult : ∀ words, good words → Completable fun more => result (words ++ more)) :
    Completable fun more => result (before ++ more) := by
  obtain ⟨kinds, hkinds, hgood⟩ := hgood
  obtain ⟨others, hothers, hresult⟩ := hresult _ hgood
  refine ⟨kinds ++ others, List.forall_mem_append.mpr ⟨hkinds, hothers⟩, ?_⟩
  dsimp only
  rwa [List.map_append, ← List.append_assoc]

theorem mono (hgood : Completable good) (hresult : ∀ words, good words → result words) :
    Completable result := by
  obtain ⟨kinds, hkinds, hgood⟩ := hgood
  exact ⟨kinds, hkinds, hresult _ hgood⟩

/-- A part and then what is missing after it. -/
theorem part (hgood : Completable good)
    (hresult : ∀ words, good words → Completable fun more => result (words ++ more)) :
    Completable result :=
  have hstart : Completable fun more => good ([] ++ more) := hgood
  hstart.trans hresult

/-- A word of the kind and then what is missing after it. -/
theorem next (kind : Kind) (hfills : Fills kind)
    (hgood : Completable fun more => good (filler kind :: more)) : Completable good := by
  obtain ⟨kinds, hkinds, hgood⟩ := hgood
  exact ⟨kind :: kinds, List.forall_mem_cons.mpr ⟨hfills, hkinds⟩, hgood⟩

theorem words_isComplete (hgood : Completable good) :
    ∃ words, (∀ word ∈ words, word.IsComplete) ∧ good words := by
  obtain ⟨kinds, hkinds, hgood⟩ := hgood
  refine ⟨kinds.map filler, ?_, hgood⟩
  intro word hmember
  obtain ⟨kind, hkind, rfl⟩ := List.mem_map.mp hmember
  exact filler_isComplete (hkinds kind hkind)

end Completable

theorem expression_completable : Completable (Sentence .expression) :=
  .next .ident (by decide) (.of_nil (.name rfl))

theorem block_completable : Completable (Sentence .block) :=
  ⟨[.lBrace, .rBrace], by decide, .block rfl .noStatements rfl⟩

/-- What was closed by a word is closed by any word of the kind, so a filler will do. -/
theorem closed_completable {form : Form} {closer : Kind} {words : List Word} (hfills : Fills closer)
    (hsentence : Sentence form words) :
    Completable fun more => Closed form closer (words ++ more) :=
  .next closer hfills (.of_nil ⟨words, _, rfl, filler_kind closer, hsentence⟩)

end Frontend.Grammar
