import Frontend.Proofs.Tree.Fronts

/-!
# Canonical words are unambiguous

No two trees have the same canonical words.  Read from the left, the words tell at every place what
is written there and where it ends: an operand is over where neither a call nor an `else` follows,
and parentheses around operands are told from others by what stands before them.  A call starts
with its callee, so an expression is compared as the operand at its front with the arguments of the
calls after it.
-/

namespace Frontend

/-! ## Comparing words -/

/-- An operand before these words is over: no arguments follow, and no alternative. -/
def EndsOperand (words : List Word) : Prop :=
  ∀ word ∈ words.head?, word.kind ≠ .lParen ∧ word.kind ≠ .kwElse

/-- The words before which the front of a call is over, which may go on with its arguments. -/
def EndsFront (words : List Word) : Prop := ∀ word ∈ words.head?, word.kind ≠ .kwElse

/-- The kinds of words that close what holds other parts. -/
def Kind.closes : Kind → Bool
  | .rParen | .rBrace | .rBracket => true
  | _ => false

theorem Kind.closes_of_leads {kind : Kind} (hleads : kind.leads = true) : kind.closes = false := by
  cases kind <;> first | rfl | cases hleads

theorem Statement.closes_lead (read : Statement) : read.lead.closes = false := by
  cases read with
  | binding constant => cases constant <;> rfl
  | expression value => exact Kind.closes_of_leads value.leads_lead
  | _ => rfl

/-- The words before which a list of parts is over. -/
def EndsList (words : List Word) : Prop := ∀ word ∈ words.head?, word.kind.closes = true

/-- Whatever suits may stand after the words, which then tell what is meant and where they end.  It
is proved part by part, from left to right. -/
def Tells {β : Type} (suits : List Word → Prop) (words words' : List Word) (meant meant' : β) :
    Prop :=
  ∀ rest rest', suits rest → suits rest' → words ++ rest = words' ++ rest' →
    meant = meant' ∧ rest = rest'

section

variable {word : Word} {words rest : List Word}

theorem endsOperand_operator (operator : BinaryOperator) :
    EndsOperand (operator.kind.word :: rest) := by
  intro first hfirst
  obtain rfl := Option.some.inj hfirst
  cases operator <;> decide

theorem endsOperand_cons (hword : word.kind ≠ .lParen ∧ word.kind ≠ .kwElse) :
    EndsOperand (word :: rest) := by
  intro first hfirst
  obtain rfl := Option.some.inj hfirst
  exact hword

theorem endsList_cons (hword : word.kind.closes = true) : EndsList (word :: rest) := by
  intro first hfirst
  obtain rfl := Option.some.inj hfirst
  exact hword

theorem EndsList.endsOperand (hends : EndsList words) : EndsOperand words := by
  intro first hfirst
  have hcloses := hends first hfirst
  constructor <;> intro hkind <;> rw [hkind] at hcloses <;> cases hcloses

theorem endsOperand_rParen (rest : List Word) : EndsOperand (Kind.rParen.word :: rest) :=
  (endsList_cons rfl).endsOperand

theorem endsOperand_semicolon (rest : List Word) : EndsOperand (Kind.semicolon.word :: rest) :=
  endsOperand_cons (by decide)

/-- What closes a list is no comma, and no part of the list starts with it. -/
theorem EndsList.ne_cons (hends : EndsList words) (hword : word.kind.closes = false) :
    words ≠ word :: rest := by
  rintro rfl
  rw [hends word rfl] at hword
  cases hword

end

namespace Tells

variable {β γ : Type} {suits suits' : List Word → Prop} {word word' closer : Word}
variable {words words' more more' : List Word} {meant meant' : β} {also also' : γ}

/-- Words that tell where they end whatever stands after them. -/
theorem anywhere (htells : Tells (fun _ => True) words words' meant meant') :
    Tells suits words words' meant meant' :=
  fun rest rest' _ _ hwords => htells rest rest' trivial trivial hwords

/-- What is made of what the words tell is told by them as well. -/
theorem map (make : β → γ) (htells : Tells suits words words' meant meant') :
    Tells suits words words' (make meant) (make meant') := by
  intro rest rest' hrest hrest' hwords
  obtain ⟨hsame, hend⟩ := htells rest rest' hrest hrest' hwords
  exact ⟨congrArg make hsame, hend⟩

/-- A word alone tells what it determines. -/
theorem single (hmeant : word = word' → meant = meant') :
    Tells (fun _ => True) [word] [word'] meant meant' := by
  intro rest rest' _ _ hwords
  obtain ⟨hword, hend⟩ := List.cons.inj hwords
  exact ⟨hmeant hword, hend⟩

/-- A word that is the same on both sides may stand before the words. -/
theorem cons (htells : Tells suits words words' meant meant') :
    Tells suits (word :: words) (word :: words') meant meant' :=
  fun rest rest' hrest hrest' hwords => htells rest rest' hrest hrest' (List.cons.inj hwords).2

/-- Words after words, at whose start the first ones are over.  What both of them mean is told by
the whole. -/
theorem append (hfirst : Tells suits words words' meant meant')
    (hsecond : Tells suits' more more' also also')
    (hover : ∀ rest, suits' rest → suits (more ++ rest))
    (hover' : ∀ rest, suits' rest → suits (more' ++ rest)) :
    Tells suits' (words ++ more) (words' ++ more') (meant, also) (meant', also') := by
  intro rest rest' hrest hrest' hwords
  rw [List.append_assoc, List.append_assoc] at hwords
  obtain ⟨hsame, hlater⟩ := hfirst _ _ (hover rest hrest) (hover' rest' hrest') hwords
  obtain ⟨halso, hend⟩ := hsecond rest rest' hrest hrest' hlater
  exact ⟨by rw [hsame, halso], hend⟩

/-- A word that tells something by itself may stand before the words. -/
theorem consTold (hword : word = word' → also = also')
    (htells : Tells suits words words' meant meant') :
    Tells suits (word :: words) (word' :: words') (also, meant) (also', meant') :=
  (single hword).append htells (fun _ _ => trivial) fun _ _ => trivial

/-- Words with a word after them at which they are over need nothing else to tell their end. -/
theorem closed (htells : Tells suits words words' meant meant')
    (hcloser : ∀ rest, suits (closer :: rest)) :
    Tells (fun _ => True) (words ++ [closer]) (words' ++ [closer]) meant meant' := by
  have hend : Tells (fun _ => True) [closer] [closer] () () := single fun _ => rfl
  exact (htells.append hend (fun rest _ => hcloser rest) fun rest _ => hcloser rest).map Prod.fst

end Tells

section

variable {α β : Type} {writing : α → List Word} {meaning : α → β} {items items' : List α}

/-- What follows the first of some words between commas. -/
def afterFirst : List (List Word) → List Word
  | [] => []
  | words :: rest => Kind.comma.word :: separated (words :: rest)

theorem separated_cons (words : List Word) (rest : List (List Word)) :
    separated (words :: rest) = words ++ afterFirst rest := by
  cases rest with
  | nil => exact (List.append_nil words).symm
  | cons next rest => rfl

theorem endsOperand_afterFirst {rest : List Word} (hrest : EndsList rest)
    (wordLists : List (List Word)) : EndsOperand (afterFirst wordLists ++ rest) := by
  cases wordLists with
  | nil => exact hrest.endsOperand
  | cons words wordLists => exact endsOperand_cons ⟨by decide, by decide⟩

/-- Members between commas are known by their words if each one is. -/
theorem tells_separated
    (hstart : ∀ item ∈ items ++ items', ∃ word tail, writing item = word :: tail ∧
      word.kind.closes = false)
    (hmember : ∀ item ∈ items, ∀ item' ∈ items',
      Tells EndsOperand (writing item) (writing item') (meaning item) (meaning item')) :
    Tells EndsList (separated (items.map writing)) (separated (items'.map writing))
      (items.map meaning) (items'.map meaning) := by
  intro rest rest' hrest hrest' hwords
  induction items generalizing items' with
  | nil =>
      cases items' with
      | nil => exact ⟨rfl, hwords⟩
      | cons item' items' =>
          obtain ⟨word, tail, hitem, hopens⟩ := hstart item' List.mem_cons_self
          rw [List.map_cons, separated_cons, hitem] at hwords
          exact absurd hwords (hrest.ne_cons hopens)
  | cons item items ih =>
      cases items' with
      | nil =>
          obtain ⟨word, tail, hitem, hopens⟩ := hstart item List.mem_cons_self
          rw [List.map_cons, separated_cons, hitem] at hwords
          exact absurd hwords.symm (hrest'.ne_cons hopens)
      | cons item' items' =>
          rw [List.map_cons, List.map_cons, separated_cons, separated_cons, List.append_assoc,
            List.append_assoc] at hwords
          obtain ⟨hfirst, hlater⟩ := hmember item List.mem_cons_self item' List.mem_cons_self _ _
            (endsOperand_afterFirst hrest _) (endsOperand_afterFirst hrest' _) hwords
          rw [List.map_cons, List.map_cons, hfirst]
          cases items with
          | nil =>
              cases items' with
              | nil => exact ⟨rfl, hlater⟩
              | cons => exact absurd hlater (hrest.ne_cons rfl)
          | cons second items =>
              cases items' with
              | nil => exact absurd hlater.symm (hrest'.ne_cons rfl)
              | cons second' items' =>
                  obtain ⟨hothers, hend⟩ := ih (fun other hother => hstart other (by
                      simp only [List.cons_append, List.mem_cons, List.mem_append] at hother ⊢
                      tauto))
                    (fun other hother other' hother' => hmember other
                      (List.mem_cons_of_mem _ hother) other' (List.mem_cons_of_mem _ hother'))
                    (List.cons.inj hlater).2
                  rw [hothers]
                  exact ⟨rfl, hend⟩

/-- Members one after another are known by their words if each one is. -/
theorem tells_flatten
    (hstart : ∀ item ∈ items ++ items', ∃ word tail, writing item = word :: tail ∧
      word.kind.closes = false)
    (hmember : ∀ item ∈ items, ∀ item' ∈ items',
      Tells (fun _ => True) (writing item) (writing item') (meaning item) (meaning item')) :
    Tells EndsList (items.map writing).flatten (items'.map writing).flatten
      (items.map meaning) (items'.map meaning) := by
  intro rest rest' hrest hrest' hwords
  induction items generalizing items' with
  | nil =>
      cases items' with
      | nil => exact ⟨rfl, hwords⟩
      | cons item' items' =>
          obtain ⟨word, tail, hitem, hopens⟩ := hstart item' List.mem_cons_self
          rw [List.map_cons, List.flatten_cons, hitem] at hwords
          exact absurd hwords (hrest.ne_cons hopens)
  | cons item items ih =>
      cases items' with
      | nil =>
          obtain ⟨word, tail, hitem, hopens⟩ := hstart item List.mem_cons_self
          rw [List.map_cons, List.flatten_cons, hitem] at hwords
          exact absurd hwords.symm (hrest'.ne_cons hopens)
      | cons item' items' =>
          rw [List.map_cons, List.map_cons, List.flatten_cons, List.flatten_cons,
            List.append_assoc, List.append_assoc] at hwords
          obtain ⟨hfirst, hlater⟩ := hmember item List.mem_cons_self item' List.mem_cons_self _ _
            trivial trivial hwords
          obtain ⟨hothers, hend⟩ := ih (fun other hother => hstart other (by
              simp only [List.cons_append, List.mem_cons, List.mem_append] at hother ⊢
              tauto))
            (fun other hother other' hother' => hmember other
              (List.mem_cons_of_mem _ hother) other' (List.mem_cons_of_mem _ hother'))
            hlater
          rw [List.map_cons, List.map_cons, hfirst, hothers]
          exact ⟨rfl, hend⟩

end

/-! ## Phrases known by their words -/

section

variable (last' : Option Token)

/-- What the words of arguments or elements tell. -/
def ItemsKnown (values : List Expression) : Prop :=
  ∀ values', expressionsWellFormed last' values' →
    Tells EndsList (separated (canonicalWordsOfExpressions values))
      (separated (canonicalWordsOfExpressions values')) (mapSpansOfExpressions nowhere values)
      (mapSpansOfExpressions nowhere values')

/-- What the words of the entries of an object tell. -/
def EntriesKnown (entries : List Property) : Prop :=
  ∀ entries', propertiesWellFormed last' entries' →
    Tells EndsList (separated (canonicalWordsOfProperties entries))
      (separated (canonicalWordsOfProperties entries')) (mapSpansOfProperties nowhere entries)
      (mapSpansOfProperties nowhere entries')

namespace Expression

/-- An expression without calls at its end is known by its words. -/
def FrontKnown (value : Expression) : Prop :=
  ∀ value' : Expression, value'.WellFormed last' → SameFront value value' →
    Tells EndsFront value.canonicalWords value'.canonicalWords (value.mapSpans nowhere)
      (value'.mapSpans nowhere)

/-- An expression is known by its words: no other expression has the same ones, up to spans. -/
def Known (value : Expression) : Prop :=
  ∀ value' : Expression, value'.WellFormed last' →
    Tells EndsOperand value.canonicalWords value'.canonicalWords (value.mapSpans nowhere)
      (value'.mapSpans nowhere)

/-- The front of an expression and the arguments after it are known by their words.  A call is known
part by part, as its callee may be a call itself. -/
structure PartsKnown (value : Expression) : Prop where
  head : value.head.FrontKnown last'
  groups : ∀ group ∈ value.groups, ItemsKnown last' group

end Expression

/-- An entry of an object is known by its words. -/
def Property.Known (entry : Property) : Prop :=
  ∀ entry' : Property, entry'.WellFormed last' →
    Tells EndsOperand entry.canonicalWords entry'.canonicalWords (entry.mapSpans nowhere)
      (entry'.mapSpans nowhere)

/-- A block is known by its words, whatever stands after it. -/
def Block.Known (body : Block) : Prop :=
  ∀ body' : Block, body'.WellFormed last' →
    Tells (fun _ => True) body.canonicalWords body'.canonicalWords (body.mapSpans nowhere)
      (body'.mapSpans nowhere)

/-- A statement is known by its words, whatever stands after it. -/
def Statement.Known (read : Statement) : Prop :=
  ∀ read' : Statement, read'.WellFormed last' → SameStart read read' →
    Tells (fun _ => True) read.canonicalWords read'.canonicalWords (read.mapSpans nowhere)
      (read'.mapSpans nowhere)

/-- What the words of the statements of a block tell. -/
def RowKnown (row : List Statement) : Prop :=
  ∀ row', statementsWellFormed last' row' →
    Tells EndsList (canonicalWordsOfStatements row).flatten
      (canonicalWordsOfStatements row').flatten (mapSpansOfStatements nowhere row)
      (mapSpansOfStatements nowhere row')

end

theorem endsFront_groupsWords {groups : List (List Expression)} {rest : List Word}
    (hrest : EndsOperand rest) : EndsFront (groupsWords groups ++ rest) := by
  cases groups with
  | nil => exact fun word hword => (hrest word hword).2
  | cons group groups =>
      intro word hword
      obtain rfl := Option.some.inj hword
      decide

section

variable {last' : Option Token}

/-- Arguments of calls are known by their words. -/
theorem tells_groupsWords {groups groups' : List (List Expression)}
    (hknown : ∀ group ∈ groups, ItemsKnown last' group)
    (hformed : ∀ group ∈ groups', expressionsWellFormed last' group) :
    Tells EndsOperand (groupsWords groups) (groupsWords groups')
      (groups.map (mapSpansOfExpressions nowhere))
      (groups'.map (mapSpansOfExpressions nowhere)) := by
  intro rest rest' hrest hrest' hwords
  induction groups generalizing groups' with
  | nil =>
      cases groups' with
      | nil => exact ⟨rfl, hwords⟩
      | cons group' groups' =>
          rw [groupsWords, List.nil_append] at hwords
          exact absurd rfl (hrest Kind.lParen.word (hwords ▸ rfl)).1
  | cons group groups ih =>
      cases groups' with
      | nil =>
          rw [groupsWords, groupsWords, List.nil_append] at hwords
          exact absurd rfl (hrest' Kind.lParen.word (hwords ▸ rfl)).1
      | cons group' groups' =>
          obtain ⟨hfirst, hothers⟩ := List.forall_mem_cons.mp hknown
          obtain ⟨hgroup, hgroups⟩ := List.forall_mem_cons.mp hformed
          simp only [groupsWords, List.cons_append, List.append_assoc, List.cons.injEq,
            true_and] at hwords
          obtain ⟨hsame, hlater⟩ := hfirst _ hgroup _ _ (endsList_cons rfl) (endsList_cons rfl)
            hwords
          obtain ⟨hrestSame, hend⟩ := ih hothers hgroups (List.cons.inj hlater).2
          rw [List.map_cons, List.map_cons, hsame, hrestSame]
          exact ⟨rfl, hend⟩

theorem Expression.PartsKnown.known {value : Expression} (hparts : value.PartsKnown last') :
    value.Known last' := by
  intro value' hformed rest rest' hrest hrest' hwords
  obtain ⟨hheadFormed, hgroupsFormed⟩ := value'.head_wellFormed hformed
  rw [value.canonicalWords_eq, value'.canonicalWords_eq, List.append_assoc, List.append_assoc]
    at hwords
  have hfront := sameFront_of_lead value.isCall_head value'.isCall_head (lead_eq_of_words hwords)
  obtain ⟨hhead, hlater⟩ := hparts.head _ hheadFormed hfront _ _ (endsFront_groupsWords hrest)
    (endsFront_groupsWords hrest') hwords
  obtain ⟨hgroups, hend⟩ := tells_groupsWords hparts.groups hgroupsFormed _ _ hrest hrest' hlater
  rw [value.erased_eq_applied, value'.erased_eq_applied, hhead, hgroups]
  exact ⟨rfl, hend⟩

/-- An expression that is no call has only a front. -/
theorem Expression.FrontKnown.parts {value : Expression} (hcall : value.isCall = false)
    (hfront : value.FrontKnown last') : value.PartsKnown last' := by
  have hparts : value.head = value ∧ value.groups = [] := by
    cases value with
    | call => cases hcall
    | _ => exact ⟨rfl, rfl⟩
  refine ⟨?_, ?_⟩
  · rw [hparts.1]
    exact hfront
  · rw [hparts.2]
    exact List.forall_mem_nil _

end

/-! ## Names and operators -/

theorem UnaryOperator.eq_of_word (left right : UnaryOperator)
    (hword : left.kind.word = right.kind.word) : left = right :=
  eq_of_kind (congrArg Word.kind hword)

theorem BinaryOperator.eq_of_word (left right : BinaryOperator)
    (hword : left.kind.word = right.kind.word) : left = right :=
  eq_of_kind (congrArg Word.kind hword)

/-- A name is known by its word. -/
theorem Identifier.mapSpan_of_word (name name' : Identifier) (hword : name.word = name'.word) :
    name.mapSpan nowhere = name'.mapSpan nowhere := by
  have hname : name.name = name'.name := congrArg Word.literal hword
  rw [Identifier.mapSpan, Identifier.mapSpan, hname]
  rfl

/-- Names between parentheses are known by their words. -/
theorem tells_parameters (names names' : List Identifier) :
    Tells (fun _ => True) (canonicalWordsOfParameters names) (canonicalWordsOfParameters names')
      (names.map (Identifier.mapSpan nowhere)) (names'.map (Identifier.mapSpan nowhere)) := by
  have hname (name name' : Identifier) :
      Tells EndsOperand [name.word] [name'.word] (name.mapSpan nowhere) (name'.mapSpan nowhere) :=
    (Tells.single (name.mapSpan_of_word name')).anywhere
  have hnames := tells_separated (fun name _ => ⟨_, _, rfl, rfl⟩)
    fun name (_ : name ∈ names) name' (_ : name' ∈ names') => hname name name'
  exact (hnames.closed fun _ => endsList_cons rfl).cons

/-! ## Expressions -/

section

variable {last' : Option Token} {span : Span}

theorem frontKnown_identifier {name : Identifier} :
    (Expression.identifier span name).FrontKnown last' := by
  rintro _ - ⟨⟩
  exact (Tells.single (name.mapSpan_of_word _)).anywhere.map (Expression.identifier (nowhere span))

/-- The digits of a value that is not negative tell the value. -/
theorem frontKnown_integer {value : Int} (hvalue : 0 ≤ value) :
    (Expression.integer span value).FrontKnown last' := by
  intro value' hformed' hfront
  cases hfront with
  | @integer _ _ _ number' =>
      have htold : (⟨.int, Numeral.ofInt value⟩ : Word) = ⟨.int, Numeral.ofInt number'⟩ →
          value = number' := by
        intro hword
        have hdigits : Numeral.ofInt value = Numeral.ofInt number' := congrArg Word.literal hword
        have hspelled := (Numeral.ofInt_spells hvalue).2
        rw [hdigits, (Numeral.ofInt_spells hformed'.1).2] at hspelled
        exact hspelled.symm
      exact (Tells.single htold).anywhere.map (Expression.integer (nowhere span))

theorem frontKnown_string {text : String} : (Expression.string span text).FrontKnown last' := by
  rintro _ - ⟨⟩
  exact (Tells.single (congrArg Word.literal)).anywhere.map (Expression.string (nowhere span))

theorem frontKnown_boolean {value : Bool} : (Expression.boolean span value).FrontKnown last' := by
  rintro _ - ⟨⟩
  exact (Tells.single fun _ => rfl).anywhere

theorem frontKnown_array {elements : List Expression} (helements : ItemsKnown last' elements) :
    (Expression.array span elements).FrontKnown last' := by
  rintro _ hformed' ⟨⟩
  exact ((helements _ hformed').closed fun _ => endsList_cons rfl).cons.anywhere.map
    (Expression.array (nowhere span))

theorem frontKnown_object {entries : List Property} (hentries : EntriesKnown last' entries) :
    (Expression.object span entries).FrontKnown last' := by
  rintro _ hformed' ⟨⟩
  exact ((hentries _ hformed').closed fun _ => endsList_cons rfl).cons.anywhere.map
    (Expression.object (nowhere span))

/-- In parentheses, a unary operator is told from an operand before a binary operator. -/
theorem frontKnown_unary {operator : UnaryOperator} {operand : Expression}
    (hoperand : operand.Known last') :
    (Expression.unary span operator operand).FrontKnown last' := by
  intro value' hformed' hfront
  cases hfront with
  | @unary _ _ _ operator' _ operand' =>
      have hclosed := (hoperand _ hformed'.2).closed endsOperand_rParen
      have hsigned := hclosed.consTold (operator.eq_of_word operator')
      exact hsigned.cons.anywhere.map fun parts => Expression.unary (nowhere span) parts.1 parts.2
  | unaryBinary =>
      intro rest rest' _ _ hwords
      simp only [Expression.canonicalWords, List.cons_append, List.append_assoc,
        List.cons.injEq, true_and] at hwords
      exact absurd hwords.symm (Expression.canonicalWords_ne (by cases operator <;> rfl))

/-- The left operand is over at the operator, and the right one at the parenthesis. -/
theorem frontKnown_binary {left right : Expression} {operator : BinaryOperator}
    (hleft : left.Known last') (hright : right.Known last') :
    (Expression.binary span left operator right).FrontKnown last' := by
  intro value' hformed' hfront
  cases hfront with
  | @binaryUnary _ _ _ operator' =>
      intro rest rest' _ _ hwords
      simp only [Expression.canonicalWords, List.cons_append, List.append_assoc,
        List.cons.injEq, true_and] at hwords
      exact absurd hwords (Expression.canonicalWords_ne (by cases operator' <;> rfl))
  | @binary _ _ _ left' _ operator' _ right' =>
      obtain ⟨-, -, hformedLeft, hformedRight⟩ := hformed'
      have hclosed := (hright _ hformedRight).closed endsOperand_rParen
      have hsigned := hclosed.consTold (operator.eq_of_word operator')
      have hoperands := (hleft _ hformedLeft).append hsigned (fun _ _ => endsOperand_operator _)
        fun _ _ => endsOperand_operator _
      exact hoperands.cons.anywhere.map
        fun parts => Expression.binary (nowhere span) parts.1 parts.2.1 parts.2.2

/-- An alternative is told from none by its `else`, which no other operand has after it. -/
theorem tells_alternative {alternative alternative' : Option Block}
    (hknown : ∀ body ∈ alternative, body.Known last')
    (hformed : alternativeWellFormed last' alternative') :
    Tells EndsFront (canonicalWordsOfAlternative alternative)
      (canonicalWordsOfAlternative alternative') (mapSpansOfAlternative nowhere alternative)
      (mapSpansOfAlternative nowhere alternative') := by
  cases alternative with
  | none =>
      cases alternative' with
      | none => exact fun _ _ _ _ hwords => ⟨rfl, hwords⟩
      | some body' =>
          intro rest rest' hrest _ hwords
          exact absurd rfl (hrest Kind.kwElse.word (congrArg List.head? hwords))
  | some body =>
      cases alternative' with
      | none =>
          intro rest rest' _ hrest' hwords
          exact absurd rfl (hrest' Kind.kwElse.word (congrArg List.head? hwords).symm)
      | some body' => exact (hknown body rfl _ hformed).cons.anywhere.map some

/-- A conditional is known by its words if its parts are: an `else` after it is its own. -/
theorem frontKnown_conditional {condition : Expression} {consequence : Block}
    {alternative : Option Block} (hcondition : condition.Known last')
    (hconsequence : consequence.Known last')
    (halternative : ∀ body ∈ alternative, body.Known last') :
    (Expression.conditional span condition consequence alternative).FrontKnown last' := by
  intro value' hformed' hfront
  cases hfront with
  | @conditional _ _ _ _ _ _ _ alternative' =>
      obtain ⟨hformedCondition, hformedConsequence, hformedAlternative⟩ := hformed'
      have hblocks := (hconsequence _ hformedConsequence).append
        (tells_alternative halternative hformedAlternative) (fun _ _ => trivial)
        fun _ _ => trivial
      have hparts := (hcondition _ hformedCondition).append hblocks.cons
        (fun _ _ => endsOperand_rParen _) fun _ _ => endsOperand_rParen _
      exact hparts.cons.cons.map
        fun parts => Expression.conditional (nowhere span) parts.1 parts.2.1 parts.2.2

theorem frontKnown_function {names : List Identifier} {body : Block} (hbody : body.Known last') :
    (Expression.function span names body).FrontKnown last' := by
  intro value' hformed' hfront
  cases hfront with
  | @function _ _ _ names' =>
      have hparts := (tells_parameters names names').append (hbody _ hformed'.2)
        (fun _ _ => trivial) fun _ _ => trivial
      exact hparts.cons.anywhere.map
        fun parts => Expression.function (nowhere span) parts.1 parts.2

/-- The arguments of a call come after those of the calls that its callee is made of. -/
theorem partsKnown_call {callee : Expression} {arguments : List Expression}
    (hcallee : callee.PartsKnown last') (harguments : ItemsKnown last' arguments) :
    (Expression.call span callee arguments).PartsKnown last' where
  head := hcallee.head
  groups group hmember := by
    rcases List.mem_append.mp hmember with hfront | hlast
    · exact hcallee.groups group hfront
    · rw [List.mem_singleton.mp hlast]
      exact harguments

theorem itemsKnown_of_forall {values : List Expression}
    (hvalues : ∀ value ∈ values, value.Known last') : ItemsKnown last' values := by
  intro values' hformed'
  rw [canonicalWordsOfExpressions_eq_map, canonicalWordsOfExpressions_eq_map,
    mapSpansOfExpressions_eq_map, mapSpansOfExpressions_eq_map]
  refine tells_separated (fun value _ => ?_) fun value hvalue value' hvalue' =>
    hvalues value hvalue value' (expressionsWellFormed_iff.mp hformed' value' hvalue')
  obtain ⟨word, tail, hwords, hkind⟩ := value.canonicalWords_lead
  exact ⟨word, tail, hwords, hkind ▸ Kind.closes_of_leads value.leads_lead⟩

theorem entryKnown_of_value {key : Identifier} {value : Expression} (hvalue : value.Known last') :
    Property.Known last' ⟨key, value, span⟩ := by
  rintro ⟨key', value', span'⟩ hformed'
  exact ((hvalue _ hformed'.2).cons.consTold (key.mapSpan_of_word key')).map
    fun parts => Property.mk parts.1 parts.2 (nowhere span)

theorem entriesKnown_of_forall {entries : List Property}
    (hentries : ∀ entry ∈ entries, entry.Known last') : EntriesKnown last' entries := by
  intro entries' hformed'
  rw [canonicalWordsOfProperties_eq_map, canonicalWordsOfProperties_eq_map,
    mapSpansOfProperties_eq_map, mapSpansOfProperties_eq_map]
  refine tells_separated (fun entry _ => ?_) fun entry hentry entry' hentry' =>
    hentries entry hentry entry' (propertiesWellFormed_iff.mp hformed' entry' hentry')
  cases entry
  exact ⟨_, _, rfl, rfl⟩

/-! ## Statements -/

theorem blockKnown_of_row {row : List Statement} (hrow : RowKnown last' row) :
    Block.Known last' ⟨row, span⟩ := by
  rintro ⟨row', span'⟩ hformed'
  exact ((hrow _ hformed').closed fun _ => endsList_cons rfl).cons.map
    fun statements => Block.mk statements (nowhere span)

/-- What a name is bound to is told from nothing by the sign before it. -/
theorem tells_value {constant : Bool} {value value' : Option Expression}
    (hknown : ∀ bound ∈ value, bound.Known last')
    (hformed : valueWellFormed last' constant value') :
    Tells (fun _ => True) (canonicalWordsOfValue value ++ [Kind.semicolon.word])
      (canonicalWordsOfValue value' ++ [Kind.semicolon.word]) (mapSpansOfValue nowhere value)
      (mapSpansOfValue nowhere value') := by
  cases value with
  | none =>
      cases value' with
      | none => exact Tells.single fun _ => rfl
      | some bound' =>
          intro rest rest' _ _ hwords
          cases congrArg Word.kind (List.cons.inj hwords).1
  | some bound =>
      cases value' with
      | none =>
          intro rest rest' _ _ hwords
          cases congrArg Word.kind (List.cons.inj hwords).1
      | some bound' =>
          exact ((hknown bound rfl _ hformed).closed endsOperand_semicolon).cons.map
            some

theorem known_binding {constant : Bool} {name : Identifier} {value : Option Expression}
    (hvalue : ∀ bound ∈ value, bound.Known last') :
    (Statement.binding constant name value span).Known last' := by
  rintro _ hformed' ⟨⟩
  exact ((tells_value hvalue hformed'.2).consTold (name.mapSpan_of_word _)).cons.map
    fun parts => Statement.binding constant parts.1 parts.2 (nowhere span)

theorem known_namedFunction {name : Identifier} {names : List Identifier} {body : Block}
    (hbody : body.Known last') : (Statement.function name names body span).Known last' := by
  intro read' hformed' hstart
  cases hstart with
  | @function _ name' _ names' =>
      have hparts := (tells_parameters names names').append (hbody _ hformed'.2.2)
        (fun _ _ => trivial) fun _ _ => trivial
      have htold := hparts.consTold (name.mapSpan_of_word name')
      exact htold.cons.map
        fun parts => Statement.function parts.1 parts.2.1 parts.2.2 (nowhere span)

theorem known_returned {value : Expression} (hvalue : value.Known last') :
    (Statement.returned value span).Known last' := by
  rintro _ hformed' ⟨⟩
  exact ((hvalue _ hformed').closed endsOperand_semicolon).cons.map
    fun value => Statement.returned value (nowhere span)

theorem known_expression {value : Expression} (hvalue : value.Known last') :
    (Statement.expression value span).Known last' := by
  rintro _ hformed' ⟨⟩
  exact ((hvalue _ hformed'.2).closed endsOperand_semicolon).map
    fun value => Statement.expression value (nowhere span)

/-- Each statement is compared with the one in its place once both are seen to be of one form. -/
theorem rowKnown_of_forall {last : Option Token} {row : List Statement}
    (hformed : statementsWellFormed last row) (hrow : ∀ read ∈ row, read.Known last') :
    RowKnown last' row := by
  intro row' hformed'
  rw [canonicalWordsOfStatements_eq_map, canonicalWordsOfStatements_eq_map,
    mapSpansOfStatements_eq_map, mapSpansOfStatements_eq_map]
  refine tells_flatten (fun read hread => ?_) fun read hread read' hread' rest rest' hrest hrest'
    hwords => ?_
  · obtain ⟨word, tail, hwords, hkind⟩ := read.canonicalWords_lead
    exact ⟨word, tail, hwords, hkind ▸ read.closes_lead⟩
  · have hfirst := statementsWellFormed_iff.mp hformed read hread
    have hfirst' := statementsWellFormed_iff.mp hformed' read' hread'
    exact hrow read hread read' hfirst'
      (sameStart_of_lead hfirst hfirst' (Statement.lead_eq_of_words hwords)) _ _ hrest hrest'
      hwords

end

namespace Phrase

/-- What the canonical words of a well-formed phrase tell. -/
def Known (last last' : Option Token) : Phrase → Prop
  | expression value => value.WellFormed last → value.PartsKnown last'
  | items values => expressionsWellFormed last values → ItemsKnown last' values
  | property entry => entry.WellFormed last → entry.Known last'
  | properties entries => propertiesWellFormed last entries → EntriesKnown last' entries
  | parameters names => ∀ names', Tells (fun _ => True) (canonicalWordsOfParameters names)
      (canonicalWordsOfParameters names') (names.map (Identifier.mapSpan nowhere))
      (names'.map (Identifier.mapSpan nowhere))
  | block body => body.WellFormed last → body.Known last'
  | statement read => read.WellFormed last → read.Known last'
  | statements row => statementsWellFormed last row → RowKnown last' row

variable {last last' : Option Token}

/-- All phrases are known by their canonical words.  There is a step for each constructor, and each
is one of the lemmas above. -/
theorem known_steps : Steps (Known last last') where
  identifier _ _ _ := frontKnown_identifier.parts rfl
  integer _ _ hformed := (frontKnown_integer hformed.1).parts rfl
  string _ _ _ := frontKnown_string.parts rfl
  boolean _ _ _ := frontKnown_boolean.parts rfl
  array _ _ ih hformed := (frontKnown_array (ih hformed)).parts rfl
  object _ _ ih hformed := (frontKnown_object (ih hformed)).parts rfl
  unary _ _ _ ih hformed := (frontKnown_unary (ih hformed.2).known).parts rfl
  binary _ _ _ _ ihleft ihright hformed := by
    obtain ⟨-, -, hleft, hright⟩ := hformed
    exact (frontKnown_binary (ihleft hleft).known (ihright hright).known).parts rfl
  conditional _ _ _ ihcondition ihconsequence hformed :=
    Expression.FrontKnown.parts rfl (frontKnown_conditional (ihcondition hformed.1).known
      (ihconsequence hformed.2.1) fun _ hnone => nomatch hnone)
  alternative _ _ _ _ ihcondition ihconsequence ihalternative hformed := by
    refine (frontKnown_conditional (ihcondition hformed.1).known (ihconsequence hformed.2.1)
      fun body hbody => ?_).parts rfl
    obtain rfl := Option.some.inj hbody
    exact ihalternative hformed.2.2
  function _ _ _ _ ihbody hformed := (frontKnown_function (ihbody hformed.2)).parts rfl
  call _ _ _ ihcallee iharguments hformed :=
    partsKnown_call (ihcallee hformed.2.1) (iharguments hformed.2.2)
  items _ ih hformed := itemsKnown_of_forall fun value hvalue =>
    (ih value hvalue (expressionsWellFormed_iff.mp hformed value hvalue)).known
  property _ _ _ ih hformed := entryKnown_of_value (ih hformed.2).known
  properties _ ih hformed := entriesKnown_of_forall fun entry hentry =>
    ih entry hentry (propertiesWellFormed_iff.mp hformed entry hentry)
  parameters names names' := tells_parameters names names'
  block _ _ ih hformed := blockKnown_of_row (ih hformed)
  bindingWithoutValue _ _ _ _ := known_binding fun _ hnone => nomatch hnone
  binding _ _ value _ ih hformed := by
    refine known_binding fun bound hbound => ?_
    obtain rfl := Option.some.inj hbound
    exact (ih hformed.2).known
  namedFunction _ _ _ _ _ ihbody hformed := known_namedFunction (ihbody hformed.2.2)
  returned _ _ ih hformed := known_returned (ih hformed).known
  expression _ _ ih hformed := known_expression (ih hformed.2).known
  bareBlock _ _ hformed := hformed.elim
  statements _ ih hformed := rowKnown_of_forall hformed fun read hread =>
    ih read hread (statementsWellFormed_iff.mp hformed read hread)

end Phrase

/-- Statements with the same canonical words are the same, up to spans.  Nothing is lost but where
they were read. -/
theorem sameUpToSpans_of_canonicalWords {last last' : Option Token}
    {statements statements' : List Statement} (hformed : statementsWellFormed last statements)
    (hformed' : statementsWellFormed last' statements')
    (hwords : (canonicalWordsOfStatements statements).flatten =
      (canonicalWordsOfStatements statements').flatten) :
    SameUpToSpans statements statements' := by
  have hends : EndsList [] := fun word hnone => nomatch hnone
  have hknown := Phrase.known_steps.all (.statements statements) hformed statements' hformed'
    [] [] hends hends (by rw [hwords])
  rw [SameUpToSpans, ← mapSpansOfStatements_eq_map, ← mapSpansOfStatements_eq_map]
  exact hknown.1

end Frontend
