import Frontend.Proofs.Tree.Unambiguous

/-!
# Open strings in canonical texts

A string that is not closed takes the rest of its text, so it can only stand at the end of the last
statement, as an operand of operators and nothing else.  In the canonical text the parentheses of
these operators and the end of the line follow the string and become part of it when that text is
read.  How many of them were added shows in the words before the string, since the parentheses of
every whole expression come in pairs.
-/

namespace Frontend

/-! ## Parentheses come in pairs -/

/-- How a word changes the number of open parentheses, by which what stands after a string is
counted. -/
def Kind.opening : Kind → Int
  | .lParen => 1
  | .rParen => -1
  | _ => 0

/-- The number of parentheses that words leave open. -/
def leftOpen : List Word → Int
  | [] => 0
  | word :: words => word.kind.opening + leftOpen words

@[simp]
theorem leftOpen_nil : leftOpen [] = 0 := rfl

@[simp]
theorem leftOpen_cons (word : Word) (words : List Word) :
    leftOpen (word :: words) = word.kind.opening + leftOpen words := rfl

@[simp]
theorem leftOpen_append (words words' : List Word) :
    leftOpen (words ++ words') = leftOpen words + leftOpen words' := by
  induction words with
  | nil => exact (Int.zero_add _).symm
  | cons word words ih => rw [List.cons_append, leftOpen_cons, leftOpen_cons, ih, Int.add_assoc]

theorem leftOpen_closers (depth : Nat) :
    leftOpen (List.replicate depth Kind.rParen.word) = -(depth : Int) := by
  have hcloser : Kind.rParen.opening = -1 := rfl
  induction depth with
  | zero => rfl
  | succ depth ih =>
      rw [List.replicate_succ, leftOpen_cons, ih, Kind.word_kind, hcloser]
      omega

theorem leftOpen_separated {wordLists : List (List Word)}
    (hpaired : ∀ words ∈ wordLists, leftOpen words = 0) : leftOpen (separated wordLists) = 0 := by
  fun_induction separated wordLists with
  | case1 => rfl
  | case2 words => exact hpaired words List.mem_cons_self
  | case3 words next rest ih =>
      obtain ⟨hfirst, hrest⟩ := List.forall_mem_cons.mp hpaired
      rw [leftOpen_append, leftOpen_cons, hfirst, ih hrest]
      rfl

theorem leftOpen_flatten {wordLists : List (List Word)}
    (hpaired : ∀ words ∈ wordLists, leftOpen words = 0) : leftOpen wordLists.flatten = 0 := by
  induction wordLists with
  | nil => rfl
  | cons words wordLists ih =>
      obtain ⟨hfirst, hrest⟩ := List.forall_mem_cons.mp hpaired
      rw [List.flatten_cons, leftOpen_append, hfirst, ih hrest]
      rfl

theorem leftOpen_parameters (names : List Identifier) :
    leftOpen (canonicalWordsOfParameters names) = 0 := by
  have hpaired : leftOpen (separated (names.map fun name => [name.word])) = 0 := by
    refine leftOpen_separated fun words hwords => ?_
    obtain ⟨name, -, rfl⟩ := List.mem_map.mp hwords
    rfl
  simp [canonicalWordsOfParameters, hpaired, Kind.opening]

/-- The parentheses in canonical words come in pairs.  Those that are left open before a string are
counted by this. -/
theorem Phrase.paired_steps : Steps fun phrase => leftOpen phrase.canonicalWords = 0 where
  identifier span name := rfl
  integer span value := rfl
  string span text := rfl
  boolean span value := by cases value <;> rfl
  array span elements ih := by simp_all [canonicalWords, Expression.canonicalWords, Kind.opening]
  object span entries ih := by simp_all [canonicalWords, Expression.canonicalWords, Kind.opening]
  unary span operator operand ih := by
    cases operator <;>
      simp_all [canonicalWords, Expression.canonicalWords, UnaryOperator.kind, Kind.opening]
  binary span left operator right ihleft ihright := by
    cases operator <;>
      simp_all [canonicalWords, Expression.canonicalWords, BinaryOperator.kind, Kind.opening]
  conditional span condition consequence ihcondition ihconsequence := by
    simp_all [canonicalWords, Expression.canonicalWords, canonicalWordsOfAlternative, Kind.opening]
  alternative span condition consequence alternative ihcondition ihconsequence ihalternative := by
    simp_all [canonicalWords, Expression.canonicalWords, canonicalWordsOfAlternative, Kind.opening]
  function span names body ihnames ihbody := by
    simp_all [canonicalWords, Expression.canonicalWords, Kind.opening]
  call span callee arguments ihcallee iharguments := by
    simp_all [canonicalWords, Expression.canonicalWords, Kind.opening]
  items values ih := by
    refine leftOpen_separated ?_
    rw [canonicalWordsOfExpressions_eq_map, List.forall_mem_map]
    exact ih
  property key value span ih := by
    simp_all [canonicalWords, Property.canonicalWords, Identifier.word, Kind.opening]
  properties entries ih := by
    refine leftOpen_separated ?_
    rw [canonicalWordsOfProperties_eq_map, List.forall_mem_map]
    exact ih
  parameters names := leftOpen_parameters names
  block row span ih := by simp_all [canonicalWords, Block.canonicalWords, Kind.opening]
  bindingWithoutValue constant name span := by cases constant <;> rfl
  binding constant name value span ih := by
    cases constant <;>
      simp_all [canonicalWords, Statement.canonicalWords, canonicalWordsOfValue, bindingKind,
        Identifier.word, Kind.opening]
  namedFunction name names body span ihnames ihbody := by
    simp_all [canonicalWords, Statement.canonicalWords, Identifier.word, Kind.opening]
  returned value span ih := by simp_all [canonicalWords, Statement.canonicalWords, Kind.opening]
  expression value span ih := by simp_all [canonicalWords, Statement.canonicalWords, Kind.opening]
  bareBlock body ih := ih
  statements row ih := by
    refine leftOpen_flatten ?_
    rw [canonicalWordsOfStatements_eq_map, List.forall_mem_map]
    exact ih

/-! ## Expressions that end with an open string -/

/-- The expression is the string or ends with it as an operand of operators.  No call, list or block
can end with a string, as something closes them. -/
inductive Expression.EndsWith (text : String) : Expression → Prop where
  | string {span} : EndsWith text (.string span text)
  | unary {span operator operand} (hoperand : EndsWith text operand) :
      EndsWith text (.unary span operator operand)
  | binary {span left operator right} (hleft : left.WellFormed none)
      (hright : EndsWith text right) : EndsWith text (.binary span left operator right)

/-- Closing parentheses. -/
def closers (depth : Nat) : String := String.ofList (List.replicate depth ')')

theorem closers_succ (depth : Nat) : closers (depth + 1) = closers depth ++ ")" := by
  rw [closers, List.replicate_succ', String.ofList_append, closers]

/-- The text starts with a quote. -/
def StartsQuoted (text : List Char) : Prop := text.head? = some '"'

/-- The canonical text of an expression comes apart at a string: before it are texts and words of
their own, after it are only parentheses that close what holds it. -/
structure ComesApart (value : Expression) (text before : String) (words : List Word)
    (depth : Nat) : Prop where
  canonical : value.canonical = before ++ text ++ closers depth
  canonicalWords : value.canonicalWords =
    words ++ ⟨.string, text⟩ :: List.replicate depth Kind.rParen.word
  reads : ReadsBefore StartsQuoted before words
  apart : ∀ after, StartsQuoted after → StartsApart (before.toList ++ after)

theorem Expression.EndsWith.comesApart {text : String} {value : Expression}
    (hends : value.EndsWith text) :
    ∃ before words depth, ComesApart value text before words depth := by
  have hopener : ReadsBefore (fun _ => True) "(" [Kind.lParen.word] := .openParen
  induction hends with
  | string =>
      refine ⟨"", [], 0, ?_, rfl, .nil, fun after hquoted c hc => ?_⟩
      · rw [Expression.canonical, String.empty_append]
        exact String.append_empty.symm
      · have hsame : some c = some '"' := (Option.mem_def.mp hc).symm.trans hquoted
        obtain rfl := Option.some.inj hsame
        decide
  | @unary _ operator operand _ ih =>
      obtain ⟨before, words, depth, hcanonical, hwords, hreads, hapart⟩ := ih
      refine ⟨"(" ++ operator.symbol ++ before, [Kind.lParen.word] ++ [operator.kind.word] ++ words,
        depth + 1, ?_, ?_, ?_, ?_⟩
      · simp only [Expression.canonical, hcanonical, closers_succ, String.append_assoc]
      · simp [Expression.canonicalWords, hwords, List.replicate_succ']
      · exact (hopener.before (.operator operator)).append hreads
          fun after hafter => Word.endsBefore_of_startsApart (hapart after hafter) _
      · intro after _
        simp [StartsApart, delimiters]
  | @binary _ left operator right hleft _ ih =>
      obtain ⟨before, words, depth, hcanonical, hwords, hreads, hapart⟩ := ih
      have hfront := ReadsBefore.leftOperand operator
        (Phrase.reads_steps.all (.expression left) hleft)
      refine ⟨_, _, depth + 1, ?_, ?_, hfront.before hreads, ?_⟩
      · simp only [Expression.canonical, hcanonical, closers_succ, String.append_assoc]
      · simp [Expression.canonicalWords, hwords, List.replicate_succ']
      · intro after _
        simp [StartsApart, delimiters]

/-- The words before the string leave as many parentheses open as are closed after it. -/
theorem ComesApart.leftOpen_words {value : Expression} {text before : String} {words : List Word}
    {depth : Nat} (hcomes : ComesApart value text before words depth) :
    leftOpen words = depth := by
  have hpaired : leftOpen value.canonicalWords = 0 := Phrase.paired_steps.all (.expression value)
  have hstring : Kind.string.opening = 0 := rfl
  rw [hcomes.canonicalWords, leftOpen_append, leftOpen_cons, leftOpen_closers, hstring] at hpaired
  omega

/-! ## Statements of a text -/

/-- Statements as they are read from a text: every string is closed, or only the one that the last
statement ends with is not. -/
inductive ClosedBeforeEnd : List Statement → Prop where
  | closed {statements} (hformed : statementsWellFormed none statements) :
      ClosedBeforeEnd statements
  | opened {front value span text} (hfront : statementsWellFormed none front)
      (hends : Expression.EndsWith text value) (hopen : IsOpenString text) :
      ClosedBeforeEnd (front ++ [.expression value span])

theorem IsOpenString.append {text more : String} (hopen : IsOpenString text)
    (hmore : '"' ∉ more.toList) : IsOpenString (text ++ more) := by
  obtain ⟨inner, htext, hinner⟩ := hopen
  refine ⟨inner ++ more.toList, by rw [String.toList_append, htext, List.cons_append], ?_⟩
  rw [List.mem_append]
  exact not_or.mpr ⟨hinner, hmore⟩

theorem wordsIn_closed {statements : List Statement}
    (hformed : statementsWellFormed none statements) :
    wordsIn (canonicalLines statements).toList =
      (canonicalWordsOfStatements statements).flatten := by
  have hread := ReadsBefore.lines hformed [] trivial
  rwa [List.append_nil, wordsIn_nil, List.append_nil] at hread

/-- All that follows an open string is read as a part of it, the closing parentheses of canonical
text included. -/
theorem wordsIn_opened {front : List Statement} {value : Expression} {span : Span}
    {text before : String} {words : List Word} {depth : Nat}
    (hfront : statementsWellFormed none front) (hopen : IsOpenString text)
    (hcomes : ComesApart value text before words depth) :
    wordsIn (canonicalLines (front ++ [.expression value span])).toList =
      (canonicalWordsOfStatements front).flatten ++ words ++
        [⟨.string, text ++ (closers depth ++ ";\n")⟩] := by
  have hmore : '"' ∉ (closers depth ++ ";\n").toList := by simp [closers]
  have hlast : IsOpenString (text ++ (closers depth ++ ";\n")) := hopen.append hmore
  have hlines : canonicalLines (front ++ [.expression value span]) =
      canonicalLines front ++ before ++ (text ++ (closers depth ++ ";\n")) := by
    have hend : (";\n" : String) = ";" ++ "\n" := by decide
    simp only [canonicalLines_concat, Statement.canonical, hcomes.canonical, hend,
      String.append_assoc]
  have hquoted : StartsQuoted (text ++ (closers depth ++ ";\n")).toList := by
    obtain ⟨inner, htext, -⟩ := hlast
    rw [htext]
    rfl
  rw [hlines, String.toList_append, ((ReadsBefore.lines hfront).append hcomes.reads
    fun _ _ => trivial) _ hquoted, wordsIn_open hlast]

theorem Block.canonicalWords_concat (body : Block) :
    ∃ front, body.canonicalWords = front ++ [Kind.rBrace.word] := by
  obtain ⟨row, _⟩ := body
  exact ⟨Kind.lBrace.word :: (canonicalWordsOfStatements row).flatten, rfl⟩

/-- No statement ends with a string. -/
theorem Statement.canonicalWords_concat (read : Statement) :
    ∃ front closer, read.canonicalWords = front ++ [closer] ∧ closer.kind ≠ .string := by
  cases read with
  | binding constant name value _ =>
      exact ⟨(bindingKind constant).word :: name.word :: canonicalWordsOfValue value,
        Kind.semicolon.word, rfl, nofun⟩
  | function name names body _ =>
      obtain ⟨front, hbody⟩ := body.canonicalWords_concat
      refine ⟨Kind.kwFunction.word :: name.word :: (canonicalWordsOfParameters names ++ front),
        Kind.rBrace.word, ?_, nofun⟩
      rw [canonicalWords, hbody, ← List.append_assoc]
      rfl
  | returned value _ =>
      exact ⟨Kind.kwReturn.word :: value.canonicalWords, Kind.semicolon.word, rfl, nofun⟩
  | expression value _ => exact ⟨value.canonicalWords, Kind.semicolon.word, rfl, nofun⟩
  | block body =>
      obtain ⟨front, hbody⟩ := body.canonicalWords_concat
      exact ⟨front, Kind.rBrace.word, hbody, nofun⟩

theorem canonicalWords_ne_concat {statements : List Statement} {words : List Word} {last : Word}
    (hstring : last.kind = .string) :
    (canonicalWordsOfStatements statements).flatten ≠ words ++ [last] := by
  intro hwords
  rcases List.eq_nil_or_concat statements with rfl | ⟨front, read, rfl⟩
  · exact List.append_ne_nil_of_right_ne_nil _ (List.cons_ne_nil _ _) hwords.symm
  · obtain ⟨before, closer, hread, hcloser⟩ := read.canonicalWords_concat
    rw [canonicalWordsOfStatements_eq_map, List.concat_eq_append, List.map_append,
      List.flatten_append, List.map_singleton, List.flatten_singleton, hread,
      ← List.append_assoc] at hwords
    rw [(List.cons.inj (List.append_inj' hwords rfl).2).1] at hcloser
    exact hcloser hstring

/-- Canonical texts tell the canonical words, though an open string has more in it when its text is
read.  The parentheses behind it tell how much more. -/
theorem canonicalWords_of_lines {statements statements' : List Statement}
    (hread : ClosedBeforeEnd statements) (hread' : ClosedBeforeEnd statements')
    (hlines : canonicalLines statements = canonicalLines statements') :
    (canonicalWordsOfStatements statements).flatten =
      (canonicalWordsOfStatements statements').flatten := by
  have hwords := congrArg (fun text : String => wordsIn text.toList) hlines
  cases hread with
  | closed hformed =>
      rw [wordsIn_closed hformed] at hwords
      cases hread' with
      | closed hformed' => rw [hwords, wordsIn_closed hformed']
      | opened hfront' hends' hopen' =>
          obtain ⟨before', words', depth', hcomes'⟩ := hends'.comesApart
          rw [wordsIn_opened hfront' hopen' hcomes'] at hwords
          exact absurd hwords (canonicalWords_ne_concat rfl)
  | @opened front value span text hfront hends hopen =>
      obtain ⟨before, words, depth, hcomes⟩ := hends.comesApart
      rw [wordsIn_opened hfront hopen hcomes] at hwords
      cases hread' with
      | closed hformed' =>
          rw [wordsIn_closed hformed'] at hwords
          exact absurd hwords.symm (canonicalWords_ne_concat rfl)
      | @opened front' value' span' text' hfront' hends' hopen' =>
          obtain ⟨before', words', depth', hcomes'⟩ := hends'.comesApart
          rw [wordsIn_opened hfront' hopen' hcomes'] at hwords
          obtain ⟨hsame, hlast⟩ := List.append_inj' hwords rfl
          -- the words before the strings leave the same number of parentheses open
          have hdepth : depth = depth' := by
            have hopened := congrArg leftOpen hsame
            have hpaired (row : List Statement) :
                leftOpen (canonicalWordsOfStatements row).flatten = 0 :=
              Phrase.paired_steps.all (.statements row)
            rw [leftOpen_append, leftOpen_append, hpaired, hpaired, hcomes.leftOpen_words,
              hcomes'.leftOpen_words] at hopened
            omega
          subst hdepth
          have htext : text = text' :=
            String.append_left_inj _ |>.mp (congrArg Word.literal (List.cons.inj hlast).1)
          have hconcat (row : List Statement) (value : Expression) (span : Span) :
              (canonicalWordsOfStatements (row ++ [.expression value span])).flatten =
                (canonicalWordsOfStatements row).flatten ++
                  (value.canonicalWords ++ [Kind.semicolon.word]) := by
            simp [canonicalWordsOfStatements_eq_map, Statement.canonicalWords]
          rw [hconcat, hconcat, hcomes.canonicalWords, hcomes'.canonicalWords, htext,
            List.append_assoc, List.append_assoc, ← List.append_assoc, hsame, List.append_assoc]

end Frontend
