import Frontend.Proofs.Lexing.Layout
import Frontend.Proofs.Lexing.LongestMatch
import Frontend.Proofs.Lexing.Parts
import Frontend.Text.Layout

/-!
# Texts put together

A text reads as some words before certain texts if it gives these words whatever stands after it,
as long as that is one of them.  Texts that read as words can be put together if each goes on in a
way that suits the one before it, so the words of a large text are found piece by piece.
-/

namespace Frontend

/-- The words of the tokens of a text, read as if the text stood alone. -/
def wordsIn (text : List Char) : List Word := (⟨0, text⟩ : Lexer).tokens.map Token.word

theorem lex_wordsIn (text : String) :
    (lex text).dropLast.map Token.word = wordsIn text.toList := by
  rw [lex_dropLast]
  rfl

/-- Words do not depend on where their text stands; only spans do. -/
theorem words_at (offset : Nat) (text : List Char) :
    (⟨offset, text⟩ : Lexer).tokens.map Token.word = wordsIn text := by
  have hmoved := Lexer.tokens_moved ⟨0, text⟩ offset
  rw [Nat.zero_add] at hmoved
  rw [hmoved, List.map_map]
  rfl

theorem wordsIn_nil : wordsIn [] = [] := by
  have hgap : Gap [] [] := .none Trivia.not_starts_nil
  rw [wordsIn, Lexer.tokens_of_next?_eq_none (Lexer.next?_of_last_gap hgap 0), List.map_nil]

/-- A blank at the front is skipped. -/
theorem wordsIn_blank {c : Char} (hblank : Trivia.isBlank c = true) (after : List Char) :
    wordsIn (c :: after) = wordsIn after := by
  have hnext : (⟨0, c :: after⟩ : Lexer).next? = (⟨byteLength [c], after⟩ : Lexer).next? := by
    rw [Lexer.next?, Lexer.next?, Trivia.split_blank hblank]
    simp only [Nat.zero_add, byteLength_cons, byteLength_nil, Nat.add_zero]
  rw [← words_at (byteLength [c]) after, wordsIn, Lexer.tokens.eq_def, hnext,
    ← Lexer.tokens.eq_def]

/-- A word at the front is taken. -/
theorem wordsIn_word {word : Word} (hcomplete : word.IsComplete) {after : List Char}
    (hends : word.EndsBefore after) :
    wordsIn (word.literal.toList ++ after) = word :: wordsIn after := by
  have hnext := Lexer.next?_word .nil hcomplete hends 0
  rw [List.nil_append] at hnext
  rw [wordsIn, Lexer.tokens_of_next? hnext, List.map_cons, words_at]
  rfl

/-- A quote that is not closed takes the whole text, whatever there is in it. -/
theorem wordsIn_open {text : String} (hopen : IsOpenString text) :
    wordsIn text.toList = [⟨.string, text⟩] := by
  obtain ⟨inner, htext, hinner⟩ := hopen
  have hgap : Gap [] ('"' :: inner) := .none (Trivia.not_starts_cons rfl nofun)
  have hnext := Lexer.next?_of_gap hgap 0
  rw [Lexeme.ofFront_open hinner, List.nil_append] at hnext
  rw [htext, wordsIn, Lexer.tokens_of_next? hnext, List.map_cons, words_at, wordsIn_nil, ← htext]
  simp [Word.placedAt, Lexeme.word, Token.word]

/-- Whatever suits may stand after the text, which gives the words before those of what does.  Of
parts that are read before each other their text is put together. -/
def ReadsBefore (suits : List Char → Prop) (text : String) (words : List Word) : Prop :=
  ∀ after, suits after → wordsIn (text.toList ++ after) = words ++ wordsIn after

/-- The characters that stand apart from any word before them, in what is written here.  They are
those with which the parts of canonical text begin or are divided. -/
def delimiters : List Char := [' ', '\n', ',', ':', ';', '(', ')', '[', ']', '{', '}', '"']

/-- The text is empty or starts apart from any word before it. -/
def StartsApart (text : List Char) : Prop := ∀ c ∈ text.head?, c ∈ delimiters

/-- What stands behind a delimiter makes no difference. -/
theorem StartsApart.of_text {text : String}
    (hfront : text.toList.head?.any (· ∈ delimiters) = true) (after : List Char) :
    StartsApart (text.toList ++ after) := by
  obtain ⟨c, hc, hmember⟩ := Option.any_eq_true _ _ |>.mp hfront
  obtain ⟨rest, hrest⟩ := List.head?_eq_some_iff.mp hc
  rw [hrest]
  intro first hfirst
  obtain rfl := Option.some.inj hfirst
  exact of_decide_eq_true hmember

theorem Word.endsBefore_of_startsApart {after : List Char} (hapart : StartsApart after)
    (word : Word) : word.EndsBefore after := by
  have hdelimiters : (delimiters.all fun c => Kind.all.all fun kind => !kind.joins c) = true := rfl
  intro c hc
  have hkinds := List.all_eq_true.mp hdelimiters c (hapart c hc)
  exact (Bool.not_eq_true' _).mp (List.all_eq_true.mp hkinds _ word.kind.mem_all)

namespace ReadsBefore

variable {suits suits' : List Char → Prop} {text text' : String} {words words' : List Word}

theorem append (hfirst : ReadsBefore suits text words) (hsecond : ReadsBefore suits' text' words')
    (hsuits : ∀ after, suits' after → suits (text'.toList ++ after)) :
    ReadsBefore suits' (text ++ text') (words ++ words') := by
  intro after hafter
  rw [String.toList_append, List.append_assoc, hfirst _ (hsuits after hafter), hsecond _ hafter,
    List.append_assoc]

theorem mono (hreads : ReadsBefore suits text words)
    (hsuits : ∀ after, suits' after → suits after) : ReadsBefore suits' text words :=
  fun after hafter => hreads after (hsuits after hafter)

theorem nil : ReadsBefore suits "" [] := fun _ _ => rfl

theorem blank : ReadsBefore suits " " [] := fun after _ => wordsIn_blank rfl after

theorem newline : ReadsBefore suits "\n" [] := fun after _ => wordsIn_blank rfl after

theorem word {word : Word} (hcomplete : word.IsComplete) :
    ReadsBefore StartsApart word.literal [word] :=
  fun _ hapart => wordsIn_word hcomplete (word.endsBefore_of_startsApart hapart)

section

variable {kind : Kind}

theorem keyword (hspelled : kind.spelling? = some text) :
    ReadsBefore StartsApart text [kind.word] := by
  have hword : kind.word = ⟨kind, text⟩ := by rw [Kind.word, hspelled, Option.getD_some]
  have hcomplete := kind.word_isComplete (by rw [hspelled]; rfl)
  rw [hword] at hcomplete ⊢
  exact word hcomplete

/-- Before a blank every word is over. -/
theorem spaced (hspelled : kind.spelling?.map (· ++ " ") = some text) :
    ReadsBefore suits text [kind.word] := by
  obtain ⟨spelling, hspelling, rfl⟩ := Option.map_eq_some_iff.mp hspelled
  exact (keyword hspelling).append blank fun after _ => by simp [StartsApart, delimiters]

/-- A delimiter may stand before anything. -/
theorem symbol (hspelled : kind.spelling? = some text) (hjoins : kind.joins = fun _ => false) :
    ReadsBefore suits text [kind.word] := by
  have hword : kind.word = ⟨kind, text⟩ := by rw [Kind.word, hspelled, Option.getD_some]
  have hcomplete := kind.word_isComplete (by rw [hspelled]; rfl)
  rw [hword] at hcomplete ⊢
  exact fun after _ => wordsIn_word hcomplete fun c _ => congrFun hjoins c

end

end ReadsBefore

end Frontend
