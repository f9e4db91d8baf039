import Frontend.Proofs.Grammar.Readers
import Frontend.Proofs.Tree.Spans
import Mathlib.Data.List.Basic

/-!
# Words at a cursor

A reader is shown to return what some words spell wherever these words stand.  Their tokens are not
named in such a statement; it says which words stand at the cursor and which tokens come after
them, and for words that are read to the end, which token is the last.
-/

namespace Frontend

namespace Cursor

/-- The words stand at the cursor, before the tokens `rest`.  This is how a list is met, of which
the closing token comes after it. -/
def Faces (cursor : Cursor) (words : List Word) (rest : List Token) : Prop :=
  ∃ tokens, tokens.map Token.word = words ∧ cursor.pending = tokens ++ rest

/-- The words stand at the cursor through the token `last`, before the tokens `back`.  A reader
stops on the last token of what it reads, so this token is named. -/
def Covers (cursor : Cursor) (words : List Word) (last : Token) (back : List Token) : Prop :=
  ∃ tokens, tokens.map Token.word = words ∧ tokens.getLast? = some last ∧
    cursor.pending = tokens ++ back

variable {cursor : Cursor} {words left right : List Word} {word middle : Word}
variable {rest back : List Token} {last : Token}

theorem Covers.faces (hcovers : cursor.Covers words last back) : cursor.Faces words back := by
  obtain ⟨tokens, hwords, -, hpending⟩ := hcovers
  exact ⟨tokens, hwords, hpending⟩

namespace Faces

theorem nil (hfaces : cursor.Faces [] rest) : (⟨rest, cursor.stop⟩ : Cursor) = cursor := by
  obtain ⟨tokens, hwords, hpending⟩ := hfaces
  obtain rfl := List.map_eq_nil_iff.mp hwords
  rw [List.nil_append] at hpending
  rw [← hpending]

theorem cons (hfaces : cursor.Faces (word :: words) rest) :
    cursor.current.word = word ∧ cursor.advance.Faces words rest := by
  obtain ⟨tokens, hwords, hpending⟩ := hfaces
  obtain ⟨token, tokens, rfl, hword, hwords⟩ := List.map_eq_cons_iff.mp hwords
  rw [current_of_pending hpending]
  exact ⟨hword, tokens, hwords, pending_advance hpending⟩

theorem covers (hfaces : cursor.Faces words back) (hsome : words ≠ []) :
    ∃ last, cursor.Covers words last back := by
  obtain ⟨tokens, rfl, hpending⟩ := hfaces
  have htokens : tokens ≠ [] := fun hnil => hsome (by rw [hnil, List.map_nil])
  exact ⟨tokens.getLast htokens, tokens, rfl, List.getLast?_eq_some_getLast htokens, hpending⟩

theorem append (hfaces : cursor.Faces (left ++ right) rest) (hsome : left ≠ []) :
    ∃ last after, cursor.Covers left last after ∧
      (⟨after, cursor.stop⟩ : Cursor).Faces right rest := by
  obtain ⟨tokens, hwords, hpending⟩ := hfaces
  obtain ⟨before, later, rfl, hleft, hlater⟩ := List.map_eq_append_iff.mp hwords
  rw [List.append_assoc] at hpending
  have hfront : cursor.Faces left (later ++ rest) := ⟨before, hleft, hpending⟩
  obtain ⟨last, hcovers⟩ := hfront.covers hsome
  exact ⟨last, later ++ rest, hcovers, later, hlater, rfl⟩

/-- The words after one of the words stand at the cursor on the token after it. -/
theorem divided (hfaces : cursor.Faces (left ++ middle :: right) rest) :
    ∃ token after, token.word = middle ∧ cursor.Faces left (token :: after) ∧
      ∀ stop, (⟨after, stop⟩ : Cursor).Faces right rest := by
  obtain ⟨tokens, hwords, hpending⟩ := hfaces
  obtain ⟨before, later, rfl, hleft, hlater⟩ := List.map_eq_append_iff.mp hwords
  obtain ⟨token, after, rfl, hmiddle, hright⟩ := List.map_eq_cons_iff.mp hlater
  rw [List.append_assoc, List.cons_append] at hpending
  exact ⟨token, after ++ rest, hmiddle, ⟨before, hleft, hpending⟩, fun stop => ⟨after, hright, rfl⟩⟩

end Faces

namespace Covers

theorem singleton (hcovers : cursor.Covers [word] last back) :
    cursor.current.word = word ∧ (⟨last :: back, cursor.stop⟩ : Cursor) = cursor := by
  obtain ⟨tokens, hwords, hlast, hpending⟩ := hcovers
  obtain ⟨token, rfl, hword⟩ := List.map_eq_singleton_iff.mp hwords
  obtain rfl : token = last := Option.some.inj hlast
  rw [List.singleton_append] at hpending
  rw [current_of_pending hpending, ← hpending]
  exact ⟨hword, rfl⟩

theorem cons (hcovers : cursor.Covers (word :: words) last back) (hsome : words ≠ []) :
    cursor.current.word = word ∧ cursor.advance.Covers words last back := by
  obtain ⟨tokens, hwords, hlast, hpending⟩ := hcovers
  obtain ⟨token, tokens, rfl, hword, rfl⟩ := List.map_eq_cons_iff.mp hwords
  obtain ⟨other, tokens, rfl⟩ := List.exists_cons_of_ne_nil fun hnil : tokens = [] =>
    hsome (by rw [hnil, List.map_nil])
  rw [List.getLast?_cons_cons] at hlast
  rw [current_of_pending hpending]
  exact ⟨hword, other :: tokens, rfl, hlast, pending_advance hpending⟩

theorem concat (hcovers : cursor.Covers (words ++ [word]) last back) :
    last.word = word ∧ cursor.Faces words (last :: back) := by
  obtain ⟨tokens, hwords, hlast, hpending⟩ := hcovers
  obtain ⟨before, later, rfl, hbefore, hlater⟩ := List.map_eq_append_iff.mp hwords
  obtain ⟨token, rfl, hword⟩ := List.map_eq_singleton_iff.mp hlater
  rw [List.getLast?_concat] at hlast
  obtain rfl : token = last := Option.some.inj hlast
  rw [List.append_assoc, List.singleton_append] at hpending
  exact ⟨hword, before, hbefore, hpending⟩

theorem divided (hcovers : cursor.Covers (left ++ middle :: right) last back)
    (hsome : right ≠ []) :
    ∃ token after, token.word = middle ∧ cursor.Faces left (token :: after) ∧
      ∀ stop, (⟨after, stop⟩ : Cursor).Covers right last back := by
  obtain ⟨tokens, hwords, hlast, hpending⟩ := hcovers
  obtain ⟨before, later, rfl, hleft, hlater⟩ := List.map_eq_append_iff.mp hwords
  obtain ⟨token, after, rfl, hmiddle, rfl⟩ := List.map_eq_cons_iff.mp hlater
  obtain ⟨other, after, rfl⟩ := List.exists_cons_of_ne_nil fun hnil : after = [] =>
    hsome (by rw [hnil, List.map_nil])
  rw [List.getLast?_append_cons, List.getLast?_cons_cons] at hlast
  rw [List.append_assoc, List.cons_append] at hpending
  exact ⟨token, other :: after ++ back, hmiddle, ⟨before, hleft, hpending⟩,
    fun stop => ⟨other :: after, rfl, hlast, rfl⟩⟩

end Covers

theorem identifier_mapSpan {identifier : Identifier}
    (hword : cursor.current.word = identifier.word) :
    cursor.identifier.mapSpan nowhere = identifier.mapSpan nowhere := by
  have hliteral : cursor.current.literal = identifier.name := congrArg Word.literal hword
  rw [Identifier.mapSpan, Identifier.mapSpan, Cursor.identifier, hliteral]
  rfl

end Cursor

end Frontend
