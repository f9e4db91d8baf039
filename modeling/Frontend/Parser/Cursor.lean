import Frontend.Event
import Frontend.Lexer
import Frontend.Tree.Basic

/-!
# Cursors

A parser moves over tokens with a cursor that stands on one token and can see the one after it.
Past the last token it stands on the end token, however often it moves on.  Each move brings one
more token into view, and with it the warning about an illegal one.  The size of a cursor is the
number of tokens from the one it stands on, so a cursor that stands on a token gets smaller when it
moves; every recursion of the parser rests on that.
-/

namespace Frontend

/-- The tokens from the current one on, and the offset at which the text ends: the `lexer`, the
`current_token` and the `peek_token` of a `Parser` in one. -/
structure Cursor where
  pending : List Token
  stop : Nat

namespace Cursor

/-- The cursor on the first token that a lexer has left, where `new` of `Parser` starts. -/
def ofLexer (lexer : Lexer) : Cursor := ⟨lexer.tokens, lexer.stop⟩

/-- The token that the cursor stands on, the `current_token`. -/
def current (cursor : Cursor) : Token := cursor.pending.headD (.atEnd cursor.stop)

/-- The token after the one that the cursor stands on, the `peek_token`. -/
def next (cursor : Cursor) : Token := cursor.pending.tail.headD (.atEnd cursor.stop)

/-- The cursor on the next token, `next_token` of `Parser`. -/
def advance (cursor : Cursor) : Cursor := ⟨cursor.pending.tail, cursor.stop⟩

/-- The events of bringing the tokens into view that the cursor can see from the start, of which
`new` of `Parser` takes two from the lexer. -/
def inView (cursor : Cursor) : List Event := Event.warnings (cursor.pending.take 2)

/-- The events of bringing one more token into view by a move, which `next_token` of `Parser` takes
from the lexer to be the `peek_token`. -/
def broughtIntoView (cursor : Cursor) : List Event :=
  Event.warnings ((cursor.pending.drop 2).take 1)

/-- The number of tokens that are not behind the cursor. -/
def size (cursor : Cursor) : Nat := cursor.pending.length

/-- The name that the cursor stands on, `current_identifier`. -/
def identifier (cursor : Cursor) : Identifier := ⟨cursor.current.literal, cursor.current.span⟩

/-- The span from an offset through the token that the cursor stands on, `span_from`. -/
def spanFrom (cursor : Cursor) (start : Nat) : Span := ⟨start, cursor.current.span.stop⟩

@[simp]
theorem current_advance (cursor : Cursor) : cursor.advance.current = cursor.next := rfl

@[simp]
theorem size_advance (cursor : Cursor) : cursor.advance.size = cursor.size - 1 :=
  List.length_tail

theorem size_pos_of_current {cursor : Cursor} (hcurrent : cursor.current.kind ≠ .eof) :
    0 < cursor.size := by
  rcases cursor with ⟨_ | ⟨token, tokens⟩, stop⟩
  · exact absurd rfl hcurrent
  · exact Nat.zero_lt_succ _

theorem one_lt_size_of_next {cursor : Cursor} (hnext : cursor.next.kind ≠ .eof) :
    1 < cursor.size := by
  have hadvanced : 0 < cursor.advance.size := size_pos_of_current hnext
  rw [size_advance] at hadvanced
  omega

end Cursor

end Frontend
