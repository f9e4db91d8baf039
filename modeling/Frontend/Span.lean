import Frontend.Text.Bytes
import Frontend.Text.Numeral

/-!
# Spans

A span marks a stretch of the source by two byte offsets, the first inside it and the first after
it.  Spans are plain data, because a tree may be put together by hand with any offsets at all; a
span made from two bounds is checked, so none that runs backwards ever arises from a text.
-/

namespace Frontend

/-- A half-open range of byte offsets into a text, a `Span`: the bytes from `start` up to, and
without, `stop`, which is the field `end`. -/
structure Span where
  start : Nat
  stop : Nat
  deriving DecidableEq

namespace Span

/-- Two bounds in the wrong order.  The assertion in `new` of `Span` fails on them in a build that
has its assertions on, which is the one described here. -/
structure Reversed where
  start : Nat
  stop : Nat
  deriving DecidableEq

/-- The text of the failed assertion of `new`, which names both of the bounds as they were handed
in. -/
def Reversed.message (bounds : Reversed) : String :=
  "span start " ++ Numeral.ofNat bounds.start ++ " is past its end " ++
    Numeral.ofNat bounds.stop

/-- The span between two bounds, `new` of `Span`.  The bounds are kept as they are, and they must
not be reversed. -/
def between (start stop : Nat) : Except Reversed Span :=
  if start ≤ stop then .ok ⟨start, stop⟩ else .error ⟨start, stop⟩

/-- The empty span at an offset, `empty` of `Span`.  Its bounds are one offset, so the check of
`new` never fails on them. -/
def empty (offset : Nat) : Span := ⟨offset, offset⟩

/-- The smallest span that covers both, `to` of `Span`: from the lower of the starts up to the
higher of the ends. -/
def cover (left right : Span) : Span :=
  ⟨min left.start right.start, max left.stop right.stop⟩

/-- The number of bytes in a span, `len` of `Span`. -/
def length (span : Span) : Nat := span.stop - span.start

/-- Whether there are no bytes in a span, `is_empty` of `Span`. -/
def isEmpty (span : Span) : Bool := span.start == span.stop

/-- The text that a span marks, `slice` of `Span`.  There is none, and the program panics, if the
span runs past the end of the text or if one of its bounds lies inside a character. -/
def slice? (span : Span) (text : List Char) : Option (List Char) := do
  let (_, after) ← splitAtByte? text span.start
  let (inside, _) ← splitAtByte? after (span.stop - span.start)
  if span.start ≤ span.stop then some inside else none

/-- A span slices out exactly the part it was laid around. -/
theorem slice?_append (before inside after : List Char) :
    slice? ⟨byteLength before, byteLength before + byteLength inside⟩
      (before ++ inside ++ after) = some inside := by
  simp [slice?, List.append_assoc, splitAtByte?_append]

end Span

end Frontend
