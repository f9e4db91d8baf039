/-!
# Byte offsets in a text

Texts are lists of characters and places in them are byte offsets of their UTF-8 form.  An offset
is usable only where a character starts or the text ends; `splitAtByte?` says so by its result.
Its two lemmas state that a cut is found exactly where two parts meet.
-/

namespace Frontend

/-- The number of bytes that a text takes in UTF-8, `len` of a string. -/
def byteLength : List Char → Nat
  | [] => 0
  | c :: cs => c.utf8Size + byteLength cs

@[simp]
theorem byteLength_nil : byteLength [] = 0 := rfl

@[simp]
theorem byteLength_cons (c : Char) (cs : List Char) :
    byteLength (c :: cs) = c.utf8Size + byteLength cs := rfl

@[simp]
theorem byteLength_append (left right : List Char) :
    byteLength (left ++ right) = byteLength left + byteLength right := by
  induction left with
  | nil => simp
  | cons c cs ih => simp [ih, Nat.add_assoc]

theorem byteLength_eq_zero {cs : List Char} : byteLength cs = 0 ↔ cs = [] := by
  cases cs with
  | nil => simp
  | cons c cs =>
      have hpositive := c.utf8Size_pos
      simp
      omega

/-- The text before a byte offset and the text from it on.  There is no such cut, and to slice a
string there panics, past the end of the text or inside a character. -/
def splitAtByte? : List Char → Nat → Option (List Char × List Char)
  | [], offset => if offset = 0 then some ([], []) else none
  | c :: cs, offset =>
      if offset = 0 then some ([], c :: cs)
      else if offset < c.utf8Size then none
      else (splitAtByte? cs (offset - c.utf8Size)).map fun (before, after) => (c :: before, after)

theorem splitAtByte?_append (before after : List Char) :
    splitAtByte? (before ++ after) (byteLength before) = some (before, after) := by
  induction before with
  | nil => cases after <;> simp [splitAtByte?]
  | cons c cs ih =>
      have hpositive := c.utf8Size_pos
      have hnonzero : ¬ c.utf8Size = 0 := by omega
      have hpast : ¬ c.utf8Size + byteLength cs < c.utf8Size := by omega
      simp [splitAtByte?, hnonzero, hpast, ih]

theorem splitAtByte?_eq_some {text before after : List Char} {offset : Nat}
    (hsplit : splitAtByte? text offset = some (before, after)) :
    text = before ++ after ∧ offset = byteLength before := by
  induction text generalizing offset before with
  | nil =>
      simp only [splitAtByte?] at hsplit
      split at hsplit <;> simp_all
  | cons c cs ih =>
      simp only [splitAtByte?] at hsplit
      split at hsplit
      · simp_all
      · split at hsplit
        · simp at hsplit
        · rw [Option.map_eq_some_iff] at hsplit
          obtain ⟨⟨front, back⟩, hrest, hpair⟩ := hsplit
          obtain ⟨rfl, rfl⟩ := Prod.mk.inj hpair
          have htail := ih hrest
          refine ⟨by simp [htail.1], ?_⟩
          simp only [byteLength_cons]
          omega

end Frontend
