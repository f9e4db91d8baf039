import Frontend.Json
import Frontend.Text.Quoted

/-!
# Reading quoted text

There are two ways of quoting a text, one for tables and one for JSON.  Both write a backslash in
front of what is not meant as it stands: a letter for a character, a quote or a backslash, or a code
point in hexadecimal digits.  The first way puts any number of digits into braces, and the second
one always writes four of them, so one reader can tell which of the two it reads.  It finds the text
and the end of it whatever stands behind.
-/

namespace Frontend

namespace Quoted

/-- Where a reader of quoted text stands: before the opening quote, in front of a character, behind
a backslash, behind the mark of a code point, inside of braces with the number that the digits come
to, or with a number of digits left after the next one. -/
inductive State where
  | outside
  | plain
  | escape
  | mark
  | braces (number : Nat)
  | digits (left number : Nat)

/-- The character that another one stands for behind a backslash.  Most stand for themselves. -/
def meant (letter : Char) : Char :=
  if letter = 'n' then '\n'
  else if letter = 'r' then '\r'
  else if letter = 't' then '\t'
  else if letter = '0' then '\x00'
  else if letter = 'b' then '\x08'
  else if letter = 'f' then '\x0c'
  else letter

/-- The value of a hexadecimal digit in lower case. -/
def digitValue (c : Char) : Nat :=
  if c.isDigit then c.toNat - '0'.toNat else c.toNat - 'a'.toNat + 10

theorem digitValue_digitChar : ∀ digit < 16, digitValue (Nat.digitChar digit) = digit := by decide

/-- One more character in front of the text that was read. -/
def found (c : Char) (read : List Char × List Char) : List Char × List Char :=
  (c :: read.1, read.2)

/-- The text between two double quotes and what stands behind the second one.  It knows the escapes
of quoted text in a table and of JSON strings. -/
def read : State → List Char → Option (List Char × List Char)
  | _, [] => none
  | .outside, c :: cs => if c = '"' then read .plain cs else read .outside cs
  | .plain, c :: cs =>
      if c = '"' then some ([], cs)
      else if c = '\\' then read .escape cs
      else (read .plain cs).map (found c)
  | .escape, c :: cs =>
      if c = 'u' then read .mark cs else (read .plain cs).map (found (meant c))
  | .mark, c :: cs => if c = '{' then read (.braces 0) cs else read (.digits 2 (digitValue c)) cs
  | .braces number, c :: cs =>
      if c = '}' then (read .plain cs).map (found (Char.ofNat number))
      else read (.braces (16 * number + digitValue c)) cs
  | .digits 0 number, c :: cs =>
      (read .plain cs).map (found (Char.ofNat (16 * number + digitValue c)))
  | .digits (left + 1) number, c :: cs => read (.digits left (16 * number + digitValue c)) cs

/-! ## Texts in tables -/

theorem read_braces {digits : List Nat} (hdigits : ∀ digit ∈ digits, digit < 16) (number : Nat)
    (rest : List Char) :
    read (.braces number) (digits.map Nat.digitChar ++ '}' :: rest) =
      (read .plain rest).map
        (found (Char.ofNat (digits.foldl (fun total digit => 16 * total + digit) number))) := by
  have hbrace : ∀ digit < 16, Nat.digitChar digit ≠ '}' := by decide
  induction digits generalizing number with
  | nil => rfl
  | cons digit digits ih =>
      obtain ⟨hdigit, hrest⟩ := List.forall_mem_cons.mp hdigits
      rw [List.map_cons, List.cons_append, read, if_neg (hbrace digit hdigit),
        digitValue_digitChar digit hdigit, ih hrest, List.foldl_cons]

theorem read_hexadecimal (c : Char) (rest : List Char) :
    read (.braces 0) (Numeral.hexadecimal c.toNat ++ '}' :: rest) =
      (read .plain rest).map (found c) := by
  have hvalue := Numeral.value_digits 16 (by decide) c.toNat
  rw [Numeral.value] at hvalue
  rw [Numeral.hexadecimal, read_braces (Numeral.digits_lt 16 (by decide) _), hvalue,
    Char.ofNat_toNat]

/-- A character is read back from the way it is written inside quotes, whichever of the escapes that
is. -/
theorem read_escaped (c : Char) (rest : List Char) :
    read .plain (escaped '"' c ++ rest) = (read .plain rest).map (found c) := by
  fun_cases escaped '"' c with
  | case1 hmeant => rcases hmeant with rfl | rfl <;> rfl
  | case2 _ hc | case3 _ _ hc | case4 _ _ _ hc | case5 _ _ _ _ hc =>
      subst hc
      rfl
  | case6 =>
      rw [← read_hexadecimal c rest]
      simp [read]
  | case7 hmeant =>
      obtain ⟨hquote, hbackslash⟩ := not_or.mp hmeant
      rw [List.singleton_append, read, if_neg hquote, if_neg hbackslash]

/-- If each character is read back from the way it is written, so is a text.  What stands in front
of the opening quote is passed over. -/
theorem read_between_quotes {write : Char → List Char}
    (hwrite : ∀ c rest, read .plain (write c ++ rest) = (read .plain rest).map (found c))
    {gap : List Char} (hgap : '"' ∉ gap) (text rest : List Char) :
    read .outside (gap ++ '"' :: (text.flatMap write ++ '"' :: rest)) = some (text, rest) := by
  have hinside : read .plain (text.flatMap write ++ '"' :: rest) = some (text, rest) := by
    induction text with
    | nil => rfl
    | cons c text ih =>
        rw [List.flatMap_cons, List.append_assoc, hwrite, ih]
        rfl
  induction gap with
  | nil => exact hinside
  | cons c gap ih =>
      obtain ⟨hc, hrest⟩ := List.ne_and_not_mem_of_not_mem_cons hgap
      rw [List.cons_append, read, if_neg (Ne.symm hc), ih hrest]

theorem read_text {gap : List Char} (hgap : '"' ∉ gap) (s : String) (rest : List Char) :
    read .outside (gap ++ ((text s).toList ++ rest)) = some (s.toList, rest) := by
  rw [text, String.toList_ofList, List.append_assoc]
  exact read_between_quotes read_escaped hgap s.toList rest

theorem feed_not_mem_escaped (c : Char) : '\n' ∉ escaped '"' c := by
  have hdigit : ∀ digit < 16, Nat.digitChar digit ≠ '\n' := by decide
  fun_cases escaped '"' c with
  | case1 hmeant => rcases hmeant with rfl | rfl <;> decide
  | case2 | case3 | case4 | case5 => decide
  | case6 =>
      have hcode : '\n' ∉ Numeral.hexadecimal c.toNat := by
        intro hmember
        obtain ⟨digit, hdigits, hfeed⟩ := List.mem_map.mp hmember
        exact hdigit digit (Numeral.digits_lt 16 (by decide) _ digit hdigits) hfeed
      simp [hcode]
  | case7 _ hfeed => exact fun hmember => hfeed (List.mem_singleton.mp hmember).symm

/-- A quoted text is a single line. -/
theorem feed_not_mem_text (s : String) : '\n' ∉ (text s).toList := by
  rw [text, String.toList_ofList]
  simp [feed_not_mem_escaped]

end Quoted

/-! ## Strings in JSON -/

namespace Json

open Quoted

theorem read_controlEscape {c : Char} (hcontrol : c.toNat < 32) (rest : List Char) :
    read .plain (controlEscape c ++ rest) = (read .plain rest).map (found c) := by
  have hdigits : read .plain (controlEscape c ++ rest) =
      (read .plain rest).map (found (Char.ofNat
        (16 * (16 * 0 + digitValue (Nat.digitChar (c.toNat / 16))) +
          digitValue (Nat.digitChar (c.toNat % 16))))) := rfl
  have hvalue : 16 * (16 * 0 + c.toNat / 16) + c.toNat % 16 = c.toNat := by omega
  rw [hdigits, digitValue_digitChar _ (by omega), digitValue_digitChar _ (by omega), hvalue,
    Char.ofNat_toNat]

theorem read_escaped (c : Char) (rest : List Char) :
    read .plain (escaped c ++ rest) = (read .plain rest).map (found c) := by
  fun_cases escaped c with
  | case1 hmeant => rcases hmeant with rfl | rfl <;> rfl
  | case2 _ hc | case3 _ _ hc | case4 _ _ _ hc | case5 _ _ _ _ hc | case6 _ _ _ _ _ hc =>
      subst hc
      rfl
  | case7 _ _ _ _ _ _ hcontrol => exact read_controlEscape hcontrol rest
  | case8 hmeant =>
      obtain ⟨hquote, hbackslash⟩ := not_or.mp hmeant
      rw [List.singleton_append, Quoted.read, if_neg hquote, if_neg hbackslash]

theorem read_quoted (text : String) (rest : List Char) :
    read .outside ((quoted text).toList ++ rest) = some (text.toList, rest) := by
  rw [quoted, String.toList_ofList, List.append_assoc]
  exact read_between_quotes read_escaped List.not_mem_nil text.toList rest

end Json

end Frontend
