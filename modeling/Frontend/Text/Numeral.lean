/-!
# Numerals

A number is written by its digits in a base, the highest first and without leading zeros.
Reading takes any digits, so leading zeros are lost, but what was written is always read back.
-/

namespace Frontend.Numeral

/-- The digits of a number in a base, the highest first; zero has one digit. -/
def digits (base : Nat) (hbase : 2 ≤ base) (n : Nat) : List Nat :=
  if n < base then [n] else digits base hbase (n / base) ++ [n % base]
termination_by n
decreasing_by exact Nat.div_lt_self (by omega) hbase

/-- The number that digits stand for in a base, with the highest digit first. -/
def value (base : Nat) (digits : List Nat) : Nat :=
  digits.foldl (fun total digit => base * total + digit) 0

theorem value_concat (base : Nat) (front : List Nat) (last : Nat) :
    value base (front ++ [last]) = base * value base front + last := by
  simp [value]

theorem value_digits (base : Nat) (hbase : 2 ≤ base) (n : Nat) :
    value base (digits base hbase n) = n := by
  induction n using Nat.strongRecOn with
  | ind n ih =>
      rw [digits]
      split
      · simp [value]
      · next hlarge =>
          rw [value_concat, ih (n / base) (Nat.div_lt_self (by omega) hbase)]
          exact Nat.div_add_mod n base

theorem digits_lt (base : Nat) (hbase : 2 ≤ base) (n : Nat) :
    ∀ digit ∈ digits base hbase n, digit < base := by
  induction n using Nat.strongRecOn with
  | ind n ih =>
      rw [digits]
      split
      · simpa
      · intro digit hmember
        rw [List.mem_append, List.mem_singleton] at hmember
        rcases hmember with hfront | rfl
        · exact ih (n / base) (Nat.div_lt_self (by omega) hbase) digit hfront
        · exact Nat.mod_lt n (by omega)

/-- The decimal digits of a natural number, which are its `Display` form. -/
def decimal (n : Nat) : List Char := (digits 10 (by decide) n).map Nat.digitChar

/-- The hexadecimal digits of a natural number, in lower case, as an escape by the code point has
them. -/
def hexadecimal (n : Nat) : List Char := (digits 16 (by decide) n).map Nat.digitChar

/-- The number that a word of decimal digits stands for, of any size. -/
def ofDecimal (word : List Char) : Nat := value 10 (word.map fun c => c.toNat - '0'.toNat)

theorem ofDecimal_decimal (n : Nat) : ofDecimal (decimal n) = n := by
  have hdigit : ∀ digit < 10, (Nat.digitChar digit).toNat - '0'.toNat = digit := by decide
  have hmap : ∀ word : List Nat, (∀ digit ∈ word, digit < 10) →
      (word.map Nat.digitChar).map (fun c => c.toNat - '0'.toNat) = word := by
    intro word hword
    induction word with
    | nil => rfl
    | cons digit word ih =>
        simp only [List.map_cons, hdigit digit (hword digit (by simp))]
        rw [ih fun other hmember => hword other (by simp [hmember])]
  rw [ofDecimal, decimal, hmap _ (digits_lt 10 (by decide) n), value_digits]

/-- The text of a natural number, its `Display` form. -/
def ofNat (n : Nat) : String := String.ofList (decimal n)

/-- The text of an integer, its `Display` form, with a minus sign before a negative one. -/
def ofInt : Int → String
  | .ofNat n => ofNat n
  | .negSucc n => "-" ++ ofNat (n + 1)

end Frontend.Numeral
