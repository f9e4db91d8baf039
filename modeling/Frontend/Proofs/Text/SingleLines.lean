import Frontend.Proofs.Source.Lines
import Frontend.Proofs.Tree.CanonicalText

/-!
# Texts of a single line

Texts that are put together from single lines are single lines, and so are the names, numbers and
kinds that they tell of.  If single lines are written one after another, each with a line feed
behind it, they are found again between the line feeds.
-/

namespace Frontend

namespace Numeral

theorem ofNat_isNumeral (n : Nat) : IsNumeral (ofNat n) :=
  (ofInt_spells (Int.natCast_nonneg n)).1

theorem isDigit_of_mem_decimal (n : Nat) : ∀ c ∈ decimal n, Lexeme.isDigit c = true := by
  have hdigits := (ofNat_isNumeral n).2
  rwa [ofNat, String.toList_ofList] at hdigits

theorem decimal_ne_nil (n : Nat) : decimal n ≠ [] := by
  have hsome := (ofNat_isNumeral n).1
  rwa [ofNat, String.toList_ofList] at hsome

end Numeral

/-- A text without a line feed. -/
def IsLine (text : String) : Prop := '\n' ∉ text.toList

instance (text : String) : Decidable (IsLine text) :=
  inferInstanceAs (Decidable ('\n' ∉ text.toList))

namespace IsLine

theorem append {left right : String} (hleft : IsLine left) (hright : IsLine right) :
    IsLine (left ++ right) := by
  rw [IsLine, String.toList_append]
  exact List.not_mem_append hleft hright

theorem of_isName {name : String} (hname : IsName name) : IsLine name :=
  fun hfeed => absurd (hname.2.1 _ hfeed) (by decide)

theorem of_isNumeral {text : String} (hnumeral : IsNumeral text) : IsLine text :=
  fun hfeed => absurd (hnumeral.2 _ hfeed) (by decide)

theorem kindName (kind : Kind) : IsLine kind.name := by
  cases kind <;> decide

end IsLine

theorem joined_empty_cons (text : String) (texts : List String) :
    joined "" (text :: texts) = text ++ joined "" texts := by
  cases texts <;> simp [joined]

/-- Texts that are written with a line feed after each one. -/
theorem toList_joined_lines {α : Type} (items : List α) (line : α → String) :
    (joined "" (items.map fun item => line item ++ "\n")).toList =
      ended (items.map fun item => (line item).toList) := by
  induction items with
  | nil => rfl
  | cons item items ih =>
      rw [List.map_cons, List.map_cons, joined_empty_cons, String.toList_append, ih, ended_cons,
        String.toList_append, List.append_assoc]
      rfl

/-- Single lines are what stands between the line feeds behind them, with an empty rest. -/
theorem pieces_joined_lines {α : Type} {items : List α} {line : α → String}
    (hlines : ∀ item ∈ items, IsLine (line item)) :
    pieces '\n' (joined "" (items.map fun item => line item ++ "\n")).toList =
      (items.map fun item => (line item).toList) ++ [[]] := by
  have hended := pieces_ended (List.forall_mem_map.mpr hlines) []
  rw [List.append_nil] at hended
  rw [toList_joined_lines, hended]
  rfl

end Frontend
