import Frontend.Proofs.Text.Json

/-!
# The layout of JSON texts

The text of a JSON value with an item per line differs from the one without blanks only in blanks
and line feeds outside of strings.  These can be taken out again by a reader that looks at one
character after another and remembers whether it is inside of a string, so the layout loses
nothing.
-/

namespace Frontend

namespace Json

/-- Where in a JSON text a character stands. -/
inductive Place where
  | outside
  | inside
  | escaped

/-- A text without the blanks and line feeds outside of strings.  It is told from quotes and
backslashes alone where a string is. -/
def condensed : Place → List Char → List Char
  | _, [] => []
  | .outside, c :: cs =>
      if c = ' ' ∨ c = '\n' then condensed .outside cs
      else c :: condensed (if c = '"' then .inside else .outside) cs
  | .inside, c :: cs =>
      c :: condensed (if c = '"' then .outside else if c = '\\' then .escaped else .inside) cs
  | .escaped, c :: cs => c :: condensed .inside cs

theorem condensed_inside {c : Char} (hquote : c ≠ '"') (hbackslash : c ≠ '\\')
    (rest : List Char) : condensed .inside (c :: rest) = c :: condensed .inside rest := by
  rw [condensed, if_neg hquote, if_neg hbackslash]

/-- A character inside of a string does not end it. -/
theorem condensed_escaped (c : Char) (rest : List Char) :
    condensed .inside (escaped c ++ rest) = escaped c ++ condensed .inside rest := by
  have hdigit : ∀ digit < 16, Nat.digitChar digit ≠ '"' ∧ Nat.digitChar digit ≠ '\\' := by decide
  fun_cases escaped c with
  | case1 hmeant => rcases hmeant with rfl | rfl <;> rfl
  | case2 | case3 | case4 | case5 | case6 => rfl
  | case7 _ _ _ _ _ _ hcontrol =>
      obtain ⟨hhigh, hhigh'⟩ := hdigit (c.toNat / 16) (by omega)
      obtain ⟨hlow, hlow'⟩ := hdigit (c.toNat % 16) (by omega)
      have hmark (rest : List Char) :
          condensed .inside ('\\' :: 'u' :: '0' :: '0' :: rest) =
            '\\' :: 'u' :: '0' :: '0' :: condensed .inside rest := rfl
      simp only [controlEscape, List.cons_append, List.nil_append, hmark,
        condensed_inside hhigh hhigh', condensed_inside hlow hlow']
  | case8 hmeant =>
      obtain ⟨hquote, hbackslash⟩ := not_or.mp hmeant
      exact condensed_inside hquote hbackslash rest

/-- Wherever the text stands outside of strings, nothing but `short` is left of it.  So what is laid
out over lines is the short text with blanks. -/
def Condenses (text short : String) : Prop :=
  ∀ rest, condensed .outside (text.toList ++ rest) = short.toList ++ condensed .outside rest

namespace Condenses

variable {text short text' short' : String}

theorem append (hfirst : Condenses text short) (hsecond : Condenses text' short') :
    Condenses (text ++ text') (short ++ short') := by
  intro rest
  rw [String.toList_append, String.toList_append, List.append_assoc, List.append_assoc,
    hfirst, hsecond]

/-- Nothing is left of blanks. -/
theorem of_blanks (hblanks : ∀ c ∈ text.toList, c = ' ' ∨ c = '\n') : Condenses text "" := by
  intro rest
  generalize text.toList = cs at *
  induction cs with
  | nil => rfl
  | cons c cs ih =>
      obtain ⟨hc, hrest⟩ := List.forall_mem_cons.mp hblanks
      rw [List.cons_append, condensed, if_pos hc, ih hrest]

/-- All is left of a text without blanks and strings. -/
theorem of_word (hword : ' ' ∉ text.toList ∧ '\n' ∉ text.toList ∧ '"' ∉ text.toList) :
    Condenses text text := by
  intro rest
  generalize text.toList = cs at *
  induction cs with
  | nil => rfl
  | cons c cs ih =>
      obtain ⟨hblank, hfeed, hquote⟩ := hword
      obtain ⟨hblank, hblanks⟩ := List.ne_and_not_mem_of_not_mem_cons hblank
      obtain ⟨hfeed, hfeeds⟩ := List.ne_and_not_mem_of_not_mem_cons hfeed
      obtain ⟨hquote, hquotes⟩ := List.ne_and_not_mem_of_not_mem_cons hquote
      rw [List.cons_append, condensed, if_neg (not_or.mpr ⟨hblank.symm, hfeed.symm⟩),
        if_neg hquote.symm, ih ⟨hblanks, hfeeds, hquotes⟩]
      rfl

theorem newLine (depth : Nat) : Condenses (margin depth) "" := by
  refine of_blanks fun c hmember => ?_
  rw [margin, String.toList_append, List.mem_append] at hmember
  rcases hmember with hfeed | hblank
  · exact .inr (List.mem_singleton.mp hfeed)
  · rw [repeated, String.toList_ofList] at hblank
    exact .inl (List.eq_of_mem_replicate hblank)

theorem numeral (value : Int) : Condenses (Numeral.ofInt value) (Numeral.ofInt value) := by
  have hbare {c : Char} (hdigit : Lexeme.isDigit c = false) (hsign : c ≠ '-') :
      c ∉ (Numeral.ofInt value).toList := by
    have hdecimal (n : Nat) : c ∉ (Numeral.ofNat n).toList := fun hmember =>
      absurd ((Numeral.ofNat_isNumeral n).2 c hmember) (Bool.eq_false_iff.mp hdigit)
    cases value with
    | ofNat n => exact hdecimal n
    | negSucc n =>
        rw [Numeral.ofInt, String.toList_append]
        exact List.not_mem_append (fun hmember => hsign (List.mem_singleton.mp hmember))
          (hdecimal (n + 1))
  exact of_word ⟨hbare (by decide) (by decide), hbare (by decide) (by decide),
    hbare (by decide) (by decide)⟩

/-- All is left of a string. -/
theorem quote (text : String) : Condenses (quoted text) (quoted text) := by
  have hinside (cs rest : List Char) :
      condensed .inside (cs.flatMap escaped ++ '"' :: rest) =
        cs.flatMap escaped ++ '"' :: condensed .outside rest := by
    induction cs with
    | nil => rfl
    | cons c cs ih =>
        rw [List.flatMap_cons, List.append_assoc, List.append_assoc, condensed_escaped, ih]
  intro rest
  rw [quoted, String.toList_ofList, List.append_assoc, List.append_assoc]
  exact congrArg ('"' :: ·) (hinside text.toList rest)

/-- Items with more than a comma between them. -/
theorem commas {α : Type} {wide narrow : α → String} {items : List α} {separator : String}
    (hseparator : Condenses separator ",")
    (hitems : ∀ item ∈ items, Condenses (wide item) (narrow item)) :
    Condenses (joined separator (items.map wide))
      (joined "," (items.map narrow)) := by
  induction items with
  | nil => exact fun rest => rfl
  | cons item items ih =>
      obtain ⟨hitem, hrest⟩ := List.forall_mem_cons.mp hitems
      cases items with
      | nil => exact hitem
      | cons next items => exact (hitem.append hseparator).append (ih hrest)

/-- Items on lines of their own. -/
theorem lines {α : Type} {wide narrow : α → String} {items : List α} {opener closer : String}
    (hopener : Condenses opener opener) (hcloser : Condenses closer closer) (depth : Nat)
    (hitems : ∀ item ∈ items, Condenses (wide item) (narrow item)) :
    Condenses (bracketed opener closer depth (items.map wide))
      (opener ++ joined "," (items.map narrow) ++ closer) := by
  cases items with
  | nil =>
      rw [List.map_nil, List.map_nil, bracketed, joined, String.append_empty]
      exact hopener.append hcloser
  | cons item items =>
      have hcomma : Condenses "," "," := of_word (by decide)
      have hseparator : Condenses ("," ++ margin (depth + 1)) "," :=
        hcomma.append (newLine (depth + 1))
      have hinner := (hopener.append (newLine (depth + 1))).append (commas hseparator hitems)
      have hlines := hinner.append (newLine depth)
      rw [String.append_empty, String.append_empty] at hlines
      exact hlines.append hcloser

end Condenses

theorem prettyItems_eq_map (depth : Nat) (items : List Json) :
    prettyItems depth items = items.map (prettyAt depth) := by
  induction items with
  | nil => rfl
  | cons item items ih => rw [prettyItems, ih, List.map_cons]

theorem prettyMembers_eq_map (depth : Nat) (members : List (String × Json)) :
    prettyMembers depth members = members.map (prettyMember depth) := by
  induction members with
  | nil => rfl
  | cons member members ih => rw [prettyMembers, ih, List.map_cons]

/-- However deep a value is nested, its text without blanks is what is left of the other one. -/
theorem condenses_steps :
    Steps fun value => ∀ depth, Condenses (value.prettyAt depth) value.compact where
  null _ := show Condenses "null" "null" from .of_word (by decide)
  bool value _ :=
    show Condenses (ofBool value) (ofBool value) from .of_word (by cases value <;> decide)
  number value _ := .numeral value
  string text _ := .quote text
  array items ih depth := by
    rw [prettyAt, prettyItems_eq_map, compact, compactItems_eq_map]
    exact .lines (.of_word (by decide)) (.of_word (by decide)) depth
      fun item hmember => ih item hmember (depth + 1)
  object members ih depth := by
    rw [prettyAt, prettyMembers_eq_map, compact, compactMembers_eq_map]
    refine .lines (.of_word (by decide)) (.of_word (by decide)) depth ?_
    rintro ⟨name, value⟩ hmember
    have hcolon : Condenses ": " ":" := fun rest => rfl
    exact ((Condenses.quote name).append hcolon).append (ih _ hmember (depth + 1))

/-- The text with an item per line is the text without blanks but for blanks outside of strings.  So
it tells as much. -/
theorem condensed_pretty (value : Json) :
    condensed .outside value.pretty.toList = value.compact.toList := by
  have hcondenses := condenses_steps.all value 0 []
  rwa [List.append_nil, condensed, List.append_nil] at hcondenses

theorem pretty_injective : Function.Injective pretty := by
  intro value other heq
  refine compact_injective (String.toList_inj.mp ?_)
  rw [← condensed_pretty, ← condensed_pretty, heq]

end Json

end Frontend
