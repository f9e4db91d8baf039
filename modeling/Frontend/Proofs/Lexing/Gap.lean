import Frontend.Lexer.Trivia

/-!
# Gaps

The gap before a token is all the blanks and comments that stand there.  A gap is told from the
text after it: nothing that follows goes on with it, a line comment ends where its line does, and
a block comment at its first closer or, without one, with the text.  So a text has one gap at its
front, and that is what is cut off it.
-/

namespace Frontend

/-- The text starts with a blank or with a comment, so a lexer that stands before it has more to
skip. -/
def Trivia.Starts : List Char → Prop
  | [] => False
  | c :: rest => isBlank c = true ∨ c = '/' ∧ ∃ next ∈ rest.head?, next = '/' ∨ next = '*'

/-- All the blanks and comments in front of a text.  It takes in whatever can be skipped, and a
comment that is not closed reaches to the end. -/
inductive Gap : List Char → List Char → Prop where
  | none {after} (hend : ¬ Trivia.Starts after) : Gap [] after
  | blank {c gap after} (hblank : Trivia.isBlank c = true) (hgap : Gap gap after) :
      Gap (c :: gap) after
  | lineComment {text gap after} (htext : ∀ c ∈ text, Trivia.endsLine c = false)
      (hend : ∀ c ∈ (gap ++ after).head?, Trivia.endsLine c = true) (hgap : Gap gap after) :
      Gap ('/' :: '/' :: text ++ gap) after
  | blockComment {text gap after} (htext : ¬ ['*', '/'] <:+: text) (hgap : Gap gap after) :
      Gap ('/' :: '*' :: text ++ '*' :: '/' :: gap) after
  | openComment {text} (htext : ¬ ['*', '/'] <:+: text) : Gap ('/' :: '*' :: text) []

namespace Trivia

variable {text rest gap after : List Char} {c : Char}

theorem not_starts_nil : ¬ Starts [] := id

theorem not_starts_cons (hblank : isBlank c = false)
    (hcomment : c = '/' → ∀ next ∈ rest.head?, next ≠ '/' ∧ next ≠ '*') :
    ¬ Starts (c :: rest) := by
  rintro (hstarts | ⟨hslash, next, hnext, hstarts⟩)
  · rw [hblank] at hstarts
    cases hstarts
  · obtain ⟨hline, hblock⟩ := hcomment hslash next hnext
    exact hstarts.elim hline hblock

theorem isBlank_of_endsLine (hend : endsLine c = true) : isBlank c = true := by
  rw [isBlank, Bool.or_assoc]
  exact Bool.or_eq_true_iff.mpr (.inr hend)

/-- A comment goes on as long as it is not closed. -/
theorem not_infix_cons (htext : ¬ ['*', '/'] <:+: text)
    (hcloser : c = '*' → ∀ next ∈ text.head?, next ≠ '/') : ¬ ['*', '/'] <:+: c :: text := by
  intro hinside
  rcases List.infix_cons_iff.mp hinside with hfront | hlater
  · obtain ⟨after, hfront⟩ := hfront
    obtain ⟨rfl, rfl⟩ := List.cons.inj hfront
    exact hcloser rfl '/' rfl rfl
  · exact htext hlater

end Trivia

namespace Gap

variable {text gap after : List Char} {c : Char}

/-! ## What is cut off is a gap -/

theorem lineComment_cons (hgap : Gap ('/' :: '/' :: gap) after)
    (hc : Trivia.endsLine c = false) : Gap ('/' :: '/' :: c :: gap) after := by
  cases hgap with
  | blank hblank _ => cases hblank
  | lineComment htext hend hgap =>
      exact .lineComment (List.forall_mem_cons.mpr ⟨hc, htext⟩) hend hgap

theorem blockComment_cons (hgap : Gap ('/' :: '*' :: gap) after)
    (hcloser : c = '*' → ∀ next ∈ (gap ++ after).head?, next ≠ '/') :
    Gap ('/' :: '*' :: c :: gap) after := by
  cases hgap with
  | blank hblank _ => cases hblank
  | @blockComment text gap _ htext hgap =>
      have hlonger : ¬ ['*', '/'] <:+: c :: text := by
        refine Trivia.not_infix_cons htext fun hstar next hnext => hcloser hstar next ?_
        cases text with
        | nil => cases hnext
        | cons _ _ => exact hnext
      exact .blockComment hlonger hgap
  | openComment htext =>
      rw [List.append_nil] at hcloser
      exact .openComment (Trivia.not_infix_cons htext hcloser)

end Gap

namespace Trivia

variable {text rest gap after : List Char} {c : Char}

/-- The characters that open what is being skipped. -/
def Mode.opener : Mode → List Char
  | .blank => []
  | .lineComment => ['/', '/']
  | .blockComment => ['/', '*']

/-- Behind the opener of its mode, what is skipped is a gap.  The induction is that of the loops,
mode by mode. -/
theorem gap_splitFrom (mode : Mode) (text : List Char) :
    Gap (mode.opener ++ (splitFrom mode text).1) (splitFrom mode text).2 := by
  have hempty : ∀ other ∈ ([] : List Char), endsLine other = false := by simp
  have hclosed : ¬ ['*', '/'] <:+: ([] : List Char) := by simp
  fun_induction splitFrom mode text with
  | case1 mode =>
      cases mode with
      | blank => exact .none not_starts_nil
      | lineComment => exact .lineComment hempty (by simp) (.none not_starts_nil)
      | blockComment => exact .openComment hclosed
  | case2 cs trivia rest hsplit ih | case3 cs trivia rest hsplit ih =>
      rwa [hsplit] at ih
  | case4 c cs _ _ hblank trivia rest hsplit ih =>
      rw [hsplit] at ih
      exact .blank hblank ih
  | case5 c cs hline hblock hblank =>
      refine .none (not_starts_cons (Bool.eq_false_iff.mpr hblank) ?_)
      rintro hslash next hnext
      obtain ⟨rest, rfl⟩ := List.head?_eq_some_iff.mp hnext
      exact ⟨fun h => hline rest hslash (h ▸ rfl), fun h => hblock rest hslash (h ▸ rfl)⟩
  | case6 c cs trivia rest hsplit ih =>
      rw [hsplit] at ih
      cases hend : endsLine c with
      | true =>
          rw [hend, if_pos rfl] at ih
          have hgap : Gap (c :: trivia) rest := .blank (isBlank_of_endsLine hend) ih
          refine .lineComment hempty ?_ hgap
          rintro other hother
          obtain rfl := Option.some.inj hother
          exact hend
      | false =>
          rw [hend, if_neg Bool.false_ne_true] at ih
          exact Gap.lineComment_cons ih hend
  | case7 cs trivia rest hsplit ih =>
      rw [hsplit] at ih
      exact .blockComment hclosed ih
  | case8 c cs hcloser trivia rest hsplit ih =>
      have htext := splitFrom_append .blockComment cs
      rw [hsplit] at ih htext
      refine Gap.blockComment_cons ih ?_
      rintro hstar next hnext rfl
      rw [htext] at hnext
      obtain ⟨later, hlater⟩ := List.head?_eq_some_iff.mp hnext
      exact hcloser later hstar hlater

/-- What is cut off the front of a text is the gap before the rest. -/
theorem gap_split (text : List Char) : Gap (split text).1 (split text).2 :=
  gap_splitFrom .blank text

/-! ## A gap is cut off -/

theorem split_blank (hblank : isBlank c = true) :
    split (c :: rest) = (c :: (split rest).1, (split rest).2) := by
  rw [split, splitFrom, if_pos hblank, split]
  · rintro cs rfl
    cases hblank
  · rintro cs rfl
    cases hblank

/-- A line comment goes to the end of its line, where blanks follow. -/
theorem splitFrom_lineComment (htext : ∀ other ∈ text, endsLine other = false)
    (hend : ∀ c ∈ rest.head?, endsLine c = true) :
    splitFrom .lineComment (text ++ rest) = (text ++ (split rest).1, (split rest).2) := by
  induction text with
  | nil =>
      cases rest with
      | nil => rfl
      | cons c rest =>
          have hline : endsLine c = true := hend c rfl
          rw [List.nil_append, splitFrom, if_pos hline,
            split_blank (isBlank_of_endsLine hline), List.nil_append, split]
  | cons other text ih =>
      obtain ⟨hother, htext⟩ := List.forall_mem_cons.mp htext
      rw [List.cons_append, splitFrom, hother, if_neg Bool.false_ne_true, ih htext,
        List.cons_append]

theorem splitFrom_blockComment (htext : ¬ ['*', '/'] <:+: text) :
    splitFrom .blockComment (text ++ '*' :: '/' :: rest) =
      (text ++ '*' :: '/' :: (splitFrom .blank rest).1, (splitFrom .blank rest).2) := by
  induction text with
  | nil => rw [List.nil_append, splitFrom, List.nil_append]
  | cons other text ih =>
      have hlater : ¬ ['*', '/'] <:+: text := fun hinside =>
        htext (hinside.trans (List.suffix_cons other text).isInfix)
      rw [List.cons_append, splitFrom, ih hlater, List.cons_append]
      -- A closer that starts here would be part of the comment or overlap the closer after it.
      rintro after rfl hcloser
      cases text with
      | nil => simp at hcloser
      | cons second text =>
          obtain rfl : second = '/' := (List.cons.inj hcloser).1
          exact htext ⟨[], text, rfl⟩

theorem splitFrom_openComment (htext : ¬ ['*', '/'] <:+: text) :
    splitFrom .blockComment text = (text, []) := by
  induction text with
  | nil => rw [splitFrom]
  | cons other text ih =>
      have hlater : ¬ ['*', '/'] <:+: text := fun hinside =>
        htext (hinside.trans (List.suffix_cons other text).isInfix)
      rw [splitFrom, ih hlater]
      rintro after rfl rfl
      exact htext ⟨[], after, rfl⟩

theorem split_eq_self (hend : ¬ Starts text) : split text = ([], text) := by
  cases text with
  | nil => rfl
  | cons c rest =>
      have hblank : ¬ isBlank c = true := fun hblank => hend (.inl hblank)
      rw [split, splitFrom, if_neg hblank]
      · rintro cs rfl rfl
        exact hend (.inr ⟨rfl, '/', rfl, .inl rfl⟩)
      · rintro cs rfl rfl
        exact hend (.inr ⟨rfl, '*', rfl, .inr rfl⟩)

end Trivia

namespace Gap

variable {gap other after rest : List Char}

/-- The gap before a text is what is cut off, so the rules for gaps say all about what is
skipped. -/
theorem split_eq (hgap : Gap gap after) : Trivia.split (gap ++ after) = (gap, after) := by
  induction hgap with
  | none hend => exact Trivia.split_eq_self hend
  | blank hblank _ ih => rw [List.cons_append, Trivia.split_blank hblank, ih]
  | lineComment htext hend _ ih =>
      have hcomment := Trivia.splitFrom_lineComment htext hend
      rw [ih] at hcomment
      simp only [List.cons_append, List.append_assoc, Trivia.split, Trivia.splitFrom, hcomment]
  | blockComment htext _ ih =>
      rw [Trivia.split] at ih
      simp only [List.cons_append, List.append_assoc, Trivia.split, Trivia.splitFrom,
        Trivia.splitFrom_blockComment htext, ih]
  | openComment htext =>
      simp only [List.append_nil, Trivia.split, Trivia.splitFrom,
        Trivia.splitFrom_openComment htext]

/-- A text has one gap at its front.  There is no choice between skipping more or less. -/
theorem unique (hgap : Gap gap after) (hother : Gap other rest)
    (htext : gap ++ after = other ++ rest) : gap = other ∧ after = rest := by
  have hsplit := hgap.split_eq
  rw [htext, hother.split_eq] at hsplit
  exact ⟨(congrArg Prod.fst hsplit).symm, (congrArg Prod.snd hsplit).symm⟩

/-- Nothing goes on with a gap. -/
theorem not_starts (hgap : Gap gap after) : ¬ Trivia.Starts after := by
  induction hgap with
  | none hend => exact hend
  | blank _ _ ih | lineComment _ _ _ ih | blockComment _ _ ih => exact ih
  | openComment => exact Trivia.not_starts_nil

end Gap

end Frontend
