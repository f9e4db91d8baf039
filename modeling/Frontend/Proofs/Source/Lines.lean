import Frontend.Proofs.Checked.Report
import Frontend.Text.Pieces
import Mathlib.Data.List.DropRight

/-!
# Lines and places

A text is cut into lines at its line feeds, so it is made of lines that a line feed ends and of one
more that none ends, which may be empty.  A cut of the text falls into one of these lines.  The
place at the cut is the number of this line and a column in it, and the text before the cut can be
put together again from both.  The line can also be looked up by its number, unless it is the last
one and empty.
-/

namespace Frontend

/-- Lines, each with the line feed that ends it. -/
def ended (lines : List (List Char)) : List Char := lines.flatMap fun line => line ++ ['\n']

@[simp]
theorem ended_nil : ended [] = [] := rfl

@[simp]
theorem ended_cons (line : List Char) (lines : List (List Char)) :
    ended (line :: lines) = line ++ '\n' :: ended lines := by
  simp [ended]

/-- A text of ended lines ends in a line feed. -/
theorem ended_eq_nil_or_concat (lines : List (List Char)) :
    ended lines = [] ∨ ∃ front, ended lines = front ++ ['\n'] := by
  rcases List.eq_nil_or_concat lines with rfl | ⟨front, line, rfl⟩
  · exact .inl rfl
  · exact .inr ⟨ended front ++ line, by simp [ended]⟩

theorem count_ended {lines : List (List Char)} (hlines : ∀ line ∈ lines, '\n' ∉ line) :
    (ended lines).count '\n' = lines.length := by
  induction lines with
  | nil => rfl
  | cons line lines ih =>
      obtain ⟨hline, hrest⟩ := List.forall_mem_cons.mp hlines
      rw [ended_cons, List.count_append, List.count_cons_self, List.count_eq_zero_of_not_mem hline,
        ih hrest, Nat.zero_add, List.length_cons]

/-- Every text is made of ended lines and one more. -/
theorem exists_ended (text : List Char) :
    ∃ lines last, text = ended lines ++ last ∧ (∀ line ∈ lines, '\n' ∉ line) ∧ '\n' ∉ last := by
  induction text with
  | nil => exact ⟨[], [], rfl, List.forall_mem_nil _, List.not_mem_nil⟩
  | cons c text ih =>
      obtain ⟨lines, last, rfl, hlines, hlast⟩ := ih
      by_cases hfeed : c = '\n'
      · exact ⟨[] :: lines, last, by rw [hfeed]; rfl,
          List.forall_mem_cons.mpr ⟨List.not_mem_nil, hlines⟩, hlast⟩
      · cases lines with
        | nil => exact ⟨[], c :: last, rfl, hlines, by simp [hlast, Ne.symm hfeed]⟩
        | cons line lines =>
            obtain ⟨hline, hrest⟩ := List.forall_mem_cons.mp hlines
            exact ⟨(c :: line) :: lines, last, by simp,
              List.forall_mem_cons.mpr ⟨by simp [hline, Ne.symm hfeed], hrest⟩, hlast⟩

section

variable {line : List Char}

theorem pieces_line {separator : Char} (hline : separator ∉ line) (rest : List Char) :
    pieces separator (line ++ separator :: rest) = line :: pieces separator rest := by
  induction line with
  | nil => simp [pieces]
  | cons c line ih =>
      obtain ⟨hc, hrest⟩ := List.ne_and_not_mem_of_not_mem_cons hline
      rw [List.cons_append, pieces, if_neg (Ne.symm hc), ih hrest]

theorem pieces_of_not_mem {separator : Char} (hline : separator ∉ line) :
    pieces separator line = [line] := by
  induction line with
  | nil => rfl
  | cons c line ih =>
      obtain ⟨hc, hrest⟩ := List.ne_and_not_mem_of_not_mem_cons hline
      rw [pieces, if_neg (Ne.symm hc), ih hrest]

theorem pieces_ended {lines : List (List Char)} (hlines : ∀ line ∈ lines, '\n' ∉ line)
    (rest : List Char) : pieces '\n' (ended lines ++ rest) = lines ++ pieces '\n' rest := by
  induction lines with
  | nil => rfl
  | cons line lines ih =>
      obtain ⟨hline, hrest⟩ := List.forall_mem_cons.mp hlines
      rw [ended_cons, List.append_assoc, List.cons_append, pieces_line hline, ih hrest,
        List.cons_append]

theorem textLines_line (hline : '\n' ∉ line) (rest : List Char) :
    textLines (line ++ '\n' :: rest) = line :: textLines rest := by
  induction line with
  | nil => simp [textLines]
  | cons c line ih =>
      obtain ⟨hc, hrest⟩ := List.ne_and_not_mem_of_not_mem_cons hline
      rw [List.cons_append, textLines, if_neg (Ne.symm hc), ih hrest]

/-- What no line feed ends is a line unless it is empty. -/
theorem textLines_of_not_mem (hline : '\n' ∉ line) :
    textLines line = if line = [] then [] else [line] := by
  induction line with
  | nil => rfl
  | cons c line ih =>
      obtain ⟨hc, hrest⟩ := List.ne_and_not_mem_of_not_mem_cons hline
      rw [textLines, if_neg (Ne.symm hc), ih hrest, if_neg (List.cons_ne_nil c line)]
      cases line with
      | nil => rfl
      | cons c' line => rfl

theorem textLines_ended {lines : List (List Char)} (hlines : ∀ line ∈ lines, '\n' ∉ line)
    (rest : List Char) : textLines (ended lines ++ rest) = lines ++ textLines rest := by
  induction lines with
  | nil => rfl
  | cons line lines ih =>
      obtain ⟨hline, hrest⟩ := List.forall_mem_cons.mp hlines
      rw [ended_cons, List.append_assoc, List.cons_append, textLines_line hline, ih hrest,
        List.cons_append]

/-- Nothing but carriage returns is dropped from the end of a line, and all that are there. -/
theorem dropReturns_spec (line : List Char) :
    (∃ returns, line = dropReturns line ++ List.replicate returns '\r') ∧
      (dropReturns line).getLast? ≠ some '\r' := by
  have hdrop : dropReturns line = line.rdropWhile (· = '\r') := rfl
  rw [hdrop]
  constructor
  · refine ⟨(line.rtakeWhile (· = '\r')).length, ?_⟩
    have hreturns : ∀ c ∈ line.rtakeWhile (· = '\r'), c = '\r' := fun c hmember => by
      simpa using List.mem_rtakeWhile_imp hmember
    rw [← List.eq_replicate_length.mpr hreturns]
    exact List.rdropWhile_append_rtakeWhile.symm
  · intro hlast
    have hsome : line.rdropWhile (· = '\r') ≠ [] := by
      rintro hempty
      rw [hempty] at hlast
      cases hlast
    rw [List.getLast?_eq_some_getLast hsome] at hlast
    exact List.rdropWhile_last_not _ _ hsome (decide_eq_true (Option.some.inj hlast))

end

/-! ## Cuts in lines -/

/-- A text that is cut inside a line: the lines that are ended before it, the line in two parts, and
what comes after it, which starts with its line feed if it has one.  Every text can be cut like that
at every offset between two characters. -/
structure LineCut where
  lines : List (List Char)
  left : List Char
  right : List Char
  back : List Char
  feed_not_mem_lines : ∀ line ∈ lines, '\n' ∉ line
  feed_not_mem_left : '\n' ∉ left
  feed_not_mem_right : '\n' ∉ right
  back_start : back = [] ∨ ∃ later, back = '\n' :: later

namespace LineCut

/-- The text before the cut, the lines that are ended and what the line has of it. -/
def before (cut : LineCut) : List Char := ended cut.lines ++ cut.left

def after (cut : LineCut) : List Char := cut.right ++ cut.back

/-- The whole text. -/
def text (cut : LineCut) : List Char := cut.before ++ cut.after

/-- The line with the cut. -/
def line (cut : LineCut) : List Char := cut.left ++ cut.right

/-- Wherever a text is cut, the cut is inside a line.  With that all questions about offsets are
asked of lines. -/
theorem exists_of_cut (before after : List Char) :
    ∃ cut : LineCut, cut.before = before ∧ cut.after = after := by
  obtain ⟨lines, left, rfl, hlines, hleft⟩ := exists_ended before
  obtain ⟨later, last, rfl, hlater, hlast⟩ := exists_ended after
  cases later with
  | nil =>
      exact ⟨⟨lines, left, last, [], hlines, hleft, hlast, .inl rfl⟩, rfl, List.append_nil last⟩
  | cons right later =>
      have hright := hlater right List.mem_cons_self
      refine ⟨⟨lines, left, right, '\n' :: (ended later ++ last), hlines, hleft, hright,
        .inr ⟨_, rfl⟩⟩, rfl, ?_⟩
      rw [after, ended_cons, List.append_assoc, List.cons_append]

variable (cut : LineCut)

theorem text_eq : cut.text = ended cut.lines ++ (cut.line ++ cut.back) := by
  simp only [text, before, after, line, List.append_assoc]

theorem feed_not_mem_line : '\n' ∉ cut.line := by
  rw [line, List.mem_append]
  exact fun hfeed => hfeed.elim cut.feed_not_mem_left cut.feed_not_mem_right

/-- The place at the cut is given by the lines before it and the part of its line before it.
Nothing after the cut matters. -/
theorem position : Position.after cut.before = ⟨cut.lines.length + 1, cut.left.length + 1⟩ := by
  have hline : cut.before.count '\n' = cut.lines.length := by
    rw [before, List.count_append, count_ended cut.feed_not_mem_lines,
      List.count_eq_zero_of_not_mem cut.feed_not_mem_left, Nat.add_zero]
  have hleft : ∀ c ∈ cut.left.reverse, decide (c ≠ '\n') = true := fun c hmember =>
    decide_eq_true fun hfeed => cut.feed_not_mem_left (hfeed ▸ List.mem_reverse.mp hmember)
  have hstart : (ended cut.lines).reverse.takeWhile (· ≠ '\n') = [] := by
    rcases ended_eq_nil_or_concat cut.lines with hempty | ⟨front, hfront⟩
    · rw [hempty]
      rfl
    · rw [hfront, List.reverse_append]
      rfl
  rw [Position.after, hline, before, List.reverse_append, List.takeWhile_append_of_pos hleft,
    hstart, List.append_nil, List.length_reverse]

/-- The line with the cut has its place among the lines of the text. -/
theorem pieces_text :
    ∃ later, pieces '\n' cut.text = cut.lines ++ cut.line :: later := by
  rw [text_eq, pieces_ended cut.feed_not_mem_lines]
  rcases cut.back_start with hback | ⟨later, hback⟩
  · rw [hback, List.append_nil, pieces_of_not_mem cut.feed_not_mem_line]
    exact ⟨[], rfl⟩
  · rw [hback, pieces_line cut.feed_not_mem_line]
    exact ⟨pieces '\n' later, rfl⟩

/-- The line with the cut is looked up by its number. -/
theorem lineText?_text :
    lineText? cut.text (cut.lines.length + 1) =
      if cut.line = [] ∧ cut.back = [] then none else some (dropReturns cut.line) := by
  rw [text_eq, lineText?, textLines_ended cut.feed_not_mem_lines,
    List.getElem?_append_right (Nat.le_refl _), Nat.sub_self]
  rcases cut.back_start with hback | ⟨later, hback⟩
  · rw [hback, List.append_nil, textLines_of_not_mem cut.feed_not_mem_line]
    by_cases hempty : cut.line = [] <;> simp [hempty]
  · rw [hback, textLines_line cut.feed_not_mem_line]
    simp

/-- The line with the cut is the last one and empty just if the cut is at the end of the text and no
line goes on there. -/
theorem line_eq_nil_iff :
    cut.line = [] ∧ cut.back = [] ↔
      cut.after = [] ∧ (cut.text = [] ∨ cut.text.getLast? = some '\n') := by
  rw [after, List.append_eq_nil_iff, line, List.append_eq_nil_iff]
  constructor
  · rintro ⟨⟨hleft, hright⟩, hback⟩
    refine ⟨⟨hright, hback⟩, ?_⟩
    have htext : cut.text = ended cut.lines := by
      rw [text_eq, line, hleft, hright, hback, List.append_nil, List.append_nil, List.append_nil]
    rw [htext]
    rcases ended_eq_nil_or_concat cut.lines with hempty | ⟨front, hfront⟩
    · exact .inl hempty
    · rw [hfront]
      exact .inr List.getLast?_concat
  · rintro ⟨⟨hright, hback⟩, hend⟩
    refine ⟨⟨?_, hright⟩, hback⟩
    rw [text_eq, line, hright, hback, List.append_nil, List.append_nil] at hend
    rcases List.eq_nil_or_concat cut.left with hleft | ⟨front, c, hleft⟩
    · exact hleft
    · -- The last character of the line would be the line feed.
      have hfeed := cut.feed_not_mem_left
      rw [hleft] at hend hfeed
      simp at hend hfeed
      exact absurd hend.symm hfeed.2

end LineCut

/-! ## Places -/

/-- One place comes before another: on an earlier line, or in an earlier column of the same one.
This is the order in which a reader comes across them. -/
def Position.Before (first second : Position) : Prop :=
  first.line < second.line ∨ first.line = second.line ∧ first.column < second.column

namespace Position

variable {front inside : List Char}

/-- With a line feed the place moves on to a later line. -/
theorem line_lt_of_mem (hfeed : '\n' ∈ inside) :
    (after front).line < (after (front ++ inside)).line := by
  have hcount := List.count_pos_iff.mpr hfeed
  simp only [after, List.count_append]
  omega

/-- Without a line feed it stays on its line and moves on by one column with each character. -/
theorem after_append_of_not_mem (hfeed : '\n' ∉ inside) :
    after (front ++ inside) = ⟨(after front).line, (after front).column + inside.length⟩ := by
  have hall : ∀ c ∈ inside.reverse, decide (c ≠ '\n') = true := fun c hmember =>
    decide_eq_true fun hc => hfeed (hc ▸ List.mem_reverse.mp hmember)
  simp only [after, List.count_append, List.count_eq_zero_of_not_mem hfeed, Nat.add_zero,
    List.reverse_append, List.takeWhile_append_of_pos hall, List.length_append,
    List.length_reverse, Nat.add_comm inside.length, Nat.add_right_comm]

theorem before_append (hinside : inside ≠ []) (front : List Char) :
    (after front).Before (after (front ++ inside)) := by
  by_cases hfeed : '\n' ∈ inside
  · exact .inl (line_lt_of_mem hfeed)
  · have hlength := List.length_pos_iff.mpr hinside
    rw [after_append_of_not_mem hfeed]
    exact .inr ⟨rfl, Nat.lt_add_of_pos_right hlength⟩

end Position

/-- Of two cuts of a text the one with the smaller offset is in front. -/
theorem IsCut.between {text : List Char} {offset offset' : Nat} (hcut : IsCut text offset)
    (hcut' : IsCut text offset') (hlt : offset < offset') :
    ∃ front inside back, text = front ++ inside ++ back ∧ inside ≠ [] ∧
      offset = byteLength front ∧ offset' = byteLength (front ++ inside) := by
  obtain ⟨front, rest, rfl, rfl⟩ := hcut
  obtain ⟨front', back, hsplit, rfl⟩ := hcut'
  rcases List.append_eq_append_iff.mp hsplit with ⟨inside, rfl, rfl⟩ | ⟨inside, rfl, rfl⟩
  · refine ⟨front, inside, back, (List.append_assoc _ _ _).symm, ?_, rfl, rfl⟩
    rintro rfl
    rw [List.append_nil] at hlt
    exact Nat.lt_irrefl _ hlt
  · rw [byteLength_append] at hlt
    omega

namespace Source

variable (source : Source)

theorem position?_of_append {before after : List Char}
    (htext : source.text.toList = before ++ after) :
    source.position? (byteLength before) = some (.after before) := by
  rw [position?, htext, positionAt?_append]

theorem position?_of_le {offset : Nat} (hpast : byteLength source.text.toList ≤ offset) :
    source.position? offset = source.position? (byteLength source.text.toList) := by
  rw [position?, position?, positionAt?, positionAt?, Nat.min_eq_right hpast, Nat.min_self]

/-- The line of a cut can be looked up unless no line is left open at the end of the text.  A line
feed at the end opens none. -/
theorem line?_eq_none_iff {before after : List Char}
    (htext : source.text.toList = before ++ after) :
    source.line? (Position.after before).line = none ↔
      after = [] ∧ (source.text.toList = [] ∨ source.text.toList.getLast? = some '\n') := by
  obtain ⟨cut, rfl, rfl⟩ := LineCut.exists_of_cut before after
  change source.text.toList = cut.text at htext
  rw [line?, cut.position, htext, cut.lineText?_text, ← cut.line_eq_nil_iff]
  simp

/-- Further on in a text the place is further on, and past its end it stays at the end.  The text
before a place is that of the lines before its line and of the columns before its column.  Each
place is on a line that can be looked up, without the carriage returns at its end, but for the end
of a text of which no line is left open. -/
theorem positions_exact :
    (∀ offset offset', IsCut source.text.toList offset → IsCut source.text.toList offset' →
      offset < offset' → ∃ place place', source.position? offset = some place ∧
        source.position? offset' = some place' ∧ place.Before place') ∧
    (∀ offset, byteLength source.text.toList ≤ offset →
      source.position? offset = source.position? (byteLength source.text.toList)) ∧
    ∀ before after, source.text.toList = before ++ after →
      ∃ place line, source.position? (byteLength before) = some place ∧
        1 ≤ place.line ∧ 1 ≤ place.column ∧
        (pieces '\n' source.text.toList)[place.line - 1]? = some line ∧
        place.column - 1 ≤ line.length ∧
        before = ended ((pieces '\n' source.text.toList).take (place.line - 1)) ++
          line.take (place.column - 1) ∧
        (source.line? place.line = none ↔
          byteLength before = byteLength source.text.toList ∧
            (source.text.toList = [] ∨ source.text.toList.getLast? = some '\n')) ∧
        ∀ shown, source.line? place.line = some shown →
          (∃ returns, line = shown ++ List.replicate returns '\r') ∧
            shown.getLast? ≠ some '\r' := by
  refine ⟨?_, fun offset => source.position?_of_le, ?_⟩
  · intro offset offset' hcut hcut' hlt
    obtain ⟨front, inside, back, htext, hinside, rfl, rfl⟩ := hcut.between hcut' hlt
    exact ⟨Position.after front, Position.after (front ++ inside),
      source.position?_of_append (htext.trans (List.append_assoc _ _ _)),
      source.position?_of_append htext, Position.before_append hinside front⟩
  · intro before after htext
    obtain ⟨cut, rfl, rfl⟩ := LineCut.exists_of_cut before after
    obtain ⟨later, hpieces⟩ := cut.pieces_text
    have hline := cut.lineText?_text
    have hatEnd : byteLength cut.before = byteLength source.text.toList ↔ cut.after = [] := by
      rw [htext, byteLength_append, Nat.left_eq_add, byteLength_eq_zero]
    change source.text.toList = cut.text at htext
    rw [hatEnd, htext, hpieces]
    refine ⟨⟨cut.lines.length + 1, cut.left.length + 1⟩, cut.line, ?_, Nat.le_add_left 1 _,
      Nat.le_add_left 1 _, ?_, ?_, ?_, ?_, ?_⟩
    · rw [source.position?_of_append htext, cut.position]
    · simp
    · simp [LineCut.line]
    · simp [LineCut.line, LineCut.before]
    · have hnone := source.line?_eq_none_iff htext
      rwa [cut.position, htext] at hnone
    · intro shown hshown
      rw [line?, htext, hline] at hshown
      split at hshown
      · cases hshown
      · obtain rfl := Option.some.inj hshown
        exact dropReturns_spec cut.line

end Source

end Frontend
