import Frontend.Proofs.Grammar.BlockDepth
import Frontend.Proofs.Tree.Height

/-!
# How high expressions grow

The bound on open expressions bounds how many expressions lie inside one another if those at the
front of others are left out.  These are not bounded: a reader that extends an operand to the right
opens nothing for what it has read so far, and so a sum of any length is read at one level, though
each of its operators puts all that stands before it one step further down.
-/

namespace Frontend

/-- A sum of ones, in which each operator has the sum before it as its left operand.  Its height
grows with every one, while its nesting does not. -/
def sumOfOnes : Nat → Expression
  | 0 => .integer (.empty 0) 1
  | further + 1 => .binary (.empty 0) (sumOfOnes further) .add (.integer (.empty 0) 1)

theorem spells_one : Spells (.expression (.integer (.empty 0) 1)) [⟨.int, "1"⟩] :=
  .integer ⟨by decide, List.all_eq_true.mp rfl⟩ rfl

theorem sumOfOnes_spells (further : Nat) :
    ∃ words, Spells (.expression (sumOfOnes further)) words := by
  induction further with
  | zero => exact ⟨_, spells_one⟩
  | succ further ih =>
      obtain ⟨words, hwords⟩ := ih
      exact ⟨_, .binary hwords spells_one⟩

/-- A sum holds its left operand as tightly as a sum is held. -/
theorem sumOfOnes_wellFormed (further : Nat) :
    .sum ≤ (sumOfOnes further).tightness ∧ (sumOfOnes further).WellFormed none := by
  have hone : (Expression.integer (.empty 0) 1).WellFormed none := ⟨by decide, by decide⟩
  induction further with
  | zero => exact ⟨by decide, hone⟩
  | succ further ih =>
      obtain ⟨htight, hformed⟩ := ih
      exact ⟨Nat.le_refl _, htight, by decide, hformed, hone⟩

theorem sumOfOnes_startsWithFunction (further : Nat) :
    (sumOfOnes further).startsWithFunction = false := by
  induction further with
  | zero => rfl
  | succ further ih => exact ih

/-- Only the ones on the right take a level. -/
theorem sumOfOnes_nesting (further : Nat) : (sumOfOnes further).nesting ≤ 2 := by
  induction further with
  | zero => exact Nat.le_succ 1
  | succ further ih => exact Nat.max_le.mpr ⟨ih, Nat.le_refl 2⟩

/-- Each operator of the sum adds to its height, wherever the sum is read.  Spans make no difference
to this. -/
theorem lt_height_of_like_sumOfOnes (further : Nat) {value : Expression} (front : Bool)
    (hlike : value.mapSpans nowhere = (sumOfOnes further).mapSpans nowhere) :
    further < (value.nest front).height := by
  induction further generalizing value front with
  | zero => exact Nat.succ_pos _
  | succ further ih =>
      cases value with
      | binary _ left _ right =>
          obtain ⟨-, hleft, -, -⟩ := Expression.binary.inj hlike
          exact Nat.lt_of_le_of_lt (ih true hleft)
            (Nest.height_lt_of_mem_inside List.mem_cons_self)
      | _ => cases hlike

/-- The sum as the only statement of a text. -/
theorem exists_text_of_sumOfOnes (further : Nat) :
    ∃ source, (readProgram source).diagnostics = [] ∧
      SameUpToSpans (readProgram source).program.statements
        [.expression (sumOfOnes further) (.empty 0)] := by
  obtain ⟨words, hwords⟩ := sumOfOnes_spells further
  have hformed : (Statement.expression (sumOfOnes further) (.empty 0)).WellFormed none :=
    ⟨sumOfOnes_startsWithFunction further, (sumOfOnes_wellFormed further).2⟩
  have hnesting : nestingOfStatements [.expression (sumOfOnes further) (.empty 0)] ≤ maxNesting :=
    Nat.max_le.mpr ⟨Nat.le_trans (sumOfOnes_nesting further) (by decide), Nat.zero_le _⟩
  exact Grammar.exists_text_of_spells ⟨hformed, trivial⟩ hnesting
    (.statement (.expression hwords) .noStatements)

/-- There is no bound on the height of what is read, not even where nothing is wrong.  The text is a
sum that is as long as it has to be. -/
theorem exists_text_of_height (bound : Nat) :
    ∃ source program, (∀ strict, parse source strict = .ok (program, [])) ∧
      ∃ part ∈ expressionsIn program.statements, bound < part.height := by
  obtain ⟨source, hquiet, hlike⟩ := exists_text_of_sumOfOnes bound
  have hparse : ∀ strict, parse source strict = .ok ((readProgram source).program, []) := by
    intro strict
    simp [parse, hquiet, messages, verdict, Except.map]
  obtain ⟨read, hread, hspans⟩ := List.map_eq_singleton_iff.mp hlike
  refine ⟨source, _, hparse, ?_⟩
  rw [hread]
  cases read with
  | expression value _ =>
      obtain ⟨hvalue, -⟩ := Statement.expression.inj hspans
      refine ⟨value.nest false, Nest.mem_partsOf List.mem_cons_self, ?_⟩
      exact lt_height_of_like_sumOfOnes bound false hvalue
  | _ => cases hspans

/-- At most as many expressions lie inside one another as may be open at a time, if those at the
front of others are left out.  The height of an expression is what these add to that. -/
theorem parse_height {source : String} {strict : Bool} {program : Program} {errors : List String}
    (hparse : parse source strict = .ok (program, errors)) :
    ∀ part ∈ expressionsIn program.statements,
      part.levels ≤ maxNesting ∧ part.fronts < part.height ∧
        part.height ≤ maxNesting + part.fronts := by
  obtain ⟨rfl, -⟩ := parse_eq_ok hparse
  obtain ⟨-, hnesting⟩ := (Grammar.readProgram_derives source).inImage (Lexer.tokens_lexed _)
  intro part hpart
  have hlevels : part.levels ≤ maxNesting := Nat.le_trans (levels_le_nesting hpart) hnesting
  exact ⟨hlevels, part.fronts_lt_height,
    Nat.le_trans part.height_le (Nat.add_le_add_right hlevels part.fronts)⟩

/-- The sum of three ones: the sum of the first two stands at the front of it, and in that the first
one alone. -/
def sumOfThree : Nest := .node false [.node true [.node true [], .node false []], .node false []]

/-- Three expressions lie inside one another, of which two stand at the front. -/
theorem parse_height_sumOfThree :
    parse "1 + 1 + 1" false = .ok ((readProgram "1 + 1 + 1").program, []) ∧
      sumOfThree ∈ expressionsIn (readProgram "1 + 1 + 1").program.statements ∧
      sumOfThree.levels = 2 ∧ sumOfThree.fronts = 2 ∧ sumOfThree.height = 3 ∧
      sumOfThree.levels ≤ maxNesting ∧ sumOfThree.fronts < sumOfThree.height ∧
      sumOfThree.height ≤ maxNesting + sumOfThree.fronts :=
  have hquiet : (readProgram "1 + 1 + 1").diagnostics = [] := by decide +kernel
  have hparse := parse_of_diagnostics hquiet
  have hstatements : (readProgram "1 + 1 + 1").program.statements =
      [.expression
        (.binary ⟨0, 9⟩ (.binary ⟨0, 5⟩ (.integer ⟨0, 1⟩ 1) .add (.integer ⟨4, 5⟩ 1)) .add
          (.integer ⟨8, 9⟩ 1))
        ⟨0, 9⟩] := by with_unfolding_all rfl
  have hnests : nestsOfStatements (readProgram "1 + 1 + 1").program.statements = [sumOfThree] := by
    rw [hstatements]
    rfl
  have hpart : sumOfThree ∈ expressionsIn (readProgram "1 + 1 + 1").program.statements :=
    Nest.mem_partsOf (hnests ▸ List.mem_cons_self)
  ⟨hparse, hpart, rfl, rfl, rfl, parse_height hparse sumOfThree hpart⟩

/-- The height itself is not bounded by the number of expressions that may be open at a time, and by
no other number either: there is a text without any fault that is read as a higher expression. -/
theorem parse_height_unbounded :
    (¬ ∀ source program errors, parse source false = .ok (program, errors) →
        ∀ part ∈ expressionsIn program.statements, part.height ≤ maxNesting) ∧
      ∀ bound, ∃ source program, (∀ strict, parse source strict = .ok (program, [])) ∧
        ∃ part ∈ expressionsIn program.statements, bound < part.height := by
  refine ⟨fun hbound => ?_, exists_text_of_height⟩
  obtain ⟨source, program, hparse, part, hpart, hhigh⟩ := exists_text_of_height maxNesting
  exact Nat.not_lt.mpr (hbound source program [] (hparse false) part hpart) hhigh

end Frontend
