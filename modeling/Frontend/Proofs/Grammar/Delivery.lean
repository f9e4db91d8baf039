import Frontend.Parser.Outcome
import Frontend.Proofs.Grammar.Derivation

/-!
# What readers deliver

A reader delivers if its value is good where it stopped, or else if a diagnostic shows near the
place where it stopped.  In both cases it has moved on over the tokens of its text.  One lemma for
each way of putting readers together says how they deliver, so that a reader of the grammar is
followed step by step and faults need no case of their own.
-/

namespace Frontend

open Grammar

namespace Cursor

@[simp]
theorem spanFrom_start (cursor : Cursor) (start : Nat) : (cursor.spanFrom start).start = start :=
  rfl

@[simp]
theorem identifier_eq_nameOf (cursor : Cursor) : cursor.identifier = nameOf cursor.current := rfl

/-- One cursor moves on to another over the same tokens, as `next_token` of `Parser` does any number
of times. -/
structure Leads (start stop : Cursor) : Prop where
  suffix : stop.pending <:+ start.pending
  stop_eq : stop.stop = start.stop

namespace Leads

theorem refl (cursor : Cursor) : cursor.Leads cursor := ⟨List.suffix_rfl, rfl⟩

theorem trans {first second third : Cursor} (hfirst : first.Leads second)
    (hsecond : second.Leads third) : first.Leads third :=
  ⟨hsecond.suffix.trans hfirst.suffix, hsecond.stop_eq.trans hfirst.stop_eq⟩

theorem advance (cursor : Cursor) : cursor.Leads cursor.advance :=
  ⟨List.tail_suffix _, rfl⟩

end Leads

/-- The tokens from the one that a cursor stands on through the one that another stands on, which
are what was consumed on the way. -/
structure Through (start : Cursor) (tokens : List Token) (stop : Cursor) : Prop where
  pending : start.pending = tokens ++ stop.pending.tail
  last : tokens.getLast? = some stop.current
  stop_eq : stop.stop = start.stop

/-- A cursor that stands on a token. -/
theorem through_current {cursor : Cursor} (hcurrent : cursor.current.kind ≠ .eof) :
    cursor.Through [cursor.current] cursor := by
  obtain ⟨_ | ⟨token, tokens⟩, stop⟩ := cursor
  · exact absurd rfl hcurrent
  · exact ⟨rfl, rfl, rfl⟩

theorem through_next {cursor : Cursor} (hnext : cursor.next.kind ≠ .eof) :
    cursor.advance.Through [cursor.next] cursor.advance :=
  through_current hnext

namespace Through

variable {start middle stop : Cursor} {tokens later : List Token}

theorem ne_nil (hthrough : start.Through tokens stop) : tokens ≠ [] := by
  rintro rfl
  simpa using hthrough.last

theorem head (hthrough : start.Through tokens stop) : tokens.head? = some start.current := by
  have hsome := hthrough.ne_nil
  cases tokens with
  | nil => contradiction
  | cons token tokens => simp [current, hthrough.pending]

theorem prepend {front : List Token} (hpending : start.pending = front ++ middle.advance.pending)
    (hstop : middle.stop = start.stop) (hrest : middle.advance.Through tokens stop) :
    start.Through (front ++ tokens) stop := by
  refine ⟨?_, ?_, hrest.stop_eq.trans hstop⟩
  · rw [hpending, hrest.pending, List.append_assoc]
  · rw [List.getLast?_append, hrest.last]
    rfl

/-- Reading that goes on at the next token. -/
theorem append (hfirst : start.Through tokens middle)
    (hsecond : middle.advance.Through later stop) : start.Through (tokens ++ later) stop :=
  hsecond.prepend hfirst.pending hfirst.stop_eq

theorem concat (hthrough : start.Through tokens stop) (hnext : stop.next.kind ≠ .eof) :
    start.Through (tokens ++ [stop.next]) stop.advance :=
  hthrough.append (through_next hnext)

theorem spanOver_eq (hthrough : start.Through tokens stop) :
    spanOver tokens = stop.spanFrom start.current.span.start :=
  Grammar.spanOver_eq hthrough.head hthrough.last

/-- The token after which reading goes on is the first of the tokens that follow. -/
theorem headD_eq_current {closer : Token} (hthrough : start.Through (tokens ++ [closer]) stop) :
    tokens.headD closer = start.current := by
  have hhead := hthrough.head
  cases tokens <;> simpa using hhead

end Through

end Cursor

/-- A diagnostic shows at the token that the cursor stands on or at the one after it.  A fault is
noted by `current_error` or by `peek_error`, and these are the tokens at which they do. -/
def Anchored (cursor : Cursor) (diagnostics : List Diagnostic) : Prop :=
  ShowsAt diagnostics cursor.current ∨ ShowsAt diagnostics cursor.next

theorem Anchored.append_left {cursor : Cursor} {diagnostics : List Diagnostic}
    (earlier : List Diagnostic) (hanchored : Anchored cursor diagnostics) :
    Anchored cursor (earlier ++ diagnostics) :=
  hanchored.imp (ShowsAt.mono (List.subset_append_right _ _))
    (ShowsAt.mono (List.subset_append_right _ _))

theorem Anchored.ne_nil {cursor : Cursor} {diagnostics : List Diagnostic}
    (hanchored : Anchored cursor diagnostics) : diagnostics ≠ [] :=
  hanchored.elim ShowsAt.ne_nil ShowsAt.ne_nil

/-- The tokens over which a cursor was moved on until a fault are abandoned.  The loop over
statements goes on behind the last of them. -/
theorem Anchored.abandoned {start stop : Cursor} {diagnostics : List Diagnostic}
    (hanchored : Anchored stop diagnostics) (hleads : start.Leads stop)
    (hstart : start.current.kind ≠ .eof) :
    ∃ tokens, start.pending = tokens ++ stop.advance.pending ∧
      Abandoned tokens stop.next diagnostics := by
  obtain ⟨front, hpending⟩ := hleads.suffix
  obtain ⟨_ | ⟨token, tokens⟩, offset⟩ := stop
  · -- The end token is both the current and the next one, so some token before it is the last.
    have hsome : start.pending ≠ [] := by
      rintro hnil
      obtain ⟨pending, offset⟩ := start
      subst hnil
      exact hstart rfl
    refine ⟨start.pending, (List.append_nil _).symm, start.pending.dropLast,
      start.pending.getLast hsome, (List.dropLast_concat_getLast hsome).symm, .inr ?_⟩
    exact hanchored.elim id id
  · exact ⟨front ++ [token], by simpa [Cursor.advance] using hpending.symm, front, token, rfl,
      hanchored⟩

namespace Outcome

variable {α β : Type} {cursor : Cursor}

/-- The value is good where reading stopped, or a diagnostic shows there.  This is the form of what
is said about each reader. -/
structure Delivers (outcome : Outcome cursor α) (good : α → Cursor → List Diagnostic → Prop) :
    Prop where
  leads : cursor.Leads outcome.stop
  value : ∀ value, outcome.value = some value → good value outcome.stop outcome.diagnostics
  fault : outcome.value = none → Anchored outcome.stop outcome.diagnostics

variable {good : α → Cursor → List Diagnostic → Prop}

namespace Delivers

theorem done {value : α} (hgood : good value cursor []) :
    (Outcome.done cursor value).Delivers good where
  leads := .refl cursor
  value _ heq := Option.some.inj heq ▸ hgood
  fault hnone := by cases hnone

theorem faultHere {problem : Problem} :
    (cursor.faultHere problem : Outcome cursor α).Delivers good where
  leads := .refl cursor
  value _ heq := by cases heq
  fault _ := .inl ⟨_, List.mem_singleton_self _, rfl⟩

theorem faultNext {problem : Problem} :
    (cursor.faultNext problem : Outcome cursor α).Delivers good where
  leads := .refl cursor
  value _ heq := by cases heq
  fault _ := .inr ⟨_, List.mem_singleton_self _, rfl⟩

theorem afterAdvance {outcome : Outcome cursor.advance α} (hdelivers : outcome.Delivers good) :
    (Outcome.afterAdvance outcome).Delivers good :=
  ⟨(Cursor.Leads.advance cursor).trans hdelivers.leads, hdelivers.value, hdelivers.fault⟩

theorem asStatement {outcome : Outcome cursor α} (hdelivers : outcome.Delivers good) :
    (Outcome.asStatement outcome).Delivers good :=
  ⟨hdelivers.leads, hdelivers.value, hdelivers.fault⟩

theorem orNote {outcome : Outcome cursor α} {problem : Problem}
    (hdelivers : outcome.Delivers good) : (outcome.orNote problem).Delivers good := by
  unfold Outcome.orNote
  split
  · exact hdelivers
  · next hnone =>
      refine ⟨hdelivers.leads, fun value hvalue => ?_, fun _ => ?_⟩
      · rw [hnone] at hvalue
        cases hvalue
      · exact .inl ⟨_, List.mem_append_right _ (List.mem_singleton_self _), rfl⟩

/-- Reading on after a part that has a value.  If the part has none, its fault is the fault of the
whole. -/
theorem andThen {first : Outcome cursor α}
    {rest : α → (next : Cursor) → next.size ≤ cursor.size → Outcome next β}
    {result : β → Cursor → List Diagnostic → Prop} (hfirst : first.Delivers good)
    (hrest : ∀ value next diagnostics (hsize : next.size ≤ cursor.size),
      good value next diagnostics →
        (rest value next hsize).Delivers fun last stop later =>
          result last stop (diagnostics ++ later)) :
    (first.andThen rest).Delivers result := by
  unfold Outcome.andThen
  split
  · next value hvalue =>
      have hlater := hrest value first.stop first.diagnostics first.size_le
        (hfirst.value value hvalue)
      exact ⟨hfirst.leads.trans hlater.leads, hlater.value,
        fun hnone => (hlater.fault hnone).append_left _⟩
  · next hnone =>
      refine ⟨hfirst.leads, fun value hvalue => ?_, fun _ => hfirst.fault hnone⟩
      cases hvalue

section KnownFirst

variable {value : α} {rest : α → (next : Cursor) → next.size ≤ cursor.size → Outcome next β}
variable {result : β → Cursor → List Diagnostic → Prop}

theorem doneThen (hrest : (rest value cursor (Nat.le_refl _)).Delivers result) :
    ((Outcome.done cursor value).andThen rest).Delivers result :=
  ⟨hrest.leads, hrest.value, hrest.fault⟩

theorem advanceThen (hrest : ∀ hsize, (rest value cursor.advance hsize).Delivers result) :
    ((Outcome.afterAdvance (.done cursor.advance value)).andThen rest).Delivers result :=
  have hlater := hrest (by simp)
  ⟨(Cursor.Leads.advance cursor).trans hlater.leads, hlater.value, hlater.fault⟩

theorem faultNextThen {problem : Problem} :
    ((cursor.faultNext problem).andThen rest).Delivers result where
  leads := .refl cursor
  value _ heq := by cases heq
  fault _ := .inr ⟨_, List.mem_singleton_self _, rfl⟩

end KnownFirst

/-- Reading on after a part whether or not it has a value.  Both cases come to the same place. -/
theorem regardless {first : Outcome cursor α}
    {rest : Option α → (next : Cursor) → next.size ≤ cursor.size → Outcome next β}
    {result : β → Cursor → List Diagnostic → Prop} (hfirst : first.Delivers good)
    (hsome : ∀ value next diagnostics (hsize : next.size ≤ cursor.size),
      good value next diagnostics →
        (rest (some value) next hsize).Delivers fun last stop later =>
          result last stop (diagnostics ++ later))
    (hnone : ∀ next diagnostics (hsize : next.size ≤ cursor.size),
      cursor.Leads next → Anchored next diagnostics →
        (rest none next hsize).Delivers fun last stop later =>
          result last stop (diagnostics ++ later)) :
    (first.regardless rest).Delivers result := by
  have hlater : (rest first.value first.stop first.size_le).Delivers fun last stop later =>
      result last stop (first.diagnostics ++ later) := by
    cases hvalue : first.value with
    | some value => exact hsome _ _ _ _ (hfirst.value value hvalue)
    | none => exact hnone _ _ _ hfirst.leads (hfirst.fault hvalue)
  exact ⟨hfirst.leads.trans hlater.leads, hlater.value,
    fun hfault => (hlater.fault hfault).append_left _⟩

/-- Reading on after a token of a given kind. -/
theorem expectThen {kind : Kind} {what : Expectation}
    {rest : Unit → (next : Cursor) → next.size ≤ cursor.size → Outcome next β}
    {result : β → Cursor → List Diagnostic → Prop}
    (hrest : ∀ hsize : cursor.advance.size ≤ cursor.size, cursor.next.kind = kind →
      (rest () cursor.advance hsize).Delivers result) :
    ((cursor.expect kind what).andThen rest).Delivers result := by
  have hexpect : (cursor.expect kind what).Delivers fun _ stop diagnostics =>
      stop = cursor.advance ∧ cursor.next.kind = kind ∧ diagnostics = [] := by
    unfold Cursor.expect
    split
    · next hkind => exact .afterAdvance (.done ⟨rfl, hkind, rfl⟩)
    · exact .faultNext
  refine hexpect.andThen fun _ next diagnostics hsize hnext => ?_
  obtain ⟨rfl, hkind, rfl⟩ := hnext
  exact hrest hsize hkind

end Delivers

end Outcome

end Frontend
