import Frontend.Proofs.Grammar.Locality

/-!
# Where faults are noticed

A diagnostic never points between tokens: it carries the span of a token that the cursor came to,
or of the end token.  Nor does a reader notice its first fault too late.  If the same tokens stand
in two texts up to some joint, and the text on the right is read without a fault, then the first
fault on the left is one with a token past the joint; what came before it was fine on the right.

Readers start on the first token of a part or on the last one before it, and accordingly what they
find wrong is wrong with a token from the current one on or from the next one on.  There is a
theorem for each reader, and they call one another as the readers do.
-/

namespace Frontend

namespace Cursor

namespace Leads

variable {start stop : Cursor}

/-- A token on the way is one of those in front of the cursor, or the end token. -/
theorem current_mem (hleads : start.Leads stop) :
    stop.current ∈ start.pending ++ [.atEnd start.stop] := by
  obtain ⟨_ | ⟨token, tokens⟩, offset⟩ := stop
  · rw [← hleads.stop_eq]
    exact List.mem_append_right _ (List.mem_singleton_self _)
  · exact List.mem_append_left _ (hleads.suffix.subset List.mem_cons_self)

theorem size_le (hleads : start.Leads stop) : stop.size ≤ start.size :=
  hleads.suffix.length_le

theorem advance_advance (hleads : start.Leads stop) : start.advance.Leads stop.advance := by
  refine ⟨?_, hleads.stop_eq⟩
  obtain ⟨front, hfront⟩ := hleads.suffix
  rw [Cursor.advance, Cursor.advance, ← hfront]
  cases front with
  | nil => exact List.suffix_rfl
  | cons token front => exact (List.tail_suffix _).trans (List.suffix_append front _)

end Leads

/-- Every diagnostic shows at a token from the cursor on.  What is behind the cursor is not
complained about any more. -/
def Locates (start : Cursor) (diagnostics : List Diagnostic) : Prop :=
  ∀ diagnostic ∈ diagnostics, ∃ place, start.Leads place ∧
    diagnostic.span = some place.current.span

theorem Locates.nil (start : Cursor) : start.Locates [] :=
  fun _ hmember => absurd hmember List.not_mem_nil

theorem Locates.of_leads {start later : Cursor} {diagnostics : List Diagnostic}
    (hlocates : later.Locates diagnostics) (hleads : start.Leads later) :
    start.Locates diagnostics := by
  intro diagnostic hmember
  obtain ⟨place, hplace, hspan⟩ := hlocates diagnostic hmember
  exact ⟨place, hleads.trans hplace, hspan⟩

end Cursor

namespace Outcome

variable {α β : Type} {cursor start : Cursor}

/-- What is wrong is wrong with a token from `start` on, which is the current token or the next
one, and something is wrong if there is no value. -/
structure Located (outcome : Outcome cursor α) (start : Cursor) : Prop where
  near : start = cursor ∨ start = cursor.advance
  leads : cursor.Leads outcome.stop
  locates : start.Locates outcome.diagnostics
  lost : outcome.value = none → outcome.diagnostics ≠ []

namespace Located

variable {outcome : Outcome cursor α}

theorem leads_advance (hlocated : outcome.Located start) :
    start.Leads outcome.stop.advance := by
  rcases hlocated.near with rfl | rfl
  · exact hlocated.leads.trans (.advance _)
  · exact hlocated.leads.advance_advance

theorem done {value : α} (hnear : start = cursor ∨ start = cursor.advance) :
    (Outcome.done cursor value).Located start :=
  ⟨hnear, .refl cursor, .nil start, nofun⟩

theorem faultHere {problem : Problem} :
    (cursor.faultHere problem : Outcome cursor α).Located cursor :=
  ⟨.inl rfl, .refl cursor, List.forall_mem_singleton.mpr ⟨cursor, .refl cursor, rfl⟩,
    fun _ => List.cons_ne_nil _ _⟩

theorem faultNext {problem : Problem} :
    (cursor.faultNext problem : Outcome cursor α).Located cursor.advance :=
  ⟨.inr rfl, .refl cursor, List.forall_mem_singleton.mpr ⟨cursor.advance, .refl _, rfl⟩,
    fun _ => List.cons_ne_nil _ _⟩

theorem fromNext (hlocated : outcome.Located cursor.advance) : outcome.Located cursor :=
  ⟨.inl rfl, hlocated.leads, hlocated.locates.of_leads (.advance cursor), hlocated.lost⟩

theorem afterAdvance {outcome : Outcome cursor.advance α}
    (hlocated : outcome.Located cursor.advance) :
    (Outcome.afterAdvance outcome).Located cursor.advance :=
  ⟨.inr rfl, (Cursor.Leads.advance cursor).trans hlocated.leads, hlocated.locates, hlocated.lost⟩

theorem asStatement (hlocated : outcome.Located start) : outcome.asStatement.Located start :=
  ⟨hlocated.near, hlocated.leads, hlocated.locates, hlocated.lost⟩

/-- A note shows where reading stopped, which is a token that reading came to. -/
theorem orNote {problem : Problem} (hlocated : outcome.Located cursor) :
    (outcome.orNote problem).Located cursor := by
  cases hvalue : outcome.value with
  | some value => rwa [orNote_of_value hvalue]
  | none =>
      rw [orNote_of_fault hvalue]
      exact ⟨.inl rfl, hlocated.leads, List.forall_mem_append.mpr ⟨hlocated.locates,
        List.forall_mem_singleton.mpr ⟨outcome.stop, hlocated.leads, rfl⟩⟩, by simp⟩

theorem followedBy {rest : Outcome outcome.stop β} (hlocated : outcome.Located start)
    (hrest : rest.Located outcome.stop.advance) : (outcome.followedBy rest).Located start :=
  ⟨hlocated.near, hlocated.leads.trans hrest.leads,
    List.forall_mem_append.mpr ⟨hlocated.locates, hrest.locates.of_leads hlocated.leads_advance⟩,
    fun hnone hnil => hrest.lost hnone (List.append_eq_nil_iff.mp hnil).2⟩

theorem andThen {rest : α → (next : Cursor) → next.size ≤ cursor.size → Outcome next β}
    (hlocated : outcome.Located start)
    (hrest : ∀ value next hsize, (rest value next hsize).Located next.advance) :
    (outcome.andThen rest).Located start := by
  cases hvalue : outcome.value with
  | none =>
      rw [andThen_of_fault hvalue]
      exact ⟨hlocated.near, hlocated.leads, hlocated.locates, fun _ => hlocated.lost hvalue⟩
  | some value =>
      rw [andThen_of_value hvalue]
      exact hlocated.followedBy (hrest value _ _)

end Located

/-- Nothing was found wrong, and all that was read is as it should be. -/
def Quiet (outcome : Outcome cursor α) : Prop := outcome.diagnostics = []

namespace Quiet

variable {first : Outcome cursor α}

theorem left {rest : α → (next : Cursor) → next.size ≤ cursor.size → Outcome next β}
    (hquiet : (first.andThen rest).Quiet) : first.Quiet := by
  cases hvalue : first.value with
  | none => rwa [andThen_of_fault hvalue] at hquiet
  | some value =>
      rw [andThen_of_value hvalue] at hquiet
      exact (List.append_eq_nil_iff.mp hquiet).1

theorem right {rest : α → (next : Cursor) → next.size ≤ cursor.size → Outcome next β} {value : α}
    (hquiet : (first.andThen rest).Quiet) (hvalue : first.value = some value) :
    (rest value first.stop first.size_le).Quiet := by
  rw [andThen_of_value hvalue] at hquiet
  exact (List.append_eq_nil_iff.mp hquiet).2

theorem of_orNote {problem : Problem} (hquiet : (first.orNote problem).Quiet) : first.Quiet := by
  cases hvalue : first.value with
  | none =>
      rw [orNote_of_fault hvalue] at hquiet
      exact absurd hquiet (by simp [Quiet])
  | some value => rwa [orNote_of_value hvalue] at hquiet

end Quiet

end Outcome

namespace Joint

variable {α β : Type} {joint : Joint} {start left right : Cursor}

/-- A cursor that does not share its next token has the joint behind it after one move. -/
theorem size_advance_le_of_not_shares {cursor : Cursor} (hshares : ¬ joint.Shares 2 cursor) :
    cursor.advance.size ≤ joint.left.size := by
  rw [Shares, not_or] at hshares
  rw [Cursor.size_advance]
  omega

theorem size_le_of_not_shares {cursor : Cursor} (hshares : ¬ joint.Shares 1 cursor) :
    cursor.size ≤ joint.left.size := by
  rw [Shares, not_or] at hshares
  omega

/-- The first diagnostic shows at a token past the joint.  Short of it the two texts are the
same. -/
def Past (joint : Joint) (start : Cursor) (diagnostics : List Diagnostic) : Prop :=
  ∀ first ∈ diagnostics.head?, ∃ place, start.Leads place ∧
    first.span = some place.current.span ∧ place.size ≤ joint.left.size

namespace Past

variable {later : Cursor} {diagnostics more : List Diagnostic}

theorem nil (joint : Joint) (start : Cursor) : joint.Past start [] :=
  fun first hnone => absurd hnone (Option.not_mem_none first)

theorem of_leads (hpast : joint.Past later diagnostics) (hleads : start.Leads later) :
    joint.Past start diagnostics := by
  intro first hfirst
  obtain ⟨place, hplace, hspan, hsize⟩ := hpast first hfirst
  exact ⟨place, hleads.trans hplace, hspan, hsize⟩

/-- Nothing but what is past the joint can be wrong from there on. -/
theorem of_locates (hlocates : start.Locates diagnostics) (hsize : start.size ≤ joint.left.size) :
    joint.Past start diagnostics := by
  intro first hfirst
  obtain ⟨place, hplace, hspan⟩ := hlocates first (List.mem_of_mem_head? hfirst)
  exact ⟨place, hplace, hspan, hplace.size_le.trans hsize⟩

theorem append (hpast : joint.Past start diagnostics)
    (hmore : diagnostics = [] → joint.Past start more) :
    joint.Past start (diagnostics ++ more) := by
  cases diagnostics with
  | nil => exact hmore rfl
  | cons first rest => exact hpast

end Past

/-- If all is quiet on the right, what is wrong first on the left is past the joint.  With that no
text that is read in silence shares the tokens of a fault. -/
structure Notices (joint : Joint) (start : Cursor) (first : Outcome left α)
    (second : Outcome right α) : Prop where
  located : first.Located start
  past : joint.Beside left right → second.Quiet → joint.Past start first.diagnostics

namespace Notices

variable {first : Outcome left α} {second other : Outcome right α}

theorem done {value : α} (hnear : start = left ∨ start = left.advance) :
    joint.Notices start (.done left value) second :=
  ⟨.done hnear, fun _ _ => .nil joint start⟩

/-- The kind of the current token is the same on the right, or all that is wrong is past the joint.
It is by such kinds that a reader chooses how to go on. -/
theorem of_current (hsecond : right.current.kind = left.current.kind → second = other)
    (hnotices : joint.Notices left first other) : joint.Notices left first second := by
  refine ⟨hnotices.located, fun hbeside hquiet => ?_⟩
  by_cases hshares : joint.Shares 1 left
  · rw [hsecond (hbeside.current_kind hshares).symm] at hquiet
    exact hnotices.past hbeside hquiet
  · exact .of_locates hnotices.located.locates (size_le_of_not_shares hshares)

/-- The kinds of the current token and the next one are the same on the right, or all that is wrong
is past the joint. -/
theorem of_next
    (hsecond : right.current.kind = left.current.kind → right.next.kind = left.next.kind →
      second = other)
    (hnotices : joint.Notices left.advance first other) :
    joint.Notices left.advance first second := by
  refine ⟨hnotices.located, fun hbeside hquiet => ?_⟩
  by_cases hshares : joint.Shares 2 left
  · rw [hsecond (hbeside.current_kind (hshares.of_le (by omega))).symm
      (hbeside.next_kind hshares).symm] at hquiet
    exact hnotices.past hbeside hquiet
  · exact .of_locates hnotices.located.locates (size_advance_le_of_not_shares hshares)

/-- A reader that needs a token to start with starts with one on the right too. -/
theorem of_sized {reader : (cursor : Cursor) → 0 < cursor.size → Outcome cursor α}
    (hsize : 0 < left.size)
    (hsecond : right.current.kind = left.current.kind → ∃ hsize, second = reader right hsize)
    (hnotices : ∀ (cursor : Cursor) (hsize : 0 < cursor.size),
      joint.Notices left first (reader cursor hsize)) :
    joint.Notices left first second := by
  have hlocated := (hnotices left hsize).located
  refine ⟨hlocated, fun hbeside hquiet => ?_⟩
  by_cases hshares : joint.Shares 1 left
  · obtain ⟨hsize', rfl⟩ := hsecond (hbeside.current_kind hshares).symm
    exact (hnotices right hsize').past hbeside hquiet
  · exact .of_locates hlocated.locates (size_le_of_not_shares hshares)

/-- A fault that there is on the right too. -/
theorem faultHere {problem : Problem}
    (hsecond : right.current.kind = left.current.kind →
      ∃ problem, second = right.faultHere problem) :
    joint.Notices left (left.faultHere problem : Outcome left α) second := by
  refine ⟨.faultHere, fun hbeside hquiet => ?_⟩
  by_cases hshares : joint.Shares 1 left
  · obtain ⟨problem', rfl⟩ := hsecond (hbeside.current_kind hshares).symm
    exact absurd hquiet (List.cons_ne_nil _ _)
  · exact .of_locates Outcome.Located.faultHere.locates (size_le_of_not_shares hshares)

/-- Something is wrong on the right if the current token and the next one are the same there. -/
theorem of_loud (hlocated : first.Located left.advance)
    (hloud : right.current.kind = left.current.kind → right.next.kind = left.next.kind →
      ¬ second.Quiet) : joint.Notices left.advance first second := by
  refine ⟨hlocated, fun hbeside hquiet => ?_⟩
  by_cases hshares : joint.Shares 2 left
  · exact absurd hquiet (hloud (hbeside.current_kind (hshares.of_le (by omega))).symm
      (hbeside.next_kind hshares).symm)
  · exact .of_locates hlocated.locates (size_advance_le_of_not_shares hshares)

theorem faultNext {problem : Problem}
    (hsecond : right.next.kind = left.next.kind → ∃ problem, second = right.faultNext problem) :
    joint.Notices left.advance (left.faultNext problem : Outcome left α) second := by
  refine .of_loud .faultNext fun _ hsame => ?_
  obtain ⟨problem', rfl⟩ := hsecond hsame
  exact List.cons_ne_nil _ _

/-- What is wrong with a token from the next one on is wrong with one from the current one on. -/
theorem fromNext (hnotices : joint.Notices left.advance first second) :
    joint.Notices left first second :=
  ⟨hnotices.located.fromNext, fun hbeside hquiet =>
    (hnotices.past hbeside hquiet).of_leads (.advance left)⟩

theorem afterAdvance {first : Outcome left.advance α} {second : Outcome right.advance α}
    (hnotices : joint.Notices left.advance first second) :
    joint.Notices left.advance (Outcome.afterAdvance first) (Outcome.afterAdvance second) := by
  refine ⟨.afterAdvance hnotices.located, fun hbeside hquiet => ?_⟩
  by_cases hshares : joint.Shares 1 left
  · exact hnotices.past (hbeside.advance hshares) hquiet
  · refine .of_locates hnotices.located.locates ?_
    exact left.size_advance_le.trans (size_le_of_not_shares hshares)

theorem asStatement (hnotices : joint.Notices start first second) :
    joint.Notices start first.asStatement second.asStatement :=
  ⟨hnotices.located.asStatement, hnotices.past⟩

/-- A note shows where reading stopped and is not the first diagnostic, so it changes nothing about
the first one. -/
theorem orNote {problem : Problem} (hnotices : joint.Notices left first second) :
    joint.Notices left (first.orNote problem) (second.orNote problem) := by
  refine ⟨hnotices.located.orNote, fun hbeside hquiet => ?_⟩
  have hpast := hnotices.past hbeside hquiet.of_orNote
  cases hvalue : first.value with
  | some value => rwa [Outcome.orNote_of_value hvalue]
  | none =>
      rw [Outcome.orNote_of_fault hvalue]
      exact hpast.append fun hnil => absurd hnil (hnotices.located.lost hvalue)

section

variable {ok : α → Prop} {change : α → α}
variable {rest : α → (next : Cursor) → next.size ≤ left.size → Outcome next β}
variable {rest' : α → (next : Cursor) → next.size ≤ right.size → Outcome next β}

/-- Reading on after a part.  If it is not settled yet where that part stopped, then whatever is
wrong after it is past the joint. -/
theorem andThen (hfirst : joint.Notices start first second)
    (hfollows : joint.Beside left right → joint.Follows ok change first second)
    (hrest : ∀ value value' next next' hsize hsize',
      joint.Notices next.advance (rest value next hsize) (rest' value' next' hsize')) :
    joint.Notices start (first.andThen rest) (second.andThen rest') := by
  have hlocated : ∀ value next hsize, (rest value next hsize).Located next.advance :=
    fun value next hsize => (hrest value value next right hsize (Nat.le_refl _)).located
  refine ⟨hfirst.located.andThen hlocated, fun hbeside hquiet => ?_⟩
  have hpast := hfirst.past hbeside hquiet.left
  cases hvalue : first.value with
  | none => rwa [Outcome.andThen_of_fault hvalue]
  | some value =>
      rw [Outcome.andThen_of_value hvalue]
      refine hpast.append fun _ => .of_leads ?_ hfirst.located.leads_advance
      by_cases hshares : joint.Shares 2 first.stop
      · obtain ⟨hstops, hvalues, -⟩ := hfollows hbeside (.inl hshares)
        rw [hvalue] at hvalues
        obtain ⟨value', hvalue', -⟩ := Option.map_eq_some_iff.mp hvalues.symm
        exact (hrest value value' _ _ _ _).past hstops (hquiet.right hvalue')
      · exact .of_locates (hlocated value _ _).locates (size_advance_le_of_not_shares hshares)

/-- A value that needs no further token. -/
theorem andDone {value : α → (next : Cursor) → next.size ≤ left.size → β}
    {value' : α → (next : Cursor) → next.size ≤ right.size → β}
    (hfirst : joint.Notices start first second) :
    joint.Notices start (first.andThen fun read last hlast => .done last (value read last hlast))
      (second.andThen fun read last hlast => .done last (value' read last hlast)) := by
  refine ⟨hfirst.located.andThen fun _ _ _ => .done (.inr rfl), fun hbeside hquiet => ?_⟩
  have hpast := hfirst.past hbeside hquiet.left
  cases hvalue : first.value with
  | none => rwa [Outcome.andThen_of_fault hvalue]
  | some value =>
      rw [Outcome.andThen_of_value hvalue]
      exact hpast.append fun _ => .nil joint start

/-- Reading goes on at the next token whether or not there is a value. -/
theorem regardless
    {rest : Option α → (next : Cursor) → next.size ≤ left.size → Outcome next β}
    {rest' : Option α → (next : Cursor) → next.size ≤ right.size → Outcome next β}
    (hfirst : joint.Notices start first second)
    (hfollows : joint.Beside left right → joint.Follows ok change first second)
    (hrest : ∀ read read' next next' hsize hsize',
      joint.Notices next.advance (rest read next hsize) (rest' read' next' hsize')) :
    joint.Notices start (first.regardless rest) (second.regardless rest') := by
  have hlocated : ∀ read next hsize, (rest read next hsize).Located next.advance :=
    fun read next hsize => (hrest read read next right hsize (Nat.le_refl _)).located
  refine ⟨hfirst.located.followedBy (hlocated _ _ _), fun hbeside hquiet => ?_⟩
  obtain ⟨hquiet, hquietRest⟩ := List.append_eq_nil_iff.mp hquiet
  refine (hfirst.past hbeside hquiet).append fun _ => .of_leads ?_ hfirst.located.leads_advance
  by_cases hshares : joint.Shares 2 first.stop
  · obtain ⟨hstops, -, -⟩ := hfollows hbeside (.inl hshares)
    exact (hrest _ second.value _ _ _ second.size_le).past hstops hquietRest
  · exact .of_locates (hlocated _ _ _).locates (size_advance_le_of_not_shares hshares)

/-- Reading goes on behind a token of a given kind, if there is one. -/
theorem expectThen {kind : Kind} {what what' : Expectation}
    {rest : Unit → (next : Cursor) → next.size ≤ left.size → Outcome next β}
    {rest' : Unit → (next : Cursor) → next.size ≤ right.size → Outcome next β}
    (hrest : ∀ hsize hsize', joint.Notices left.advance.advance (rest () left.advance hsize)
      (rest' () right.advance hsize')) :
    joint.Notices left.advance ((left.expect kind what).andThen rest)
      ((right.expect kind what').andThen rest') := by
  unfold Cursor.expect
  split
  · next hexpected =>
      have hnotices := hrest left.size_advance_le right.size_advance_le
      rw [Outcome.andThen_of_value rfl]
      refine ⟨⟨.inr rfl, (Cursor.Leads.advance left).trans hnotices.located.leads,
        hnotices.located.locates.of_leads (.advance _), hnotices.located.lost⟩,
        fun hbeside hquiet => ?_⟩
      split at hquiet
      · rw [Outcome.andThen_of_value rfl] at hquiet
        by_cases hshares : joint.Shares 1 left
        · exact (hnotices.past (hbeside.advance hshares) hquiet).of_leads (.advance _)
        · refine .of_leads (.of_locates hnotices.located.locates ?_) (.advance _)
          exact left.advance.size_advance_le.trans
            (left.size_advance_le.trans (size_le_of_not_shares hshares))
      · rw [Outcome.andThen_of_fault rfl] at hquiet
        exact absurd hquiet (List.cons_ne_nil _ _)
  · next hexpected =>
      rw [Outcome.andThen_of_fault rfl]
      refine ⟨.faultNext, fun hbeside hquiet => ?_⟩
      by_cases hshares : joint.Shares 2 left
      · rw [if_neg (hbeside.next_kind hshares ▸ hexpected), Outcome.andThen_of_fault rfl] at hquiet
        exact absurd hquiet (List.cons_ne_nil _ _)
      · exact .of_locates Outcome.Located.faultNext.locates
          (size_advance_le_of_not_shares hshares)

end

end Notices

end Joint

namespace Grammar

variable {joint : Joint}

/-- Whether an integer is too large is told by its token. -/
theorem integer_notices (left right : Cursor) :
    joint.Notices left (integer left) (integer right) := by
  have hlocated : (integer left).Located left := by
    rw [integer]
    split
    · exact .done (.inl rfl)
    · exact .faultHere
  refine ⟨hlocated, fun hbeside hquiet => ?_⟩
  by_cases hshares : joint.Shares 1 left
  · have hliteral : left.current.literal = right.current.literal := by
      rw [hbeside.current hshares, Token.moved_literal]
    rw [integer, hliteral]
    rw [integer] at hquiet
    split
    · exact .nil joint left
    · next hlarge =>
        rw [if_neg hlarge] at hquiet
        exact absurd hquiet (List.cons_ne_nil _ _)
  · exact .of_locates hlocated.locates (Joint.size_le_of_not_shares hshares)

theorem propertySeparator_notices (left right : Cursor) :
    joint.Notices left.advance (propertySeparator left) (propertySeparator right) := by
  rw [propertySeparator.eq_def left]
  split
  · next hcomma =>
      refine .of_next (fun _ hsame => propertySeparator_of_comma (hsame.trans hcomma)) ?_
      exact .afterAdvance (.done (.inl rfl))
  · exact .done (.inr rfl)
  · next heof =>
      exact .faultNext fun hsame =>
        propertySeparator_of_other (by simp [hsame, heof]) (by simp [hsame, heof])
  · next hcomma hbrace _ =>
      exact .faultNext fun hsame => propertySeparator_of_other (hsame ▸ hcomma) (hsame ▸ hbrace)

theorem parameters_notices (left right : Cursor) :
    joint.Notices left (parameters left) (parameters right) := by
  rw [parameters.eq_def left]
  split
  · exact .done (.inl rfl)
  · next hopen =>
      split
      · next hname =>
          have hsize : 0 < left.size := Cursor.size_pos_of_current (by simp [hname])
          refine .fromNext ?_
          split
          · next hcomma =>
              refine .of_next (fun hcurrent hnext =>
                parameters_of_comma (hcurrent.trans hname) (hnext.trans hcomma)) ?_
              refine .afterAdvance (.fromNext (.afterAdvance ?_))
              exact (parameters_notices left.advance.advance right.advance.advance).andDone
          · next hparen =>
              refine .of_next (fun hcurrent hnext =>
                parameters_of_last (hcurrent.trans hname) (hnext.trans hparen)) ?_
              exact .afterAdvance (.done (.inl rfl))
          · next heof =>
              refine .of_loud (.afterAdvance .faultHere) fun hcurrent hnext => ?_
              obtain ⟨problem, hfault⟩ := parameters_of_separator (hcurrent.trans hname)
                (by simp [hnext, heof]) (by simp [hnext, heof])
              rw [hfault]
              exact List.cons_ne_nil _ _
          · next hcomma hparen _ =>
              refine .of_loud (.afterAdvance .faultHere) fun hcurrent hnext => ?_
              obtain ⟨problem, hfault⟩ := parameters_of_separator (hcurrent.trans hname)
                (hnext ▸ hcomma) (hnext ▸ hparen)
              rw [hfault]
              exact List.cons_ne_nil _ _
      · next hname =>
          split
          · exact .faultHere fun hsame =>
              parameters_of_other (hsame ▸ hopen) (hsame ▸ hname)
          · exact .faultHere fun hsame =>
              parameters_of_other (hsame ▸ hopen) (hsame ▸ hname)
termination_by left.size
decreasing_by
  simp only [Cursor.size_advance]
  omega

mutual

theorem expression_notices (least : Precedence) (levels : Nat) (left right : Cursor) :
    joint.Notices left (expression least levels left) (expression least levels right) := by
  rw [expression.eq_def _ _ left, expression.eq_def _ _ right]
  split
  · exact .faultHere fun _ => ⟨_, rfl⟩
  · next levels =>
      exact (operand_notices levels left right).andThen (operand_follows levels left right)
        fun value value' last last' _ _ => extend_notices least levels value value' last last'
termination_by 8 * left.size + 3
decreasing_by all_goals omega

theorem operand_notices (levels : Nat) (left right : Cursor) :
    joint.Notices left (operand levels left) (operand levels right) := by
  rw [operand.eq_def levels left]
  split
  · exact .done (.inl rfl)
  · next hkind =>
      exact .of_current (fun hsame => operand_of_int (hsame.trans hkind))
        (integer_notices left right)
  · exact .done (.inl rfl)
  · exact .done (.inl rfl)
  · exact .done (.inl rfl)
  · next hkind =>
      have hsize : 0 < left.size := Cursor.size_pos_of_current (by simp [hkind])
      refine .of_sized hsize (fun hsame => ?_) fun cursor hsize' =>
        (unary_notices .not levels left cursor hsize hsize').fromNext
      exact ⟨_, operand_of_unary (hsame.trans hkind : _ = UnaryOperator.not.kind)
        (Cursor.size_pos_of_current (by simp [hsame, hkind]))⟩
  · next hkind =>
      have hsize : 0 < left.size := Cursor.size_pos_of_current (by simp [hkind])
      refine .of_sized hsize (fun hsame => ?_) fun cursor hsize' =>
        (unary_notices .negate levels left cursor hsize hsize').fromNext
      exact ⟨_, operand_of_unary (hsame.trans hkind : _ = UnaryOperator.negate.kind)
        (Cursor.size_pos_of_current (by simp [hsame, hkind]))⟩
  · next hkind =>
      have hsize : 0 < left.size := Cursor.size_pos_of_current (by simp [hkind])
      refine .of_sized hsize (fun hsame => ?_) fun cursor hsize' =>
        (array_notices levels left cursor hsize hsize').fromNext
      exact ⟨_, operand_of_lBracket (hsame.trans hkind)
        (Cursor.size_pos_of_current (by simp [hsame, hkind]))⟩
  · next hkind =>
      exact .of_current (fun hsame => operand_of_lBrace (hsame.trans hkind))
        (object_notices levels left right).fromNext
  · next hkind =>
      have hsize : 0 < left.size := Cursor.size_pos_of_current (by simp [hkind])
      refine .of_sized hsize (fun hsame => ?_) fun cursor hsize' =>
        (conditional_notices levels left cursor hsize hsize').fromNext
      exact ⟨_, operand_of_kwIf (hsame.trans hkind)
        (Cursor.size_pos_of_current (by simp [hsame, hkind]))⟩
  · next hkind =>
      have hsize : 0 < left.size := Cursor.size_pos_of_current (by simp [hkind])
      refine .of_sized hsize (fun hsame => ?_) fun cursor hsize' =>
        (function_notices levels left cursor hsize hsize').fromNext
      exact ⟨_, operand_of_kwFunction (hsame.trans hkind)
        (Cursor.size_pos_of_current (by simp [hsame, hkind]))⟩
  · have hkind : left.current.kind.startsExpression = false := by
      unfold Kind.startsExpression
      split <;> first | contradiction | rfl
    exact .faultHere fun hsame => ⟨_, operand_of_other (hsame ▸ hkind)⟩
termination_by 8 * left.size + 2
decreasing_by all_goals omega

theorem extend_notices (least : Precedence) (levels : Nat) (value value' : Expression)
    (left right : Cursor) :
    joint.Notices left.advance (extend least levels value left)
      (extend least levels value' right) := by
  by_cases hleast : least < left.next.kind.precedence
  · rcases Kind.lt_precedence_cases hleast with ⟨operator, hoperator, hleast⟩ | ⟨hparen, hleast⟩
    · have hsize := Cursor.one_lt_size_of_next (BinaryOperator.ne_eof_of_ofKind? hoperator)
      have hmoved := left.size_advance
      have hmovedAgain := left.advance.size_advance
      rw [extend_of_operator hoperator hleast]
      refine .of_next (fun _ hsame => extend_of_operator (hsame ▸ hoperator) hleast) ?_
      refine .afterAdvance (.fromNext (.afterAdvance ?_))
      exact (expression_notices operator.precedence levels _ _).andThen
        (expression_follows operator.precedence levels _ _)
        fun _ _ last last' _ _ => extend_notices least levels _ _ last last'
    · have hsize : 1 < left.size := Cursor.one_lt_size_of_next (by simp [hparen])
      have hmoved := left.size_advance
      have hmovedAgain := left.advance.size_advance
      rw [extend_of_lParen hparen hleast]
      refine .of_next (fun _ hsame => extend_of_lParen (hsame.trans hparen) hleast) ?_
      refine .afterAdvance (.fromNext (.afterAdvance ?_))
      exact (items_notices .rParen .argumentsEnd levels _ _).andThen
        (items_follows .rParen .argumentsEnd (by decide) levels _ _)
        fun _ _ last last' _ _ => extend_notices least levels _ _ last last'
  · rw [extend_of_not_lt hleast]
    exact .done (.inr rfl)
termination_by 8 * left.size + 2
decreasing_by all_goals omega

theorem items_notices (closer : Kind) (what : Expectation) (levels : Nat) (left right : Cursor) :
    joint.Notices left (items closer what levels left) (items closer what levels right) := by
  rw [items.eq_def _ _ _ left]
  split
  · exact .done (.inl rfl)
  · next hopen =>
      refine .of_current (fun hsame => items_of_item (hsame ▸ hopen)) ?_
      refine (expression_notices .lowest levels left right).andThen
        (expression_follows .lowest levels left right) ?_
      intro _ _ last last' _ _
      exact (moreItems_notices closer what levels last last').andDone
termination_by 8 * left.size + 4
decreasing_by all_goals omega

theorem moreItems_notices (closer : Kind) (what : Expectation) (levels : Nat)
    (left right : Cursor) :
    joint.Notices left.advance (moreItems closer what levels left)
      (moreItems closer what levels right) := by
  rw [moreItems.eq_def _ _ _ left]
  split
  · next hcomma =>
      have hsize : 1 < left.size := Cursor.one_lt_size_of_next (by simp [hcomma])
      have hmoved := left.size_advance
      have hmovedAgain := left.advance.size_advance
      refine .of_next (fun _ hsame => moreItems_of_next_comma (hsame.trans hcomma)) ?_
      refine .afterAdvance (.fromNext (.afterAdvance ?_))
      refine (expression_notices .lowest levels _ _).andThen
        (expression_follows .lowest levels _ _) ?_
      intro _ _ last last' hlast _
      exact (moreItems_notices closer what levels last last').andDone
  · next hcomma =>
      refine .of_next (fun _ hsame => moreItems_of_next_ne_comma (hsame ▸ hcomma)) ?_
      exact .expectThen fun _ _ => .done (.inr rfl)
termination_by 8 * left.size
decreasing_by all_goals omega

theorem unary_notices (operator : UnaryOperator) (levels : Nat) (left right : Cursor)
    (hsize : 0 < left.size) (hsize' : 0 < right.size) :
    joint.Notices left.advance (unary operator levels left hsize)
      (unary operator levels right hsize') := by
  have hmoved := left.size_advance
  rw [unary.eq_def _ _ left, unary.eq_def _ _ right]
  exact .afterAdvance (expression_notices .unary levels _ _).andDone
termination_by 8 * left.size + 1
decreasing_by all_goals omega

theorem array_notices (levels : Nat) (left right : Cursor) (hsize : 0 < left.size)
    (hsize' : 0 < right.size) :
    joint.Notices left.advance (array levels left hsize) (array levels right hsize') := by
  have hmoved := left.size_advance
  rw [array.eq_def _ left, array.eq_def _ right]
  exact .afterAdvance (items_notices .rBracket .arrayEnd levels _ _).andDone
termination_by 8 * left.size + 1
decreasing_by all_goals omega

theorem object_notices (levels : Nat) (left right : Cursor) :
    joint.Notices left.advance (object levels left) (object levels right) := by
  rw [object.eq_def _ left, object.eq_def _ right]
  exact (properties_notices levels left right).andDone
termination_by 8 * left.size + 1
decreasing_by all_goals omega

theorem properties_notices (levels : Nat) (left right : Cursor) :
    joint.Notices left.advance (properties levels left) (properties levels right) := by
  rw [properties.eq_def _ left]
  split
  · next hbrace =>
      refine .of_next (fun _ hsame => properties_of_rBrace (hsame.trans hbrace)) ?_
      exact .afterAdvance (.done (.inl rfl))
  · next heof => exact .faultNext fun hsame => ⟨_, properties_of_eof (hsame.trans heof)⟩
  · next hident =>
      have hsize : 1 < left.size := Cursor.one_lt_size_of_next (by simp [hident])
      have hmoved := left.size_advance
      refine .of_next (fun _ hsame => properties_of_ident (hsame.trans hident)) ?_
      refine .afterAdvance ?_
      refine (property_notices levels _ _).fromNext.andThen (property_follows levels _ _) ?_
      intro _ _ last last' _ _
      refine (propertySeparator_notices last last').andThen
        (propertySeparator_follows last last') ?_
      intro _ _ last last' _ _
      exact (properties_notices levels last last').andDone
  · next hbrace heof hident =>
      exact .faultNext fun hsame =>
        ⟨_, properties_of_other (hsame ▸ hbrace) (hsame ▸ heof) (hsame ▸ hident)⟩
termination_by 8 * left.size
decreasing_by all_goals omega

theorem property_notices (levels : Nat) (left right : Cursor) :
    joint.Notices left.advance (property levels left) (property levels right) := by
  rw [property.eq_def _ left]
  dsimp only
  split
  · exact .done (.inr rfl)
  · exact .done (.inr rfl)
  · next hcolon =>
      have hsize : 1 < left.size := Cursor.one_lt_size_of_next (by simp [hcolon])
      have hmoved := left.size_advance
      have hmovedAgain := left.advance.size_advance
      refine .of_next (fun _ hsame => property_of_colon (hsame.trans hcolon)) ?_
      refine .afterAdvance (.fromNext (.afterAdvance ?_))
      exact (expression_notices .lowest levels _ _).andDone
  · next heof => exact .faultNext fun hsame => ⟨_, property_of_eof (hsame.trans heof)⟩
  · next hcomma hbrace hcolon heof =>
      exact .faultNext fun hsame =>
        ⟨_, property_of_other (hsame ▸ hcomma) (hsame ▸ hbrace) (hsame ▸ hcolon) (hsame ▸ heof)⟩
termination_by 8 * left.size
decreasing_by all_goals omega

theorem conditional_notices (levels : Nat) (left right : Cursor) (hsize : 0 < left.size)
    (hsize' : 0 < right.size) :
    joint.Notices left.advance (conditional levels left hsize)
      (conditional levels right hsize') := by
  have hmoved := left.size_advance
  have hmovedAgain := left.advance.size_advance
  rw [conditional.eq_def _ left, conditional.eq_def _ right]
  refine .expectThen fun _ _ => .afterAdvance ?_
  refine (expression_notices .lowest levels _ _).andThen (expression_follows .lowest levels _ _) ?_
  intro _ _ last last' _ _
  refine .expectThen fun _ _ => .expectThen fun _ _ => ?_
  refine (block_notices levels _ _).andThen (block_follows levels _ _) ?_
  intro _ _ last last' _ _
  split
  · next helse =>
      have hlastMoved := last.size_advance
      refine .of_next (fun _ hsame => if_pos (hsame.trans helse)) ?_
      refine .afterAdvance (.fromNext (.expectThen fun _ _ => ?_))
      exact (block_notices levels _ _).andDone
  · exact .done (.inr rfl)
termination_by 8 * left.size + 1
decreasing_by all_goals omega

theorem function_notices (levels : Nat) (left right : Cursor) (hsize : 0 < left.size)
    (hsize' : 0 < right.size) :
    joint.Notices left.advance (function levels left hsize) (function levels right hsize') := by
  have hmoved := left.size_advance
  have hmovedAgain := left.advance.size_advance
  rw [function.eq_def _ left, function.eq_def _ right]
  refine .expectThen fun _ _ => .afterAdvance ?_
  refine (parameters_notices _ _).andThen (parameters_follows _ _) ?_
  intro _ _ last last' _ _
  refine .expectThen fun _ _ => ?_
  exact (block_notices levels _ _).andDone
termination_by 8 * left.size + 1
decreasing_by all_goals omega

theorem block_notices (levels : Nat) (left right : Cursor) :
    joint.Notices left.advance (block levels left) (block levels right) := by
  have hmoved := left.size_advance
  rw [block.eq_def _ left, block.eq_def _ right]
  exact .afterAdvance (blockStatements_notices levels _ _).andDone
termination_by 8 * left.size + 7
decreasing_by all_goals omega

theorem blockStatements_notices (levels : Nat) (left right : Cursor) :
    joint.Notices left (blockStatements levels left) (blockStatements levels right) := by
  rw [blockStatements.eq_def _ left]
  split
  · exact .done (.inl rfl)
  · next hopen =>
      split
      · next hend =>
          exact .faultHere fun hsame => ⟨_, blockStatements_of_eof (hsame.trans hend)⟩
      · next hcurrent =>
          have hsize := Cursor.size_pos_of_current hcurrent
          refine .of_current (fun hsame =>
            blockStatements_of_statement (hsame ▸ hopen) (hsame ▸ hcurrent)) ?_
          refine (statement_notices levels left right).regardless
            (statement_follows levels left right) ?_
          intro _ _ last last' _ _
          have hmoved := last.size_advance
          exact .afterAdvance (blockStatements_notices levels _ _).andDone
termination_by 8 * left.size + 6
decreasing_by all_goals omega

theorem statement_notices (levels : Nat) (left right : Cursor) :
    joint.Notices left (statement levels left) (statement levels right) := by
  rw [statement.eq_def _ left]
  split
  · next hkind =>
      refine .of_current (fun hsame =>
        statement_of_binding (hsame.trans hkind : _ = bindingKind false)) ?_
      exact (binding_notices false levels left right).fromNext.asStatement
  · next hkind =>
      refine .of_current (fun hsame =>
        statement_of_binding (hsame.trans hkind : _ = bindingKind true)) ?_
      exact (binding_notices true levels left right).fromNext.asStatement
  · next hkind =>
      have hsize : 0 < left.size := Cursor.size_pos_of_current (by simp [hkind])
      refine .of_sized hsize (fun hsame => ?_) fun cursor hsize' =>
        (functionDeclaration_notices levels left cursor hsize hsize').fromNext.asStatement
      exact ⟨_, statement_of_kwFunction (hsame.trans hkind)
        (Cursor.size_pos_of_current (by simp [hsame, hkind]))⟩
  · next hkind =>
      refine .of_current (fun hsame => statement_of_kwReturn (hsame.trans hkind)) ?_
      exact (returned_notices levels left right).fromNext.asStatement
  · next hlet hconst hfunction hreturn =>
      refine .of_current (fun hsame => statement_of_other (hsame ▸ hlet) (hsame ▸ hconst)
        (hsame ▸ hfunction) (hsame ▸ hreturn)) ?_
      exact (expressionStatement_notices levels left right).asStatement
termination_by 8 * left.size + 5
decreasing_by all_goals omega

theorem binding_notices (constant : Bool) (levels : Nat) (left right : Cursor) :
    joint.Notices left.advance (binding constant levels left) (binding constant levels right) := by
  rw [binding.eq_def _ _ left, binding.eq_def _ _ right]
  refine .expectThen fun _ _ => ?_
  dsimp only
  split
  · next hcloser =>
      refine .of_next (fun _ hsame => if_pos (hsame.trans hcloser)) (.afterAdvance ?_)
      split
      · exact .faultHere fun _ => ⟨_, rfl⟩
      · exact .done (.inl rfl)
  · next hcloser =>
      have hmoved := left.advance.advance.size_advance
      refine .of_next (fun _ hsame => if_neg (hsame ▸ hcloser)) ?_
      refine .expectThen fun _ _ => .afterAdvance ?_
      refine (expression_notices .lowest levels _ _).andThen
        (expression_follows .lowest levels _ _) ?_
      intro _ _ last last' _ _
      exact .expectThen fun _ _ => .done (.inr rfl)
termination_by 8 * left.size + 4
decreasing_by omega

theorem functionDeclaration_notices (levels : Nat) (left right : Cursor) (hsize : 0 < left.size)
    (hsize' : 0 < right.size) :
    joint.Notices left.advance (functionDeclaration levels left hsize)
      (functionDeclaration levels right hsize') := by
  have hmoved := left.advance.advance.size_advance
  rw [functionDeclaration.eq_def _ left, functionDeclaration.eq_def _ right]
  refine .expectThen fun _ _ => .expectThen fun _ _ => .afterAdvance ?_
  refine (parameters_notices _ _).andThen (parameters_follows _ _) ?_
  intro _ _ last last' _ _
  refine .expectThen fun _ _ => ?_
  exact (block_notices levels _ _).andDone
termination_by 8 * left.size + 4
decreasing_by all_goals omega

theorem returned_notices (levels : Nat) (left right : Cursor) :
    joint.Notices left.advance (returned levels left) (returned levels right) := by
  have hmoved := left.size_advance
  rw [returned.eq_def _ left, returned.eq_def _ right]
  refine .afterAdvance ?_
  refine (expression_notices .lowest levels _ _).orNote.andThen
    (fun hbeside => (expression_follows .lowest levels _ _ hbeside).orNote) ?_
  intro _ _ last last' _ _
  exact .expectThen fun _ _ => .done (.inr rfl)
termination_by 8 * left.size + 4
decreasing_by all_goals omega

theorem expressionStatement_notices (levels : Nat) (left right : Cursor) :
    joint.Notices left (expressionStatement levels left) (expressionStatement levels right) := by
  rw [expressionStatement.eq_def _ left, expressionStatement.eq_def _ right]
  refine (expression_notices .lowest levels left right).andThen
    (expression_follows .lowest levels left right) ?_
  intro _ _ last last' _ _
  split
  · next hcloser =>
      refine .of_next (fun _ hsame => if_pos (hsame.trans hcloser)) ?_
      exact .afterAdvance (.done (.inl rfl))
  · exact .done (.inr rfl)
termination_by 8 * left.size + 4
decreasing_by omega

end

theorem programStatements_notices (left right : Cursor) :
    joint.Notices left (programStatements left) (programStatements right) := by
  rw [programStatements.eq_def left]
  split
  · exact .done (.inl rfl)
  · next hcurrent =>
      have hsize := Cursor.size_pos_of_current hcurrent
      refine .of_current (fun hsame => programStatements_of_statement (hsame ▸ hcurrent)) ?_
      refine (statement_notices maxNesting left right).regardless
        (statement_follows maxNesting left right) ?_
      intro _ _ last last' _ _
      have hmoved := last.size_advance
      exact .afterAdvance (programStatements_notices _ _).andDone
termination_by left.size
decreasing_by omega

/-- What is wrong with a program is wrong with one of its tokens, the end token included. -/
theorem programStatements_locates (cursor : Cursor) :
    cursor.Locates (programStatements cursor).diagnostics :=
  have hnotices : (⟨id, monotone_id, cursor, cursor⟩ : Joint).Notices cursor
      (programStatements cursor) (programStatements cursor) :=
    programStatements_notices cursor cursor
  hnotices.located.locates

end Grammar

/-- Every diagnostic about a text shows at one of its tokens.  None is without a place or shows at a
part of a token. -/
theorem readProgram_diagnostic_span {source : String} {diagnostic : Diagnostic}
    (hmember : diagnostic ∈ (readProgram source).diagnostics) :
    ∃ token ∈ lex source, diagnostic.span = some token.span := by
  obtain ⟨place, hleads, hspan⟩ := Grammar.programStatements_locates _ diagnostic hmember
  exact ⟨place.current, hleads.current_mem, hspan⟩

end Frontend
