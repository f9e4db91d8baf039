import Frontend.Parser.Outcome
import Frontend.Proofs.Tree.Moved

/-!
# Readers side by side

The same tokens may stand in two texts, at other offsets and with other tokens after them.  A
reader that starts on them in both texts does the same in both, for as long as it has not looked at
a token past the joint where the texts part.  A reader looks at the token that it stands on and at
the one after it, so what it does is settled if it stops two tokens before the joint; if it stops
on the last token before the joint, it depends on the reader whether what follows could have
mattered.
-/

namespace Frontend

namespace Cursor

theorem size_advance_le (cursor : Cursor) : cursor.advance.size ≤ cursor.size := by
  rw [size_advance]
  exact Nat.sub_le _ _

theorem size_advance_lt {cursor : Cursor} (hsize : 0 < cursor.size) :
    cursor.advance.size < cursor.size := by
  rw [size_advance]
  exact Nat.sub_one_lt_of_lt hsize

end Cursor

namespace Outcome

variable {α β : Type} {cursor : Cursor} {outcome : Outcome cursor α}
variable {rest : α → (next : Cursor) → next.size ≤ cursor.size → Outcome next β}

theorem andThen_of_value {value : α} (hvalue : outcome.value = some value) :
    outcome.andThen rest = outcome.followedBy (rest value outcome.stop outcome.size_le) := by
  unfold andThen
  split <;> simp_all

theorem andThen_of_fault (hfault : outcome.value = none) :
    outcome.andThen rest =
      ⟨none, outcome.stop, outcome.diagnostics, outcome.events, outcome.size_le⟩ := by
  unfold andThen
  split <;> simp_all

theorem orNote_of_value {value : α} {problem : Problem} (hvalue : outcome.value = some value) :
    outcome.orNote problem = outcome := by
  unfold orNote
  split <;> simp_all

theorem orNote_of_fault {problem : Problem} (hfault : outcome.value = none) :
    outcome.orNote problem =
      { outcome with
        diagnostics := outcome.diagnostics ++ [⟨problem, some outcome.stop.current.span⟩] } := by
  unfold orNote
  split <;> simp_all

/-- The reading has moved on if it gives a value, so that the token where it stops is not the one
where it started. -/
def Moves (outcome : Outcome cursor α) : Prop :=
  ∀ value, outcome.value = some value → outcome.stop.size < cursor.size

namespace Moves

theorem faultHere {problem : Problem} : (cursor.faultHere problem : Outcome cursor α).Moves :=
  nofun

theorem faultNext {problem : Problem} : (cursor.faultNext problem : Outcome cursor α).Moves :=
  nofun

theorem afterAdvance {outcome : Outcome cursor.advance α} (hsize : 0 < cursor.size) :
    (Outcome.afterAdvance outcome).Moves :=
  fun _ _ => Nat.lt_of_le_of_lt outcome.size_le (Cursor.size_advance_lt hsize)

/-- The second part moves on, wherever the first one stopped. -/
theorem andThen (hrest : ∀ value next hsize, (rest value next hsize).Moves) :
    (outcome.andThen rest).Moves := by
  intro last hlast
  cases hvalue : outcome.value with
  | none =>
      rw [andThen_of_fault hvalue] at hlast
      cases hlast
  | some value =>
      rw [andThen_of_value hvalue] at hlast ⊢
      exact Nat.lt_of_lt_of_le (hrest value _ _ last hlast) outcome.size_le

/-- The first part moves on, and the second one does not move back. -/
theorem andThen_left (hmoves : outcome.Moves) : (outcome.andThen rest).Moves := by
  intro last hlast
  cases hvalue : outcome.value with
  | none =>
      rw [andThen_of_fault hvalue] at hlast
      cases hlast
  | some value =>
      rw [andThen_of_value hvalue]
      exact Nat.lt_of_le_of_lt (rest value _ _).size_le (hmoves value hvalue)

theorem expectThen {kind : Kind} {what : Expectation} (hkind : kind ≠ .eof)
    {rest : Unit → (next : Cursor) → next.size ≤ cursor.size → Outcome next β} :
    ((cursor.expect kind what).andThen rest).Moves := by
  intro last hlast
  unfold Cursor.expect at hlast ⊢
  split at hlast
  · next hnext =>
      rw [if_pos hnext, andThen_of_value rfl]
      have hsize := Cursor.one_lt_size_of_next (hnext ▸ hkind)
      exact Nat.lt_of_le_of_lt (rest () cursor.advance _).size_le
        (Cursor.size_advance_lt (Nat.lt_of_succ_lt hsize))
  · rw [andThen_of_fault rfl] at hlast
    cases hlast

end Moves

end Outcome

/-- Where two texts part: the cursors behind the tokens that they have in common, and how an offset
on the right is moved to be one on the left.  Appending, slicing and laying out a text anew are all
of this form. -/
structure Joint where
  move : Nat → Nat
  monotone : Monotone move
  left : Cursor
  right : Cursor

namespace Joint

variable {α β : Type} {joint : Joint} {left right : Cursor}

/-- The cursors stand before the same tokens up to the joint.  Whatever they see short of the joint,
they see in both texts. -/
def Beside (joint : Joint) (left right : Cursor) : Prop :=
  ∃ tokens,
    left.pending = tokens.map (Token.moved joint.move) ++ joint.left.pending ∧
      left.stop = joint.left.stop ∧
      right.pending = tokens ++ joint.right.pending ∧ right.stop = joint.right.stop

/-- Both texts end at the joint, and at the same place. -/
def Complete (joint : Joint) : Prop :=
  joint.left.pending = [] ∧ joint.right.pending = [] ∧
    joint.left.stop = joint.move joint.right.stop

/-- The text on the right ends at the joint. -/
def Sealed (joint : Joint) : Prop := joint.right.pending = []

/-- So many tokens from the left cursor on are the same on the right, the end tokens included.  A
reader looks at the current token and at the next one, so two are enough for one step. -/
def Shares (joint : Joint) (count : Nat) (cursor : Cursor) : Prop :=
  joint.Complete ∨ joint.left.size + count ≤ cursor.size

namespace Shares

variable {count : Nat} {cursor : Cursor}

theorem of_le {more : Nat} {later : Cursor} (hshares : joint.Shares more later)
    (hsize : count + later.size ≤ more + cursor.size) : joint.Shares count cursor :=
  hshares.imp_right fun hlater => by omega

/-- A cursor that could move on to a shared token stood on one. -/
theorem of_advance (hshares : joint.Shares (count + 1) cursor.advance) :
    joint.Shares (count + 2) cursor := by
  refine hshares.imp_right fun hlater => ?_
  rw [Cursor.size_advance] at hlater
  omega

end Shares

namespace Beside

theorem current (hbeside : joint.Beside left right) (hshares : joint.Shares 1 left) :
    left.current = right.current.moved joint.move := by
  obtain ⟨_ | ⟨token, tokens⟩, hleft, hleftStop, hright, hrightStop⟩ := hbeside
  · rcases hshares with ⟨hleftEnd, hrightEnd, hstop⟩ | hsize
    · rw [Cursor.current, Cursor.current, hleft, hright, hleftEnd, hrightEnd, hleftStop,
        hrightStop, hstop]
      rfl
    · rw [List.map_nil, List.nil_append] at hleft
      rw [Cursor.size, Cursor.size, hleft] at hsize
      omega
  · rw [Cursor.current, Cursor.current, hleft, hright]
    rfl

theorem advance (hbeside : joint.Beside left right) (hshares : joint.Shares 1 left) :
    joint.Beside left.advance right.advance := by
  obtain ⟨_ | ⟨token, tokens⟩, hleft, hleftStop, hright, hrightStop⟩ := hbeside
  · rcases hshares with ⟨hleftEnd, hrightEnd, -⟩ | hsize
    · refine ⟨[], ?_, hleftStop, ?_, hrightStop⟩
      · rw [Cursor.advance, hleft, hleftEnd]
        rfl
      · rw [Cursor.advance, hright, hrightEnd]
        rfl
    · rw [List.map_nil, List.nil_append] at hleft
      rw [Cursor.size, Cursor.size, hleft] at hsize
      omega
  · refine ⟨tokens, ?_, hleftStop, ?_, hrightStop⟩
    · rw [Cursor.advance, hleft]
      rfl
    · rw [Cursor.advance, hright]
      rfl

theorem next (hbeside : joint.Beside left right) (hshares : joint.Shares 2 left) :
    left.next = right.next.moved joint.move := by
  rw [← Cursor.current_advance, ← Cursor.current_advance]
  refine (hbeside.advance (hshares.of_le (by omega))).current ?_
  refine hshares.imp_right fun hsize => ?_
  rw [Cursor.size_advance]
  omega

theorem current_kind (hbeside : joint.Beside left right) (hshares : joint.Shares 1 left) :
    left.current.kind = right.current.kind := by
  rw [hbeside.current hshares, Token.moved_kind]

theorem next_kind (hbeside : joint.Beside left right) (hshares : joint.Shares 2 left) :
    left.next.kind = right.next.kind := by
  rw [hbeside.next hshares, Token.moved_kind]

theorem identifier (hbeside : joint.Beside left right) (hshares : joint.Shares 1 left) :
    left.identifier = right.identifier.mapSpan (Span.moved joint.move) := by
  rw [Cursor.identifier, hbeside.current hshares]
  rfl

theorem current_start (hbeside : joint.Beside left right) (hshares : joint.Shares 1 left) :
    left.current.span.start = joint.move right.current.span.start := by
  rw [hbeside.current hshares]
  rfl

theorem spanFrom {start start' : Nat} (hbeside : joint.Beside left right)
    (hshares : joint.Shares 1 left) (hstart : start = joint.move start') :
    left.spanFrom start = (right.spanFrom start').moved joint.move := by
  rw [Cursor.spanFrom, hbeside.current hshares, hstart]
  rfl

/-- Where the left cursor has come to the joint, the right one has too. -/
theorem right_eq (hbeside : joint.Beside left right) (hsize : left.size = joint.left.size) :
    right = joint.right := by
  obtain ⟨tokens, hleft, -, hright, hstop⟩ := hbeside
  rw [Cursor.size, hleft, List.length_append, List.length_map] at hsize
  obtain rfl : tokens = [] := List.eq_nil_of_length_eq_zero (Nat.right_eq_add.mp hsize.symm)
  obtain ⟨pending, stop⟩ := right
  obtain rfl : pending = joint.right.pending := hright
  obtain rfl : stop = joint.right.stop := hstop
  rfl

/-- Behind the last token on the right there is nothing, if the text ends there. -/
theorem next_of_sealed (hbeside : joint.Beside left right) (hsealed : joint.Sealed)
    (hlast : left.size = joint.left.size + 1) : right.next.kind = .eof := by
  obtain ⟨tokens, hleft, -, hright, -⟩ := hbeside
  rw [Cursor.size, hleft, List.length_append, List.length_map, Cursor.size, Nat.add_comm] at hlast
  obtain ⟨token, rfl⟩ := List.length_eq_one_iff.mp (Nat.add_left_cancel hlast)
  rw [hsealed] at hright
  rw [Cursor.next, hright]
  rfl

end Beside

/-! ## What readers do -/

/-- The reading on the left looked at nothing past the joint: it stopped before that, or it stopped
on the last token before the joint with a value that tells so. -/
def Settled (joint : Joint) (ok : α → Prop) (outcome : Outcome left α) : Prop :=
  joint.Shares 2 outcome.stop ∨
    ∃ value, outcome.value = some value ∧ ok value ∧ joint.Shares 1 outcome.stop

/-- The readings came to the same: they stopped at the same token, with the same value and the same
diagnostics up to where these are. -/
structure Agrees (joint : Joint) (change : α → α) (first : Outcome left α)
    (second : Outcome right α) : Prop where
  beside : joint.Beside first.stop second.stop
  value : first.value = second.value.map change
  diagnostics : first.diagnostics = second.diagnostics.map (Diagnostic.moved joint.move)

/-- If the reading on the left is settled, the one on the right comes to the same.  That is the
statement that is carried from each reader to those that call it. -/
def Follows (joint : Joint) (ok : α → Prop) (change : α → α) (first : Outcome left α)
    (second : Outcome right α) : Prop :=
  joint.Settled ok first → joint.Agrees change first second

section

variable {ok : α → Prop} {change : α → α} {first : Outcome left α} {second : Outcome right α}

theorem Settled.shares (hsettled : joint.Settled ok first) : joint.Shares 1 first.stop := by
  rcases hsettled with hshares | ⟨-, -, -, hshares⟩
  · exact hshares.of_le (by omega)
  · exact hshares

theorem Settled.mono {weaker : α → Prop} (hsettled : joint.Settled ok first)
    (himplies : ∀ value, ok value → weaker value) : joint.Settled weaker first :=
  hsettled.imp_right fun ⟨value, hvalue, hok, hshares⟩ =>
    ⟨value, hvalue, himplies value hok, hshares⟩

/-- The token after the first one is shared too if a value is read by moving on. -/
theorem Settled.shares_start (hsettled : joint.Settled ok first) (hmoves : first.Moves) :
    joint.Shares 2 left := by
  have hsize := first.size_le
  rcases hsettled with hshares | ⟨value, hvalue, -, hshares⟩
  · exact hshares.of_le (by omega)
  · have hmoved := hmoves value hvalue
    exact hshares.of_le (by omega)

namespace Follows

theorem mono {stronger : α → Prop} (hfollows : joint.Follows ok change first second)
    (himplies : ∀ value, stronger value → ok value) :
    joint.Follows stronger change first second :=
  fun hsettled => hfollows (hsettled.mono himplies)

theorem of_current (hfollows : joint.Shares 1 left → joint.Follows ok change first second) :
    joint.Follows ok change first second := by
  intro hsettled
  have hsize := first.size_le
  exact hfollows (hsettled.shares.of_le (by omega)) hsettled

theorem of_next
    (hmoves : first.Moves) (hfollows : joint.Shares 2 left → joint.Follows ok change first second) :
    joint.Follows ok change first second :=
  fun hsettled => hfollows (hsettled.shares_start hmoves) hsettled

/-- A reading whose value is never enough is settled by the token after the first one only.  So it
is where something must follow the value. -/
theorem of_next_of_never
    (hfollows : joint.Shares 2 left → joint.Follows (fun _ => False) change first second) :
    joint.Follows (fun _ => False) change first second := by
  refine fun hsettled => hfollows ?_ hsettled
  have hsize := first.size_le
  rcases hsettled with hshares | ⟨value, -, hnever, -⟩
  · exact hshares.of_le (by omega)
  · exact hnever.elim

theorem done {value value' : α} (hbeside : joint.Beside left right)
    (hvalue : value = change value') :
    joint.Follows ok change (.done left value) (.done right value') :=
  fun _ => ⟨hbeside, congrArg some hvalue, rfl⟩

/-- Reading ends on the left for want of a token that would go on with it.  On the right there is
the same next token or, behind the joint, none at all. -/
theorem done_of_next {value value' : α} {second : Outcome right α}
    (hbeside : joint.Beside left right) (hok : ok value → joint.Sealed)
    (hvalue : joint.Shares 1 left → value = change value')
    (hdone : right.next.kind = left.next.kind ∨ right.next.kind = .eof →
      second = .done right value') :
    joint.Follows ok change (.done left value) second := by
  intro hsettled
  have hnext : right.next.kind = left.next.kind ∨ right.next.kind = .eof := by
    rcases hsettled with hshares | ⟨_, hsome, hgood, hcomplete | hsize⟩
    · exact .inl (hbeside.next_kind hshares).symm
    · exact .inl (hbeside.next_kind (.inl hcomplete)).symm
    · obtain rfl := Option.some.inj hsome
      rcases Nat.eq_or_lt_of_le hsize with hlast | hmore
      · exact .inr (hbeside.next_of_sealed (hok hgood) hlast.symm)
      · exact .inl (hbeside.next_kind (.inr hmore)).symm
  rw [hdone hnext]
  exact done hbeside (hvalue hsettled.shares) hsettled

theorem fault {problem : Problem} {span span' : Span} (hbeside : joint.Beside left right)
    (hspan : span = span'.moved joint.move) :
    joint.Follows ok change (.fault left problem span) (.fault right problem span') := by
  refine fun _ => ⟨hbeside, rfl, ?_⟩
  rw [hspan]
  rfl

/-- A fault at the current token. -/
theorem faultHere {problem : Problem} (hbeside : joint.Beside left right) :
    joint.Follows ok change (left.faultHere problem) (right.faultHere problem) :=
  of_current fun hshares => fault hbeside (by rw [hbeside.current hshares]; rfl)

/-- A fault at the next token. -/
theorem faultNext {problem : Problem} (hbeside : joint.Beside left right)
    (hshares : joint.Shares 2 left) :
    joint.Follows ok change (left.faultNext problem) (right.faultNext problem) :=
  fault hbeside (by rw [hbeside.next hshares]; rfl)

theorem asStatement (hfollows : joint.Follows ok change first second) :
    joint.Follows ok change first.asStatement second.asStatement :=
  fun hsettled => ⟨(hfollows hsettled).beside, (hfollows hsettled).value,
    (hfollows hsettled).diagnostics⟩

theorem afterAdvance {first : Outcome left.advance α} {second : Outcome right.advance α}
    (hbeside : joint.Beside left right)
    (hfollows : left.advance.size ≤ left.size → joint.Shares 2 left →
      joint.Beside left.advance right.advance → joint.Follows ok change first second) :
    joint.Follows ok change (.afterAdvance first) (.afterAdvance second) := by
  intro hsettled
  have hstop : joint.Shares 1 first.stop := hsettled.shares
  have hsize := first.size_le
  have hshares : joint.Shares 2 left := (hstop.of_le (by omega)).of_advance
  have hadvance := hbeside.advance (hshares.of_le (by omega))
  have hagrees := hfollows left.size_advance_le hshares hadvance hsettled
  exact ⟨hagrees.beside, hagrees.value, hagrees.diagnostics⟩

theorem orNote {problem : Problem} (hfollows : joint.Follows ok change first second) :
    joint.Follows ok change (first.orNote problem) (second.orNote problem) := by
  cases hvalue : first.value with
  | some value =>
      rw [Outcome.orNote_of_value hvalue]
      intro hsettled
      have hagrees := hfollows hsettled
      have hsecond := hagrees.value
      rw [hvalue] at hsecond
      obtain ⟨value', hvalue', -⟩ := Option.map_eq_some_iff.mp hsecond.symm
      rwa [Outcome.orNote_of_value hvalue']
  | none =>
      rw [Outcome.orNote_of_fault hvalue]
      intro hsettled
      have hagrees := hfollows hsettled
      have hsecond := hagrees.value
      rw [hvalue] at hsecond
      rw [Outcome.orNote_of_fault (Option.map_eq_none_iff.mp hsecond.symm)]
      refine ⟨hagrees.beside, hagrees.value, ?_⟩
      rw [List.map_append, ← hagrees.diagnostics, hagrees.beside.current hsettled.shares]
      rfl

end Follows

end

namespace Follows

variable {ok : α → Prop} {result : β → Prop} {change : α → α} {change' : β → β}
variable {first : Outcome left α} {second : Outcome right α}

/-- A value that is not enough to settle the first part is followed by something that moves on, and
then the token after it is shared. -/
theorem andThen_of
    {rest : α → (next : Cursor) → next.size ≤ left.size → Outcome next β}
    {rest' : α → (next : Cursor) → next.size ≤ right.size → Outcome next β}
    (hfirst : joint.Follows ok change first second)
    (hok : ∀ value last, first.value = some value →
      (rest value first.stop first.size_le).value = some last → result last →
        ok value ∨ (rest value first.stop first.size_le).stop.size < first.stop.size)
    (hrest : ∀ value, first.value = some (change value) → joint.Beside first.stop second.stop →
      joint.Follows result change' (rest (change value) first.stop first.size_le)
        (rest' value second.stop second.size_le)) :
    joint.Follows result change' (first.andThen rest) (second.andThen rest') := by
  cases hvalue : first.value with
  | none =>
      rw [Outcome.andThen_of_fault hvalue]
      intro hsettled
      have hagrees : joint.Agrees change first second := by
        refine hfirst (.inl ?_)
        rcases hsettled with hshares | ⟨last, hnone, -⟩
        · exact hshares
        · cases hnone
      have hsecond := hagrees.value
      rw [hvalue] at hsecond
      rw [Outcome.andThen_of_fault (Option.map_eq_none_iff.mp hsecond.symm)]
      exact ⟨hagrees.beside, rfl, hagrees.diagnostics⟩
  | some value =>
      rw [Outcome.andThen_of_value hvalue]
      intro hsettled
      have hsize := (rest value first.stop first.size_le).size_le
      have hagrees : joint.Agrees change first second := by
        refine hfirst ?_
        rcases hsettled with hshares | ⟨last, hlast, hresult, hshares⟩
        · exact .inl (hshares.of_le (Nat.add_le_add_left hsize 2))
        · rcases hok value last hvalue hlast hresult with hgood | hmoved
          · exact .inr ⟨value, hvalue, hgood, hshares.of_le (Nat.add_le_add_left hsize 1)⟩
          · exact .inl (hshares.of_le (by
              simp only [Outcome.followedBy]
              omega))
      have hsecond := hagrees.value
      rw [hvalue] at hsecond
      obtain ⟨value', hvalue', rfl⟩ := Option.map_eq_some_iff.mp hsecond.symm
      rw [Outcome.andThen_of_value hvalue']
      have hlater := hrest value' hvalue hagrees.beside hsettled
      refine ⟨hlater.beside, hlater.value, ?_⟩
      simp only [Outcome.followedBy, List.map_append, hagrees.diagnostics, hlater.diagnostics]

section

variable {rest : α → (next : Cursor) → next.size ≤ left.size → Outcome next β}
variable {rest' : α → (next : Cursor) → next.size ≤ right.size → Outcome next β}

/-- What makes the last value good enough makes the first one so. -/
theorem andThen (hfirst : joint.Follows ok change first second)
    (hok : ∀ value last, result last → ok value)
    (hrest : ∀ value next next' hsize hsize', joint.Beside next next' →
      joint.Follows result change' (rest (change value) next hsize) (rest' value next' hsize')) :
    joint.Follows result change' (first.andThen rest) (second.andThen rest') :=
  hfirst.andThen_of (fun value last _ _ hresult => .inl (hok value last hresult))
    fun value _ hbeside => hrest value _ _ _ _ hbeside

/-- Reading moves on after the first part, so that part is settled whatever its value. -/
theorem andThen_moves (hfirst : joint.Follows ok change first second)
    (hmoves : ∀ value next hsize, (rest value next hsize).Moves)
    (hrest : ∀ value next next' hsize hsize', joint.Beside next next' →
      joint.Follows result change' (rest (change value) next hsize) (rest' value next' hsize')) :
    joint.Follows result change' (first.andThen rest) (second.andThen rest') :=
  hfirst.andThen_of (fun value last _ hlast _ => .inr (hmoves value _ _ last hlast))
    fun value _ hbeside => hrest value _ _ _ _ hbeside

end

/-- Reading goes on at the next token whether or not there is a value. -/
theorem regardless_afterAdvance
    {rest : Option α → (next : Cursor) → next.size ≤ left.size → Outcome next.advance β}
    {rest' : Option α → (next : Cursor) → next.size ≤ right.size → Outcome next.advance β}
    (hfirst : joint.Follows ok change first second)
    (hrest : ∀ value next next' hsize hsize', joint.Beside next.advance next'.advance →
      joint.Follows result change' (rest (value.map change) next hsize)
        (rest' value next' hsize')) :
    joint.Follows result change'
      (first.regardless fun value next hsize => .afterAdvance (rest value next hsize))
      (second.regardless fun value next hsize => .afterAdvance (rest' value next hsize)) := by
  intro hsettled
  have hstop : joint.Shares 1 (rest first.value first.stop first.size_le).stop := hsettled.shares
  have hsize := (rest first.value first.stop first.size_le).size_le
  have hshares : joint.Shares 2 first.stop := (hstop.of_le (by omega)).of_advance
  have hagrees := hfirst (.inl hshares)
  have hadvance := hagrees.beside.advance (hshares.of_le (by omega))
  have hlater := hrest second.value _ _ first.size_le second.size_le hadvance
  rw [← hagrees.value] at hlater
  obtain ⟨hbeside, hvalue, hdiagnostics⟩ := hlater hsettled
  refine ⟨hbeside, hvalue, ?_⟩
  simp only [Outcome.regardless, Outcome.followedBy, Outcome.afterAdvance, List.map_append,
    hagrees.diagnostics, hdiagnostics]

/-- Reading goes on behind a token of a given kind, if there is one. -/
theorem expectThen {kind : Kind} {what : Expectation} (hkind : kind ≠ .eof)
    {rest : Unit → (next : Cursor) → next.size ≤ left.size → Outcome next β}
    {rest' : Unit → (next : Cursor) → next.size ≤ right.size → Outcome next β}
    (hbeside : joint.Beside left right)
    (hrest : ∀ hsize hsize', left.advance.size < left.size → joint.Shares 2 left →
      joint.Beside left.advance right.advance →
        joint.Follows result change' (rest () left.advance hsize)
          (rest' () right.advance hsize')) :
    joint.Follows result change' ((left.expect kind what).andThen rest)
      ((right.expect kind what).andThen rest') := by
  refine .of_next (.expectThen hkind) fun hshares => ?_
  have hnext := hbeside.next_kind hshares
  by_cases hexpected : left.next.kind = kind
  · have hsize : 0 < left.size :=
      Nat.lt_of_succ_lt (Cursor.one_lt_size_of_next (hexpected ▸ hkind))
    have hadvance := hbeside.advance (hshares.of_le (by omega))
    rw [Cursor.expect, Cursor.expect, if_pos hexpected, if_pos (hnext ▸ hexpected),
      Outcome.andThen_of_value rfl, Outcome.andThen_of_value rfl]
    intro hsettled
    obtain ⟨hstop, hvalue, hdiagnostics⟩ :=
      hrest _ _ (Cursor.size_advance_lt hsize) hshares hadvance hsettled
    exact ⟨hstop, hvalue, hdiagnostics⟩
  · rw [Cursor.expect, Cursor.expect, if_neg hexpected, if_neg (hnext ▸ hexpected), hnext,
      Outcome.andThen_of_fault rfl, Outcome.andThen_of_fault rfl]
    intro _
    exact ⟨hbeside, rfl, by simp [Cursor.faultNext, Outcome.fault, hbeside.next hshares,
      Diagnostic.moved]⟩

end Follows

end Joint

end Frontend
