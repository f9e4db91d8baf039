import Frontend.Token

/-!
# Checks

Some steps of the program are only defined on good arguments and stop the whole program on others:
a span must not run backwards, a slice of a text must lie in it and be cut between characters, a
table must have an entry for a kind, and a counter must not fall below nothing.  The definitions of
the library do such steps without looking, or else say what comes of good arguments only.  Here the
same steps are taken with every check in its place, so that a check that fails stops them.
-/

namespace Frontend

/-- The check that failed: the assertion in `new` of `Span`, an index into a text, a table without
an entry for a kind, or a difference below nothing. -/
inductive Panic where
  | reversed (bounds : Span.Reversed)
  | slice (span : Span)
  | unlisted (kind : Kind)
  | subtraction (value amount : Nat)
  deriving DecidableEq

/-- What comes of steps with checks: a value, or the check that stopped them. -/
abbrev Checked (α : Type) := Except Panic α

namespace Checked

variable {α β : Type}

@[simp]
theorem ok_bind (value : α) (rest : α → Checked β) : (Except.ok value >>= rest) = rest value := rfl

@[simp]
theorem pure_eq (value : α) : (pure value : Checked α) = .ok value := rfl

theorem mapM_eq_ok {f : α → Checked β} {g : α → β} {values : List α}
    (hvalues : ∀ value ∈ values, f value = .ok (g value)) :
    values.mapM f = .ok (values.map g) := by
  induction values with
  | nil => rfl
  | cons value values ih =>
      obtain ⟨hvalue, hrest⟩ := List.forall_mem_cons.mp hvalues
      rw [List.mapM_cons, hvalue, ih hrest]
      rfl

end Checked

namespace Span

/-- The span between two bounds, of which the order is checked: `new` of `Span` with its
assertion. -/
def checked (start stop : Nat) : Checked Span :=
  (between start stop).mapError .reversed

/-- The smallest span that covers both, `to` of `Span`, which makes it by `new` and so with the same
check. -/
def checkedCover (left right : Span) : Checked Span :=
  checked (min left.start right.start) (max left.stop right.stop)

/-- The text that a span marks, `slice` of `Span`.  A text is indexed by bytes, so the span must lie
in it and be cut between characters. -/
def checkedSlice (span : Span) (text : List Char) : Checked (List Char) :=
  match span.slice? text with
  | some inside => .ok inside
  | none => .error (.slice span)

section

variable {start stop : Nat} {left right span : Span} {text inside : List Char}

theorem checked_of_le (hle : start ≤ stop) : checked start stop = .ok ⟨start, stop⟩ := by
  rw [checked, between, if_pos hle]
  rfl

/-- What covers a span that does not run backwards does not run backwards. -/
theorem checkedCover_of_le (hle : left.start ≤ left.stop) :
    checkedCover left right = .ok (left.cover right) :=
  checked_of_le (Nat.le_trans (Nat.min_le_left _ _) (Nat.le_trans hle (Nat.le_max_left _ _)))

/-- A span slices out nothing but a part that it is laid around.  Every slice that is there can be
used to take the text apart. -/
theorem slice?_eq_some (hslice : span.slice? text = some inside) :
    ∃ before after, text = before ++ inside ++ after ∧ span.start = byteLength before ∧
      span.stop = byteLength before + byteLength inside := by
  simp only [slice?, Option.bind_eq_bind, Option.bind_eq_some_iff] at hslice
  obtain ⟨⟨before, behind⟩, hbefore, ⟨found, after⟩, hinside, hfound⟩ := hslice
  split at hfound
  · next hle =>
      obtain rfl := Option.some.inj hfound
      obtain ⟨rfl, hstart⟩ := splitAtByte?_eq_some hbefore
      obtain ⟨rfl, hlength⟩ := splitAtByte?_eq_some hinside
      refine ⟨before, after, (List.append_assoc _ _ _).symm, hstart, ?_⟩
      dsimp only
      omega
  · cases hfound

theorem checkedSlice_of_slice? (hslice : span.slice? text = some inside) :
    span.checkedSlice text = .ok inside := by
  rw [checkedSlice, hslice]

theorem checkedSlice_append (before inside after : List Char) :
    checkedSlice ⟨byteLength before, byteLength before + byteLength inside⟩
      (before ++ inside ++ after) = .ok inside :=
  checkedSlice_of_slice? (slice?_append before inside after)

end

end Span

/-! ## Cuts -/

/-- The text can be cut at the offset, between two characters or at one of its ends.  Offsets that
are not of this kind are what slicing stops at. -/
def IsCut (text : List Char) (offset : Nat) : Prop :=
  ∃ before after, text = before ++ after ∧ offset = byteLength before

namespace Span

variable {span : Span} {text inside : List Char}

/-- The text between two cuts can be sliced out, if they are in order. -/
theorem exists_slice?_of_isCut (hstart : IsCut text span.start) (hstop : IsCut text span.stop)
    (hle : span.start ≤ span.stop) : ∃ inside, span.slice? text = some inside := by
  obtain ⟨start, stop⟩ := span
  obtain ⟨before, rest, rfl, hbefore⟩ := hstart
  obtain ⟨front, after, hsplit, hfront⟩ := hstop
  dsimp only at hbefore hfront hle
  rcases List.append_eq_append_iff.mp hsplit with ⟨middle, rfl, rfl⟩ | ⟨middle, rfl, rfl⟩
  · refine ⟨middle, ?_⟩
    rw [hbefore, hfront, byteLength_append, ← List.append_assoc]
    exact slice?_append before middle after
  · -- The cuts are in order, so there is nothing between them.
    have hempty : middle = [] := by
      rw [hbefore, hfront, byteLength_append] at hle
      exact byteLength_eq_zero.mp (by omega)
    refine ⟨[], ?_⟩
    have hslice := slice?_append front [] rest
    rw [hbefore, hfront, hempty]
    simpa using hslice

theorem isCut_of_slice? (hslice : span.slice? text = some inside) :
    IsCut text span.start ∧ IsCut text span.stop ∧ span.start ≤ span.stop := by
  obtain ⟨before, after, rfl, hstart, hstop⟩ := slice?_eq_some hslice
  refine ⟨⟨before, inside ++ after, List.append_assoc _ _ _, hstart⟩,
    ⟨before ++ inside, after, rfl, ?_⟩, ?_⟩
  · rw [hstop, byteLength_append]
  · omega

end Span

/-- A difference of numbers that cannot be negative, which must not be less than nothing. -/
def checkedSub (value amount : Nat) : Checked Nat :=
  if amount ≤ value then .ok (value - amount) else .error (.subtraction value amount)

theorem checkedSub_of_le {value amount : Nat} (hle : amount ≤ value) :
    checkedSub value amount = .ok (value - amount) :=
  if_pos hle

namespace Kind

/-- The number of a kind among all of them, by which a kind indexes a table. -/
def number (kind : Kind) : Nat := kind.ctorIdx

/-- The entry for a kind in a table, which must have one: the index into `PREFIX_PARSE_FNS` or
`INFIX_PARSE_FNS`. -/
def checkedEntry {α : Type} (table : List α) (kind : Kind) : Checked α :=
  match table[kind.number]? with
  | some entry => .ok entry
  | none => .error (.unlisted kind)

/-- A table that was filled for all kinds has an entry for each, so looking one up cannot fail. -/
theorem checkedEntry_map {α : Type} (entry : Kind → α) (kind : Kind) :
    checkedEntry (all.map entry) kind = .ok (entry kind) := by
  cases kind <;> rfl

end Kind

end Frontend
