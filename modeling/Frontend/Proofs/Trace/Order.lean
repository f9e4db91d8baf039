import Frontend.Proofs.Trace.Events

/-!
# The order of diagnostics

A walk notes problems with the token that its cursor stands on or with the next one, and it never
moves back, so diagnostics come in the order of their tokens.  The one exception is the note about
a `return` without its value: it shows at the token where reading stopped, and the fault before it
may have shown at the token after that.
-/

namespace Frontend

/-! ## Messages that name a kind -/

/-- The last word of a text: what stands after the last blank. -/
def lastWord (text : String) : List Char := (text.toList.reverse.takeWhile (· ≠ ' ')).reverse

theorem lastWord_append {word : String} (hword : ' ' ∉ word.toList) (front : String) :
    lastWord (front ++ " " ++ word) = word.toList := by
  have hbefore : ∀ c ∈ word.toList.reverse, decide (c ≠ ' ') = true := fun c hmember =>
    decide_eq_true fun hblank => hword (hblank ▸ List.mem_reverse.mp hmember)
  rw [lastWord, String.toList_append, List.reverse_append, List.takeWhile_append_of_pos hbefore]
  simp

theorem Kind.blank_not_mem_name (kind : Kind) : ' ' ∉ kind.name.toList := by
  cases kind <;> decide

theorem Kind.name_injective : Function.Injective Kind.name := by
  have hnodup : (all.map name).Nodup := by decide
  exact fun left right => List.inj_on_of_nodup_map hnodup left.mem_all right.mem_all

namespace Problem

/-- What the message of a problem ends with.  If it is the name of a kind, the message tells which
one was found. -/
def ending : Problem → String
  | missing _ found | noOperand found => found.name
  | constantWithoutValue _ => "value"
  | returnWithoutValue => "`return`"
  | unclosedBlock => "block"
  | unclosedParameters => "list"
  | unclosedObject => "brace"
  | integerTooLarge _ => "integer"
  | nestingTooDeep => "levels"
  | stated text => text

variable {problem : Problem} {found : Kind}

/-- The ending is the last word of the message. -/
theorem message_ending (hblames : problem.Blames found) :
    ' ' ∉ problem.ending.toList ∧ ∃ front, problem.message = front ++ " " ++ problem.ending := by
  cases problem with
  | missing what kind =>
      have hlast : ", found" ++ " " = ", found " := by decide
      refine ⟨kind.blank_not_mem_name, what.message ++ ", found", ?_⟩
      rw [@String.append_assoc what.message, hlast]
      rfl
  | noOperand kind =>
      exact ⟨kind.blank_not_mem_name, "no prefix parse function for", rfl⟩
  | constantWithoutValue name =>
      have hlast : "` declared without" ++ (" " ++ "value") = "` declared without value" := by
        decide
      refine ⟨by simp [ending], "constant `" ++ name ++ "` declared without", ?_⟩
      rw [ending, String.append_assoc, String.append_assoc, hlast]
      rfl
  | returnWithoutValue => exact ⟨by decide, "expected expression following", rfl⟩
  | unclosedBlock => exact ⟨by decide, "expected `\x7d` to close", rfl⟩
  | unclosedParameters => exact ⟨by decide, "expected `)` to close parameter", rfl⟩
  | unclosedObject => exact ⟨by decide, "object literal missing closing", rfl⟩
  | integerTooLarge digits =>
      have hlast : "` as" ++ (" " ++ "integer") = "` as integer" := by decide
      refine ⟨by simp [ending], "could not parse `" ++ digits ++ "` as", ?_⟩
      rw [ending, String.append_assoc, String.append_assoc, hlast]
      rfl
  | nestingTooDeep =>
      have hlast : " " ++ "levels" = " levels" := by decide
      refine ⟨by decide, "expression nesting exceeds " ++ Numeral.ofNat maxNesting, ?_⟩
      rw [ending, String.append_assoc, hlast]
      rfl
  | stated text => exact absurd hblames id

/-- No message ends with a kind that the problem does not name.  The names of kinds are in capitals,
and no fixed wording ends with one. -/
theorem kind_of_ending {kind : Kind} (hblames : problem.Blames found)
    (hending : problem.ending = kind.name) : found = kind := by
  have hother {word : String} (hword : word ∉ Kind.all.map Kind.name) : word ≠ kind.name :=
    fun hsame => hword (hsame ▸ List.mem_map_of_mem kind.mem_all)
  cases problem with
  | missing _ named | noOperand named =>
      exact (show named = found from hblames) ▸ Kind.name_injective hending
  | stated text => exact absurd hblames id
  | _ => exact absurd hending (hother (by simp [ending, Kind.all, Kind.name]))

/-- A message that ends with a kind names the one that the problem was found at. -/
theorem kind_of_message {kind : Kind} (front : String) (hblames : problem.Blames found)
    (hmessage : problem.message = front ++ " " ++ kind.name) : found = kind := by
  obtain ⟨hblank, start, hstart⟩ := message_ending hblames
  refine kind_of_ending hblames (String.toList_injective ?_)
  rw [← lastWord_append hblank start, ← hstart, hmessage, lastWord_append kind.blank_not_mem_name]

end Problem

/-! ## Places in turn -/

/-- Diagnostics with the numbers of their tokens, which never fall, but for the note about a
`return` without its value, which may be one before the diagnostic that it follows. -/
inductive InTurn : List (Diagnostic × Nat) → Prop where
  | nil : InTurn []
  | next {diagnostic index later} (hlater : ∀ placed ∈ later, index ≤ placed.2)
      (hrest : InTurn later) : InTurn ((diagnostic, index) :: later)
  | back {diagnostic note index later} (hnote : note.problem = .returnWithoutValue)
      (hlater : ∀ placed ∈ later, index + 1 ≤ placed.2) (hrest : InTurn later) :
      InTurn ((diagnostic, index + 1) :: (note, index) :: later)

/-- What comes later has no smaller number, unless it is the note that comes next. -/
theorem InTurn.le_or_note {placed : List (Diagnostic × Nat)} (hturn : InTurn placed)
    {front middle back : List (Diagnostic × Nat)} {first second : Diagnostic × Nat}
    (hplaced : placed = front ++ first :: (middle ++ second :: back)) :
    first.2 ≤ second.2 ∨
      middle = [] ∧ second.1.problem = .returnWithoutValue ∧ first.2 = second.2 + 1 := by
  have hsecond : second ∈ middle ++ second :: back :=
    List.mem_append_right _ List.mem_cons_self
  induction hturn generalizing front with
  | nil => exact absurd hplaced.symm (List.append_ne_nil_of_right_ne_nil _ (List.cons_ne_nil _ _))
  | next hlater _ ih =>
      cases front with
      | nil =>
          obtain ⟨rfl, rfl⟩ := List.cons.inj hplaced
          exact .inl (hlater second hsecond)
      | cons placed front => exact ih (List.cons.inj hplaced).2
  | back hnote hlater _ ih =>
      rcases front with _ | ⟨placed, _ | ⟨placed', front⟩⟩
      · obtain ⟨rfl, hrest⟩ := List.cons.inj hplaced
        cases middle with
        | nil =>
            obtain ⟨rfl, rfl⟩ := List.cons.inj hrest
            exact .inr ⟨rfl, hnote, rfl⟩
        | cons placed middle =>
            obtain ⟨rfl, rfl⟩ := List.cons.inj hrest
            exact .inl (hlater second (List.mem_append_right _ List.mem_cons_self))
      · obtain ⟨-, hrest⟩ := List.cons.inj hplaced
        obtain ⟨rfl, rfl⟩ := List.cons.inj hrest
        exact .inl (Nat.le_of_succ_le (hlater second hsecond))
      · exact ih (List.cons.inj (List.cons.inj hplaced).2).2

/-- A diagnostic with the number of its token, which is in front of the cursor.  Tokens are counted
from the start of the text, which has `total` of them. -/
def Cursor.Places (cursor : Cursor) (total : Nat) (placed : Diagnostic × Nat) : Prop :=
  ∃ place, cursor.Leads place ∧ placed.2 = total - place.size ∧
    placed.1.span = some place.current.span ∧ placed.1.problem.Blames place.current.kind

theorem Cursor.Places.of_leads {cursor later : Cursor} {total : Nat} {placed : Diagnostic × Nat}
    (hplaces : later.Places total placed) (hleads : cursor.Leads later) :
    cursor.Places total placed := by
  obtain ⟨place, hplace, hrest⟩ := hplaces
  exact ⟨place, hleads.trans hplace, hrest⟩

namespace Stage

/-- Where the diagnostics of a walk from a stage may show.  After a fault it is not before the next
token, but for a note in the first place. -/
def Bounds (total : Nat) (cursor : Cursor) (placed : List (Diagnostic × Nat)) : Stage → Prop
  | arrived | reading => ∀ pair ∈ placed, total - cursor.size ≤ pair.2
  | failed => (∀ pair ∈ placed, total - cursor.advance.size ≤ pair.2) ∨
      ∃ note later, placed = (note, total - cursor.size) :: later ∧
        note.problem = .returnWithoutValue ∧ InTurn later ∧
        ∀ pair ∈ later, total - cursor.advance.size ≤ pair.2
  | noted => ∀ pair ∈ placed, total - cursor.advance.size ≤ pair.2

variable {total : Nat} {cursor : Cursor} {placed : List (Diagnostic × Nat)}

/-- What shows at the next token at the earliest is within all bounds. -/
theorem Bounds.of_advance (stage : Stage)
    (hplaced : ∀ pair ∈ placed, total - cursor.advance.size ≤ pair.2) :
    stage.Bounds total cursor placed := by
  have hadvance : total - cursor.size ≤ total - cursor.advance.size := by
    rw [Cursor.size_advance]
    omega
  cases stage with
  | arrived | reading => exact fun pair hmember => Nat.le_trans hadvance (hplaced pair hmember)
  | failed => exact .inl hplaced
  | noted => exact hplaced

/-- Even a note is not before the token that the cursor stands on. -/
theorem Bounds.of_failed (hbounds : Bounds total cursor placed .failed) :
    Bounds total cursor placed .reading := by
  rcases hbounds with hplaced | ⟨note, later, rfl, -, -, hlater⟩
  · exact .of_advance .reading hplaced
  · exact List.forall_mem_cons.mpr ⟨Nat.le_refl _, Bounds.of_advance .reading hlater⟩

/-- A fault at the next token is in turn with what comes after it. -/
theorem Bounds.faultNext {diagnostic : Diagnostic} (htotal : cursor.size ≤ total)
    (hbounds : Bounds total cursor placed .failed) (hturn : InTurn placed) :
    InTurn ((diagnostic, total - cursor.advance.size) :: placed) := by
  rcases hbounds with hplaced | ⟨note, later, rfl, hnote, hlaterTurn, hlater⟩
  · exact .next hplaced hturn
  · have hnext : total - cursor.advance.size = total - cursor.size ∨
        total - cursor.advance.size = total - cursor.size + 1 := by
      rw [Cursor.size_advance]
      omega
    rcases hnext with hend | hnext
    · -- At the end the next token is the current one.
      rw [hend] at hlater ⊢
      exact .next (List.forall_mem_cons.mpr ⟨Nat.le_refl _, hlater⟩) hturn
    · rw [hnext] at hlater ⊢
      exact .back hnote hlater hlaterTurn

end Stage

/-- The diagnostics of a walk come in turn.  The induction is on the walk, with bounds that depend
on the stage it has come to. -/
theorem Walk.inTurn {origin stage : Stage} {cursor stop : Cursor} {diagnostics : List Diagnostic}
    {events : List Event} (hwalk : Walk origin cursor diagnostics events stage stop)
    {total : Nat} (htotal : cursor.size ≤ total) :
    ∃ placed : List (Diagnostic × Nat), placed.map Prod.fst = diagnostics ∧
      (∀ pair ∈ placed, cursor.Places total pair) ∧ InTurn placed ∧
      origin.Bounds total cursor placed := by
  induction hwalk with
  | stay => exact ⟨[], rfl, List.forall_mem_nil _, .nil, .of_advance _ (List.forall_mem_nil _)⟩
  | pass _ ih | start _ _ ih => exact ih htotal
  | @move _ cursor _ _ _ _ _ _ ih =>
      have hleads := Cursor.Leads.advance cursor
      obtain ⟨placed, hall, hplaces, hturn, hbounds⟩ := ih (Nat.le_trans hleads.size_le htotal)
      exact ⟨placed, hall, fun pair hmember => (hplaces pair hmember).of_leads hleads, hturn,
        .of_advance _ hbounds⟩
  | @faultHere cursor problem _ _ _ _ hblames _ ih =>
      obtain ⟨placed, rfl, hplaces, hturn, hbounds⟩ := ih htotal
      refine ⟨(⟨problem, some cursor.current.span⟩, total - cursor.size) :: placed, rfl,
        List.forall_mem_cons.mpr ⟨⟨cursor, .refl cursor, rfl, rfl, hblames⟩, hplaces⟩,
        .next hbounds.of_failed hturn, ?_⟩
      exact List.forall_mem_cons.mpr ⟨Nat.le_refl _, hbounds.of_failed⟩
  | @faultNext cursor problem _ _ _ _ hblames _ ih =>
      obtain ⟨placed, rfl, hplaces, hturn, hbounds⟩ := ih htotal
      refine ⟨(⟨problem, some cursor.next.span⟩, total - cursor.advance.size) :: placed, rfl,
        List.forall_mem_cons.mpr ⟨⟨cursor.advance, .advance cursor, rfl, rfl, hblames⟩, hplaces⟩,
        hbounds.faultNext htotal hturn, ?_⟩
      have hadvance : total - cursor.size ≤ total - cursor.advance.size := by
        rw [Cursor.size_advance]
        omega
      exact List.forall_mem_cons.mpr ⟨hadvance, hbounds.of_failed⟩
  | @note cursor _ _ _ _ _ ih =>
      obtain ⟨placed, rfl, hplaces, hturn, hbounds⟩ := ih htotal
      refine ⟨(⟨.returnWithoutValue, some cursor.current.span⟩, total - cursor.size) :: placed, rfl,
        List.forall_mem_cons.mpr ⟨⟨cursor, .refl cursor, rfl, rfl, trivial⟩, hplaces⟩,
        .next (Stage.Bounds.of_advance .reading hbounds) hturn,
        .inr ⟨_, placed, rfl, rfl, hturn, hbounds⟩⟩

/-! ## The diagnostics of a text -/

/-- A diagnostic in front of the first cursor of a text shows at the token of its number. -/
theorem Cursor.Places.token {source : String} {diagnostic : Diagnostic} {index : Nat}
    (hplaces : (Cursor.ofLexer (Lexer.ofText source)).Places (Lexer.ofText source).tokens.length
      (diagnostic, index)) :
    ∃ token, (lex source)[index]? = some token ∧ diagnostic.span = some token.span ∧
      diagnostic.problem.Blames token.kind := by
  obtain ⟨place, hleads, hindex, hspan, hblames⟩ := hplaces
  obtain ⟨before, hpending⟩ := hleads.suffix
  have hlength : before.length = index := by
    have hcount := congrArg List.length hpending
    rw [List.length_append] at hcount
    simp only [Cursor.size, Cursor.ofLexer] at hindex hcount
    omega
  refine ⟨place.current, ?_, hspan, hblames⟩
  rw [← hlength]
  exact Lexer.getElem?_tokensToEnd hpending.symm hleads.stop_eq

/-- Every diagnostic about a text shows at one of its tokens and at no other, and if its message
ends with a kind then with the one of that token.  The numbers of the tokens never fall, but for
the note about a `return` without its value, which may be one before the diagnostic that it
follows. -/
theorem readProgram_diagnostics_inTurn (source : String) :
    ∃ placed : List (Diagnostic × Nat), placed.map Prod.fst = (readProgram source).diagnostics ∧
      (∀ diagnostic index, (diagnostic, index) ∈ placed →
        ∃ token, (lex source)[index]? = some token ∧ diagnostic.span = some token.span ∧
          ∀ kind : Kind, (∃ front, diagnostic.message = front ++ "found " ++ kind.name) ∨
              diagnostic.message = "no prefix parse function for " ++ kind.name →
            token.kind = kind) ∧
      (∀ diagnostic index, (diagnostic, index) ∈ placed →
        ∀ other, diagnostic.At (lex source) other → other = index) ∧
      ∀ front first index middle second index' back,
        placed = front ++ (first, index) :: (middle ++ (second, index') :: back) →
          index ≤ index' ∨
            middle = [] ∧ second.message = "expected expression following `return`" ∧
              index = index' + 1 := by
  obtain ⟨stage, stop, -, hwalk⟩ := readProgram_walks source
  obtain ⟨placed, hall, hplaces, hturn, -⟩ := hwalk.inTurn (Nat.le_refl _)
  refine ⟨placed, hall, fun diagnostic index hmember => ?_,
    fun diagnostic index hmember other hother => ?_, ?_⟩
  · obtain ⟨token, htoken, hspan, hblames⟩ := (hplaces _ hmember).token
    refine ⟨token, htoken, hspan, fun kind hmessage => ?_⟩
    rcases hmessage with ⟨front, hfound⟩ | hoperand
    · have hblank : "found" ++ " " = "found " := by decide
      refine Problem.kind_of_message (front ++ "found") hblames (hfound.trans ?_)
      rw [@String.append_assoc front "found", hblank]
    · exact Problem.kind_of_message "no prefix parse function for" hblames hoperand
  · obtain ⟨token, htoken, hspan, -⟩ := (hplaces _ hmember).token
    exact Diagnostic.At.unique ⟨token, htoken, hspan⟩ hother
  · intro front first index middle second index' back hsplit
    refine (hturn.le_or_note hsplit).imp_right fun hback => ?_
    exact ⟨hback.1, congrArg Problem.message hback.2.1, hback.2.2⟩

/-- The fault is noted with the second name, and the note about the value with the first one. -/
example : (readProgram "return f(a b;").diagnostics =
    [⟨.missing .argumentsEnd .ident, some ⟨11, 12⟩⟩, ⟨.returnWithoutValue, some ⟨9, 10⟩⟩] := by
  cbv

end Frontend
