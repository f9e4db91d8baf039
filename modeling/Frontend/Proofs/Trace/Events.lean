import Frontend.Proofs.Grammar.FirstFault
import Frontend.Proofs.Trace.Narration
import Frontend.Trace

/-!
# The trace of a parse

A walk brings every token from its cursor to where it stops into view, one move after another, and
it starts statements only with tokens that it comes to, so the trace of a parse interleaves the
warnings about the tokens with the starts of the statements in the order of the tokens.
-/

namespace Frontend

/-! ## Warnings -/

/-- An event that warns of something, rather than tells of what is done. -/
def Event.IsWarning (event : Event) : Prop := event.level = .warn

instance : DecidablePred Event.IsWarning :=
  fun event => inferInstanceAs (Decidable (event.level = .warn))

/-- The warnings among some events. -/
def warningsOf (events : List Event) : List Event := events.filter fun event => event.IsWarning

@[simp]
theorem warningsOf_append (earlier later : List Event) :
    warningsOf (earlier ++ later) = warningsOf earlier ++ warningsOf later :=
  List.filter_append earlier later

theorem Event.warnings_append (front back : List Token) :
    Event.warnings (front ++ back) = Event.warnings front ++ Event.warnings back :=
  List.filterMap_append

theorem Event.isWarning_of_mem_warnings {tokens : List Token} {event : Event}
    (hmember : event ∈ Event.warnings tokens) : event.IsWarning := by
  obtain ⟨token, -, hevent⟩ := List.mem_filterMap.mp hmember
  rw [Event.warning?] at hevent
  split at hevent
  · obtain ⟨c, -, rfl⟩ := Option.map_eq_some_iff.mp hevent
    rfl
  · cases hevent

@[simp]
theorem warningsOf_warnings (tokens : List Token) :
    warningsOf (Event.warnings tokens) = Event.warnings tokens :=
  List.filter_eq_self.mpr fun _ hmember =>
    decide_eq_true (Event.isWarning_of_mem_warnings hmember)

/-- A start of a statement after some warnings comes after all of them. -/
theorem Event.split_warnings {tokens : List Token} {events front back : List Event} {kind : Kind}
    {offset : Nat}
    (hevents : Event.warnings tokens ++ events = front ++ .statementStarted kind offset :: back) :
    ∃ later, front = Event.warnings tokens ++ later ∧
      events = later ++ .statementStarted kind offset :: back := by
  rcases List.append_eq_append_iff.mp hevents with
    ⟨later, hfront, hevents⟩ | ⟨rest, hfront, hrest⟩
  · exact ⟨later, hfront, hevents⟩
  · cases rest with
    | nil => exact ⟨[], by rw [hfront, List.append_nil, List.append_nil], hrest.symm⟩
    | cons event rest =>
        obtain ⟨rfl, -⟩ := List.cons.inj hrest
        have hwarning : Event.IsWarning (.statementStarted kind offset) :=
          isWarning_of_mem_warnings (hfront ▸ List.mem_append_right _ List.mem_cons_self)
        cases hwarning

/-- There is a warning for each illegal token, with its character and the place where it starts. -/
theorem Event.warnings_forall₂ {tokens : List Token}
    (hlexemes : ∀ token ∈ tokens, token.word.IsLexeme) :
    List.Forall₂ (fun token event => ∃ character, token.literal.toList = [character] ∧
        event = .unknownCharacter character token.span.start)
      (tokens.filter fun token => token.kind = .illegal) (Event.warnings tokens) := by
  induction tokens with
  | nil => exact .nil
  | cons token tokens ih =>
      obtain ⟨hlexeme, hrest⟩ := List.forall_mem_cons.mp hlexemes
      have hlater := ih hrest
      rw [Event.warnings, List.filterMap_cons, Event.warning?]
      by_cases hillegal : token.kind = .illegal
      · have hletter : ∃ c, token.literal.toList = [c] ∧ IsStray c := by
          simpa only [Word.IsLexeme, Token.word, hillegal] using hlexeme
        obtain ⟨c, hliteral, -⟩ := hletter
        rw [List.filter_cons_of_pos (by simpa using hillegal), if_pos hillegal, hliteral]
        exact .cons ⟨c, hliteral, rfl⟩ hlater
      · rw [List.filter_cons_of_neg (by simpa using hillegal), if_neg hillegal]
        exact hlater

namespace Walk

variable {origin stage : Stage} {cursor stop : Cursor} {diagnostics : List Diagnostic}
variable {events front back : List Event} {kind : Kind} {offset : Nat}

/-- The warnings of a walk are those about the tokens that it brings into view.  Nothing else
warns. -/
theorem warningsOf_eq (hwalk : Walk origin cursor diagnostics events stage stop) :
    warningsOf events =
      Event.warnings ((cursor.pending.drop 2).take (cursor.size - stop.size)) := by
  induction hwalk with
  | stay => rw [Nat.sub_self]; rfl
  | @move _ cursor _ _ _ stop _ hrest ih =>
      have hsize : stop.size ≤ cursor.size - 1 := cursor.size_advance ▸ hrest.leads.size_le
      have hcount : cursor.size - stop.size = 1 + (cursor.advance.size - stop.size) ∨
          cursor.size = 0 := by
        rw [Cursor.size_advance]
        omega
      rw [warningsOf_append, ih, Cursor.broughtIntoView, warningsOf_warnings]
      rcases hcount with hcount | hempty
      · rw [hcount, List.take_add, Event.warnings_append, List.drop_drop, Cursor.advance,
          ← List.drop_one, List.drop_drop]
      · have hpending : cursor.pending = [] := List.length_eq_zero_iff.mp hempty
        simp [Cursor.advance, hpending, Event.warnings]
  | start _ _ ih => exact ih
  | pass _ ih | faultHere _ _ ih | faultNext _ _ ih | note _ ih => exact ih

/-- A statement is started on the way, at a place that the walk comes to. -/
theorem split_started (hwalk : Walk origin cursor diagnostics events stage stop)
    (hevents : events = front ++ .statementStarted kind offset :: back) :
    ∃ place earlier, Walk origin cursor earlier front .arrived place ∧
      place.current.kind = kind ∧ kind ≠ .eof ∧ place.current.span.start = offset := by
  induction hwalk generalizing front with
  | stay => exact absurd hevents.symm (List.append_ne_nil_of_right_ne_nil _ (List.cons_ne_nil _ _))
  | pass _ ih =>
      obtain ⟨place, earlier, hfront, hplace⟩ := ih hevents
      exact ⟨place, earlier, .pass hfront, hplace⟩
  | start hcurrent hrest ih =>
      cases front with
      | nil =>
          obtain ⟨hstarted, -⟩ := List.cons.inj hevents
          cases hstarted
          exact ⟨_, [], .stay, rfl, hcurrent, rfl⟩
      | cons event front =>
          obtain ⟨rfl, hlater⟩ := List.cons.inj hevents
          obtain ⟨place, earlier, hfront, hplace⟩ := ih hlater
          exact ⟨place, earlier, .start hcurrent hfront, hplace⟩
  | move hleaves hrest ih =>
      obtain ⟨front, rfl, hlater⟩ := Event.split_warnings hevents
      obtain ⟨place, earlier, hfront, hplace⟩ := ih hlater
      exact ⟨place, earlier, .move hleaves hfront, hplace⟩
  | faultHere hblames hrest ih =>
      obtain ⟨place, earlier, hfront, hplace⟩ := ih hevents
      exact ⟨place, _, .faultHere hblames hfront, hplace⟩
  | faultNext hblames hrest ih =>
      obtain ⟨place, earlier, hfront, hplace⟩ := ih hevents
      exact ⟨place, _, .faultNext hblames hfront, hplace⟩
  | note _ ih =>
      obtain ⟨place, earlier, hfront, hplace⟩ := ih hevents
      exact ⟨place, _, .note hfront, hplace⟩

/-- The tokens with which a walk may start statements: the one that it stands on only if it has just
come to it. -/
def ahead (origin : Stage) (cursor : Cursor) : List Token :=
  match origin with
  | .arrived => cursor.pending
  | _ => cursor.pending.tail

/-- Each statement is started with a token of its own, in the order of the tokens.  A statement
inside another one starts after it. -/
theorem startsOf_sublist (hwalk : Walk origin cursor diagnostics events stage stop) :
    (startsOf events).Sublist ((ahead origin cursor).map fun token => token.span.start) := by
  induction hwalk with
  | stay => exact List.nil_sublist _
  | pass _ ih => exact ih.trans ((List.tail_sublist _).map _)
  | @start cursor _ _ _ _ hcurrent _ ih =>
      obtain ⟨_ | ⟨token, tokens⟩, stop⟩ := cursor
      · exact absurd rfl hcurrent
      · exact ih.cons_cons _
  | @move origin _ _ _ _ _ hleaves _ ih =>
      rw [startsOf_append, startsOf_broughtIntoView, List.nil_append]
      cases origin with
      | arrived => exact absurd rfl hleaves
      | reading | failed | noted => exact ih
  | faultHere _ _ ih | faultNext _ _ ih | note _ ih => exact ih

/-- The warnings before and in a walk are those about the first tokens, two more than it leaves
behind. -/
theorem warningsOf_inView (hwalk : Walk origin cursor diagnostics events stage stop) :
    warningsOf (cursor.inView ++ events) =
      Event.warnings (cursor.pending.take (cursor.size - stop.size + 2)) := by
  rw [warningsOf_append, hwalk.warningsOf_eq, Cursor.inView, warningsOf_warnings,
    ← Event.warnings_append, Nat.add_comm _ 2, List.take_add]

end Walk

/-! ## The whole trace -/

section

variable (source : String)

/-- The end token is not an illegal one. -/
theorem Event.warnings_take_lex (count : Nat) :
    Event.warnings ((lex source).take count) =
      Event.warnings ((Lexer.ofText source).tokens.take count) := by
  have hnone (more : Nat) :
      Event.warnings ([Token.atEnd (Lexer.ofText source).stop].take more) = [] := by
    cases more <;> simp [Event.warnings, Event.warning?, Token.atEnd]
  rw [lex, Lexer.tokensToEnd, List.take_append, Event.warnings_append, hnone, List.append_nil]

/-- Reading a text is a walk over all of its tokens, from the first one to the end token. -/
theorem readProgram_walks :
    ∃ stage stop, stop.size = 0 ∧
      Walk .arrived (.ofLexer (Lexer.ofText source)) (readProgram source).diagnostics
        (Grammar.programStatements (.ofLexer (Lexer.ofText source))).events stage stop := by
  have hnarrates : Outcome.Narrates (Grammar.programStatements (.ofLexer (Lexer.ofText source)))
      .arrived False _ := Grammar.programStatements_narrates _
  obtain ⟨stage, -, hwalk⟩ := hnarrates.leaves
  refine ⟨stage, _, ?_, hwalk⟩
  have hstop := Grammar.programStatements_stop (.ofLexer (Lexer.ofText source))
  have hleads := hwalk.leads
  generalize (Grammar.programStatements _).stop = stop at hstop hleads
  obtain ⟨_ | ⟨token, tokens⟩, offset⟩ := stop
  · rfl
  · -- Only the end token is of this kind.
    have hmember : token ∈ (Lexer.ofText source).tokens := hleads.suffix.subset List.mem_cons_self
    exact absurd hstop (Lexer.kind_ne_eof_of_mem_tokens hmember)

theorem Trace.ofParsing_eq :
    ofParsing source = (Cursor.ofLexer (Lexer.ofText source)).inView ++
      ((Grammar.programStatements (.ofLexer (Lexer.ofText source))).events ++
        [.programParsed (readProgram source).program.statements.length
          (readProgram source).diagnostics.length]) := by
  rw [ofParsing, ← List.append_assoc]
  rfl

/-- Parsing gives the warnings that lexing gives. -/
theorem Trace.warningsOf_ofParsing :
    warningsOf (ofParsing source) = Event.warnings (Lexer.ofText source).tokens := by
  obtain ⟨stage, stop, hend, hwalk⟩ := readProgram_walks source
  rw [ofParsing_eq, ← List.append_assoc, warningsOf_append, hwalk.warningsOf_inView, hend]
  refine (List.append_nil _).trans (congrArg Event.warnings (List.take_of_length_le ?_))
  exact Nat.le_add_right _ _

theorem Trace.startsOf_ofParsing :
    startsOf (ofParsing source) =
      startsOf (Grammar.programStatements (.ofLexer (Lexer.ofText source))).events := by
  rw [ofParsing_eq, startsOf_append, startsOf_append, Cursor.inView, startsOf_warnings]
  exact List.append_nil _

/-- Statements are started from left to right. -/
theorem Trace.startsOf_pairwise : (startsOf (ofParsing source)).Pairwise (· < ·) := by
  obtain ⟨stage, stop, -, hwalk⟩ := readProgram_walks source
  rw [startsOf_ofParsing]
  refine List.Pairwise.sublist hwalk.startsOf_sublist (List.pairwise_map.mpr ?_)
  have horder := (Lexer.ofText source).tokens_inOrder
  refine horder.apart.imp_of_mem fun hleft _ hapart => ?_
  exact Nat.lt_of_lt_of_le (horder.nonempty _ hleft) hapart

variable {source}

/-- A statement is started when its first token and the one after it are in view. -/
theorem Trace.token_of_started {before after : List Event} {kind : Kind} {offset : Nat}
    (htrace : ofParsing source = before ++ .statementStarted kind offset :: after) :
    ∃ index token, (lex source)[index]? = some token ∧ token.kind = kind ∧ kind ≠ .eof ∧
      token.span.start = offset ∧
      warningsOf before = Event.warnings ((lex source).take (index + 2)) := by
  obtain ⟨stage, stop, -, hwalk⟩ := readProgram_walks source
  rw [ofParsing_eq] at htrace
  obtain ⟨later, rfl, hlater⟩ := Event.split_warnings htrace
  have hevents : ∃ rest, (Grammar.programStatements (.ofLexer (Lexer.ofText source))).events =
      later ++ .statementStarted kind offset :: rest := by
    rcases List.eq_nil_or_concat after with rfl | ⟨rest, last, rfl⟩
    · exact absurd (List.append_inj_right' hlater rfl) (by simp)
    · rw [List.concat_eq_append, ← List.cons_append, ← List.append_assoc] at hlater
      exact ⟨rest, List.append_inj_left' hlater rfl⟩
  obtain ⟨rest, hevents⟩ := hevents
  obtain ⟨place, earlier, hfront, hkind, hreal, hstart⟩ := hwalk.split_started hevents
  obtain ⟨front, hpending⟩ := hfront.leads.suffix
  have htoken := Lexer.getElem?_tokensToEnd hpending.symm hfront.leads.stop_eq
  have hcount : (Cursor.ofLexer (Lexer.ofText source)).size - place.size = front.length := by
    have hlength := congrArg List.length hpending
    rw [List.length_append] at hlength
    simp only [Cursor.size]
    omega
  refine ⟨front.length, place.current, htoken, hkind, hreal, hstart, ?_⟩
  rw [Event.warnings_take_lex, ← hcount]
  exact hfront.warningsOf_inView

end

/-- The trace of a parse warns as lexing does, of each illegal token.  It tells of statements from
left to right, each when its first token and the one after it are in view, and without a fault
these are the statements of the tree in its order.  The last event sums up the result. -/
theorem trace_ofParsing (source : String) :
    ∃ program errors, parse source false = .ok (program, errors) ∧
      warningsOf (Trace.ofParsing source) = warningsOf (Trace.ofLexing source) ∧
      List.Forall₂ (fun token event => ∃ character, token.literal.toList = [character] ∧
          event = .unknownCharacter character token.span.start)
        ((lex source).filter fun token => token.kind = .illegal)
        (warningsOf (Trace.ofParsing source)) ∧
      (startsOf (Trace.ofParsing source)).Pairwise (· < ·) ∧
      (∀ before kind offset after,
        Trace.ofParsing source = before ++ .statementStarted kind offset :: after →
          ∃ index token, (lex source)[index]? = some token ∧ token.kind = kind ∧ kind ≠ .eof ∧
            token.span.start = offset ∧
            warningsOf before = Event.warnings ((lex source).take (index + 2))) ∧
      (errors = [] → startsOf (Trace.ofParsing source) =
        (statementsAmong (nodesOfStatements program.statements)).map fun read =>
          read.span.start) ∧
      (Trace.ofParsing source).getLast? =
        some (.programParsed program.statements.length errors.length) := by
  refine ⟨_, _, parse_lenient source, ?_, ?_, Trace.startsOf_pairwise source,
    fun before kind offset after => Trace.token_of_started, ?_, ?_⟩
  · rw [Trace.warningsOf_ofParsing, Trace.ofLexing, warningsOf_warnings]
  · rw [Trace.warningsOf_ofParsing, lex, Lexer.tokensToEnd, List.filter_append]
    exact (List.append_nil _).symm ▸ Event.warnings_forall₂ fun token hmember =>
      Lexer.isLexeme_of_mem_tokens hmember
  · intro hquiet
    obtain ⟨statements, hvalue⟩ := Option.isSome_iff_exists.mp
      (Grammar.programStatements_value (.ofLexer (Lexer.ofText source)))
    have hnarrates : Outcome.Narrates (Grammar.programStatements (.ofLexer (Lexer.ofText source)))
        .arrived False _ := Grammar.programStatements_narrates _
    rw [Trace.startsOf_ofParsing, ← hnarrates.told (List.map_eq_nil_iff.mp hquiet) _ hvalue,
      readProgram, Cursor.readProgram, hvalue]
    rfl
  · rw [Trace.ofParsing_eq, ← List.append_assoc, List.getLast?_concat, messages, List.length_map]

/-- A warning about the second token comes before the start of the first statement. -/
example : Trace.ofParsing "a ~; if (b) \x7bc\x7d" =
    [.unknownCharacter '~' 2, .statementStarted .ident 0, .statementStarted .illegal 2,
      .statementStarted .semicolon 3, .statementStarted .kwIf 5, .statementStarted .ident 13,
      .programParsed 2 2] := by
  cbv

end Frontend
