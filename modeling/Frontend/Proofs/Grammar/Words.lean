import Frontend.Proofs.Grammar.NodeSpans
import Frontend.Proofs.Grammar.Notices
import Frontend.Proofs.Grammar.Rounds
import Mathlib.Algebra.Ring.Parity
import Mathlib.Data.List.Nodup

/-!
# A reading depends on words

Offsets decide nothing while a text is read.  Its words can be read without the text, with their
numbers for places: the edges between which they stand are counted through, so that word `i` starts
at the edge `2 * i` and stops at the one after it.  The reading of any layout of the words is this
one, with each edge put to the offset where it lies in the text.
-/

namespace Frontend

/-! ## Words with their numbers for places -/

/-- The token of a word that has a number in place of an offset: its edges are the two after all
edges before. -/
def Word.numbered (index : Nat) (word : Word) : Token :=
  ⟨word.kind, word.literal, ⟨2 * index, 2 * index + 1⟩⟩

/-- The tokens of words that stand in no text, with their edges numbered from left to right. -/
def numbered (words : List Word) : List Token := words.mapIdx Word.numbered

/-- The same with the end token, which lies behind the last edge. -/
def numberedToEnd (words : List Word) : List Token :=
  numbered words ++ [Token.atEnd (2 * words.length)]

/-- The cursor on the first of some words. -/
def Cursor.ofWords (words : List Word) : Cursor := ⟨numbered words, 2 * words.length⟩

theorem getElem?_numbered (words : List Word) (index : Nat) :
    (numbered words)[index]? = words[index]?.map (Word.numbered index) :=
  List.getElem?_mapIdx

theorem span_of_numbered {words : List Word} {index : Nat} {token : Token}
    (htoken : (numbered words)[index]? = some token) :
    token.span = ⟨2 * index, 2 * index + 1⟩ := by
  rw [getElem?_numbered] at htoken
  obtain ⟨word, -, rfl⟩ := Option.map_eq_some_iff.mp htoken
  rfl

theorem word_mem_of_mem_numbered {words : List Word} {token : Token}
    (hmember : token ∈ numbered words) : token.word ∈ words := by
  obtain ⟨index, hindex, rfl⟩ := List.mem_mapIdx.mp hmember
  exact List.getElem_mem hindex

theorem numbered_inOrder (words : List Word) : InOrder (numbered words) where
  nonempty := by
    intro token hmember
    obtain ⟨index, htoken⟩ := List.mem_iff_getElem?.mp hmember
    rw [span_of_numbered htoken]
    exact Nat.lt_succ_self _
  apart := by
    rw [List.pairwise_iff_getElem]
    intro first second hfirst hsecond hless
    simp only [numbered, List.getElem_mapIdx, Word.numbered]
    omega

/-! ## Edges in a text -/

/-- The offset at which an edge lies.  The edges behind the last token lie where the text ends.  So
a reading of words tells all about a reading of any text with these words. -/
def edge (tokens : List Token) (stop number : Nat) : Nat :=
  match tokens[number / 2]? with
  | some token => if number % 2 = 0 then token.span.start else token.span.stop
  | none => stop

section

variable {tokens : List Token} {token : Token} {stop index : Nat}

theorem edge_start (htoken : tokens[index]? = some token) :
    edge tokens stop (2 * index) = token.span.start := by
  rw [edge, Nat.mul_div_cancel_left index Nat.two_pos, htoken]
  exact if_pos (Nat.mul_mod_right 2 index)

theorem edge_stop (htoken : tokens[index]? = some token) :
    edge tokens stop (2 * index + 1) = token.span.stop := by
  have hhalf : (2 * index + 1) / 2 = index := by omega
  rw [edge, hhalf, htoken]
  exact if_neg (by omega)

theorem edge_of_length_le (hindex : tokens.length ≤ index) :
    edge tokens stop (2 * index) = stop ∧ edge tokens stop (2 * index + 1) = stop := by
  have hhalf : (2 * index + 1) / 2 = index := by omega
  rw [edge, edge, Nat.mul_div_cancel_left index Nat.two_pos, hhalf,
    List.getElem?_eq_none hindex]
  exact ⟨rfl, rfl⟩

theorem edge_end (tokens : List Token) (stop : Nat) :
    edge tokens stop (2 * tokens.length) = stop :=
  (edge_of_length_le (Nat.le_refl _)).1

/-- The edges lie in the order of their numbers. -/
theorem edge_monotone (horder : InOrder tokens)
    (hwithin : ∀ token ∈ tokens, token.span.stop ≤ stop) : Monotone (edge tokens stop) := by
  refine monotone_nat_of_le_succ fun number => ?_
  obtain ⟨index, rfl | rfl⟩ := number.even_or_odd'
  · rcases Nat.lt_or_ge index tokens.length with hindex | hindex
    · have htoken := List.getElem?_eq_getElem hindex
      rw [edge_start htoken, edge_stop htoken]
      exact Nat.le_of_lt (horder.nonempty _ (List.getElem_mem hindex))
    · rw [(edge_of_length_le hindex).1, (edge_of_length_le hindex).2]
  · have hnext : 2 * index + 1 + 1 = 2 * (index + 1) := rfl
    rcases Nat.lt_or_ge index tokens.length with hindex | hindex
    · rw [edge_stop (List.getElem?_eq_getElem hindex), hnext]
      rcases Nat.lt_or_ge (index + 1) tokens.length with hlater | hlast
      · rw [edge_start (List.getElem?_eq_getElem hlater)]
        exact List.pairwise_iff_getElem.mp horder.apart _ _ _ _ (Nat.lt_succ_self index)
      · rw [(edge_of_length_le hlast).1]
        exact hwithin _ (List.getElem_mem hindex)
    · rw [(edge_of_length_le hindex).2, hnext, (edge_of_length_le (Nat.le_succ_of_le hindex)).1]

/-- Putting the edges to where they lie makes the tokens out of their words. -/
theorem numbered_moved (tokens : List Token) (stop : Nat) :
    (numbered (tokens.map Token.word)).map (Token.moved (edge tokens stop)) = tokens := by
  refine List.ext_getElem? fun index => ?_
  rw [List.getElem?_map, getElem?_numbered, List.getElem?_map]
  cases htoken : tokens[index]? with
  | none => rfl
  | some token =>
      have hspan : Span.moved (edge tokens stop) ⟨2 * index, 2 * index + 1⟩ = token.span := by
        rw [Span.moved, edge_start htoken, edge_stop htoken]
      exact congrArg some (congrArg (Token.mk token.kind token.literal) hspan)

end

/-! ## Reading words -/

/-- The tokens of a text beside their words. -/
def Joint.ofWords (lexer : Lexer) : Joint where
  move := edge lexer.tokens lexer.stop
  monotone := edge_monotone lexer.tokens_inOrder fun token hmember =>
    (lexer.tokens_within token hmember).2
  left := ⟨[], lexer.stop⟩
  right := ⟨[], 2 * lexer.tokens.length⟩

theorem Joint.ofWords_complete (lexer : Lexer) : (ofWords lexer).Complete :=
  ⟨rfl, rfl, (edge_end lexer.tokens lexer.stop).symm⟩

theorem Joint.ofWords_beside (lexer : Lexer) :
    (ofWords lexer).Beside (.ofLexer lexer) (.ofWords (lexer.tokens.map Token.word)) := by
  refine ⟨numbered (lexer.tokens.map Token.word), ?_, rfl, (List.append_nil _).symm, ?_⟩
  · exact (List.append_nil _).symm ▸ (numbered_moved lexer.tokens lexer.stop).symm
  · rw [Cursor.ofWords, List.length_map]
    rfl

/-- What is read from a text is what is read from its words, put to their places.  The words alone
decide what the tree is. -/
theorem readProgram_ofWords (source : String) :
    let tokens := (Lexer.ofText source).tokens
    let move := edge tokens (Lexer.ofText source).stop
    let reading := (Cursor.ofWords (tokens.map Token.word)).readProgram
    (readProgram source).program.statements =
        reading.program.statements.map (Statement.mapSpans (Span.moved move)) ∧
      (readProgram source).diagnostics = reading.diagnostics.map (Diagnostic.moved move) := by
  obtain ⟨-, hvalue, hdiagnostics⟩ := Grammar.programStatements_agrees
    (Joint.ofWords_complete _) _ _ (Joint.ofWords_beside (Lexer.ofText source))
  refine ⟨?_, hdiagnostics⟩
  rw [readProgram, Grammar.Cursor.readProgram_statements, hvalue]
  exact Option.getD_map (List.map (Statement.mapSpans _)) [] _

/-! ## Two layouts -/

/-- The span goes from the start of one of the tokens to the end of another one. -/
def Span.Passes (tokens : List Token) (first last : Nat) (span : Span) : Prop :=
  (∃ token, tokens[first]? = some token ∧ span.start = token.span.start) ∧
    ∃ token, tokens[last]? = some token ∧ span.stop = token.span.stop

/-- Each span goes from one token to another, and both are the same ones on either side.  Thus the
spans mark the same words, however these are laid out. -/
structure Span.Corresponds (left right : List Token) (span span' : Span) : Prop where
  placed : ∃ first last, first ≤ last ∧ span.Passes left first last
  same : ∀ first last, span.Passes left first last ↔ span'.Passes right first last

/-- The diagnostic carries the span of the token. -/
def Diagnostic.At (tokens : List Token) (index : Nat) (diagnostic : Diagnostic) : Prop :=
  ∃ token, tokens[index]? = some token ∧ diagnostic.span = some token.span

/-- The same problem with the same token on either side. -/
structure Diagnostic.Corresponds (left right : List Token) (diagnostic diagnostic' : Diagnostic) :
    Prop where
  problem : diagnostic.problem = diagnostic'.problem
  placed : ∃ index, diagnostic.At left index
  same : ∀ index, diagnostic.At left index ↔ diagnostic'.At right index

section

variable {β : Type} {f : Token → β} {tokens : List Token} {token token' : Token}

/-- Where no two tokens are alike in something, that tells the number of a token. -/
theorem index_unique {index index' : Nat} (hnodup : (tokens.map f).Nodup)
    (htoken : tokens[index]? = some token) (htoken' : tokens[index']? = some token')
    (hsame : f token = f token') : index = index' := by
  obtain ⟨hindex, -⟩ := List.getElem?_eq_some_iff.mp htoken
  refine (List.getElem?_inj (by rwa [List.length_map]) hnodup).mp ?_
  rw [List.getElem?_map, List.getElem?_map, htoken, htoken', Option.map_some, Option.map_some,
    hsame]

/-- No two tokens in order start or stop at the same place. -/
theorem InOrder.nodup (horder : InOrder tokens) :
    (tokens.map fun token => token.span.start).Nodup ∧
      (tokens.map fun token => token.span.stop).Nodup := by
  simp only [List.Nodup, List.pairwise_map]
  refine ⟨horder.apart.imp_of_mem ?_, horder.apart.imp_of_mem ?_⟩
  · intro left right hleft hright hapart
    have hlength := horder.nonempty left hleft
    omega
  · intro left right hleft hright hapart
    have hlength := horder.nonempty right hright
    omega

end

/-- No two tokens of a text have the same span, the end token included.  So a span tells a token. -/
theorem lex_nodup_spans (source : String) : ((lex source).map Token.span).Nodup := by
  have horder := (Lexer.ofText source).tokens_inOrder
  have hspans : ((Lexer.ofText source).tokens.map Token.span).Nodup :=
    List.Nodup.of_map Span.start (by rw [List.map_map]; exact horder.nodup.1)
  rw [lex, Lexer.tokensToEnd, List.map_append, List.map_singleton,
    ← List.concat_eq_append]
  refine hspans.concat fun hmember => ?_
  -- The end token is the only one without length.
  obtain ⟨token, htoken, hspan⟩ := List.mem_map.mp hmember
  have hlength := horder.nonempty token htoken
  rw [hspan] at hlength
  exact Nat.lt_irrefl _ hlength

theorem Span.Passes.unique {tokens : List Token} {first last first' last' : Nat} {span : Span}
    (horder : InOrder tokens) (hpasses : span.Passes tokens first last)
    (hpasses' : span.Passes tokens first' last') : first' = first ∧ last' = last := by
  obtain ⟨⟨token, htoken, hstart⟩, last, hlast, hstop⟩ := hpasses
  obtain ⟨⟨token', htoken', hstart'⟩, last', hlast', hstop'⟩ := hpasses'
  exact ⟨index_unique horder.nodup.1 htoken' htoken (hstart'.symm.trans hstart),
    index_unique horder.nodup.2 hlast' hlast (hstop'.symm.trans hstop)⟩

theorem Diagnostic.At.unique {source : String} {index index' : Nat} {diagnostic : Diagnostic}
    (hat : diagnostic.At (lex source) index) (hat' : diagnostic.At (lex source) index') :
    index' = index := by
  obtain ⟨token, htoken, hspan⟩ := hat
  obtain ⟨token', htoken', hspan'⟩ := hat'
  exact index_unique (lex_nodup_spans source) htoken' htoken
    (Option.some.inj (hspan'.symm.trans hspan))

/-! ### From words to layouts -/

section

variable {move : Nat → Nat} {tokens : List Token} {words : List Word} {source : String}

theorem Span.Passes.moved {first last : Nat} {span : Span}
    (hpasses : span.Passes tokens first last) :
    (span.moved move).Passes (tokens.map (Token.moved move)) first last := by
  obtain ⟨⟨token, htoken, hstart⟩, token', htoken', hstop⟩ := hpasses
  refine ⟨⟨token.moved move, ?_, congrArg move hstart⟩, token'.moved move, ?_,
    congrArg move hstop⟩
  · rw [List.getElem?_map, htoken, Option.map_some]
  · rw [List.getElem?_map, htoken', Option.map_some]

theorem Diagnostic.At.moved {index : Nat} {diagnostic : Diagnostic}
    (hat : diagnostic.At tokens index) :
    (diagnostic.moved move).At (tokens.map (Token.moved move)) index := by
  obtain ⟨token, htoken, hspan⟩ := hat
  refine ⟨token.moved move, by rw [List.getElem?_map, htoken, Option.map_some], ?_⟩
  rw [Diagnostic.moved, hspan]
  rfl

/-- What is bounded by words starts and stops with a word, and not with an earlier one. -/
theorem Span.Bounded.passes {span : Span} (hbounded : span.Bounded (numbered words)) :
    ∃ first last, first ≤ last ∧ span.Passes (numbered words) first last := by
  obtain ⟨hlength, ⟨head, hhead, hstart⟩, final, hfinal, hstop⟩ := hbounded
  obtain ⟨first, hfirst⟩ := List.mem_iff_getElem?.mp hhead
  obtain ⟨last, hlast⟩ := List.mem_iff_getElem?.mp hfinal
  refine ⟨first, last, ?_, ⟨head, hfirst, hstart⟩, final, hlast, hstop⟩
  rw [hstart, hstop, span_of_numbered hfirst, span_of_numbered hlast] at hlength
  dsimp only at hlength
  omega

/-- The tokens of a text are its words put to their places, and so is the end token. -/
theorem lex_eq_moved {source : String}
    (hwords : (Lexer.ofText source).tokens.map Token.word = words) :
    (numberedToEnd words).map
        (Token.moved (edge (Lexer.ofText source).tokens (Lexer.ofText source).stop)) =
      lex source := by
  subst hwords
  have hend : (Token.atEnd (2 * (Lexer.ofText source).tokens.length)).moved
      (edge (Lexer.ofText source).tokens (Lexer.ofText source).stop) =
        .atEnd (Lexer.ofText source).stop := by
    simp only [Token.atEnd, Token.moved, Span.empty, Span.moved, edge_end]
  rw [numberedToEnd, List.length_map, List.map_append, numbered_moved, List.map_singleton, hend]
  rfl

end

/-- In two layouts of the same words a span over them goes from the same token to the same one.  The
edges of the span have the same numbers in both. -/
theorem Span.Bounded.corresponds {left right : List Token} {leftStop rightStop : Nat} {span : Span}
    {words : List Word} (hleft : left.map Token.word = words)
    (hright : right.map Token.word = words) (hleftOrder : InOrder left)
    (hrightOrder : InOrder right) (hbounded : span.Bounded (numbered words)) :
    Span.Corresponds left right (span.moved (edge left leftStop))
      (span.moved (edge right rightStop)) := by
  obtain ⟨first, last, hle, hpasses⟩ := hbounded.passes
  have hpassesLeft : (span.moved (edge left leftStop)).Passes _ first last := hpasses.moved
  have hpassesRight : (span.moved (edge right rightStop)).Passes _ first last := hpasses.moved
  rw [← hleft, numbered_moved] at hpassesLeft
  rw [← hright, numbered_moved] at hpassesRight
  refine ⟨⟨first, last, hle, hpassesLeft⟩, fun first' last' => ⟨fun hother => ?_, fun hother => ?_⟩⟩
  · obtain ⟨rfl, rfl⟩ := hpassesLeft.unique hleftOrder hother
    exact hpassesRight
  · obtain ⟨rfl, rfl⟩ := hpassesRight.unique hrightOrder hother
    exact hpassesLeft

/-- In two layouts of the same words a diagnostic about them shows at the same token. -/
theorem Diagnostic.At.corresponds {left right : String} {index : Nat} {diagnostic : Diagnostic}
    {words : List Word} (hleft : (Lexer.ofText left).tokens.map Token.word = words)
    (hright : (Lexer.ofText right).tokens.map Token.word = words)
    (hat : diagnostic.At (numberedToEnd words) index) :
    Diagnostic.Corresponds (lex left) (lex right)
      (diagnostic.moved (edge (Lexer.ofText left).tokens (Lexer.ofText left).stop))
      (diagnostic.moved (edge (Lexer.ofText right).tokens (Lexer.ofText right).stop)) := by
  have hatLeft := lex_eq_moved hleft ▸ hat.moved
  have hatRight := lex_eq_moved hright ▸ hat.moved
  refine ⟨rfl, ⟨index, hatLeft⟩, fun index' => ⟨fun hother => ?_, fun hother => ?_⟩⟩
  · obtain rfl := hatLeft.unique hother
    exact hatRight
  · obtain rfl := hatRight.unique hother
    exact hatLeft

/-! ### The readings of two layouts -/

namespace Grammar

/-- All nodes of the tree of some words go from one of them to another one. -/
theorem readProgram_ofWords_spanned {lexer : Lexer} {words : List Word}
    (hwords : lexer.tokens.map Token.word = words) :
    Spanned (numbered words)
      (outlinesOfStatements (Cursor.ofWords words).readProgram.program.statements) := by
  have hreal : ∀ token ∈ numbered words, token.kind ≠ .eof := by
    intro token hmember
    have hword := word_mem_of_mem_numbered hmember
    rw [← hwords] at hword
    obtain ⟨other, hother, hsame⟩ := List.mem_map.mp hword
    rw [← token.word_kind, ← hsame]
    exact Lexer.kind_ne_eof_of_mem_tokens hother
  obtain ⟨statements, hvalue⟩ :=
    Option.isSome_iff_exists.mp (programStatements_value (.ofWords words))
  have hderives := (programStatements_delivers (.ofWords words) hreal).value statements hvalue
  rw [Cursor.readProgram_statements, hvalue]
  exact hderives.spanned (numbered_inOrder words)

/-- All diagnostics about some words show at one of them or behind the last one. -/
theorem readProgram_ofWords_at {words : List Word} {diagnostic : Diagnostic}
    (hmember : diagnostic ∈ (Cursor.ofWords words).readProgram.diagnostics) :
    ∃ index, diagnostic.At (numberedToEnd words) index := by
  obtain ⟨place, hleads, hspan⟩ := programStatements_locates _ diagnostic hmember
  obtain ⟨index, htoken⟩ := List.mem_iff_getElem?.mp hleads.current_mem
  exact ⟨index, place.current, htoken, hspan⟩

end Grammar

/-- Two layouts of the same words are read as the same tree, up to spans, and with the same
messages.  Each node goes from the same token to the same token in both, and each diagnostic shows
at the same token. -/
theorem parse_layout {left right : String}
    (hwords : (lex left).map Token.word = (lex right).map Token.word) :
    ∃ program program' errors,
      parse left false = .ok (program, errors) ∧ parse right false = .ok (program', errors) ∧
      SameUpToSpans program.statements program'.statements ∧
      List.Forall₂ (Outline.Alike (Span.Corresponds (lex left).dropLast (lex right).dropLast))
        (outlinesOfStatements program.statements) (outlinesOfStatements program'.statements) ∧
      List.Forall₂ (Diagnostic.Corresponds (lex left) (lex right))
        (readProgram left).diagnostics (readProgram right).diagnostics := by
  have htokens : (Lexer.ofText left).tokens.map Token.word =
      (Lexer.ofText right).tokens.map Token.word := by
    rw [← lex_dropLast, ← lex_dropLast, List.map_dropLast, List.map_dropLast, hwords]
  obtain ⟨hleft, hleftDiagnostics⟩ := readProgram_ofWords left
  obtain ⟨hright, hrightDiagnostics⟩ := readProgram_ofWords right
  rw [htokens] at hleft hleftDiagnostics
  generalize hread : (Lexer.ofText right).tokens.map Token.word = words at *
  have hspanned := Grammar.readProgram_ofWords_spanned hread
  generalize hstatements : (Cursor.ofWords words).readProgram.program.statements = statements at *
  refine ⟨(readProgram left).program, (readProgram right).program, _, parse_lenient left, ?_, ?_,
    ?_, ?_⟩
  · rw [parse_lenient, hleftDiagnostics, hrightDiagnostics, Grammar.messages_moved,
      Grammar.messages_moved]
  · rw [hleft, hright]
    exact .of_map _ _ statements
  · rw [hleft, hright, ← mapSpansOfStatements_eq_map, ← mapSpansOfStatements_eq_map, lex_dropLast,
      lex_dropLast]
    exact outlinesOfStatements_alike statements fun span hmember =>
      (hspanned span hmember).corresponds htokens hread (Lexer.tokens_inOrder _)
        (Lexer.tokens_inOrder _)
  · rw [hleftDiagnostics, hrightDiagnostics, List.forall₂_map_left_iff, List.forall₂_map_right_iff,
      List.forall₂_same]
    intro diagnostic hmember
    obtain ⟨index, hat⟩ := Grammar.readProgram_ofWords_at hmember
    exact hat.corresponds htokens hread

/-- A binding without a value before a call, and the same words spread out. -/
def unboundBeforeCall : String × String :=
  ("let x=;f(-1)", " let x /* é */ = ;\nf ( - 1 ) // end")

/-- The semicolon that was read for a value is the fourth token of both texts. -/
theorem parse_layout_unboundBeforeCall :
    (lex unboundBeforeCall.1).map Token.word = (lex unboundBeforeCall.2).map Token.word ∧
      ∃ program program',
        parse unboundBeforeCall.1 false =
          .ok (program, ["no prefix parse function for SEMICOLON"]) ∧
        parse unboundBeforeCall.2 false =
          .ok (program', ["no prefix parse function for SEMICOLON"]) ∧
        SameUpToSpans program.statements program'.statements ∧
        List.Forall₂ (Diagnostic.Corresponds (lex unboundBeforeCall.1) (lex unboundBeforeCall.2))
          [⟨.noOperand .semicolon, some ⟨6, 7⟩⟩] [⟨.noOperand .semicolon, some ⟨18, 19⟩⟩] := by
  have hwords : (lex unboundBeforeCall.1).map Token.word =
      (lex unboundBeforeCall.2).map Token.word := by decide +kernel
  have hdiagnostics : (readProgram unboundBeforeCall.1).diagnostics =
      [⟨.noOperand .semicolon, some ⟨6, 7⟩⟩] := by decide +kernel
  have hdiagnostics' : (readProgram unboundBeforeCall.2).diagnostics =
      [⟨.noOperand .semicolon, some ⟨18, 19⟩⟩] := by decide +kernel
  obtain ⟨program, program', errors, hleft, hright, hsame, -, hcorresponds⟩ := parse_layout hwords
  obtain ⟨-, rfl⟩ := parse_eq_ok hleft
  rw [hdiagnostics, hdiagnostics'] at hcorresponds
  rw [hdiagnostics] at hleft hright
  exact ⟨hwords, program, program', hleft, hright, hsame, hcorresponds⟩

end Frontend
