import Frontend.Proofs.Grammar.TreeSpans
import Frontend.Proofs.Grammar.Viable
import Frontend.Proofs.Grammar.Words

/-!
# The first fault

The first diagnostic about a text shows at the first token that cannot be right.  The words before
it can be completed to a program of the language, and no text that starts with them and the token
itself is read without a fault.
-/

namespace Frontend

open Grammar

section

variable {lexer : Lexer} {before : List Token} {place : Cursor}

/-- A token is found by the number of tokens before it. -/
theorem Lexer.getElem?_tokensToEnd (hpending : lexer.tokens = before ++ place.pending)
    (hstop : place.stop = lexer.stop) :
    lexer.tokensToEnd.1[before.length]? = some place.current := by
  rw [tokensToEnd, hpending, List.append_assoc, List.getElem?_append_right (Nat.le_refl _),
    Nat.sub_self, ← hstop]
  obtain ⟨_ | ⟨token, tokens⟩, stop⟩ := place
  · rfl
  · rfl

end

/-! ## The first diagnostic is not late -/

/-- A text beside words of which the first ones are the same.  The words stand in no text, so their
offsets are numbers of edges. -/
def Joint.sharing (lexer : Lexer) (words : List Word) (count : Nat) : Joint where
  move := edge lexer.tokens lexer.stop
  monotone := (Joint.ofWords lexer).monotone
  left := ⟨lexer.tokens.drop count, lexer.stop⟩
  right := ⟨(numbered words).drop count, 2 * words.length⟩

theorem numbered_take (words : List Word) (count : Nat) :
    (numbered words).take count = numbered (words.take count) := by
  refine List.ext_getElem? fun index => ?_
  simp only [List.getElem?_take, getElem?_numbered]
  split <;> rfl

theorem Joint.sharing_beside {lexer : Lexer} {words : List Word} {count : Nat}
    (hshared : (lexer.tokens.map Token.word).take count = words.take count) :
    (sharing lexer words count).Beside (.ofLexer lexer) (.ofWords words) := by
  refine ⟨(numbered words).take count, ?_, rfl, (List.take_append_drop count _).symm, rfl⟩
  have hmoved := congrArg (List.take count) (numbered_moved lexer.tokens lexer.stop)
  rw [← List.map_take, numbered_take, hshared, ← numbered_take] at hmoved
  rw [sharing, hmoved]
  exact (List.take_append_drop count _).symm

/-- The end token has the same word in all texts, and no other token has it.  So a text that starts
with it has no other token. -/
theorem lex_words (source : String) :
    (lex source).map Token.word =
      (Lexer.ofText source).tokens.map Token.word ++ [⟨.eof, ""⟩] := by
  rw [lex, Lexer.tokensToEnd, List.map_append]
  rfl

theorem Lexer.eof_not_mem_words (lexer : Lexer) : ⟨.eof, ""⟩ ∉ lexer.tokens.map Token.word := by
  intro hmember
  obtain ⟨token, htoken, hword⟩ := List.mem_map.mp hmember
  exact kind_ne_eof_of_mem_tokens htoken (congrArg Word.kind hword)

/-- Words that a text starts with are words of its tokens, up to the end. -/
theorem shared_words {source : String} {words : List Word} (hend : ⟨.eof, ""⟩ ∉ words)
    (hshared : words <+: (lex source).map Token.word) :
    words <+: (Lexer.ofText source).tokens.map Token.word := by
  rw [lex_words] at hshared
  refine (List.prefix_concat_iff.mp hshared).resolve_left ?_
  rintro rfl
  exact hend (List.mem_append_right _ (List.mem_singleton_self _))

theorem words_take_of_shared {source other : String} {count : Nat}
    (hcount : count ≤ (Lexer.ofText source).tokens.length)
    (hshared : ((lex source).take count).map Token.word <+: (lex other).map Token.word) :
    ((Lexer.ofText source).tokens.map Token.word).take count =
      ((Lexer.ofText other).tokens.map Token.word).take count := by
  have hlength : count ≤ ((Lexer.ofText source).tokens.map Token.word).length := by
    rwa [List.length_map]
  rw [List.map_take, lex_words, List.take_append_of_le_length hlength] at hshared
  have hend : ⟨.eof, ""⟩ ∉ ((Lexer.ofText source).tokens.map Token.word).take count :=
    fun hmember => (Lexer.ofText source).eof_not_mem_words (List.mem_of_mem_take hmember)
  have htake := List.prefix_iff_eq_take.mp (shared_words hend hshared)
  rwa [List.length_take_of_le hlength] at htake

theorem words_eq_of_shared {source other : String}
    (hshared : (lex source).map Token.word <+: (lex other).map Token.word) :
    (Lexer.ofText source).tokens.map Token.word = (Lexer.ofText other).tokens.map Token.word := by
  rw [lex_words source, lex_words other] at hshared
  rcases List.prefix_concat_iff.mp hshared with hsame | hbefore
  · exact List.append_cancel_right hsame
  · exact absurd (hbefore.subset (List.mem_append_right _ (List.mem_singleton_self _)))
      (Lexer.eof_not_mem_words _)

/-- A text that starts with the same tokens up to the first diagnostic is not free of faults.
Otherwise its own reading would be quiet beside this one. -/
theorem diagnostics_ne_nil_of_shared {source other : String} {first : Diagnostic}
    {later : List Diagnostic} {index : Nat}
    (hdiagnostics : (readProgram source).diagnostics = first :: later)
    (hat : first.At (lex source) index)
    (hshared : ((lex source).take (index + 1)).map Token.word <+: (lex other).map Token.word) :
    (readProgram other).diagnostics ≠ [] := by
  intro hquiet
  have hwords := (readProgram_ofWords other).2
  rw [hquiet] at hwords
  have hreading := List.map_eq_nil_iff.mp hwords.symm
  rcases Nat.lt_or_ge index (Lexer.ofText source).tokens.length with hindex | hindex
  · have hbeside := Joint.sharing_beside (words_take_of_shared hindex hshared)
    obtain ⟨place, hleads, hspan, hsize⟩ :=
      (programStatements_notices _ _).past hbeside hreading first
        (by rw [show (programStatements _).diagnostics = first :: later from hdiagnostics]; rfl)
    obtain ⟨before, hbefore⟩ := hleads.suffix
    have htoken := Lexer.getElem?_tokensToEnd hbefore.symm hleads.stop_eq
    have hsame := hat.unique ⟨place.current, htoken, hspan⟩
    have hlength := congrArg List.length hbefore
    simp only [List.length_append, Cursor.ofLexer] at hlength
    simp only [Joint.sharing, Cursor.size, List.length_drop] at hsize
    omega
  · have hall : (lex source).length ≤ index + 1 := by
      rw [lex, Lexer.tokensToEnd, List.length_append]
      exact Nat.succ_le_succ hindex
    rw [List.take_of_length_le hall] at hshared
    have hsource := (readProgram_ofWords source).2
    rw [words_eq_of_shared hshared, hreading, hdiagnostics] at hsource
    cases hsource

/-! ## Nor is it early -/

/-- The words of a text that is read without a fault are a program of the language, by the rules
alone. -/
theorem sentence_of_parse {source : String} {strict : Bool} {program : Program}
    (hparse : parse source strict = .ok (program, [])) :
    Sentence .statements ((Lexer.ofText source).tokens.map Token.word) := by
  have hreal : ∀ token ∈ (Lexer.ofText source).tokens, token.kind ≠ .eof :=
    fun _ hmember => Lexer.kind_ne_eof_of_mem_tokens hmember
  have hviable := programStatements_viable (.ofLexer (Lexer.ofText source)) hreal
  have hstop := programStatements_stop (.ofLexer (Lexer.ofText source))
  have hquiet := List.map_eq_nil_iff.mp (parse_eq_ok hparse).2.symm
  obtain ⟨tokens, hpending, -, hsentence⟩ := hviable.quiet hquiet
  have hleads := (programStatements_delivers (.ofLexer (Lexer.ofText source)) hreal).leads
  have hall : (Lexer.ofText source).tokens = tokens := by
    generalize (programStatements (.ofLexer (Lexer.ofText source))).stop = last at *
    obtain ⟨_ | ⟨token, later⟩, stop⟩ := last
    · exact hpending.trans (List.append_nil _)
    · exact absurd hstop (hreal token (hleads.suffix.subset List.mem_cons_self))
  exact hall ▸ hsentence

/-- The first diagnostic about a text shows at the first token that cannot be right.  The words
before it can be completed to a program of the language, if nesting has no bound, and no text that
starts with the same tokens up to it and with itself is read without a fault. -/
theorem readProgram_first_fault {source : String} {first : Diagnostic} {later : List Diagnostic}
    (hdiagnostics : (readProgram source).diagnostics = first :: later)
    (hproblem : first.problem ≠ .nestingTooDeep) :
    ∃ index, (∀ other, first.At (lex source) other ↔ other = index) ∧
      (∃ more, (∀ word ∈ more, word.IsComplete) ∧
        Sentence .statements (((lex source).take index).map Token.word ++ more)) ∧
      ∀ other strict program,
        ((lex source).take (index + 1)).map Token.word <+: (lex other).map Token.word →
          parse other strict ≠ .ok (program, []) := by
  have hreal : ∀ token ∈ (Lexer.ofText source).tokens, token.kind ≠ .eof :=
    fun _ hmember => Lexer.kind_ne_eof_of_mem_tokens hmember
  have hhead : first ∈ (programStatements (.ofLexer (Lexer.ofText source))).diagnostics.head? := by
    have hreading : (programStatements _).diagnostics = first :: later := hdiagnostics
    rw [hreading]
    rfl
  obtain ⟨before, place, hpending, hstop, hspan, hgood⟩ :=
    (programStatements_viable (.ofLexer (Lexer.ofText source)) hreal).loud first hhead
  have hat : first.At (lex source) before.length :=
    ⟨place.current, Lexer.getElem?_tokensToEnd hpending hstop, hspan⟩
  refine ⟨before.length, fun other => ⟨hat.unique, fun hsame => hsame ▸ hat⟩, ?_, ?_⟩
  · obtain ⟨more, hcomplete, hsentence⟩ := (hgood hproblem).words_isComplete
    have htake : (lex source).take before.length = before := by
      rw [lex, Lexer.tokensToEnd, show (Lexer.ofText source).tokens = _ from hpending,
        List.append_assoc, List.take_left]
    exact ⟨more, hcomplete, htake.symm ▸ hsentence⟩
  · intro other strict program hshared hparse
    exact diagnostics_ne_nil_of_shared hdiagnostics hat hshared
      (List.map_eq_nil_iff.mp (parse_eq_ok hparse).2.symm)

/-- The arguments of a call that is not closed, and a binding without a name after it. -/
def unclosedCall : String := "f(a, b; let 1"

/-- What is wrong first is wrong with the semicolon, which is the sixth token. -/
theorem readProgram_first_fault_unclosedCall :
    (readProgram unclosedCall).diagnostics =
        [⟨.missing .argumentsEnd .semicolon, some ⟨6, 7⟩⟩, ⟨.noOperand .semicolon, some ⟨6, 7⟩⟩,
          ⟨.missing (.boundName false) .int, some ⟨12, 13⟩⟩] ∧
      (∃ more, (∀ word ∈ more, word.IsComplete) ∧
        Sentence .statements (((lex unclosedCall).take 5).map Token.word ++ more)) ∧
      ∀ other strict program,
        ((lex unclosedCall).take 6).map Token.word <+: (lex other).map Token.word →
          parse other strict ≠ .ok (program, []) := by
  have hdiagnostics : (readProgram unclosedCall).diagnostics =
      [⟨.missing .argumentsEnd .semicolon, some ⟨6, 7⟩⟩, ⟨.noOperand .semicolon, some ⟨6, 7⟩⟩,
        ⟨.missing (.boundName false) .int, some ⟨12, 13⟩⟩] := by decide +kernel
  have htoken : (lex unclosedCall)[5]? = some ⟨.semicolon, ";", ⟨6, 7⟩⟩ := by decide +kernel
  obtain ⟨index, hat, hright, hwrong⟩ := readProgram_first_fault hdiagnostics (by simp)
  obtain rfl := (hat 5).mp ⟨_, htoken, rfl⟩
  exact ⟨hdiagnostics, hright, hwrong⟩

end Frontend
