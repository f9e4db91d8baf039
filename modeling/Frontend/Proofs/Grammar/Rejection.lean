import Frontend.Proofs.Grammar.Adequacy
import Frontend.Proofs.Grammar.Quotations
import Frontend.Proofs.Text.SingleLines

/-!
# The text of a rejection

A strict reading of a text with faults is rejected with a text that tells how many there are and
lists their messages.  Every message is a single line, because all it quotes are names and integers,
so the lines of the rejection are those of the list and the messages can be read back from them.
-/

namespace Frontend

/-! ## Messages -/

/-- A text is quoted inside a line. -/
theorem IsLine.quote {front back text : String} (hfront : IsLine front) (hback : IsLine back)
    (hquoted : ∀ quoted ∈ [text], IsLine quoted) : IsLine (front ++ text ++ back) :=
  (hfront.append (List.forall_mem_singleton.mp hquoted)).append hback

/-- The wording of an expectation is a line if what it quotes is. -/
theorem Expectation.message_isLine {what : Expectation}
    (hquoted : ∀ text ∈ what.quoted, IsLine text) : IsLine what.message := by
  cases what with
  | boundName constant => cases constant <;> decide
  | boundValue constant name =>
      have hkeyword : IsLine (bindingKeyword constant) := by cases constant <;> decide
      have hopening : IsLine ("expected `=` after `" ++ name ++ "` in ") :=
        .quote (by decide) (by decide) hquoted
      exact (hopening.append hkeyword).append (by decide)
  | boundEnd name => exact .quote (by decide) (by decide) hquoted
  | functionParameters name => exact .quote (by decide) (by decide) hquoted
  | functionBody name => exact .quote (by decide) (by decide) hquoted
  | propertyColon key => exact .quote (by decide) (by decide) hquoted
  | _ => decide

/-- The message of a problem is a line if what it quotes is.  All its other words are fixed, and
none of them has a line feed. -/
theorem Problem.message_isLine {problem : Problem} (hquotes : problem.QuotesOnly IsLine) :
    IsLine problem.message := by
  cases problem with
  | missing what found =>
      exact ((Expectation.message_isLine hquotes).append (by decide)).append (.kindName found)
  | constantWithoutValue name => exact .quote (by decide) (by decide) hquotes
  | noOperand found => exact .append (by decide) (.kindName found)
  | integerTooLarge digits => exact .quote (by decide) (by decide) hquotes
  | nestingTooDeep =>
      exact .append (.append (by decide) (.of_isNumeral (Numeral.ofNat_isNumeral _))) (by decide)
  | stated text => exact List.forall_mem_singleton.mp hquotes
  | _ => decide

theorem messages_areLines (text : String) :
    ∀ message ∈ messages (readProgram text).diagnostics, IsLine message := by
  refine List.forall_mem_map.mpr fun diagnostic hmember => Problem.message_isLine ?_
  intro quoted hquoted
  obtain ⟨token, htoken, hkind, rfl⟩ := readProgram_quotes text diagnostic hmember quoted hquoted
  have hlexeme := Lexer.isLexeme_of_mem_tokens htoken
  rcases hkind with hname | hnumeral
  · exact .of_isName (Token.isName_of_kind hlexeme hname)
  · exact .of_isNumeral (Token.isNumeral_of_kind hlexeme hnumeral)

/-! ## Rejections -/

/-- The line that tells how many messages there are, with which the text of `ParseError` starts. -/
def Rejection.heading (rejection : Rejection) : String :=
  "parser has " ++ Numeral.ofNat rejection.messages.length ++ " errors"

/-- The line of a message, as the text of `ParseError` lists it. -/
def errorLine (message : String) : String := "ERROR: " ++ message

theorem Rejection.heading_isLine (rejection : Rejection) : IsLine rejection.heading :=
  .append (.append (by decide) (.of_isNumeral (Numeral.ofNat_isNumeral _))) (by decide)

/-- The messages that the text of a rejection lists: all lines but the heading, the empty line after
it and the empty rest at the end, each without its label. -/
def listedMessages (text : String) : List String :=
  ((pieces '\n' text.toList).drop 2).dropLast.map fun line =>
    String.ofList (line.drop "ERROR: ".length)

namespace Rejection

variable {rejection : Rejection}

/-- Messages of one line each have a line each, between the heading and the rest at the end. -/
theorem pieces_message (hlines : ∀ message ∈ rejection.messages, IsLine message) :
    pieces '\n' rejection.message.toList =
      rejection.heading.toList :: [] ::
        (rejection.messages.map fun message => (errorLine message).toList) ++ [[]] := by
  have hlist : ∀ message ∈ rejection.messages, IsLine (errorLine message) :=
    fun message hmember => .append (by decide) (hlines message hmember)
  have hbreak : " errors\n\n" = " errors" ++ "\n\n" := by decide
  have htext : rejection.message.toList =
      rejection.heading.toList ++ '\n' :: ([] ++ '\n' ::
        (joined "" (rejection.messages.map fun message => errorLine message ++ "\n")).toList) := by
    rw [message, hbreak, ← String.append_assoc, String.toList_append, String.toList_append,
      List.append_assoc]
    rfl
  rw [htext, pieces_line rejection.heading_isLine, pieces_line List.not_mem_nil,
    pieces_joined_lines hlist]
  rfl

theorem listedMessages_message (hlines : ∀ message ∈ rejection.messages, IsLine message) :
    listedMessages rejection.message = rejection.messages := by
  have hunlabelled (message : String) :
      String.ofList ((errorLine message).toList.drop "ERROR: ".length) = message := by
    rw [errorLine, String.toList_append, ← String.length_toList, List.drop_left,
      String.ofList_toList]
  rw [listedMessages, pieces_message hlines, List.cons_append, List.cons_append,
    List.drop_succ_cons, List.drop_succ_cons, List.drop_zero, List.dropLast_concat, List.map_map]
  exact (List.map_congr_left fun message _ => hunlabelled message).trans (List.map_id _)

end Rejection

theorem parse_strict_eq_error {text : String} {rejection : Rejection} :
    parse text true = .error rejection ↔
      messages (readProgram text).diagnostics ≠ [] ∧
        rejection = ⟨messages (readProgram text).diagnostics⟩ := by
  cases hmessages : messages (readProgram text).diagnostics with
  | nil => simp [parse, verdict, hmessages, Except.map]
  | cons first rest => simp [parse, verdict, hmessages, Except.map, eq_comm]

/-- A text is rejected if and only if there are messages about it, and then the lines of the
rejection are a heading, an empty line and one line for each message, with an empty rest.  The
messages can be read back from it. -/
theorem rejection_lists_messages (source : String) :
    ∃ program errors, parse source false = .ok (program, errors) ∧
      ((∃ rejection, parse source true = .error rejection) ↔ errors ≠ []) ∧
      ∀ rejection, parse source true = .error rejection →
        pieces '\n' rejection.message.toList =
          ("parser has " ++ Numeral.ofNat errors.length ++ " errors").toList :: [] ::
            (errors.map fun message => ("ERROR: " ++ message).toList) ++ [[]] ∧
        listedMessages rejection.message = errors := by
  refine ⟨_, _, parse_lenient source, ?_, ?_⟩
  · simp [parse_strict_eq_error]
  · intro rejection hrejected
    obtain ⟨-, rfl⟩ := parse_strict_eq_error.mp hrejected
    exact ⟨Rejection.pieces_message (messages_areLines source),
      Rejection.listedMessages_message (messages_areLines source)⟩

end Frontend
