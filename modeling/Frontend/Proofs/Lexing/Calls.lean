import Frontend.Proofs.Lexing.Parts

/-!
# One stream of tokens

A lexer is asked for its next token or for all the tokens that it has left, in any order and as
often as one likes.  Whatever is asked, the tokens come from one stream: those of the text, and from
then on the end token.  Each call goes on in the stream where the one before it has stopped, and a
call for all the tokens comes to as many calls for the next one as lead to an end token.
-/

namespace Frontend

theorem Token.kind_atEnd (stop : Nat) : (Token.atEnd stop).kind = .eof := rfl

namespace Lexer

/-- What a lexer is asked for: one token by `next_token`, or all of them by `tokenize`.  Calls of
both kinds may be mixed. -/
inductive Call where
  | next | tokensToEnd

/-- A call, the lexer before it, the tokens that it returned and the lexer after it.  Nothing else
of a lexer can be seen. -/
structure Reply where
  call : Call
  before : Lexer
  tokens : List Token
  after : Lexer

/-- The reply to a call. -/
def reply (lexer : Lexer) : Call → Reply
  | .next => ⟨.next, lexer, [lexer.next.1], lexer.next.2⟩
  | .tokensToEnd => ⟨.tokensToEnd, lexer, lexer.tokensToEnd.1, lexer.tokensToEnd.2⟩

/-- The replies to calls that are made on one lexer, one after another, so that each finds the lexer
as the one before left it. -/
def replies (lexer : Lexer) : List Call → List Reply
  | [] => []
  | call :: calls => lexer.reply call :: (lexer.reply call).after.replies calls

/-- The number of tokens that have been asked for after a call, if `given` of them had been before
it and the text has `count` tokens with the end token.  Each call asks for one at least. -/
def Call.asked (count given : Nat) : Call → Nat
  | .next => given + 1
  | .tokensToEnd => max count (given + 1)

/-- The number of tokens that have been asked for after some calls. -/
def asked (count given : Nat) : List Call → Nat
  | [] => given
  | call :: calls => asked count (call.asked count given) calls

/-- The tokens that a lexer gives one by one, up to a number of them.  Past the end it goes on to
give the end token. -/
def taken (lexer : Lexer) : Nat → List Token
  | 0 => []
  | count + 1 => lexer.next.1 :: lexer.next.2.taken count

variable {lexer after : Lexer} {token : Token}

/-! ## One token at a time -/

theorem next_of_next?_eq_none (hnext : lexer.next? = none) :
    lexer.next = (.atEnd lexer.stop, lexer.atEnd) := by
  rw [next, hnext, Option.getD_none]

theorem next_of_next? (hnext : lexer.next? = some (token, after)) :
    lexer.next = (token, after) := by
  rw [next, hnext, Option.getD_some]

/-- From the end on there is nothing but the end token, and the lexer stays where it is. -/
theorem next_atEnd (lexer : Lexer) : lexer.atEnd.next = (.atEnd lexer.stop, lexer.atEnd) := rfl

theorem kind_ne_eof_of_next? (hnext : lexer.next? = some (token, after)) : token.kind ≠ .eof := by
  have hmember : token ∈ lexer.tokens := by
    rw [tokens_of_next? hnext]
    exact List.mem_cons_self
  exact kind_ne_eof_of_mem_tokens hmember

/-- The next token is an end token at the end, and a token of the text before it. -/
theorem next_cases (lexer : Lexer) :
    lexer.next? = none ∧ lexer.next = (.atEnd lexer.stop, lexer.atEnd) ∨
      ∃ token after, lexer.next? = some (token, after) ∧ lexer.next = (token, after) ∧
        token.kind ≠ .eof := by
  cases hstep : lexer.next? with
  | none => exact .inl ⟨rfl, next_of_next?_eq_none hstep⟩
  | some found => exact .inr ⟨_, _, rfl, next_of_next? hstep, kind_ne_eof_of_next? hstep⟩

theorem tokensToEnd_of_next?_eq_none (hnext : lexer.next? = none) :
    lexer.tokensToEnd = ([.atEnd lexer.stop], lexer.atEnd) := by
  rw [tokensToEnd, tokens_of_next?_eq_none hnext, List.nil_append]

theorem tokensToEnd_of_next? (hnext : lexer.next? = some (token, after)) :
    lexer.tokensToEnd = (token :: after.tokensToEnd.1, after.tokensToEnd.2) := by
  have hstop : after.stop = lexer.stop := (span_of_next? hnext).2.2.2
  rw [tokensToEnd, tokensToEnd, tokens_of_next? hnext, atEnd, atEnd, hstop, List.cons_append]

/-- All the tokens are taken by taking the next one until it is an end token, as the loop of
`tokenize` does. -/
theorem tokensToEnd_eq (lexer : Lexer) :
    lexer.tokensToEnd =
      if lexer.next.1.kind = .eof then ([lexer.next.1], lexer.next.2)
      else (lexer.next.1 :: lexer.next.2.tokensToEnd.1, lexer.next.2.tokensToEnd.2) := by
  rcases next_cases lexer with ⟨hend, hnext⟩ | ⟨token, after, hstep, hnext, hkind⟩
  · rw [hnext, if_pos (Token.kind_atEnd _)]
    exact tokensToEnd_of_next?_eq_none hend
  · rw [hnext, if_neg hkind]
    exact tokensToEnd_of_next? hstep

theorem taken_add (lexer : Lexer) (first second : Nat) :
    lexer.taken (first + second) = lexer.taken first ++ (lexer.skip first).taken second := by
  induction first generalizing lexer with
  | zero => rw [Nat.zero_add, taken, skip, List.nil_append]
  | succ first ih => rw [Nat.succ_add, taken, taken, skip, ih, List.cons_append]

theorem skip_add (lexer : Lexer) (first second : Nat) :
    lexer.skip (first + second) = (lexer.skip first).skip second := by
  induction first generalizing lexer with
  | zero => rw [Nat.zero_add, skip]
  | succ first ih => rw [Nat.succ_add, skip, skip, ih]

/-- All the tokens are as many single ones. -/
theorem tokensToEnd_eq_taken (lexer : Lexer) :
    lexer.tokensToEnd =
      (lexer.taken (lexer.tokens.length + 1), lexer.skip (lexer.tokens.length + 1)) := by
  -- Each round of the loop in `tokensToEnd_eq` is one step of the lexer.
  fun_induction tokens lexer with
  | case1 lexer hend =>
      have hnext := next_of_next?_eq_none hend
      rw [tokensToEnd_eq, hnext, if_pos (Token.kind_atEnd _),
        List.length_nil, taken, skip, taken, skip, hnext]
  | case2 lexer token after hstep ih =>
      have hnext := next_of_next? hstep
      rw [tokensToEnd_eq, hnext, if_neg (kind_ne_eof_of_next? hstep), List.length_cons, taken, skip,
        hnext, ih]

/-! ## The stream -/

theorem taken_atEnd (lexer : Lexer) (count : Nat) :
    lexer.atEnd.taken count = List.replicate count (.atEnd lexer.stop) := by
  induction count with
  | zero => rfl
  | succ count ih => rw [taken, next_atEnd, ih, List.replicate_succ]

/-- The stream of a lexer is its tokens and then end tokens.  What it gives depends on nothing but
how much was asked for. -/
theorem taken_eq (lexer : Lexer) (count : Nat) :
    lexer.taken count =
      lexer.tokensToEnd.1.take count ++
        List.replicate (count - lexer.tokensToEnd.1.length) (.atEnd lexer.stop) := by
  induction count generalizing lexer with
  | zero => rw [taken, List.take_zero, Nat.zero_sub, List.replicate_zero, List.append_nil]
  | succ count ih =>
      rcases next_cases lexer with ⟨hend, hnext⟩ | ⟨token, after, hstep, hnext, -⟩
      · rw [taken, hnext, taken_atEnd, tokensToEnd_of_next?_eq_none hend]
        simp
      · have hstop : after.stop = lexer.stop := (span_of_next? hstep).2.2.2
        rw [taken, hnext, ih, tokensToEnd_of_next? hstep, hstop]
        simp

theorem length_tokensToEnd (lexer : Lexer) :
    lexer.tokensToEnd.1.length = lexer.tokens.length + 1 := by
  rw [tokensToEnd, List.length_append, List.length_singleton]

/-- Short of the end token a stream has the tokens of the lexer. -/
theorem taken_of_le {count : Nat} (hcount : count ≤ lexer.tokens.length) :
    lexer.taken count = lexer.tokens.take count := by
  have hfull : count - lexer.tokensToEnd.1.length = 0 := by
    rw [length_tokensToEnd]
    omega
  rw [taken_eq, hfull, List.replicate_zero, List.append_nil, tokensToEnd,
    List.take_append_of_le_length hcount]

theorem atEnd_mem_taken {count : Nat} (hcount : lexer.tokens.length < count) :
    .atEnd lexer.stop ∈ lexer.taken count := by
  obtain ⟨more, rfl⟩ := Nat.exists_eq_add_of_le hcount
  have hall : lexer.tokensToEnd.1 = lexer.taken (lexer.tokens.length + 1) :=
    congrArg Prod.fst (tokensToEnd_eq_taken lexer)
  rw [taken_add, ← hall]
  exact List.mem_append_left _ (List.mem_append_right _ List.mem_cons_self)

/-- There is no end token among the first tokens of a stream just if the lexer has more of them. -/
theorem forall_mem_taken_kind_ne_eof_iff (lexer : Lexer) (count : Nat) :
    (∀ token ∈ lexer.taken count, token.kind ≠ .eof) ↔ count < lexer.tokensToEnd.1.length := by
  rw [length_tokensToEnd, Nat.lt_succ_iff]
  constructor
  · intro hkinds
    by_contra hpast
    have hend := atEnd_mem_taken (Nat.lt_of_not_le hpast)
    exact hkinds (.atEnd lexer.stop) hend (Token.kind_atEnd _)
  · intro hcount token hmember
    rw [taken_of_le hcount] at hmember
    exact kind_ne_eof_of_mem_tokens (List.mem_of_mem_take hmember)

/-! ## Calls -/

/-- A call goes on in the stream. -/
theorem taken_reply (lexer : Lexer) (given : Nat) (call : Call) :
    lexer.taken given ++ ((lexer.skip given).reply call).tokens =
        lexer.taken (call.asked lexer.tokensToEnd.1.length given) ∧
      ((lexer.skip given).reply call).after =
        lexer.skip (call.asked lexer.tokensToEnd.1.length given) := by
  cases call with
  | next => exact ⟨(taken_add lexer given 1).symm, (skip_add lexer given 1).symm⟩
  | tokensToEnd =>
      have hasked : max lexer.tokensToEnd.1.length (given + 1) =
          given + ((lexer.skip given).tokens.length + 1) := by
        rw [length_tokensToEnd, tokens_skip, List.length_drop]
        omega
      rw [Call.asked, hasked, taken_add, skip_add, reply, tokensToEnd_eq_taken (lexer.skip given)]
      exact ⟨rfl, rfl⟩

/-- Calls go on in the stream, each where the one before it has stopped.  By induction on the
calls. -/
theorem taken_replies (lexer : Lexer) (given : Nat) (calls : List Call) :
    lexer.taken given ++ ((lexer.skip given).replies calls).flatMap Reply.tokens =
      lexer.taken (asked lexer.tokensToEnd.1.length given calls) := by
  induction calls generalizing given with
  | nil => rw [replies, List.flatMap_nil, List.append_nil, asked]
  | cons call calls ih =>
      obtain ⟨htokens, hafter⟩ := taken_reply lexer given call
      calc lexer.taken given ++ ((lexer.skip given).replies (call :: calls)).flatMap Reply.tokens
          = lexer.taken given ++ ((lexer.skip given).reply call).tokens ++
              (((lexer.skip given).reply call).after.replies calls).flatMap Reply.tokens := by
            rw [replies, List.flatMap_cons, List.append_assoc]
        _ = lexer.taken (call.asked lexer.tokensToEnd.1.length given) ++
              ((lexer.skip (call.asked lexer.tokensToEnd.1.length given)).replies calls).flatMap
                Reply.tokens := by
            rw [htokens, hafter]
        _ = lexer.taken (asked lexer.tokensToEnd.1.length given (call :: calls)) := by
            rw [ih, asked]

namespace Reply

/-- What a reply promises if the text ends at `stop`, wherever the lexer was before. -/
structure Orderly (stop : Nat) (reply : Reply) : Prop where
  /-- All the tokens are closed by an end token, and there is no other one among them. -/
  closed : reply.call = .tokensToEnd →
    ∃ tokens, reply.tokens = tokens ++ [.atEnd stop] ∧ ∀ token ∈ tokens, token.kind ≠ .eof
  /-- Short of the end there is one token, and the lexer has moved on to where it stops. -/
  onward : (∀ token ∈ reply.tokens, token.kind ≠ .eof) →
    ∃ token, reply.tokens = [token] ∧ reply.before.offset < reply.after.offset ∧
      reply.after.offset = token.span.stop
  /-- With an end token the lexer has come to the end. -/
  ended : (∃ token ∈ reply.tokens, token.kind = .eof) → reply.after = ⟨stop, []⟩

end Reply

theorem stop_reply (lexer : Lexer) (call : Call) : (lexer.reply call).after.stop = lexer.stop := by
  cases call with
  | next => exact stop_skip lexer 1
  | tokensToEnd => rfl

theorem next_orderly (lexer : Lexer) : (lexer.reply .next).Orderly lexer.stop := by
  rcases next_cases lexer with ⟨-, hnext⟩ | ⟨token, after, hstep, hnext, hkind⟩
  · rw [reply, hnext]
    exact ⟨nofun, fun hkinds => absurd (Token.kind_atEnd _) (hkinds _ List.mem_cons_self),
      fun _ => rfl⟩
  · obtain ⟨hstart, hlength, hoffset, -⟩ := span_of_next? hstep
    have honward : lexer.offset < after.offset := by omega
    rw [reply, hnext]
    refine ⟨nofun, fun _ => ⟨token, rfl, honward, hoffset⟩, fun hend => ?_⟩
    obtain ⟨other, hmember, heof⟩ := hend
    obtain rfl : other = token := List.mem_singleton.mp hmember
    exact absurd heof hkind

theorem tokensToEnd_orderly (lexer : Lexer) : (lexer.reply .tokensToEnd).Orderly lexer.stop := by
  have hend : Token.atEnd lexer.stop ∈ (lexer.reply .tokensToEnd).tokens :=
    List.mem_append_right _ List.mem_cons_self
  refine ⟨fun _ => ⟨lexer.tokens, rfl, ?_⟩, fun hkinds => ?_, fun _ => rfl⟩
  · exact fun token hmember => kind_ne_eof_of_mem_tokens hmember
  · exact absurd (Token.kind_atEnd _) (hkinds _ hend)

theorem replies_orderly (lexer : Lexer) (calls : List Call) :
    ∀ reply ∈ lexer.replies calls, reply.Orderly lexer.stop := by
  induction calls generalizing lexer with
  | nil => nofun
  | cons call calls ih =>
      refine List.forall_mem_cons.mpr ⟨?_, ?_⟩
      · cases call with
        | next => exact next_orderly lexer
        | tokensToEnd => exact tokensToEnd_orderly lexer
      · rw [← stop_reply lexer call]
        exact ih (lexer.reply call).after

end Lexer

/-- Whatever one lexer is asked for, it returns the tokens of its text in their order, as many as
are asked for, and after the last one an end token for each one more.  A call for all the tokens
returns an end token last and no other one, and a call that returns none takes the lexer on, to the
end of the token that it returns. -/
theorem lexer_one_stream (source : String) (calls : List Lexer.Call) :
    let stop := byteLength source.toList
    let replies := (Lexer.ofText source).replies calls
    let returned := replies.flatMap Lexer.Reply.tokens
    let asked := Lexer.asked (lex source).length 0 calls
    returned =
        (lex source).take asked ++ List.replicate (asked - (lex source).length) (.atEnd stop) ∧
      ((∀ token ∈ returned, token.kind ≠ .eof) ↔ asked < (lex source).length) ∧
      ∀ reply ∈ replies, reply.Orderly stop := by
  intro stop replies returned asked
  have hstop : (Lexer.ofText source).stop = stop := Lexer.stop_ofText source
  have htaken : returned = (Lexer.ofText source).taken asked :=
    Lexer.taken_replies (Lexer.ofText source) 0 calls
  refine ⟨?_, ?_, ?_⟩
  · rw [htaken, Lexer.taken_eq, hstop]
    rfl
  · rw [htaken]
    exact Lexer.forall_mem_taken_kind_ne_eof_iff (Lexer.ofText source) asked
  · rw [← hstop]
    exact Lexer.replies_orderly (Lexer.ofText source) calls

/-- The comment after the name is not closed, and there is nothing behind it. -/
example : ((Lexer.ofText "x /*").replies [.next, .tokensToEnd, .next]).map Lexer.Reply.tokens =
    [[⟨.ident, "x", ⟨0, 1⟩⟩], [.atEnd 4], [.atEnd 4]] := by
  cbv

end Frontend
