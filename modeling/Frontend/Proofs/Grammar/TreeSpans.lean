import Frontend.Proofs.Grammar.Coverage
import Frontend.Proofs.Grammar.Soundness
import Frontend.Proofs.Lexing.Lossless
import Frontend.Proofs.Tree.Outline
import Mathlib.Data.List.Infix

/-!
# The spans of a tree

Every tree that is read from a text has a sound outline, with errors in the text or without.  A part
spans the tokens it was derived from.  The parts under it were derived from pieces of these tokens,
so they lie within it, and parts of pieces in a row follow one another.
-/

namespace Frontend

/-- A span that starts first and one that stops last are covered from the one to the other. -/
theorem Span.cover_of_le {left right : Span} (hstart : left.start ≤ right.start)
    (hstop : left.stop ≤ right.stop) : left.cover right = ⟨left.start, right.stop⟩ := by
  rw [cover, Nat.min_eq_left hstart, Nat.max_eq_right hstop]

namespace Span.Bounded

variable {span left right : Span} {tokens more front back : List Token}

theorem mono (hbounded : span.Bounded tokens) (hsubset : tokens ⊆ more) : span.Bounded more := by
  obtain ⟨hlength, ⟨first, hfirst, hstart⟩, ⟨last, hlast, hstop⟩⟩ := hbounded
  exact ⟨hlength, ⟨first, hsubset hfirst, hstart⟩, ⟨last, hsubset hlast, hstop⟩⟩

/-- What is bounded by tokens lies within the span over them. -/
theorem within (hbounded : span.Bounded tokens) (horder : InOrder tokens) :
    span.Within (Grammar.spanOver tokens) := by
  obtain ⟨-, ⟨first, hfirst, hstart⟩, ⟨last, hlast, hstop⟩⟩ := hbounded
  rw [Within, hstart, hstop]
  exact ⟨(Grammar.inside_spanOver horder hfirst).1, (Grammar.inside_spanOver horder hlast).2⟩

/-- What is bounded by the first of some tokens stops before what is bounded by the others. -/
theorem stop_le_start (hleft : left.Bounded front) (hright : right.Bounded back)
    (horder : InOrder (front ++ back)) : left.stop ≤ right.start := by
  obtain ⟨last, hlast, hstop⟩ := hleft.stop_mem
  obtain ⟨first, hfirst, hstart⟩ := hright.start_mem
  rw [hstop, hstart]
  exact horder.stop_le_start hlast hfirst

end Span.Bounded

namespace Grammar

/-- Tokens that stand in a row in the text, as those of any part do. -/
def Taken (source : String) (tokens : List Token) : Prop :=
  tokens <:+: (lex source).dropLast

namespace Taken

variable {source : String} {token : Token} {tokens front back : List Token}

theorem left (htaken : Taken source (front ++ back)) : Taken source front :=
  (List.prefix_append front back).isInfix.trans htaken

theorem right (htaken : Taken source (front ++ back)) : Taken source back :=
  (List.suffix_append front back).isInfix.trans htaken

theorem tail (htaken : Taken source (token :: tokens)) : Taken source tokens :=
  (List.suffix_cons token tokens).isInfix.trans htaken

theorem order (htaken : Taken source tokens) : InOrder tokens := by
  obtain ⟨before, after, hsplit⟩ := htaken
  have horder := Lexer.tokens_inOrder (Lexer.ofText source)
  rw [← lex_dropLast, ← hsplit] at horder
  exact horder.left.right

theorem isLexeme (htaken : Taken source tokens) (hmember : token ∈ tokens) :
    token.word.IsLexeme := by
  have hlexed := htaken.subset hmember
  rw [lex_dropLast] at hlexed
  exact Lexer.isLexeme_of_mem_tokens hlexed

theorem slice? (htaken : Taken source tokens) (hmember : token ∈ tokens) :
    token.span.slice? source.toList = some token.literal.toList :=
  slice?_of_mem_lex (List.dropLast_subset _ (htaken.subset hmember))

theorem bounded (htaken : Taken source tokens) (hsome : tokens ≠ []) :
    (spanOver tokens).Bounded tokens := by
  obtain ⟨first, rest, rfl⟩ := List.exists_cons_of_ne_nil hsome
  have hfirst := htaken.order.nonempty first List.mem_cons_self
  have hinside := inside_spanOver htaken.order List.mem_cons_self
  refine ⟨?_, ⟨first, List.mem_cons_self, rfl⟩, ⟨_, List.getLast_mem hsome, rfl⟩⟩
  exact Nat.lt_of_lt_of_le hfirst hinside.2

end Taken

/-- Sound outlines of parts that were read one after another from the tokens, in the same order and
without overlap. -/
structure Laid (source : String) (tokens : List Token) (outlines : List Outline) : Prop where
  bounded : ∀ outline ∈ outlines, outline.span.Bounded tokens
  apart : Apart outlines
  sound : ∀ outline ∈ outlines, outline.Sound source

namespace Laid

variable {source : String} {token : Token} {tokens more front back : List Token}
variable {outlines left right : List Outline} {mark : Mark}

theorem nil : Laid source tokens [] := ⟨nofun, .nil, nofun⟩

theorem singleton {outline : Outline} (hbounded : outline.span.Bounded tokens)
    (hsound : outline.Sound source) : Laid source tokens [outline] :=
  ⟨List.forall_mem_singleton.mpr hbounded, List.pairwise_singleton _ _,
    List.forall_mem_singleton.mpr hsound⟩

theorem mono (hlaid : Laid source tokens outlines) (hsubset : tokens ⊆ more) :
    Laid source more outlines :=
  ⟨fun outline hmember => (hlaid.bounded outline hmember).mono hsubset, hlaid.apart, hlaid.sound⟩

theorem cons (token : Token) (hlaid : Laid source tokens outlines) :
    Laid source (token :: tokens) outlines :=
  hlaid.mono (List.subset_cons_self token tokens)

theorem concat (token : Token) (hlaid : Laid source tokens outlines) :
    Laid source (tokens ++ [token]) outlines :=
  hlaid.mono (List.subset_append_left tokens [token])

/-- Parts of one piece of the tokens stand before those of the next piece. -/
theorem append (htaken : Taken source (front ++ back)) (hleft : Laid source front left)
    (hright : Laid source back right) : Laid source (front ++ back) (left ++ right) where
  bounded := by
    have hfront := (hleft.mono (List.subset_append_left front back)).bounded
    have hback := (hright.mono (List.subset_append_right front back)).bounded
    exact List.forall_mem_append.mpr ⟨hfront, hback⟩
  apart := List.pairwise_append.mpr ⟨hleft.apart, hright.apart, fun first hfirst second hsecond =>
    (hleft.bounded first hfirst).stop_le_start (hright.bounded second hsecond) htaken.order⟩
  sound := List.forall_mem_append.mpr ⟨hleft.sound, hright.sound⟩

/-- A node over the tokens under which lies what was read from them. -/
theorem node (htaken : Taken source tokens) (hsome : tokens ≠ [])
    (hreads : mark.Reads source (spanOver tokens)) (hmark : mark ≠ .shorthand)
    (hlaid : Laid source tokens outlines) :
    Laid source tokens [.node (spanOver tokens) mark outlines] := by
  have hbounded := htaken.bounded hsome
  apply singleton hbounded
  constructor
  · exact hbounded.mono htaken.subset
  · exact hreads
  · intro outline hmember
    exact (hlaid.bounded outline hmember).within htaken.order
  · intro _
    exact hlaid.apart
  · intro hshorthand
    exact absurd hshorthand hmark
  · exact hlaid.sound

theorem plain (htaken : Taken source tokens) (hsome : tokens ≠ [])
    (hlaid : Laid source tokens outlines) :
    Laid source tokens [.node (spanOver tokens) .plain outlines] :=
  hlaid.node htaken hsome trivial nofun

theorem verbatim (htaken : Taken source [token]) (hlaid : Laid source [token] outlines) :
    Laid source [token] [.node token.span (.verbatim token.literal) outlines] :=
  hlaid.node htaken (List.cons_ne_nil _ _) (htaken.slice? List.mem_cons_self) nofun

/-- The node of a token that is a name. -/
theorem name (htaken : Taken source [token]) : Laid source [token] [(nameOf token).outline] :=
  verbatim htaken nil

/-- A name before what was read from the other tokens. -/
theorem nameCons (htaken : Taken source (token :: tokens)) (hlaid : Laid source tokens outlines) :
    Laid source (token :: tokens) ((nameOf token).outline :: outlines) := by
  have hsplit : Taken source ([token] ++ tokens) := htaken
  exact append hsplit (name hsplit.left) hlaid

/-- The two nodes of a shorthand are read from the same token. -/
theorem shorthand {key value : Outline} (htaken : Taken source [token])
    (hkeySpan : key.span = token.span) (hvalueSpan : value.span = token.span)
    (hkey : Laid source [token] [key]) (hvalue : Laid source [token] [value]) :
    Laid source [token] [.node token.span .shorthand [key, value]] := by
  have hbounded := htaken.bounded (List.cons_ne_nil _ _)
  have hshared : ∀ outline ∈ [key, value], outline.span = token.span := by
    simp [hkeySpan, hvalueSpan]
  apply singleton hbounded
  constructor
  · exact hbounded.mono htaken.subset
  · trivial
  · intro outline hmember
    rw [hshared outline hmember]
    exact ⟨Nat.le_refl _, Nat.le_refl _⟩
  · intro hmark
    exact absurd rfl hmark
  · intro _
    exact hshared
  · exact List.forall_mem_append.mpr ⟨hkey.sound, hvalue.sound⟩

end Laid

/-- The outlines of a part. -/
def Part.outlines : Part → List Outline
  | .operand _ _ value | .expression _ _ value => [value.outline]
  | .items _ values => outlinesOfExpressions values
  | .property _ entry => [entry.outline]
  | .properties _ entries => outlinesOfProperties entries
  | .parameters names => names.map Identifier.outline
  | .block _ body => [body.outline]
  | .statement _ read => [read.outline]
  | .statements _ read => outlinesOfStatements read

namespace Derives

variable {source : String} {part : Part} {tokens : List Token} {next : Token}
variable {diagnostics : List Diagnostic}

/-- A property with a value spans its tokens. -/
theorem cover_eq_spanOver {levels : Nat} {value : Expression} {key colon : Token}
    (horder : InOrder (key :: colon :: tokens))
    (hvalue : Derives (.expression .lowest levels value) tokens next diagnostics) :
    key.span.cover value.span = spanOver (key :: colon :: tokens) := by
  obtain ⟨hsome, hspan⟩ := hvalue.expression_span
  obtain ⟨first, rest, rfl⟩ := List.exists_cons_of_ne_nil hsome
  obtain ⟨hkey, hlater, hcolon⟩ := InOrder.cons_iff.mp horder
  obtain ⟨-, -, hvalueOrder⟩ := InOrder.cons_iff.mp hcolon
  have hafter : key.span.stop ≤ first.span.start := hlater first (by simp)
  have hinside : first.Inside (spanOver (first :: rest)) :=
    inside_spanOver hvalueOrder List.mem_cons_self
  have hfirst := hvalueOrder.nonempty first List.mem_cons_self
  have hstart : key.span.start ≤ value.span.start := by
    rw [hspan, spanOver]
    exact Nat.le_trans (Nat.le_of_lt hkey) hafter
  have hstop : key.span.stop ≤ value.span.stop := by
    rw [hspan]
    exact Nat.le_trans hafter (Nat.le_trans (Nat.le_of_lt hfirst) hinside.2)
  rw [Span.cover_of_le hstart hstop, hspan]
  rfl

/-- What is derived from tokens of the text has sound outlines, one after another.  By induction on
the derivation, with a piece of the tokens for each part. -/
theorem laid (hderives : Derives part tokens next diagnostics) (htaken : Taken source tokens) :
    Laid source tokens part.outlines := by
  -- The tokens that belong to no inner part only widen what the inner parts were read from.
  induction hderives with
  | name hkind => exact .verbatim htaken (.name htaken)
  | @integer _ _ token _ hkind _ =>
      refine Laid.nil.node htaken (List.cons_ne_nil _ _) ?_ nofun
      have hnumeral := Token.isNumeral_of_kind (htaken.isLexeme List.mem_cons_self) hkind
      exact ⟨token.literal, htaken.slice? List.mem_cons_self, hnumeral, rfl⟩
  | string hkind => exact .verbatim htaken .nil
  | boolean hkind => exact .plain htaken (List.cons_ne_nil _ _) .nil
  | @unary _ _ _ _ sign _ _ _ _ _ ih =>
      exact ((ih htaken.tail).cons sign).plain htaken (List.cons_ne_nil _ _)
  | @array _ _ _ opener _ closer _ _ _ _ _ ih =>
      have hinner := ((ih htaken.left.tail).cons opener).concat closer
      exact hinner.plain htaken (List.cons_ne_nil _ _)
  | @object _ _ _ opener _ closer _ _ _ _ _ ih =>
      have hinner := ((ih htaken.left.tail).cons opener).concat closer
      exact hinner.plain htaken (List.cons_ne_nil _ _)
  | @conditional _ _ _ _ keyword opener _ closer _ _ _ _ _ _ _ _ _ ihcondition ihbody =>
      have hcondition := ((ihcondition htaken.left.tail.tail).cons opener).cons keyword
      have hbody := (ihbody htaken.right.tail).cons closer
      exact (hcondition.append htaken hbody).plain htaken (List.cons_ne_nil _ _)
  | @alternative _ _ _ _ _ keyword opener _ closer _ separator _ _ _ _ _ _ _ _ _ _ _ _
      ihcondition ihbody ihother =>
      have hfront := htaken.left
      have hcondition := ((ihcondition hfront.left.tail.tail).cons opener).cons keyword
      have hbody := (ihbody hfront.right.tail).cons closer
      have hother := (ihother htaken.right.tail).cons separator
      have hparts := (hcondition.append hfront hbody).append htaken hother
      exact hparts.plain htaken (List.cons_ne_nil _ _)
  | @function _ _ _ _ keyword opener _ closer _ _ _ _ _ _ _ _ ihnames ihbody =>
      have hnames := ((ihnames htaken.left.tail.tail).cons opener).cons keyword
      have hbody := (ihbody htaken.right.tail).cons closer
      exact (hnames.append htaken hbody).plain htaken (List.cons_ne_nil _ _)
  | @call _ _ _ _ _ opener _ closer _ _ _ _ _ _ _ _ ihcallee iharguments =>
      have hcallee := ihcallee htaken.left.left
      have harguments := (iharguments htaken.left.right.tail).cons opener
      have hparts := (hcallee.append htaken.left harguments).concat closer
      exact hparts.plain htaken (by simp)
  | @binary _ _ _ _ _ _ sign _ _ _ _ _ _ _ _ ihleft ihright =>
      have hright := (ihright htaken.right.tail).cons sign
      exact ((ihleft htaken.left).append htaken hright).plain htaken (by simp)
  | expression hoperand hend ih => exact ih htaken
  | noItems | noProperties | noParameters | noStatements => exact .nil
  | lastItem hitem ih => exact ih htaken
  | @moreItems _ _ _ _ _ separator _ _ _ _ _ _ _ ihfirst ihitems =>
      exact (ihfirst htaken.left).append htaken ((ihitems htaken.right.tail).cons separator)
  | @shorthand _ key _ hkey =>
      have hvalue : Laid source [key] [(Expression.identifier key.span (nameOf key)).outline] :=
        .verbatim htaken (.name htaken)
      rw [Part.outlines, Property.outline_of_isShorthand (isShorthand_nameOf key)]
      exact .shorthand htaken rfl rfl (.name htaken) hvalue
  | @written _ value key colon _ _ _ _ _ hvalue ih =>
      have hparts := ((ih htaken.tail.tail).cons colon).nameCons htaken
      rw [Part.outlines, Property.outline_of_written (hvalue.isShorthand_eq_false htaken.order _),
        hvalue.cover_eq_spanOver htaken.order]
      exact hparts.plain htaken (List.cons_ne_nil _ _)
  | lastProperty hentry ih => exact ih htaken
  | @moreProperties _ _ _ _ separator _ _ _ _ _ _ _ ihentry ihentries =>
      exact (ihentry htaken.left).append htaken ((ihentries htaken.right.tail).cons separator)
  | lastParameter hkind => exact .name htaken
  | @moreParameters _ _ separator _ _ _ _ _ ih =>
      exact ((ih htaken.tail.tail).cons separator).nameCons htaken
  | @block _ _ opener _ closer _ _ _ _ _ ih =>
      have hinner := ((ih htaken.left.tail).cons opener).concat closer
      exact hinner.plain htaken (List.cons_ne_nil _ _)
  | @letWithoutValue _ keyword _ _ _ _ _ _ =>
      have hname := (Laid.nil.nameCons htaken.tail).cons keyword
      exact hname.plain htaken (List.cons_ne_nil _ _)
  | @binding _ _ _ keyword _ sign _ closer _ _ _ _ _ _ _ ih =>
      have hvalue := (ih htaken.left.tail.tail.tail).cons sign
      have hparts := ((hvalue.nameCons htaken.left.tail).cons keyword).concat closer
      exact hparts.plain htaken (List.cons_ne_nil _ _)
  | @namedFunction _ _ _ keyword _ opener _ closer _ _ _ _ _ _ _ _ _ ihnames ihbody =>
      have hnames := (ihnames htaken.left.tail.tail.tail).cons opener
      have hfront := (hnames.nameCons htaken.left.tail).cons keyword
      have hbody := (ihbody htaken.right.tail).cons closer
      exact (hfront.append htaken hbody).plain htaken (List.cons_ne_nil _ _)
  | @returned _ _ keyword _ closer _ _ _ _ _ ih =>
      have hvalue := ((ih htaken.left.tail).cons keyword).concat closer
      exact hvalue.plain htaken (List.cons_ne_nil _ _)
  | @closed _ _ _ closer _ _ _ _ _ ih =>
      exact ((ih htaken.left).concat closer).plain htaken (by simp)
  | unclosed hstart hvalue hnext ih =>
      exact (ih htaken).plain htaken hvalue.expression_span.1
  | read hfirst hstatements ihfirst ihstatements =>
      exact (ihfirst htaken.left).append htaken (ihstatements htaken.right)
  | skipped hlost hstatements ih =>
      exact (ih htaken.right).mono (List.subset_append_right _ _)

end Derives

/-! ## Programs -/

/-- Reading to the end of a text stops behind the last token. -/
theorem programStatements_stop (cursor : Cursor) :
    (programStatements cursor).stop.current.kind = .eof := by
  rw [programStatements]
  split
  · next hend => exact hend
  · next hcurrent =>
      have hsize := Cursor.size_pos_of_current hcurrent
      have hlast := (statement maxNesting cursor).size_le
      have hrest := programStatements_stop (statement maxNesting cursor).stop.advance
      have hvalue := programStatements_value (statement maxNesting cursor).stop.advance
      obtain ⟨statements, hvalue⟩ := Option.isSome_iff_exists.mp hvalue
      simpa [Outcome.regardless, Outcome.followedBy, Outcome.afterAdvance, Outcome.andThen, hvalue,
        Outcome.done] using hrest
termination_by cursor.size
decreasing_by
  simp only [Cursor.size_advance]
  omega

end Grammar

/-- A program spans its whole text, blanks and comments at both ends included. -/
theorem readProgram_span (source : String) :
    (readProgram source).program.span = ⟨0, byteLength source.toList⟩ := by
  have hend := Grammar.programStatements_stop (.ofLexer (Lexer.ofText source))
  have hleads := (Grammar.programStatements_delivers (.ofLexer (Lexer.ofText source))
    fun _ hmember => Lexer.kind_ne_eof_of_mem_tokens hmember).leads
  rw [readProgram, Cursor.readProgram, ← Lexer.stop_ofText]
  generalize (Grammar.programStatements (.ofLexer (Lexer.ofText source))).stop = last at hend hleads
  obtain ⟨_ | ⟨token, tokens⟩, stop⟩ := last
  · exact congrArg (Span.mk 0) hleads.stop_eq
  · -- Only the end token is of this kind.
    have hmember : token ∈ (Lexer.ofText source).tokens :=
      hleads.suffix.subset List.mem_cons_self
    exact absurd hend (Lexer.kind_ne_eof_of_mem_tokens hmember)

/-- What is read from a text has sound outlines.  The program spans the text, and its statements
follow one another in it. -/
theorem parse_outlines_sound {source : String} {strict : Bool} {program : Program}
    {errors : List String} (hparse : parse source strict = .ok (program, errors)) :
    program.span = ⟨0, byteLength source.toList⟩ ∧
      Apart (outlinesOfStatements program.statements) ∧
      ∀ outline ∈ outlinesOfStatements program.statements,
        outline.span.Within program.span ∧ outline.Sound source := by
  obtain ⟨rfl, -⟩ := parse_eq_ok hparse
  have htaken : Grammar.Taken source (Lexer.ofText source).tokens := by
    rw [Grammar.Taken, lex_dropLast]
  have hlaid := (Grammar.readProgram_derives source).laid htaken
  have hspan := readProgram_span source
  refine ⟨hspan, hlaid.apart, fun outline hmember => ⟨?_, hlaid.sound outline hmember⟩⟩
  obtain ⟨last, hlast, hstop⟩ := (hlaid.bounded outline hmember).stop_mem
  have hwithin := (Lexer.tokens_within _ last hlast).2
  rw [← hstop, Lexer.stop_ofText] at hwithin
  rw [hspan]
  exact ⟨Nat.zero_le _, hwithin⟩

/-- A shorthand in an object, a fault, and a string that takes the rest of the text. -/
def shorthandBeforeFault : String := "a({b, c: 07}); 1 <; \"é"

/-- The statements on both sides of the fault keep their places. -/
theorem parse_outlines_sound_around_fault :
    parse shorthandBeforeFault false =
        .ok ((readProgram shorthandBeforeFault).program,
          ["no prefix parse function for SEMICOLON"]) ∧
      (readProgram shorthandBeforeFault).program.span = ⟨0, 23⟩ ∧
      Apart (outlinesOfStatements (readProgram shorthandBeforeFault).program.statements) ∧
      ∀ outline ∈ outlinesOfStatements (readProgram shorthandBeforeFault).program.statements,
        outline.span.Within (readProgram shorthandBeforeFault).program.span ∧
          outline.Sound shorthandBeforeFault :=
  have hdiagnostics : (readProgram shorthandBeforeFault).diagnostics =
      [⟨.noOperand .semicolon, some ⟨18, 19⟩⟩] := by decide +kernel
  have hparse := parse_of_diagnostics hdiagnostics
  ⟨hparse, parse_outlines_sound hparse⟩

/-- A call of a name with an object of one shorthand, in a statement. -/
example : outlinesOfStatements (readProgram "f({a});").program.statements =
    [.node ⟨0, 7⟩ .plain
      [.node ⟨0, 6⟩ .plain
        [.node ⟨0, 1⟩ (.verbatim "f") [.node ⟨0, 1⟩ (.verbatim "f") []],
          .node ⟨2, 5⟩ .plain
            [.node ⟨3, 4⟩ .shorthand
              [.node ⟨3, 4⟩ (.verbatim "a") [],
                .node ⟨3, 4⟩ (.verbatim "a") [.node ⟨3, 4⟩ (.verbatim "a") []]]]]]] := by
  cbv

end Frontend
