import Frontend.Parser
import Frontend.Proofs.Grammar.Delivery
import Frontend.Proofs.Grammar.Readers
import Frontend.Proofs.Lexing.Tokens

/-!
# Every reader derives what it reads

Each reader of the grammar delivers a value that is derived from the tokens it moved over, or else
a diagnostic near the place where it stopped.  There is a theorem for each reader, and they call
one another as the readers do.
-/

namespace Frontend.Grammar

variable {α : Type}

/-- The value is derived from the tokens through the one where reading stopped.  Most readers stop
on the last token of what they have read. -/
def Reads (start : Cursor) (part : α → Part) (value : α) (stop : Cursor)
    (diagnostics : List Diagnostic) : Prop :=
  ∃ tokens, start.Through tokens stop ∧ Derives (part value) tokens stop.next diagnostics

/-- The value is derived from the tokens before the one where reading stopped, which closes them.
So it is with what stands between parentheses, brackets or braces. -/
def Encloses (start : Cursor) (closer : Kind) (part : α → Part) (value : α) (stop : Cursor)
    (diagnostics : List Diagnostic) : Prop :=
  ∃ tokens, start.Through (tokens ++ [stop.current]) stop ∧ stop.current.kind = closer ∧
    Derives (part value) tokens stop.current diagnostics

theorem Encloses.of_nil {cursor : Cursor} {closer : Kind} {part : α → Part} {value : α}
    (hclosed : cursor.current.kind = closer) (hcloser : closer ≠ .eof)
    (hderives : Derives (part value) [] cursor.current []) :
    Encloses cursor closer part value cursor [] :=
  ⟨[], Cursor.through_current (hclosed ▸ hcloser), hclosed, hderives⟩

theorem parameters_delivers (cursor : Cursor) :
    (parameters cursor).Delivers (Encloses cursor .rParen fun names => .parameters names) := by
  rw [parameters]
  split
  · next hcloser => exact .done (.of_nil hcloser (by decide) .noParameters)
  · split
    · next hname =>
        have hhere : cursor.Through [cursor.current] cursor :=
          Cursor.through_current (by simp [hname])
        refine .afterAdvance ?_
        split
        · next hcomma =>
            have hsize : 0 < cursor.size := Cursor.size_pos_of_current (by simp [hname])
            refine .afterAdvance ?_
            refine (parameters_delivers cursor.advance.advance).andThen
              fun names stop diagnostics _ hnames => .done ?_
            obtain ⟨tokens, hthrough, hclosed, hderives⟩ := hnames
            obtain rfl := hderives.parameters_diagnostics
            refine ⟨cursor.current :: cursor.next :: tokens, ?_, hclosed, ?_⟩
            · exact (hhere.concat (by simp [hcomma])).append hthrough
            · exact .moreParameters hname hcomma hderives
        · next hcloser =>
            refine .done ⟨[cursor.current], ?_, hcloser, .lastParameter hname⟩
            exact hhere.concat (by simp [hcloser])
        · exact .faultHere
        · exact .faultHere
    · split
      · exact .faultHere
      · exact .faultHere
termination_by cursor.size
decreasing_by
  simp only [Cursor.size_advance]
  omega

mutual

theorem expression_delivers (least : Precedence) (levels : Nat) (cursor : Cursor) :
    (expression least levels cursor).Delivers (Reads cursor (.expression least levels)) := by
  rw [expression.eq_def]
  split
  · exact .faultHere
  · next levels =>
      refine (operand_delivers least levels cursor).andThen fun left last _ _ hleft => ?_
      obtain ⟨front, hthrough, hderives⟩ := hleft
      exact extend_delivers least levels left last hthrough hderives
termination_by 8 * cursor.size + 3
decreasing_by all_goals omega

theorem operand_delivers (least : Precedence) (levels : Nat) (cursor : Cursor) :
    (operand levels cursor).Delivers (Reads cursor (.operand least levels)) := by
  rw [operand]
  split
  · next hkind =>
      exact .done ⟨_, Cursor.through_current (by simp [hkind]), .name hkind⟩
  · next hkind =>
      rw [integer]
      split
      · next hvalue =>
          exact .done ⟨_, Cursor.through_current (by simp [hkind]), .integer hkind hvalue⟩
      · exact .faultHere
  · next hkind =>
      exact .done ⟨_, Cursor.through_current (by simp [hkind]), .string hkind⟩
  · next hkind =>
      exact .done ⟨_, Cursor.through_current (by simp [hkind]), .boolean hkind⟩
  · next hkind =>
      exact .done ⟨_, Cursor.through_current (by simp [hkind]), .boolean hkind⟩
  · next hkind => exact unary_delivers least .not levels cursor _ hkind
  · next hkind => exact unary_delivers least .negate levels cursor _ hkind
  · next hkind => exact array_delivers least levels cursor _ hkind
  · next hkind => exact object_delivers least levels cursor hkind
  · next hkind => exact conditional_delivers least levels cursor _ hkind
  · next hkind => exact function_delivers least levels cursor _ hkind
  · exact .faultHere
termination_by 8 * cursor.size + 2
decreasing_by all_goals omega

/-- An operand read so far, through the cursor, is extended to an expression. -/
theorem extend_delivers (least : Precedence) (levels : Nat) (left : Expression)
    (cursor : Cursor) {start : Cursor} {front : List Token} {earlier : List Diagnostic}
    (hthrough : start.Through front cursor)
    (hleft : Derives (.operand least levels left) front cursor.next earlier) :
    (extend least levels left cursor).Delivers fun value stop later =>
      Reads start (.expression least (levels + 1)) value stop (earlier ++ later) := by
  rw [extend]
  split
  · next operator hoperator =>
      have hnext : cursor.next.kind ≠ .eof := BinaryOperator.ne_eof_of_ofKind? hoperator
      have hsize := Cursor.one_lt_size_of_next hnext
      split
      · next hleast =>
          refine .afterAdvance (.afterAdvance ?_)
          refine (expression_delivers operator.precedence levels cursor.advance.advance).andThen
            fun right last _ hlast hright => ?_
          obtain ⟨tokens, hrest, hderives⟩ := hright
          have hwhole := (hthrough.concat hnext).append hrest
          rw [List.append_assoc, List.singleton_append] at hwhole
          have hbinary := Derives.binary hleft (BinaryOperator.kind_of_ofKind? hoperator) hleast
            hderives
          rw [hleft.operand_span, hthrough.spanOver_eq]
          rw [hwhole.spanOver_eq] at hbinary
          simpa only [List.append_assoc, Cursor.spanFrom_start] using
            extend_delivers least levels _ last hwhole hbinary
      · next hleast =>
          refine .done ⟨front, hthrough, ?_⟩
          rw [List.append_nil]
          exact .expression hleft (Kind.precedence_of_ofKind? hoperator ▸ hleast)
  · next hoperator =>
      have hprecedence := Kind.precedence_of_ofKind?_eq_none hoperator
      split
      · next hcall =>
          have hnext : cursor.next.kind ≠ .eof := by simp [hcall.1]
          have hsize := Cursor.one_lt_size_of_next hnext
          refine .afterAdvance (.afterAdvance ?_)
          refine (items_delivers .rParen .argumentsEnd levels cursor.advance.advance
            (by decide)).andThen fun arguments last _ hlast harguments => ?_
          obtain ⟨tokens, hrest, hclosed, hderives⟩ := harguments
          have hwhole := (hthrough.concat hnext).append hrest
          rw [List.append_assoc, List.singleton_append, ← List.cons_append,
            ← List.append_assoc] at hwhole
          have hderived : Derives _ _ last.next _ :=
            .call hleft hcall.1 hcall.2 hderives hclosed
          rw [hleft.operand_span, hthrough.spanOver_eq]
          rw [hwhole.spanOver_eq] at hderived
          simpa only [List.append_assoc, Cursor.spanFrom_start] using
            extend_delivers least levels _ last hwhole hderived
      · next hcall =>
          refine .done ⟨front, hthrough, ?_⟩
          rw [List.append_nil]
          refine .expression hleft ?_
          rw [hprecedence]
          split
          · next hparen => exact fun hleast => hcall ⟨hparen, hleast⟩
          · exact Precedence.not_lt_lowest least
termination_by 8 * cursor.size + 2
decreasing_by
  all_goals
    simp only [Cursor.size_advance] at *
    omega

theorem unary_delivers (least : Precedence) (operator : UnaryOperator) (levels : Nat)
    (cursor : Cursor) (hsize : 0 < cursor.size) (hkind : cursor.current.kind = operator.kind) :
    (unary operator levels cursor hsize).Delivers (Reads cursor (.operand least levels)) := by
  rw [unary]
  have hhere : cursor.Through [cursor.current] cursor :=
    Cursor.through_current (by cases operator <;> simp [hkind, UnaryOperator.kind])
  refine .afterAdvance ?_
  refine (expression_delivers .unary levels cursor.advance).andThen
    fun inner last _ _ hinner => .done ?_
  obtain ⟨tokens, hrest, hderives⟩ := hinner
  have hwhole := hhere.append hrest
  refine ⟨_, hwhole, ?_⟩
  rw [← hwhole.spanOver_eq, List.append_nil]
  exact .unary hkind hderives
termination_by 8 * cursor.size + 1
decreasing_by simp only [Cursor.size_advance]; omega

theorem array_delivers (least : Precedence) (levels : Nat) (cursor : Cursor)
    (hsize : 0 < cursor.size) (hkind : cursor.current.kind = .lBracket) :
    (array levels cursor hsize).Delivers (Reads cursor (.operand least levels)) := by
  rw [array]
  have hhere : cursor.Through [cursor.current] cursor :=
    Cursor.through_current (by simp [hkind])
  refine .afterAdvance ?_
  refine (items_delivers .rBracket .arrayEnd levels cursor.advance (by decide)).andThen
    fun elements last _ _ helements => .done ?_
  obtain ⟨tokens, hrest, hclosed, hderives⟩ := helements
  have hwhole := hhere.append hrest
  refine ⟨_, hwhole, ?_⟩
  rw [← hwhole.spanOver_eq, List.append_nil]
  exact .array hkind hderives hclosed
termination_by 8 * cursor.size + 1
decreasing_by simp only [Cursor.size_advance]; omega

theorem items_delivers (closer : Kind) (what : Expectation) (levels : Nat) (cursor : Cursor)
    (hcloser : closer ≠ .eof) :
    (items closer what levels cursor).Delivers (Encloses cursor closer (.items levels)) := by
  rw [items]
  split
  · next hclosed => exact .done (.of_nil hclosed hcloser .noItems)
  · refine (expression_delivers .lowest levels cursor).andThen fun first last _ _ hfirst => ?_
    obtain ⟨front, hthrough, hderives⟩ := hfirst
    refine (moreItems_delivers closer what levels last hcloser hthrough hderives).andThen
      fun rest stop _ _ hrest => .done ?_
    simpa only [List.append_nil] using hrest
termination_by 8 * cursor.size + 4
decreasing_by all_goals omega

/-- An item read so far, through the cursor, is followed by others. -/
theorem moreItems_delivers (closer : Kind) (what : Expectation) (levels : Nat) (cursor : Cursor)
    (hcloser : closer ≠ .eof) {start : Cursor} {first : Expression} {front : List Token}
    {earlier : List Diagnostic} (hthrough : start.Through front cursor)
    (hfirst : Derives (.expression .lowest levels first) front cursor.next earlier) :
    (moreItems closer what levels cursor).Delivers fun rest stop later =>
      Encloses start closer (.items levels) (first :: rest) stop (earlier ++ later) := by
  rw [moreItems]
  split
  · next hcomma =>
      have hnext : cursor.next.kind ≠ .eof := by simp [hcomma]
      have hsize := Cursor.one_lt_size_of_next hnext
      refine .afterAdvance (.afterAdvance ?_)
      refine (expression_delivers .lowest levels cursor.advance.advance).andThen
        fun item last _ hlast hitem => ?_
      obtain ⟨tokens, hsecond, hderives⟩ := hitem
      refine (moreItems_delivers closer what levels last hcloser hsecond hderives).andThen
        fun rest stop _ _ hrest => .done ?_
      obtain ⟨tokens, hrest, hclosed, hitems⟩ := hrest
      refine ⟨front ++ cursor.next :: tokens, ?_, hclosed, ?_⟩
      · simpa using (hthrough.concat hnext).append hrest
      · simpa using Derives.moreItems hfirst hcomma hitems
  · refine .expectThen fun _ hclosed => .done ⟨front, ?_, hclosed, ?_⟩
    · exact hthrough.concat (hclosed ▸ hcloser)
    · rw [List.append_nil]
      exact .lastItem hfirst
termination_by 8 * cursor.size
decreasing_by
  all_goals
    simp only [Cursor.size_advance] at *
    omega

theorem object_delivers (least : Precedence) (levels : Nat) (cursor : Cursor)
    (hkind : cursor.current.kind = .lBrace) :
    (object levels cursor).Delivers (Reads cursor (.operand least levels)) := by
  rw [object]
  have hhere : cursor.Through [cursor.current] cursor :=
    Cursor.through_current (by simp [hkind])
  refine (properties_delivers levels cursor).andThen fun entries last _ _ hentries => .done ?_
  obtain ⟨tokens, hrest, hclosed, hderives⟩ := hentries
  have hwhole := hhere.append hrest
  refine ⟨_, hwhole, ?_⟩
  rw [← hwhole.spanOver_eq, List.append_nil]
  exact .object hkind hderives hclosed
termination_by 8 * cursor.size + 1
decreasing_by omega

theorem properties_delivers (levels : Nat) (cursor : Cursor) :
    (properties levels cursor).Delivers (Encloses cursor.advance .rBrace (.properties levels)) := by
  rw [properties]
  split
  · next hclosed =>
      exact .afterAdvance (.done (.of_nil hclosed (by decide) .noProperties))
  · exact .faultNext
  · next hname =>
      have hsize : 1 < cursor.size := Cursor.one_lt_size_of_next (by simp [hname])
      refine .afterAdvance ?_
      refine (property_delivers levels cursor.advance hname).andThen
        fun entry last _ hlast hentry => ?_
      obtain ⟨front, hthrough, hderives⟩ := hentry
      rw [propertySeparator]
      split
      · next hcomma =>
          have hnext : last.next.kind ≠ .eof := by simp [hcomma]
          refine .advanceThen fun hseparator => ?_
          refine (properties_delivers levels last.advance).andThen
            fun entries stop _ _ hentries => .done ?_
          obtain ⟨tokens, hrest, hclosed, hentries⟩ := hentries
          refine ⟨front ++ last.next :: tokens, ?_, hclosed, ?_⟩
          · simpa using (hthrough.concat hnext).append hrest
          · simpa using Derives.moreProperties hderives hcomma hentries
      · next hclosed =>
          refine .doneThen ?_
          rw [properties_of_rBrace hclosed]
          refine .advanceThen fun _ => .done ⟨front, ?_, hclosed, ?_⟩
          · exact hthrough.concat (by simp [hclosed])
          · rw [List.append_nil]
            exact .lastProperty hderives
      · exact .faultNextThen
      · exact .faultNextThen
  · exact .faultNext
termination_by 8 * cursor.size
decreasing_by
  all_goals
    simp only [Cursor.size_advance] at *
    omega

theorem property_delivers (levels : Nat) (cursor : Cursor)
    (hkey : cursor.current.kind = .ident) :
    (property levels cursor).Delivers (Reads cursor (.property levels)) := by
  rw [property]
  have hhere : cursor.Through [cursor.current] cursor :=
    Cursor.through_current (by simp [hkey])
  split
  · exact .done ⟨_, hhere, .shorthand hkey⟩
  · exact .done ⟨_, hhere, .shorthand hkey⟩
  · next hcolon =>
      have hnext : cursor.next.kind ≠ .eof := by simp [hcolon]
      have hsize := Cursor.one_lt_size_of_next hnext
      refine .afterAdvance (.afterAdvance ?_)
      refine (expression_delivers .lowest levels cursor.advance.advance).andThen
        fun value last _ _ hvalue => .done ?_
      obtain ⟨tokens, hrest, hderives⟩ := hvalue
      refine ⟨_, (hhere.concat hnext).append hrest, ?_⟩
      rw [List.append_nil]
      exact .written hkey hcolon hderives
  · exact .faultNext
  · exact .faultNext
termination_by 8 * cursor.size
decreasing_by
  simp only [Cursor.size_advance] at *
  omega

theorem conditional_delivers (least : Precedence) (levels : Nat) (cursor : Cursor)
    (hsize : 0 < cursor.size) (hkind : cursor.current.kind = .kwIf) :
    (conditional levels cursor hsize).Delivers (Reads cursor (.operand least levels)) := by
  rw [conditional]
  have hhere : cursor.Through [cursor.current] cursor :=
    Cursor.through_current (by simp [hkind])
  refine .expectThen fun hopened hopener => .afterAdvance ?_
  have hopenerThrough := hhere.concat (hopener ▸ by decide)
  refine (expression_delivers .lowest levels cursor.advance.advance).andThen
    fun condition last _ hlast hcondition => ?_
  obtain ⟨tokens, hrest, hderives⟩ := hcondition
  refine .expectThen fun hclosedSize hcloser => ?_
  have hcloserThrough := (hopenerThrough.append hrest).concat (hcloser ▸ by decide)
  refine .expectThen fun hbraceSize hbrace => ?_
  refine (block_delivers levels last.advance.advance hbrace).andThen
    fun consequence last _ hlast hconsequence => ?_
  obtain ⟨body, hbodyThrough, hbody⟩ := hconsequence
  have hbodyWhole := hcloserThrough.append hbodyThrough
  split
  · next helse =>
      refine .afterAdvance (.expectThen fun helseSize hotherBrace => ?_)
      refine (block_delivers levels last.advance.advance hotherBrace).andThen
        fun alternative last _ hlast halternative => .done ?_
      obtain ⟨other, hotherThrough, hother⟩ := halternative
      have hwhole := (hbodyWhole.concat (helse ▸ by decide)).append hotherThrough
      refine ⟨_, hwhole, ?_⟩
      rw [← hwhole.spanOver_eq]
      simpa using Derives.alternative hkind hopener hderives hcloser hbody helse hother
  · refine .done ⟨_, hbodyWhole, ?_⟩
    rw [← hbodyWhole.spanOver_eq]
    simpa using Derives.conditional hkind hopener hderives hcloser hbody
termination_by 8 * cursor.size + 1
decreasing_by all_goals simp only [Cursor.size_advance] at *; omega

theorem function_delivers (least : Precedence) (levels : Nat) (cursor : Cursor)
    (hsize : 0 < cursor.size) (hkind : cursor.current.kind = .kwFunction) :
    (function levels cursor hsize).Delivers (Reads cursor (.operand least levels)) := by
  rw [function]
  have hhere : cursor.Through [cursor.current] cursor :=
    Cursor.through_current (by simp [hkind])
  refine .expectThen fun hopened hopener => .afterAdvance ?_
  have hopenerThrough := hhere.concat (hopener ▸ by decide)
  refine (parameters_delivers cursor.advance.advance).andThen fun names last _ hlast hnames => ?_
  obtain ⟨tokens, hrest, hcloser, hderives⟩ := hnames
  obtain rfl := hderives.parameters_diagnostics
  have hcloserThrough := hopenerThrough.append hrest
  refine .expectThen fun hbraceSize hbrace => ?_
  refine (block_delivers levels last.advance hbrace).andThen
    fun block last _ _ hblock => .done ?_
  obtain ⟨body, hbodyThrough, hbody⟩ := hblock
  have hwhole := hcloserThrough.append hbodyThrough
  refine ⟨_, hwhole, ?_⟩
  rw [← hwhole.spanOver_eq]
  simpa using Derives.function hkind hopener hderives hcloser hbody
termination_by 8 * cursor.size + 1
decreasing_by simp only [Cursor.size_advance] at *; omega

theorem block_delivers (levels : Nat) (cursor : Cursor)
    (hkind : cursor.current.kind = .lBrace) :
    (block levels cursor).Delivers (Reads cursor (.block levels)) := by
  rw [block]
  have hhere : cursor.Through [cursor.current] cursor :=
    Cursor.through_current (by simp [hkind])
  have hsize : 0 < cursor.size := Cursor.size_pos_of_current (by simp [hkind])
  refine .afterAdvance ?_
  refine (blockStatements_delivers levels cursor.advance).andThen
    fun statements last _ _ hstatements => .done ?_
  obtain ⟨tokens, hrest, hclosed, hderives⟩ := hstatements
  have hwhole := hhere.append hrest
  refine ⟨_, hwhole, ?_⟩
  rw [← hwhole.spanOver_eq, List.append_nil]
  exact .block hkind hderives hclosed
termination_by 8 * cursor.size + 7
decreasing_by simp only [Cursor.size_advance]; omega

theorem blockStatements_delivers (levels : Nat) (cursor : Cursor) :
    (blockStatements levels cursor).Delivers (Encloses cursor .rBrace (.statements levels)) := by
  rw [blockStatements]
  split
  · next hclosed => exact .done (.of_nil hclosed (by decide) .noStatements)
  · split
    · exact .faultHere
    · next hcurrent =>
        have hsize := Cursor.size_pos_of_current hcurrent
        refine (statement_delivers levels cursor).regardless ?_ ?_
        · intro first last _ hlast hfirst
          obtain ⟨front, hthrough, hfirst⟩ := hfirst
          refine .afterAdvance ?_
          refine (blockStatements_delivers levels last.advance).andThen
            fun statements stop _ _ hstatements => .done ?_
          obtain ⟨tokens, hrest, hclosed, hderives⟩ := hstatements
          refine ⟨front ++ tokens, ?_, hclosed, ?_⟩
          · simpa using hthrough.append hrest
          · rw [List.append_nil]
            exact .read (hrest.headD_eq_current ▸ hfirst) hderives
        · intro last _ hlast hleads hanchored
          refine .afterAdvance ?_
          refine (blockStatements_delivers levels last.advance).andThen
            fun statements stop _ _ hstatements => .done ?_
          obtain ⟨tokens, hrest, hclosed, hderives⟩ := hstatements
          obtain ⟨front, hpending, hlost⟩ := hanchored.abandoned hleads hcurrent
          refine ⟨front ++ tokens, ?_, hclosed, ?_⟩
          · simpa using hrest.prepend hpending hleads.stop_eq
          · rw [List.append_nil]
            exact .skipped (hrest.headD_eq_current ▸ hlost) hderives
termination_by 8 * cursor.size + 6
decreasing_by
  · omega
  all_goals
    simp only [Cursor.size_advance]
    omega

theorem statement_delivers (levels : Nat) (cursor : Cursor) :
    (statement levels cursor).Delivers (Reads cursor (.statement levels)) := by
  rw [statement]
  refine .asStatement ?_
  split
  · next hkind => exact binding_delivers false levels cursor hkind
  · next hkind => exact binding_delivers true levels cursor hkind
  · next hkind => exact functionDeclaration_delivers levels cursor _ hkind
  · next hkind => exact returned_delivers levels cursor hkind
  · next hkind _ => exact expressionStatement_delivers levels cursor hkind
termination_by 8 * cursor.size + 5
decreasing_by all_goals omega

theorem binding_delivers (constant : Bool) (levels : Nat) (cursor : Cursor)
    (hkind : cursor.current.kind = bindingKind constant) :
    (binding constant levels cursor).Delivers (Reads cursor (.statement levels)) := by
  rw [binding]
  have hhere : cursor.Through [cursor.current] cursor :=
    Cursor.through_current (by cases constant <;> simp [hkind, bindingKind])
  refine .expectThen fun hnamed hname => ?_
  have hnameThrough := hhere.concat (hname ▸ by decide)
  dsimp only
  split
  · next hcloser =>
      refine .afterAdvance ?_
      split
      · exact .faultHere
      · next hconstant =>
          obtain rfl : constant = false := by simpa using hconstant
          have hwhole := hnameThrough.concat (hcloser ▸ by decide)
          refine .done ⟨_, hwhole, ?_⟩
          rw [← hwhole.spanOver_eq]
          exact .letWithoutValue hkind hname hcloser
  · refine .expectThen fun hsigned hsign => .afterAdvance ?_
    have hsignThrough := hnameThrough.concat (hsign ▸ by decide)
    refine (expression_delivers .lowest levels cursor.advance.advance.advance).andThen
      fun value last _ hlast hvalue => ?_
    obtain ⟨tokens, hrest, hderives⟩ := hvalue
    refine .expectThen fun _ hcloser => .done ?_
    have hwhole := (hsignThrough.append hrest).concat (hcloser ▸ by decide)
    refine ⟨_, hwhole, ?_⟩
    rw [← hwhole.spanOver_eq]
    simpa using Derives.binding hkind hname hsign hderives hcloser
termination_by 8 * cursor.size + 4
decreasing_by simp only [Cursor.size_advance] at *; omega

theorem functionDeclaration_delivers (levels : Nat) (cursor : Cursor)
    (hsize : 0 < cursor.size) (hkind : cursor.current.kind = .kwFunction) :
    (functionDeclaration levels cursor hsize).Delivers (Reads cursor (.statement levels)) := by
  rw [functionDeclaration]
  have hhere : cursor.Through [cursor.current] cursor :=
    Cursor.through_current (by simp [hkind])
  refine .expectThen fun hnamed hname => ?_
  have hnameThrough := hhere.concat (hname ▸ by decide)
  refine .expectThen fun hopened hopener => .afterAdvance ?_
  have hopenerThrough := hnameThrough.concat (hopener ▸ by decide)
  refine (parameters_delivers cursor.advance.advance.advance).andThen
    fun names last _ hlast hnames => ?_
  obtain ⟨tokens, hrest, hcloser, hderives⟩ := hnames
  obtain rfl := hderives.parameters_diagnostics
  have hcloserThrough := hopenerThrough.append hrest
  refine .expectThen fun hbraceSize hbrace => ?_
  refine (block_delivers levels last.advance hbrace).andThen
    fun block last _ _ hblock => .done ?_
  obtain ⟨body, hbodyThrough, hbody⟩ := hblock
  have hwhole := hcloserThrough.append hbodyThrough
  refine ⟨_, hwhole, ?_⟩
  rw [← hwhole.spanOver_eq]
  simpa using Derives.namedFunction hkind hname hopener hderives hcloser hbody
termination_by 8 * cursor.size + 4
decreasing_by simp only [Cursor.size_advance] at *; omega

theorem returned_delivers (levels : Nat) (cursor : Cursor)
    (hkind : cursor.current.kind = .kwReturn) :
    (returned levels cursor).Delivers (Reads cursor (.statement levels)) := by
  rw [returned]
  have hhere : cursor.Through [cursor.current] cursor :=
    Cursor.through_current (by simp [hkind])
  refine .afterAdvance ?_
  refine (expression_delivers .lowest levels cursor.advance).orNote.andThen
    fun value last _ _ hvalue => ?_
  obtain ⟨tokens, hrest, hderives⟩ := hvalue
  refine .expectThen fun _ hcloser => .done ?_
  have hwhole := (hhere.append hrest).concat (hcloser ▸ by decide)
  refine ⟨_, hwhole, ?_⟩
  rw [← hwhole.spanOver_eq]
  simpa using Derives.returned hkind hderives hcloser
termination_by 8 * cursor.size + 4
decreasing_by simp only [Cursor.size_advance] at *; omega

theorem expressionStatement_delivers (levels : Nat) (cursor : Cursor)
    (hkind : cursor.current.kind ≠ .kwFunction) :
    (expressionStatement levels cursor).Delivers (Reads cursor (.statement levels)) := by
  rw [expressionStatement]
  refine (expression_delivers .lowest levels cursor).andThen fun value last _ _ hvalue => ?_
  obtain ⟨tokens, hthrough, hderives⟩ := hvalue
  have hstart : ∀ next, (tokens.headD next).kind ≠ .kwFunction := by
    intro next
    rwa [List.headD_eq_head?_getD, hthrough.head]
  split
  · next hcloser =>
      have hwhole := hthrough.concat (hcloser ▸ by decide)
      refine .afterAdvance (.done ⟨_, hwhole, ?_⟩)
      rw [← hwhole.spanOver_eq, List.append_nil]
      exact .closed (hstart _) hderives hcloser
  · next hnext =>
      refine .done ⟨_, hthrough, ?_⟩
      rw [← hthrough.spanOver_eq, List.append_nil]
      exact .unclosed (hstart _) hderives hnext
termination_by 8 * cursor.size + 4
decreasing_by omega

end

/-! ## Programs -/

/-- Reading to the end of a text always gives a list of statements: a fault costs a statement and
never the program. -/
theorem programStatements_value (cursor : Cursor) :
    (programStatements cursor).value.isSome := by
  rw [programStatements]
  split
  · rfl
  · next hcurrent =>
      have hsize := Cursor.size_pos_of_current hcurrent
      have hlast := (statement maxNesting cursor).size_le
      have hrest := programStatements_value (statement maxNesting cursor).stop.advance
      obtain ⟨statements, hvalue⟩ := Option.isSome_iff_exists.mp hrest
      simp [Outcome.regardless, Outcome.followedBy, Outcome.afterAdvance, Outcome.andThen, hvalue,
        Outcome.done]
termination_by cursor.size
decreasing_by
  simp only [Cursor.size_advance]
  omega

theorem programStatements_delivers (cursor : Cursor)
    (hreal : ∀ token ∈ cursor.pending, token.kind ≠ .eof) :
    (programStatements cursor).Delivers fun statements _ diagnostics =>
      Derives (.statements maxNesting statements) cursor.pending (.atEnd cursor.stop)
        diagnostics := by
  rw [programStatements]
  split
  · next hend =>
      obtain ⟨_ | ⟨token, tokens⟩, stop⟩ := cursor
      · exact .done .noStatements
      · exact absurd hend (hreal token List.mem_cons_self)
  · next hcurrent =>
      have hsize := Cursor.size_pos_of_current hcurrent
      refine (statement_delivers maxNesting cursor).regardless ?_ ?_
      · intro first last _ hlast hfirst
        obtain ⟨front, hthrough, hfirst⟩ := hfirst
        have hlater : ∀ token ∈ last.advance.pending, token.kind ≠ .eof := fun token hmember =>
          hreal token (hthrough.pending ▸ List.mem_append_right front hmember)
        refine .afterAdvance ?_
        refine (programStatements_delivers last.advance hlater).andThen
          fun statements stop _ _ hstatements => .done ?_
        rw [hthrough.pending, ← hthrough.stop_eq, List.append_nil]
        exact .read hfirst hstatements
      · intro last _ hlast hleads hanchored
        obtain ⟨front, hpending, hlost⟩ := hanchored.abandoned hleads hcurrent
        have hlater : ∀ token ∈ last.advance.pending, token.kind ≠ .eof := fun token hmember =>
          hreal token (hpending ▸ List.mem_append_right front hmember)
        refine .afterAdvance ?_
        refine (programStatements_delivers last.advance hlater).andThen
          fun statements stop _ _ hstatements => .done ?_
        rw [hpending, ← hleads.stop_eq, List.append_nil]
        exact .skipped hlost hstatements
termination_by cursor.size
decreasing_by
  all_goals
    simp only [Cursor.size_advance]
    omega

/-- The program of a text is derived from the tokens of the text.  What is said of words, spans and
blocks is proved of derivations and comes to programs from here. -/
theorem readProgram_derives (text : String) :
    Derives (.statements maxNesting (readProgram text).program.statements)
      (Lexer.ofText text).tokens (.atEnd (Lexer.ofText text).stop)
      (readProgram text).diagnostics := by
  obtain ⟨statements, hvalue⟩ := Option.isSome_iff_exists.mp
    (programStatements_value (.ofLexer (Lexer.ofText text)))
  have hdelivers := programStatements_delivers (.ofLexer (Lexer.ofText text))
    fun _ hmember => Lexer.kind_ne_eof_of_mem_tokens hmember
  have hread : (readProgram text).program.statements = statements := by
    simp only [readProgram, Cursor.readProgram, hvalue, Option.getD_some]
  rw [hread]
  exact hdelivers.value statements hvalue

end Frontend.Grammar

namespace Frontend

/-- What a text is read as, strictly or not: the program and the messages of the one reading that
`parse` makes. -/
theorem parse_eq_ok {text : String} {strict : Bool} {program : Program} {errors : List String}
    (hparse : parse text strict = .ok (program, errors)) :
    program = (readProgram text).program ∧ errors = messages (readProgram text).diagnostics := by
  rw [parse, verdict] at hparse
  split at hparse
  · cases hparse
  · cases hparse
    exact ⟨rfl, rfl⟩

/-- A lenient reading never rejects a text.  It gives the program with whatever was found wrong. -/
theorem parse_lenient (text : String) :
    parse text false =
      .ok ((readProgram text).program, messages (readProgram text).diagnostics) := by
  simp [parse, verdict, Except.map]

theorem parse_of_diagnostics {text : String} {diagnostics : List Diagnostic}
    (hdiagnostics : (readProgram text).diagnostics = diagnostics) :
    parse text false = .ok ((readProgram text).program, messages diagnostics) := by
  rw [parse_lenient, hdiagnostics]

end Frontend
