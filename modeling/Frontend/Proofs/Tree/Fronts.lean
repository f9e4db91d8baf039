import Frontend.Proofs.Tree.CanonicalText

/-!
# Fronts of canonical words

What an expression or a statement is shows at its first canonical word, but for calls, which start
with their callee.  An expression is therefore taken apart into what stands before all its calls and
the arguments of one call after another.
-/

namespace Frontend

/-! ## First words -/

/-- The kinds of words that canonical expressions start with. -/
def Kind.leads : Kind → Bool
  | .ident | .int | .string | .kwTrue | .kwFalse | .lBracket | .lBrace | .lParen | .kwIf
  | .kwFunction => true
  | _ => false

namespace Expression

/-- The kind of the first canonical word.  By it most expressions are told apart without looking
further. -/
def lead : Expression → Kind
  | .identifier _ _ => .ident
  | .integer _ _ => .int
  | .string _ _ => .string
  | .boolean _ value => booleanKind value
  | .array _ _ => .lBracket
  | .object _ _ => .lBrace
  | .unary _ _ _ | .binary _ _ _ _ => .lParen
  | .conditional _ _ _ _ => .kwIf
  | .function _ _ _ => .kwFunction
  | .call _ callee _ => callee.lead
  termination_by structural value => value

theorem canonicalWords_lead (value : Expression) :
    ∃ word rest, value.canonicalWords = word :: rest ∧ word.kind = value.lead := by
  cases value with
  | call _ callee arguments =>
      obtain ⟨word, rest, hwords, hkind⟩ := callee.canonicalWords_lead
      exact ⟨word, _, by rw [canonicalWords, hwords, List.cons_append], hkind⟩
  | _ => exact ⟨_, _, rfl, rfl⟩
  termination_by structural value

theorem lead_eq_of_words {value value' : Expression} {rest rest' : List Word}
    (hwords : value.canonicalWords ++ rest = value'.canonicalWords ++ rest') :
    value.lead = value'.lead := by
  obtain ⟨word, tail, hvalue, hkind⟩ := value.canonicalWords_lead
  obtain ⟨word', tail', hvalue', hkind'⟩ := value'.canonicalWords_lead
  rw [hvalue, hvalue'] at hwords
  rw [← hkind, ← hkind', (List.cons.inj hwords).1]

theorem leads_lead (value : Expression) : value.lead.leads = true := by
  cases value with
  | boolean _ value => cases value <;> rfl
  | call _ callee _ => exact callee.leads_lead
  | _ => rfl
  termination_by structural value

theorem lead_ne {kind : Kind} (value : Expression) (hkind : kind.leads = false) :
    value.lead ≠ kind := by
  rintro rfl
  rw [value.leads_lead] at hkind
  cases hkind

/-- An expression is not written where a word stands that none starts with. -/
theorem canonicalWords_ne {value : Expression} {word : Word} {rest rest' : List Word}
    (hword : word.kind.leads = false) : value.canonicalWords ++ rest ≠ word :: rest' := by
  obtain ⟨first, tail, hvalue, hkind⟩ := value.canonicalWords_lead
  rw [hvalue]
  intro hwords
  rw [(List.cons.inj hwords).1] at hkind
  exact value.lead_ne hword hkind.symm

theorem startsWithFunction_of_lead (value : Expression) (hlead : value.lead = .kwFunction) :
    value.startsWithFunction = true := by
  cases value with
  | function => rfl
  | boolean _ value => cases value <;> cases hlead
  | call _ callee _ => exact callee.startsWithFunction_of_lead hlead
  | _ => cases hlead
  termination_by structural value

end Expression

/-- The kind of the first canonical word. -/
def Statement.lead : Statement → Kind
  | .binding constant _ _ _ => bindingKind constant
  | .function _ _ _ _ => .kwFunction
  | .returned _ _ => .kwReturn
  | .expression value _ => value.lead
  | .block _ => .lBrace

theorem Statement.canonicalWords_lead (read : Statement) :
    ∃ word rest, read.canonicalWords = word :: rest ∧ word.kind = read.lead := by
  cases read with
  | expression value _ =>
      obtain ⟨word, rest, hwords, hkind⟩ := value.canonicalWords_lead
      exact ⟨word, _, by rw [canonicalWords, hwords, List.cons_append], hkind⟩
  | block body =>
      cases body
      exact ⟨_, _, rfl, rfl⟩
  | _ => exact ⟨_, _, rfl, rfl⟩

theorem bindingKind_injective {constant constant' : Bool}
    (hkind : bindingKind constant = bindingKind constant') : constant = constant' := by
  cases constant <;> cases constant' <;> first | rfl | cases hkind

theorem Statement.lead_eq_of_words {read read' : Statement} {rest rest' : List Word}
    (hwords : read.canonicalWords ++ rest = read'.canonicalWords ++ rest') :
    read.lead = read'.lead := by
  obtain ⟨word, tail, hread, hkind⟩ := read.canonicalWords_lead
  obtain ⟨word', tail', hread', hkind'⟩ := read'.canonicalWords_lead
  rw [hread, hread'] at hwords
  rw [← hkind, ← hkind', (List.cons.inj hwords).1]

namespace Expression

/-! ## Calls -/

def isCall : Expression → Bool
  | .call _ _ _ => true
  | _ => false

/-- What stands before all calls, which is the expression itself if it is no call. -/
def head : Expression → Expression
  | .call _ callee _ => callee.head
  | value => value
  termination_by structural value => value

/-- The arguments of the calls, the first call first.  With the head they make up the expression. -/
def groups : Expression → List (List Expression)
  | .call _ callee arguments => callee.groups ++ [arguments]
  | _ => []
  termination_by structural value => value

/-- The calls of an expression one after another, wherever they stand.  It puts together what head
and groups take apart. -/
def applied (callee : Expression) (groups : List (List Expression)) : Expression :=
  groups.foldl (.call (.empty 0)) callee

theorem isCall_head (value : Expression) : value.head.isCall = false := by
  cases value with
  | call _ callee _ => exact callee.isCall_head
  | _ => rfl
  termination_by structural value

theorem erased_eq_applied (value : Expression) :
    value.mapSpans nowhere =
      applied (value.head.mapSpans nowhere) (value.groups.map (mapSpansOfExpressions nowhere)) := by
  cases value with
  | call _ callee arguments =>
      rw [mapSpans, callee.erased_eq_applied, head, groups, applied, applied, List.map_append,
        List.foldl_append]
      rfl
  | _ => rfl
  termination_by structural value

theorem head_wellFormed {last : Option Token} (value : Expression)
    (hformed : value.WellFormed last) :
    value.head.WellFormed last ∧ ∀ group ∈ value.groups, expressionsWellFormed last group := by
  cases value with
  | call _ callee arguments =>
      obtain ⟨hhead, hgroups⟩ := callee.head_wellFormed hformed.2.1
      refine ⟨hhead, fun group hmember => ?_⟩
      rcases List.mem_append.mp hmember with hfront | hlast
      · exact hgroups group hfront
      · rw [List.mem_singleton.mp hlast]
        exact hformed.2.2
  | _ => exact ⟨hformed, List.forall_mem_nil _⟩
  termination_by structural value

end Expression

/-- The words of arguments, each between its parentheses. -/
def groupsWords : List (List Expression) → List Word
  | [] => []
  | group :: groups =>
      Kind.lParen.word :: (separated (canonicalWordsOfExpressions group) ++
        Kind.rParen.word :: groupsWords groups)

theorem groupsWords_concat (groups : List (List Expression)) (last : List Expression) :
    groupsWords (groups ++ [last]) = groupsWords groups ++
      Kind.lParen.word :: (separated (canonicalWordsOfExpressions last) ++ [Kind.rParen.word]) := by
  induction groups with
  | nil => rfl
  | cons group groups ih => simp only [List.cons_append, groupsWords, ih, List.append_assoc]

theorem Expression.canonicalWords_eq (value : Expression) :
    value.canonicalWords = value.head.canonicalWords ++ groupsWords value.groups := by
  cases value with
  | call _ callee arguments =>
      rw [canonicalWords, callee.canonicalWords_eq, head, groups, groupsWords_concat,
        List.append_assoc]
  | _ => exact (List.append_nil _).symm
  termination_by structural value

/-! ## Alike at the front -/

/-- Expressions of the same form, neither of them a call.  The parenthesis at the front does not
tell one operator from the other. -/
inductive SameFront : Expression → Expression → Prop where
  | identifier {span span' name name'} :
      SameFront (.identifier span name) (.identifier span' name')
  | integer {span span' value value'} : SameFront (.integer span value) (.integer span' value')
  | string {span span' text text'} : SameFront (.string span text) (.string span' text')
  | boolean {span span' value} : SameFront (.boolean span value) (.boolean span' value)
  | array {span span' elements elements'} :
      SameFront (.array span elements) (.array span' elements')
  | object {span span' entries entries'} : SameFront (.object span entries) (.object span' entries')
  | unary {span span' operator operator' operand operand'} :
      SameFront (.unary span operator operand) (.unary span' operator' operand')
  | unaryBinary {span span' operator operator' operand left right} :
      SameFront (.unary span operator operand) (.binary span' left operator' right)
  | binaryUnary {span span' operator operator' left right operand} :
      SameFront (.binary span left operator right) (.unary span' operator' operand)
  | binary {span span' left left' operator operator' right right'} :
      SameFront (.binary span left operator right) (.binary span' left' operator' right')
  | conditional {span span' condition condition' consequence consequence' alternative
      alternative'} :
      SameFront (.conditional span condition consequence alternative)
        (.conditional span' condition' consequence' alternative')
  | function {span span' names names' body body'} :
      SameFront (.function span names body) (.function span' names' body')

theorem sameFront_of_lead {value value' : Expression} (hcall : value.isCall = false)
    (hcall' : value'.isCall = false) (hlead : value.lead = value'.lead) :
    SameFront value value' := by
  cases value with
  | call => cases hcall
  | boolean _ truth =>
      cases value' with
      | call => cases hcall'
      | boolean _ truth' => cases truth <;> cases truth' <;> first | exact .boolean | cases hlead
      | _ => cases truth <;> cases hlead
  | _ =>
      cases value' with
      | call => cases hcall'
      | boolean _ truth' => cases truth' <;> cases hlead
      | _ => first | constructor | cases hlead

/-- Statements of the same form. -/
inductive SameStart : Statement → Statement → Prop where
  | binding {constant name name' value value' span span'} :
      SameStart (.binding constant name value span) (.binding constant name' value' span')
  | function {name name' names names' body body' span span'} :
      SameStart (.function name names body span) (.function name' names' body' span')
  | returned {value value' span span'} : SameStart (.returned value span) (.returned value' span')
  | expression {value value' span span'} :
      SameStart (.expression value span) (.expression value' span')

/-- The expression of a statement does not start as a named function does. -/
theorem Statement.expression_lead_ne {last : Option Token} {value : Expression} {span : Span}
    (hformed : (Statement.expression value span).WellFormed last) :
    value.lead ≠ .kwFunction := by
  intro hlead
  have hstarts := value.startsWithFunction_of_lead hlead
  rw [hformed.1] at hstarts
  cases hstarts

theorem sameStart_of_lead {last last' : Option Token} {read read' : Statement}
    (hformed : read.WellFormed last) (hformed' : read'.WellFormed last')
    (hlead : read.lead = read'.lead) : SameStart read read' := by
  cases read with
  | block => exact hformed.elim
  | expression value _ =>
      cases read' with
      | block => exact hformed'.elim
      | expression => exact .expression
      | binding constant' => exact absurd hlead (value.lead_ne (by cases constant' <;> rfl))
      | function => exact absurd hlead (Statement.expression_lead_ne hformed)
      | returned => exact absurd hlead (value.lead_ne rfl)
  | binding constant =>
      cases read' with
      | block => exact hformed'.elim
      | expression value' =>
          exact absurd hlead.symm (value'.lead_ne (by cases constant <;> rfl))
      | binding constant' =>
          obtain rfl := bindingKind_injective hlead
          exact .binding
      | _ => cases constant <;> cases hlead
  | function =>
      cases read' with
      | block => exact hformed'.elim
      | expression => exact absurd hlead.symm (Statement.expression_lead_ne hformed')
      | binding constant' => cases constant' <;> cases hlead
      | function => exact .function
      | returned => cases hlead
  | returned =>
      cases read' with
      | block => exact hformed'.elim
      | expression value' => exact absurd hlead.symm (value'.lead_ne rfl)
      | binding constant' => cases constant' <;> cases hlead
      | function => cases hlead
      | returned => exact .returned

end Frontend
