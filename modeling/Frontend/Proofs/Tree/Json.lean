import Frontend.Proofs.Text.JsonLayout
import Frontend.Proofs.Trace.Order
import Frontend.Proofs.Tree.Phrases
import Frontend.Tree.Json

/-!
# JSON loses nothing of a tree

Each part of a tree can be told by its JSON value: the member that an object is wrapped into names
the kind of the part, operators have different symbols, and what is missing is not an object.  As
JSON values can be told by their texts, so can programs and lists of tokens, whether or not any text
would be read as them.
-/

namespace Frontend

/-- No other value is written in the same way.  Said of one value, it can be proved along a tree. -/
def ToldBy {α β : Type} (write : α → β) (value : α) : Prop :=
  ∀ other, write value = write other → value = other

/-- A list can be told if its members can be told one by one. -/
theorem told_map {α β : Type} {write : α → β} {items : List α}
    (hitems : ∀ item ∈ items, ToldBy write item) : ToldBy (List.map write) items := by
  intro others heq
  induction items generalizing others with
  | nil => exact (List.map_eq_nil_iff.mp heq.symm).symm
  | cons item items ih =>
      obtain ⟨hitem, hrest⟩ := List.forall_mem_cons.mp hitems
      cases others with
      | nil => cases heq
      | cons other others =>
          obtain ⟨hfirst, hmore⟩ := List.cons.inj heq
          rw [hitem other hfirst, ih hrest others hmore]

/-! ## Leaves -/

@[simp]
theorem Json.nat_inj {left right : Nat} : nat left = nat right ↔ left = right := by
  rw [nat, nat, number.injEq, Int.ofNat_inj]

@[simp]
theorem Span.json_inj {left right : Span} : left.json = right.json ↔ left = right := by
  cases left
  cases right
  simp [json]

@[simp]
theorem Identifier.json_inj {left right : Identifier} : left.json = right.json ↔ left = right := by
  cases left
  cases right
  simp [json]

@[simp]
theorem jsonIdentifiers_inj {left right : List Identifier} :
    jsonIdentifiers left = jsonIdentifiers right ↔ left = right := by
  have hinjective : Function.Injective Identifier.json := fun _ _ => Identifier.json_inj.mp
  simp [jsonIdentifiers, List.map_inj_right hinjective]

theorem Token.json_injective : Function.Injective Token.json := by
  rintro ⟨kind, literal, span⟩ ⟨kind', literal', span'⟩ heq
  simpa [json, Kind.name_injective.eq_iff] using heq

@[simp]
theorem UnaryOperator.symbol_inj {left right : UnaryOperator} :
    left.symbol = right.symbol ↔ left = right := by
  cases left <;> cases right <;> decide

@[simp]
theorem BinaryOperator.symbol_inj {left right : BinaryOperator} :
    left.symbol = right.symbol ↔ left = right := by
  cases left <;> cases right <;> decide

/-! ## Parts of trees -/

attribute [simp] Expression.json Property.json Block.json Statement.json

@[simp]
theorem Json.tagged_inj {tag tag' : String} {value value' : Json} :
    tagged tag value = tagged tag' value' ↔ tag = tag' ∧ value = value' := by
  simp [tagged]

@[simp]
theorem jsonExpression_inj {span span' : Span} {tag tag' : String} {value value' : Json} :
    jsonExpression span tag value = jsonExpression span' tag' value' ↔
      span = span' ∧ tag = tag' ∧ value = value' := by
  simp [jsonExpression]

theorem jsonExpressions_eq_map (values : List Expression) :
    jsonExpressions values = values.map Expression.json := by
  induction values with
  | nil => rfl
  | cons value values ih => rw [jsonExpressions, ih, List.map_cons]

theorem jsonProperties_eq_map (entries : List Property) :
    jsonProperties entries = entries.map Property.json := by
  induction entries with
  | nil => rfl
  | cons entry entries ih => rw [jsonProperties, ih, List.map_cons]

theorem jsonStatements_eq_map (row : List Statement) :
    jsonStatements row = row.map Statement.json := by
  induction row with
  | nil => rfl
  | cons read row ih => rw [jsonStatements, ih, List.map_cons]

theorem Block.json_ne_null (body : Block) : body.json ≠ .null := by
  obtain ⟨row, span⟩ := body
  simp

theorem Expression.json_ne_null (value : Expression) : value.json ≠ .null := by
  cases value <;> simp [jsonExpression]

/-! ## Expressions -/

section

variable {span : Span}

theorem told_identifier {name : Identifier} : ToldBy Expression.json (.identifier span name) := by
  intro other heq
  cases other <;> simp_all

theorem told_integer {value : Int} : ToldBy Expression.json (.integer span value) := by
  intro other heq
  cases other <;> simp_all

theorem told_string {text : String} : ToldBy Expression.json (.string span text) := by
  intro other heq
  cases other <;> simp_all

theorem told_boolean {value : Bool} : ToldBy Expression.json (.boolean span value) := by
  intro other heq
  cases other <;> simp_all

theorem told_array {elements : List Expression} (helements : ToldBy jsonExpressions elements) :
    ToldBy Expression.json (.array span elements) := by
  intro other heq
  cases other with
  | array span' elements' =>
      obtain ⟨rfl, hsame⟩ :
          span = span' ∧ jsonExpressions elements = jsonExpressions elements' := by
        simpa using heq
      rw [helements elements' hsame]
  | _ => simp at heq

theorem told_object {entries : List Property} (hentries : ToldBy jsonProperties entries) :
    ToldBy Expression.json (.object span entries) := by
  intro other heq
  cases other with
  | object span' entries' =>
      obtain ⟨rfl, hsame⟩ : span = span' ∧ jsonProperties entries = jsonProperties entries' := by
        simpa using heq
      rw [hentries entries' hsame]
  | _ => simp at heq

theorem told_unary {operator : UnaryOperator} {operand : Expression}
    (hoperand : ToldBy Expression.json operand) :
    ToldBy Expression.json (.unary span operator operand) := by
  intro other heq
  cases other with
  | unary span' operator' operand' =>
      obtain ⟨rfl, rfl, hsame⟩ :
          span = span' ∧ operator = operator' ∧ operand.json = operand'.json := by
        simpa using heq
      rw [hoperand operand' hsame]
  | _ => simp at heq

theorem told_binary {left right : Expression} {operator : BinaryOperator}
    (hleft : ToldBy Expression.json left) (hright : ToldBy Expression.json right) :
    ToldBy Expression.json (.binary span left operator right) := by
  intro other heq
  cases other with
  | binary span' left' operator' right' =>
      obtain ⟨rfl, hsameLeft, rfl, hsameRight⟩ : span = span' ∧ left.json = left'.json ∧
          operator = operator' ∧ right.json = right'.json := by
        simpa using heq
      rw [hleft left' hsameLeft, hright right' hsameRight]
  | _ => simp at heq

/-- The missing alternative is written as no block is. -/
theorem told_alternative {alternative : Option Block}
    (hbody : ∀ body ∈ alternative, ToldBy Block.json body) :
    ToldBy jsonAlternative alternative := by
  intro other heq
  cases alternative with
  | none =>
      cases other with
      | none => rfl
      | some body' => exact absurd heq.symm body'.json_ne_null
  | some body =>
      cases other with
      | none => exact absurd heq body.json_ne_null
      | some body' => rw [hbody body rfl body' heq]

theorem told_conditional {condition : Expression} {consequence : Block}
    {alternative : Option Block} (hcondition : ToldBy Expression.json condition)
    (hconsequence : ToldBy Block.json consequence)
    (halternative : ToldBy jsonAlternative alternative) :
    ToldBy Expression.json (.conditional span condition consequence alternative) := by
  intro other heq
  cases other with
  | conditional span' condition' consequence' alternative' =>
      obtain ⟨rfl, hsame, hsameConsequence, hsameAlternative⟩ : span = span' ∧
          condition.json = condition'.json ∧ consequence.json = consequence'.json ∧
            jsonAlternative alternative = jsonAlternative alternative' := by
        simpa using heq
      rw [hcondition condition' hsame, hconsequence consequence' hsameConsequence,
        halternative alternative' hsameAlternative]
  | _ => simp at heq

theorem told_function {names : List Identifier} {body : Block} (hbody : ToldBy Block.json body) :
    ToldBy Expression.json (.function span names body) := by
  intro other heq
  cases other with
  | function span' names' body' =>
      obtain ⟨rfl, rfl, hsame⟩ : span = span' ∧ names = names' ∧ body.json = body'.json := by
        simpa using heq
      rw [hbody body' hsame]
  | _ => simp at heq

theorem told_call {callee : Expression} {arguments : List Expression}
    (hcallee : ToldBy Expression.json callee) (harguments : ToldBy jsonExpressions arguments) :
    ToldBy Expression.json (.call span callee arguments) := by
  intro other heq
  cases other with
  | call span' callee' arguments' =>
      obtain ⟨rfl, hsame, hsameArguments⟩ : span = span' ∧ callee.json = callee'.json ∧
          jsonExpressions arguments = jsonExpressions arguments' := by
        simpa using heq
      rw [hcallee callee' hsame, harguments arguments' hsameArguments]
  | _ => simp at heq

theorem told_property {key : Identifier} {value : Expression}
    (hvalue : ToldBy Expression.json value) : ToldBy Property.json ⟨key, value, span⟩ := by
  rintro ⟨key', value', span'⟩ heq
  obtain ⟨rfl, hsame, rfl⟩ : key = key' ∧ value.json = value'.json ∧ span = span' := by
    simpa using heq
  rw [hvalue value' hsame]

/-! ## Statements -/

theorem told_block {row : List Statement} (hrow : ToldBy jsonStatements row) :
    ToldBy Block.json ⟨row, span⟩ := by
  rintro ⟨row', span'⟩ heq
  obtain ⟨hsame, rfl⟩ : jsonStatements row = jsonStatements row' ∧ span = span' := by
    simpa using heq
  rw [hrow row' hsame]

/-- The missing value is written as no value is. -/
theorem told_value {value : Option Expression}
    (hbound : ∀ bound ∈ value, ToldBy Expression.json bound) : ToldBy jsonValue value := by
  intro other heq
  cases value with
  | none =>
      cases other with
      | none => rfl
      | some bound' => exact absurd heq.symm bound'.json_ne_null
  | some bound =>
      cases other with
      | none => exact absurd heq bound.json_ne_null
      | some bound' => rw [hbound bound rfl bound' heq]

theorem told_binding {constant : Bool} {name : Identifier} {value : Option Expression}
    (hvalue : ToldBy jsonValue value) :
    ToldBy Statement.json (.binding constant name value span) := by
  intro other heq
  cases other with
  | binding constant' name' value' span' =>
      obtain ⟨rfl, rfl, hsame, rfl⟩ : constant = constant' ∧ name = name' ∧
          jsonValue value = jsonValue value' ∧ span = span' := by
        simpa using heq
      rw [hvalue value' hsame]
  | _ => simp at heq

theorem told_namedFunction {name : Identifier} {names : List Identifier} {body : Block}
    (hbody : ToldBy Block.json body) : ToldBy Statement.json (.function name names body span) := by
  intro other heq
  cases other with
  | function name' names' body' span' =>
      obtain ⟨rfl, rfl, hsame, rfl⟩ : name = name' ∧ names = names' ∧
          body.json = body'.json ∧ span = span' := by
        simpa using heq
      rw [hbody body' hsame]
  | _ => simp at heq

theorem told_returned {value : Expression} (hvalue : ToldBy Expression.json value) :
    ToldBy Statement.json (.returned value span) := by
  intro other heq
  cases other with
  | returned value' span' =>
      obtain ⟨hsame, rfl⟩ : value.json = value'.json ∧ span = span' := by
        simpa using heq
      rw [hvalue value' hsame]
  | _ => simp at heq

theorem told_expression {value : Expression} (hvalue : ToldBy Expression.json value) :
    ToldBy Statement.json (.expression value span) := by
  intro other heq
  cases other with
  | expression value' span' =>
      obtain ⟨hsame, rfl⟩ : value.json = value'.json ∧ span = span' := by
        simpa using heq
      rw [hvalue value' hsame]
  | _ => simp at heq

theorem told_bareBlock {body : Block} (hbody : ToldBy Block.json body) :
    ToldBy Statement.json (.block body) := by
  intro other heq
  cases other with
  | block body' =>
      have hsame : body.json = body'.json := by simpa using heq
      rw [hbody body' hsame]
  | _ => simp at heq

end

/-! ## Phrases -/

/-- No other phrase of the same sort has the same JSON value. -/
def Phrase.ToldByJson : Phrase → Prop
  | .expression value => ToldBy Expression.json value
  | .items values => ToldBy jsonExpressions values
  | .property entry => ToldBy Property.json entry
  | .properties entries => ToldBy jsonProperties entries
  | .parameters names => ToldBy jsonIdentifiers names
  | .block body => ToldBy Block.json body
  | .statement read => ToldBy Statement.json read
  | .statements row => ToldBy jsonStatements row

theorem Phrase.toldByJson_steps : Steps ToldByJson where
  identifier _ _ := told_identifier
  integer _ _ := told_integer
  string _ _ := told_string
  boolean _ _ := told_boolean
  array _ _ ih := told_array ih
  object _ _ ih := told_object ih
  unary _ _ _ ih := told_unary ih
  binary _ _ _ _ ihleft ihright := told_binary ihleft ihright
  conditional _ _ _ ihcondition ihconsequence :=
    told_conditional ihcondition ihconsequence (told_alternative fun _ hnone => nomatch hnone)
  alternative _ _ _ _ ihcondition ihconsequence ihalternative := by
    refine told_conditional ihcondition ihconsequence (told_alternative fun body hbody => ?_)
    obtain rfl := Option.some.inj hbody
    exact ihalternative
  function _ _ _ _ ihbody := told_function ihbody
  call _ _ _ ihcallee iharguments := told_call ihcallee iharguments
  items values ih := by
    intro others heq
    rw [jsonExpressions_eq_map, jsonExpressions_eq_map] at heq
    exact told_map ih others heq
  property _ _ _ ih := told_property ih
  properties entries ih := by
    intro others heq
    rw [jsonProperties_eq_map, jsonProperties_eq_map] at heq
    exact told_map ih others heq
  parameters _ _ heq := jsonIdentifiers_inj.mp heq
  block _ _ ih := told_block ih
  bindingWithoutValue _ _ _ := told_binding (told_value fun _ hnone => nomatch hnone)
  binding _ _ value _ ih := by
    refine told_binding (told_value fun bound hbound => ?_)
    obtain rfl := Option.some.inj hbound
    exact ih
  namedFunction _ _ _ _ _ ihbody := told_namedFunction ihbody
  returned _ _ ih := told_returned ih
  expression _ _ ih := told_expression ih
  bareBlock _ ih := told_bareBlock ih
  statements row ih := by
    intro others heq
    rw [jsonStatements_eq_map, jsonStatements_eq_map] at heq
    exact told_map ih others heq

theorem Program.json_injective : Function.Injective Program.json := by
  rintro ⟨row, span⟩ ⟨row', span'⟩ heq
  obtain ⟨hrow, rfl⟩ : jsonStatements row = jsonStatements row' ∧ span = span' := by
    simpa [json] using heq
  rw [Phrase.toldByJson_steps.all (.statements row) row' hrow]

/-- Programs of any shape can be told by their JSON texts, with or without blanks, and so can lists
of tokens. -/
theorem json_texts_injective :
    Function.Injective (fun program : Program => program.json.compact) ∧
      Function.Injective (fun program : Program => program.json.pretty) ∧
      Function.Injective (fun tokens : List Token =>
        (Json.array (tokens.map Token.json)).compact) ∧
      Function.Injective (fun tokens : List Token =>
        (Json.array (tokens.map Token.json)).pretty) := by
  have htokens : Function.Injective fun tokens : List Token => Json.array (tokens.map Token.json) :=
    fun tokens others heq => Token.json_injective.list_map (Json.array.inj heq)
  exact ⟨Json.compact_injective.comp Program.json_injective,
    Json.pretty_injective.comp Program.json_injective,
    Json.compact_injective.comp htokens, Json.pretty_injective.comp htokens⟩

end Frontend
