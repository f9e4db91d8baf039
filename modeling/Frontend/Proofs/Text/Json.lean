import Frontend.Proofs.Text.Quoted
import Frontend.Proofs.Text.SingleLines

/-!
# JSON texts tell their values

The text of a JSON value without blanks tells the value and where it ends: whatever stands behind
it, unless a digit does, no other value has a text that starts in the same way.  The first character
tells what sort of value it is, strings and numbers are read back, and the items of a list are told
one after another.
-/

namespace Frontend

/-! ## Texts that tell what was written -/

/-- What may stand behind a number: anything but another digit. -/
def EndsNumber (rest : List Char) : Prop := ∀ c ∈ rest.head?, Lexeme.isDigit c = false

theorem EndsNumber.cons {c : Char} (hc : Lexeme.isDigit c = false) (rest : List Char) :
    EndsNumber (c :: rest) :=
  fun _ hhead => Option.some.inj hhead ▸ hc

/-- The text of something tells what it is and where it ends.  A number is only over where no digit
follows, which is so wherever values are put together. -/
def Told {α : Type} (write : α → String) (item : α) : Prop :=
  ∀ other rest rest', EndsNumber rest → EndsNumber rest' →
    (write item).toList ++ rest = (write other).toList ++ rest' → item = other ∧ rest = rest'

section Rows

variable {α : Type} {write : α → String} {items others : List α} {closer : Char}
variable {rest rest' : List Char}

/-- The items after the first one, each with a comma in front of it. -/
def moreOf (write : α → String) (items : List α) : List Char :=
  items.flatMap fun item => ',' :: (write item).toList

theorem toList_joined_commas (item : α) (items : List α) :
    (joined "," ((item :: items).map write)).toList =
      (write item).toList ++ moreOf write items := by
  induction items generalizing item with
  | nil => simp [joined, moreOf]
  | cons next items ih =>
      have hrest := ih next
      rw [List.map_cons] at hrest
      rw [List.map_cons, List.map_cons, joined, String.toList_append, String.toList_append, hrest,
        List.append_assoc]
      rfl

theorem endsNumber_moreOf (hcloser : Lexeme.isDigit closer = false) (items : List α) :
    EndsNumber (moreOf write items ++ closer :: rest) := by
  cases items with
  | nil => exact .cons hcloser rest
  | cons item items => exact .cons (by decide) _

theorem told_more (hcloser : Lexeme.isDigit closer = false) (hcomma : closer ≠ ',')
    (hitems : ∀ item ∈ items, Told write item)
    (heq : moreOf write items ++ closer :: rest = moreOf write others ++ closer :: rest') :
    items = others ∧ rest = rest' := by
  induction items generalizing others with
  | nil =>
      cases others with
      | nil => exact ⟨rfl, (List.cons.inj heq).2⟩
      | cons other others => exact absurd (List.cons.inj heq).1 hcomma
  | cons item items ih =>
      obtain ⟨hitem, hrest⟩ := List.forall_mem_cons.mp hitems
      cases others with
      | nil => exact absurd (List.cons.inj heq).1.symm hcomma
      | cons other others =>
          simp only [moreOf, List.flatMap_cons, List.cons_append, List.append_assoc,
            List.cons.injEq, true_and] at heq
          obtain ⟨rfl, hmore⟩ := hitem other _ _ (endsNumber_moreOf hcloser items)
            (endsNumber_moreOf hcloser others) heq
          obtain ⟨rfl, hbehind⟩ := ih hrest hmore
          exact ⟨rfl, hbehind⟩

/-- A row of items tells them all, if none of them starts like the end of the row. -/
theorem told_row (hcloser : Lexeme.isDigit closer = false) (hcomma : closer ≠ ',')
    (hstart : ∀ item, ∃ c cs, (write item).toList = c :: cs ∧ c ≠ closer)
    (hitems : ∀ item ∈ items, Told write item)
    (heq : (joined "," (items.map write)).toList ++ closer :: rest =
      (joined "," (others.map write)).toList ++ closer :: rest') :
    items = others ∧ rest = rest' := by
  have hsome (item : α) (items : List α) (behind behind' : List Char) :
      (joined "," ((item :: items).map write)).toList ++ behind ≠ closer :: behind' := by
    obtain ⟨c, cs, htext, hc⟩ := hstart item
    rw [toList_joined_commas, htext]
    exact fun heq => hc (List.cons.inj heq).1
  cases items with
  | nil =>
      cases others with
      | nil => exact ⟨rfl, (List.cons.inj heq).2⟩
      | cons other others => exact absurd heq.symm (hsome other others _ _)
  | cons item items =>
      obtain ⟨hitem, hrest⟩ := List.forall_mem_cons.mp hitems
      cases others with
      | nil => exact absurd heq (hsome item items _ _)
      | cons other others =>
          rw [toList_joined_commas, toList_joined_commas, List.append_assoc, List.append_assoc]
            at heq
          obtain ⟨rfl, hmore⟩ := hitem other _ _ (endsNumber_moreOf hcloser items)
            (endsNumber_moreOf hcloser others) heq
          obtain ⟨rfl, hbehind⟩ := told_more hcloser hcomma hrest hmore
          exact ⟨rfl, hbehind⟩

end Rows

/-! ## Numbers -/

namespace Numeral

/-- The integer at the start of a text and what stands behind its digits.  It undoes the writing of
numbers. -/
def firstInteger (text : List Char) : Int × List Char :=
  if text.head? = some '-' then
    (-(ofDecimal (text.tail.takeWhile Lexeme.isDigit) : Int), text.tail.dropWhile Lexeme.isDigit)
  else (ofDecimal (text.takeWhile Lexeme.isDigit), text.dropWhile Lexeme.isDigit)

theorem takeWhile_decimal (n : Nat) {rest : List Char} (hrest : EndsNumber rest) :
    (decimal n ++ rest).takeWhile Lexeme.isDigit = decimal n ∧
      (decimal n ++ rest).dropWhile Lexeme.isDigit = rest := by
  rw [List.takeWhile_append_of_pos (isDigit_of_mem_decimal n),
    List.dropWhile_append_of_pos (isDigit_of_mem_decimal n)]
  cases rest with
  | nil => exact ⟨List.append_nil _, rfl⟩
  | cons c rest =>
      have hc : ¬ Lexeme.isDigit c = true := by simp [hrest c rfl]
      rw [List.takeWhile_cons_of_neg hc, List.dropWhile_cons_of_neg hc]
      exact ⟨List.append_nil _, rfl⟩

/-- A number is read back from its text. -/
theorem firstInteger_ofInt (value : Int) {rest : List Char} (hrest : EndsNumber rest) :
    firstInteger ((ofInt value).toList ++ rest) = (value, rest) := by
  cases value with
  | ofNat n =>
      have hunsigned : (decimal n ++ rest).head? ≠ some '-' := by
        intro hsign
        rw [List.head?_append_of_ne_nil _ (decimal_ne_nil n)] at hsign
        exact absurd (isDigit_of_mem_decimal n _ (List.mem_of_mem_head? hsign)) (by decide)
      obtain ⟨htake, hdrop⟩ := takeWhile_decimal n hrest
      rw [ofInt, ofNat, String.toList_ofList, firstInteger, if_neg hunsigned, htake, hdrop,
        ofDecimal_decimal]
      rfl
  | negSucc n =>
      obtain ⟨htake, hdrop⟩ := takeWhile_decimal (n + 1) hrest
      have htext : (ofInt (.negSucc n)).toList = '-' :: decimal (n + 1) := by simp [ofInt, ofNat]
      rw [htext, List.cons_append, firstInteger, if_pos List.head?_cons, List.tail_cons, htake,
        hdrop, ofDecimal_decimal]
      rfl

end Numeral

/-! ## Values -/

namespace Json

section Induction

variable {holds : Json → Prop}

/-- A property of all JSON values is proved for lists from their items and for objects from the
values of their members.  With these steps it holds of every value. -/
structure Steps (holds : Json → Prop) : Prop where
  null : holds .null
  bool (value : Bool) : holds (.bool value)
  number (value : Int) : holds (.number value)
  string (text : String) : holds (.string text)
  array (items : List Json) (ih : ∀ item ∈ items, holds item) : holds (.array items)
  object (members : List (String × Json)) (ih : ∀ member ∈ members, holds member.2) :
    holds (.object members)

mutual

theorem Steps.all (hsteps : Steps holds) : ∀ value, holds value
  | .null => hsteps.null
  | .bool value => hsteps.bool value
  | .number value => hsteps.number value
  | .string text => hsteps.string text
  | .array items => hsteps.array items (hsteps.ofItems items)
  | .object members => hsteps.object members (hsteps.ofMembers members)
  termination_by structural value => value

theorem Steps.ofItems (hsteps : Steps holds) : ∀ items : List Json, ∀ item ∈ items, holds item
  | [] => List.forall_mem_nil _
  | item :: items => List.forall_mem_cons.mpr ⟨hsteps.all item, hsteps.ofItems items⟩
  termination_by structural items => items

theorem Steps.ofMembers (hsteps : Steps holds) :
    ∀ members : List (String × Json), ∀ member ∈ members, holds member.2
  | [] => List.forall_mem_nil _
  | member :: members =>
      List.forall_mem_cons.mpr ⟨hsteps.ofMember member, hsteps.ofMembers members⟩
  termination_by structural members => members

theorem Steps.ofMember (hsteps : Steps holds) : ∀ member : String × Json, holds member.2
  | (_, value) => hsteps.all value
  termination_by structural member => member

end

end Induction

theorem compactItems_eq_map (items : List Json) : compactItems items = items.map compact := by
  induction items with
  | nil => rfl
  | cons item items ih => rw [compactItems, ih, List.map_cons]

theorem compactMembers_eq_map (members : List (String × Json)) :
    compactMembers members = members.map compactMember := by
  induction members with
  | nil => rfl
  | cons member members ih => rw [compactMembers, ih, List.map_cons]

theorem toList_compact_array (items : List Json) (rest : List Char) :
    (array items).compact.toList ++ rest =
      '[' :: ((joined "," (items.map compact)).toList ++ ']' :: rest) := by
  rw [compact, compactItems_eq_map, String.toList_append, String.toList_append, List.append_assoc,
    List.append_assoc]
  rfl

theorem toList_compact_object (members : List (String × Json)) (rest : List Char) :
    (object members).compact.toList ++ rest =
      '{' :: ((joined "," (members.map compactMember)).toList ++ '}' :: rest) := by
  rw [compact, compactMembers_eq_map, String.toList_append, String.toList_append,
    List.append_assoc, List.append_assoc]
  rfl

theorem toList_compactMember (name : String) (value : Json) (rest : List Char) :
    (compactMember (name, value)).toList ++ rest =
      (quoted name).toList ++ ':' :: (value.compact.toList ++ rest) := by
  rw [compactMember, String.toList_append, String.toList_append, List.append_assoc,
    List.append_assoc]
  rfl

/-- What sort of value a text is of, by its first character.  The sorts have the numbers of the
constructors. -/
def sortOf (c : Char) : Nat :=
  if c = 'n' then 0
  else if c = 't' ∨ c = 'f' then 1
  else if c = '"' then 3
  else if c = '[' then 4
  else if c = '{' then 5
  else 2

theorem ofInt_front (value : Int) :
    ∃ c cs, (Numeral.ofInt value).toList = c :: cs ∧ sortOf c = 2 ∧ c ≠ ']' := by
  have hdigit : ∀ digit < 10, sortOf (Nat.digitChar digit) = 2 ∧ Nat.digitChar digit ≠ ']' := by
    decide
  cases value with
  | ofNat n =>
      have htext : (Numeral.ofInt (.ofNat n)).toList = Numeral.decimal n := String.toList_ofList
      obtain ⟨c, cs, hdecimal⟩ := List.exists_cons_of_ne_nil (Numeral.decimal_ne_nil n)
      have hmember : c ∈ Numeral.decimal n := hdecimal ▸ List.mem_cons_self
      obtain ⟨digit, hdigits, rfl⟩ := List.mem_map.mp hmember
      exact ⟨_, cs, htext.trans hdecimal, hdigit digit (Numeral.digits_lt 10 _ n digit hdigits)⟩
  | negSucc n => exact ⟨'-', _, String.toList_append, by decide⟩

/-- The text of a value starts with a character that tells its sort, and does not start like the end
of a list. -/
theorem compact_front (value : Json) :
    ∃ c cs, value.compact.toList = c :: cs ∧ sortOf c = value.ctorIdx ∧ c ≠ ']' := by
  cases value with
  | null => exact ⟨'n', _, rfl, by decide⟩
  | bool value => cases value <;> exact ⟨_, _, rfl, by decide⟩
  | number value => exact ofInt_front value
  | string text => exact ⟨'"', _, String.toList_ofList, rfl, by decide⟩
  | array items =>
      have htext := toList_compact_array items []
      rw [List.append_nil] at htext
      exact ⟨'[', _, htext, rfl, by decide⟩
  | object members =>
      have htext := toList_compact_object members []
      rw [List.append_nil] at htext
      exact ⟨'{', _, htext, rfl, by decide⟩

theorem compactMember_front (member : String × Json) :
    ∃ c cs, (compactMember member).toList = c :: cs ∧ c ≠ '}' := by
  have htext := toList_compactMember member.1 member.2 []
  rw [List.append_nil, quoted, String.toList_ofList] at htext
  exact ⟨'"', _, htext, by decide⟩

theorem ctorIdx_eq_of_front {value other : Json} {rest rest' : List Char}
    (heq : value.compact.toList ++ rest = other.compact.toList ++ rest') :
    value.ctorIdx = other.ctorIdx := by
  obtain ⟨c, cs, htext, hsort, -⟩ := value.compact_front
  obtain ⟨c', cs', htext', hsort', -⟩ := other.compact_front
  rw [htext, htext'] at heq
  rw [← hsort, ← hsort', (List.cons.inj heq).1]

/-- A member of which the value is told. -/
theorem told_member {member : String × Json} (hvalue : Told compact member.2) :
    Told compactMember member := by
  obtain ⟨name, value⟩ := member
  rintro ⟨name', value'⟩ rest rest' hrest hrest' heq
  rw [toList_compactMember, toList_compactMember] at heq
  have hread := congrArg (Quoted.read .outside) heq
  rw [read_quoted, read_quoted] at hread
  obtain ⟨hname, hbehind⟩ := Prod.mk.inj (Option.some.inj hread)
  obtain rfl := String.toList_inj.mp hname
  obtain ⟨rfl, hend⟩ := hvalue value' rest rest' hrest hrest' (List.cons.inj hbehind).2
  exact ⟨rfl, hend⟩

/-- Each value is told by its text.  The first character leaves only values of the same sort, whose
parts are told by induction. -/
theorem told_steps : Steps (Told compact) where
  null := by
    intro other rest rest' _ _ heq
    have hsort := ctorIdx_eq_of_front heq
    cases other with
    | null => exact ⟨rfl, List.append_cancel_left heq⟩
    | _ => cases hsort
  bool value := by
    intro other rest rest' _ _ heq
    have hsort := ctorIdx_eq_of_front heq
    cases other with
    | bool value' => cases value <;> cases value' <;> simp_all [compact, ofBool]
    | _ => cases hsort
  number value := by
    intro other rest rest' hrest hrest' heq
    have hsort := ctorIdx_eq_of_front heq
    cases other with
    | number value' =>
        have hread := congrArg Numeral.firstInteger heq
        rw [compact, compact, Numeral.firstInteger_ofInt value hrest,
          Numeral.firstInteger_ofInt value' hrest'] at hread
        obtain ⟨rfl, hend⟩ := Prod.mk.inj hread
        exact ⟨rfl, hend⟩
    | _ => cases hsort
  string text := by
    intro other rest rest' _ _ heq
    have hsort := ctorIdx_eq_of_front heq
    cases other with
    | string text' =>
        have hread := congrArg (Quoted.read .outside) heq
        rw [compact, compact, read_quoted, read_quoted] at hread
        obtain ⟨htext, hend⟩ := Prod.mk.inj (Option.some.inj hread)
        exact ⟨congrArg string (String.toList_inj.mp htext), hend⟩
    | _ => cases hsort
  array items ih := by
    intro other rest rest' _ _ heq
    have hsort := ctorIdx_eq_of_front heq
    cases other with
    | array others =>
        rw [toList_compact_array, toList_compact_array] at heq
        have hstart (item : Json) : ∃ c cs, item.compact.toList = c :: cs ∧ c ≠ ']' := by
          obtain ⟨c, cs, htext, -, hc⟩ := item.compact_front
          exact ⟨c, cs, htext, hc⟩
        obtain ⟨rfl, hend⟩ := told_row (by decide) (by decide) hstart ih (List.cons.inj heq).2
        exact ⟨rfl, hend⟩
    | _ => cases hsort
  object members ih := by
    intro other rest rest' _ _ heq
    have hsort := ctorIdx_eq_of_front heq
    cases other with
    | object others =>
        rw [toList_compact_object, toList_compact_object] at heq
        obtain ⟨rfl, hend⟩ := told_row (by decide) (by decide) compactMember_front
          (fun member hmember => told_member (ih member hmember)) (List.cons.inj heq).2
        exact ⟨rfl, hend⟩
    | _ => cases hsort

/-- Two values with the same text are the same.  No value has to be one of a tree or of a token. -/
theorem compact_injective : Function.Injective compact := by
  intro value other heq
  exact (told_steps.all value other [] [] nofun nofun (by rw [heq])).1

end Json

end Frontend
