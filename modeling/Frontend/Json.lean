import Frontend.Text.Layout
import Frontend.Text.Numeral

/-!
# JSON values and their texts

A JSON value keeps the members of an object in the order in which they were listed, because its
text shows that order.  There are two texts: one without blanks, and one with an item per line.
Inside strings only the quote, the backslash and the control characters are escaped.
-/

namespace Frontend

/-- A JSON value with whole numbers only, which are all that trees and tokens have. -/
inductive Json where
  | null
  | bool (value : Bool)
  | number (value : Int)
  | string (text : String)
  | array (items : List Json)
  | object (members : List (String × Json))

namespace Json

/-- A natural number as a JSON value. -/
def nat (n : Nat) : Json := .number n

/-- The text of a truth value. -/
def ofBool (value : Bool) : String := if value then "true" else "false"

/-- A control character by its number, in four hexadecimal digits of which `serde_json` writes the
letters small. -/
def controlEscape (c : Char) : List Char :=
  ['\\', 'u', '0', '0', Nat.digitChar (c.toNat / 16), Nat.digitChar (c.toNat % 16)]

/-- One character inside a JSON string.  Of the characters that have a short escape, `serde_json`
leaves only the slash as it is. -/
def escaped (c : Char) : List Char :=
  if c = '"' ∨ c = '\\' then ['\\', c]
  else if c = '\n' then ['\\', 'n']
  else if c = '\r' then ['\\', 'r']
  else if c = '\t' then ['\\', 't']
  else if c = '\x08' then ['\\', 'b']
  else if c = '\x0c' then ['\\', 'f']
  else if c.toNat < 0x20 then controlEscape c
  else [c]

/-- A text as a JSON string. -/
def quoted (text : String) : String :=
  String.ofList ('"' :: text.toList.flatMap escaped ++ ['"'])

mutual

/-- The text of a value without blanks, as `to_string` of `serde_json` writes it. -/
def compact : Json → String
  | .null => "null"
  | .bool value => ofBool value
  | .number value => Numeral.ofInt value
  | .string text => quoted text
  | .array items => "[" ++ joined "," (compactItems items) ++ "]"
  | .object members => "\x7b" ++ joined "," (compactMembers members) ++ "\x7d"
  termination_by structural value => value

def compactItems : List Json → List String
  | [] => []
  | item :: items => item.compact :: compactItems items
  termination_by structural items => items

def compactMembers : List (String × Json) → List String
  | [] => []
  | member :: members => compactMember member :: compactMembers members
  termination_by structural members => members

def compactMember : String × Json → String
  | (name, value) => quoted name ++ ":" ++ value.compact
  termination_by structural member => member

end

/-- The start of a line at a depth of nesting, two blanks for each level. -/
def margin (depth : Nat) : String := "\n" ++ repeated ' ' (2 * depth)

/-- Items on lines of their own between two brackets; nothing stands between them if there are
none. -/
def bracketed (opener closer : String) (depth : Nat) : List String → String
  | [] => opener ++ closer
  | items =>
      opener ++ margin (depth + 1) ++ joined ("," ++ margin (depth + 1)) items ++
        margin depth ++ closer

mutual

/-- The text of a value at a depth of nesting, with an item per line. -/
def prettyAt (depth : Nat) : Json → String
  | .null => "null"
  | .bool value => ofBool value
  | .number value => Numeral.ofInt value
  | .string text => quoted text
  | .array items => bracketed "[" "]" depth (prettyItems (depth + 1) items)
  | .object members => bracketed "\x7b" "\x7d" depth (prettyMembers (depth + 1) members)
  termination_by structural value => value

def prettyItems (depth : Nat) : List Json → List String
  | [] => []
  | item :: items => item.prettyAt depth :: prettyItems depth items
  termination_by structural items => items

def prettyMembers (depth : Nat) : List (String × Json) → List String
  | [] => []
  | member :: members => prettyMember depth member :: prettyMembers depth members
  termination_by structural members => members

def prettyMember (depth : Nat) : String × Json → String
  | (name, value) => quoted name ++ ": " ++ value.prettyAt depth
  termination_by structural member => member

end

/-- The text of a value with an item per line, as `to_string_pretty` of `serde_json` writes it. -/
def pretty (value : Json) : String := value.prettyAt 0

end Json

end Frontend
