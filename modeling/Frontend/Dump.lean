import Frontend.Text.Layout

/-!
# Dumps

A dump shows how a value is built: records with their names and fields, named tuples, lists, and
atoms.  It is written on one line, or with an item per line, each closed by a comma and indented by
four blanks.
-/

namespace Frontend

/-- How a value is built, as a derived `Debug` form tells it to the formatter. -/
inductive Dump where
  | atom (text : String)
  | record (name : String) (fields : List (String × Dump))
  | tuple (name : String) (items : List Dump)
  | list (items : List Dump)

namespace Dump

/-- A value that may be missing. -/
def optional : Option Dump → Dump
  | none => .atom "None"
  | some value => .tuple "Some" [value]

mutual

/-- The dump of a value on one line, the `Debug` format. -/
def compact : Dump → String
  | .atom text => text
  | .record name fields => name ++ " \x7b " ++ joined ", " (compactFields fields) ++ " \x7d"
  | .tuple name items => name ++ "(" ++ joined ", " (compactItems items) ++ ")"
  | .list items => "[" ++ joined ", " (compactItems items) ++ "]"
  termination_by structural value => value

def compactItems : List Dump → List String
  | [] => []
  | item :: items => item.compact :: compactItems items
  termination_by structural items => items

def compactFields : List (String × Dump) → List String
  | [] => []
  | field :: fields => compactField field :: compactFields fields
  termination_by structural fields => fields

def compactField : String × Dump → String
  | (name, value) => name ++ ": " ++ value.compact
  termination_by structural field => field

end

/-- The start of a line at a depth of nesting, four blanks for each level. -/
def margin (depth : Nat) : String := "\n" ++ repeated ' ' (4 * depth)

/-- Items on lines of their own, each closed by a comma, between two brackets; nothing stands
between them if there are none. -/
def bracketed (opener closer : String) (depth : Nat) : List String → String
  | [] => opener ++ closer
  | items =>
      opener ++ joined "" (items.map fun item => margin (depth + 1) ++ item ++ ",") ++
        margin depth ++ closer

mutual

/-- The dump of a value at a depth of nesting, with an item per line. -/
def prettyAt (depth : Nat) : Dump → String
  | .atom text => text
  | .record name fields =>
      bracketed (name ++ " \x7b") "\x7d" depth (prettyFields (depth + 1) fields)
  | .tuple name items => bracketed (name ++ "(") ")" depth (prettyItems (depth + 1) items)
  | .list items => bracketed "[" "]" depth (prettyItems (depth + 1) items)
  termination_by structural value => value

def prettyItems (depth : Nat) : List Dump → List String
  | [] => []
  | item :: items => item.prettyAt depth :: prettyItems depth items
  termination_by structural items => items

def prettyFields (depth : Nat) : List (String × Dump) → List String
  | [] => []
  | field :: fields => prettyField depth field :: prettyFields depth fields
  termination_by structural fields => fields

def prettyField (depth : Nat) : String × Dump → String
  | (name, value) => name ++ ": " ++ value.prettyAt depth
  termination_by structural field => field

end

/-- The dump of a value with an item per line, the `Debug` format in its alternate form. -/
def pretty (value : Dump) : String := value.prettyAt 0

end Dump

end Frontend
