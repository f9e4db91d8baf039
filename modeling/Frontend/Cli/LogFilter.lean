import Frontend.Event
import Frontend.Text.Layout
import Frontend.Text.Pieces

/-!
# Log filters

A log filter is a list of directives between commas.  A directive is a level for all events, or a
target and the level for the events whose target starts like that.  Of the directives that concern
an event the one with the longest target decides, and among equals the last; an event that no
directive concerns is dropped.
-/

namespace Frontend.Cli

/-- A bound on the verbosity of the events that concern a target, or of all events: a directive of
an `EnvFilter`. -/
structure Directive where
  target : Option (List Char)
  verbosity : Nat

/-- The verbosity that a level name or number allows, with letters of either case. -/
def verbosityOf? (word : List Char) : Option Nat :=
  match String.ofList (word.map Char.toLower) with
  | "off" | "0" => some 0
  | "error" | "1" | "" => some 1
  | "warn" | "2" => some 2
  | "info" | "3" => some 3
  | "debug" | "4" => some 4
  | "trace" | "5" => some 5
  | _ => none

namespace Directive

/-- Reads a directive.  A word that is no level is a target, of which every event is wanted. -/
def ofText? (text : List Char) : Option Directive :=
  match text.dropWhile (· ≠ '=') with
  | _ :: level => (verbosityOf? level).map fun verbosity => ⟨text.takeWhile (· ≠ '='), verbosity⟩
  | [] =>
      match verbosityOf? text with
      | some verbosity => some ⟨none, verbosity⟩
      | none => some ⟨text, Level.trace.verbosity⟩

/-- Whether a directive is about an event, whose target has to start with that of the directive. -/
def concerns (directive : Directive) (event : Event) : Bool :=
  match directive.target with
  | none => true
  | some target => target.isPrefixOf event.target.toList

/-- The length of the target, by which directives are compared.  One without a target gives way to
every one with a target. -/
def rank (directive : Directive) : Nat :=
  match directive.target with
  | none => 0
  | some target => target.length + 1

end Directive

/-- The directives of a filter, in order, which `init_logging` hands to `try_new` of `EnvFilter`. -/
structure LogFilter where
  directives : List Directive

namespace LogFilter

/-- Reads a filter; empty pieces are passed over, and a filter without any directive lets errors
through. -/
def ofText? (text : String) : Option LogFilter :=
  match (pieces ',' text.toList).filter (· ≠ []) with
  | [] => some ⟨[⟨none, Level.error.verbosity⟩]⟩
  | texts => (texts.mapM Directive.ofText?).map LogFilter.mk

/-- The last of the directives with the highest rank. -/
def strongest : List Directive → Option Directive
  | [] => none
  | directive :: directives =>
      match strongest directives with
      | none => some directive
      | some later => if later.rank < directive.rank then some directive else some later

/-- Whether an event passes the filter, which the strongest directive about it decides. -/
def allows (filter : LogFilter) (event : Event) : Bool :=
  match strongest (filter.directives.filter (·.concerns event)) with
  | none => false
  | some directive => event.level.verbosity ≤ directive.verbosity

end LogFilter

/-- An event as a line of the log, after a stamp that tells the time, as the subscriber of
`init_logging` writes it. -/
def logLine (stamp : String) (event : Event) : String :=
  stamp ++ " " ++ padLeft 5 event.level.name ++ " " ++ event.target ++ ": " ++ event.message ++
    joined "" (event.details.map fun (name, detail) => " " ++ name ++ "=" ++ detail.shown) ++ "\n"

/-- The log lines of the events that pass a filter. -/
def logLines (filter : LogFilter) (stamp : String) (events : List Event) : String :=
  joined "" ((events.filter filter.allows).map (logLine stamp))

end Frontend.Cli
