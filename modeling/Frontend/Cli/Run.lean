import Frontend.Cli.Arguments
import Frontend.Cli.Directory
import Frontend.Cli.LogFilter
import Frontend.Cli.Report
import Frontend.Trace
import Frontend.Tree.Canonical
import Frontend.Tree.Dump
import Frontend.Tree.Json

/-!
# Running a command line

A run is planned from the arguments alone: it may be over at once, or it needs the bytes of one
input.  With these it is finished.  What a run leaves behind is an exit code and two texts.
-/

namespace Frontend.Cli

/-- What a run leaves behind. -/
structure Output where
  exit : Nat
  stdout : String
  stderr : String
  deriving DecidableEq

/-- Why a run fails: a summary, which is the outermost context of an error, and the chain of causes
below it. -/
structure Failure where
  summary : String
  causes : List String

namespace Failure

/-- A text with a margin before each of its lines. -/
def indented (margin : String) (text : String) : String :=
  joined "\n" ((pieces '\n' text.toList).map fun line => margin ++ String.ofList line)

/-- The causes in order, each after its number. -/
def numbered : Nat → List String → String
  | _, [] => ""
  | number, cause :: causes =>
      padLeft 5 (Numeral.ofNat number) ++ ": " ++ cause ++ "\n" ++ numbered (number + 1) causes

/-- The text that a failure of `main` leaves.  Several causes are numbered, and a single one is
not. -/
def message (failure : Failure) : String :=
  "Error: " ++ failure.summary ++ "\n" ++
    match failure.causes with
    | [] => ""
    | [cause] => "\nCaused by:\n" ++ indented "    " cause ++ "\n"
    | causes => "\nCaused by:\n" ++ numbered 0 causes

end Failure

/-- Where a command takes its text from, which `read_source` tells by the path. -/
inductive Input where
  | standard
  | file (path : String)
  deriving DecidableEq

namespace Input

/-- A lone dash stands for the standard input. -/
def ofPath (path : String) : Input := if path = "-" then standard else file path

/-- The path that reports show, which `read_source` puts into its `SourceFile`. -/
def shown : Input → String
  | standard => "<stdin>"
  | file path => path

/-- The failure of `read_source`, with the context that it adds. -/
def failure (input : Input) (fault : ReadFault) : Failure :=
  match input with
  | standard => ⟨"Failed to read source from stdin", [fault.message]⟩
  | file path => ⟨"Failed to read " ++ Quoted.text path, [fault.message]⟩

/-- The source that bytes hold, if they are the UTF-8 form of a text: what `read_source` answers
with. -/
def source? (input : Input) (bytes : Except ReadFault ByteArray) : Except ReadFault Source :=
  match bytes with
  | .error fault => .error fault
  | .ok bytes =>
      match String.fromUTF8? bytes with
      | none => .error .notText
      | some text => .ok ⟨input.shown, text⟩

end Input

/-- A command on its input, under a log filter: what `main` has in hand after `init_logging`. -/
structure Task where
  command : Command
  filter : LogFilter

namespace Task

/-- The input of a task, told by the path of its command. -/
def input (task : Task) : Input := .ofPath task.command.path

/-- A finished run, of which the log comes before everything else on the error output. -/
def output (task : Task) (stamp : String) (events : List Event) (remarks : String)
    (result : Except Failure String) : Output :=
  let log := logLines task.filter stamp events
  match result with
  | .ok text => ⟨0, text, log ++ remarks⟩
  | .error failure => ⟨1, "", log ++ remarks ++ failure.message⟩

/-- The tokens of a source, in a format of `run_tokens`. -/
def tokenText (tokens : List Token) : TokenFormat → String
  | .table => tokenTable tokens
  | .json => (Json.array (tokens.map Token.json)).pretty ++ "\n"

/-- A program, in a format of `run_ast`. -/
def programText (program : Program) : TreeFormat → String
  | .dump => program.dump.pretty ++ "\n"
  | .json => program.json.pretty ++ "\n"
  | .source => program.canonical

/-- Lists the tokens of a source: `run_tokens`. -/
def listTokens (task : Task) (stamp : String) (source : Source) (format : TokenFormat) : Output :=
  let tokens := lex source.text
  let events := Trace.ofLexing source.text ++ [.sourceLexed tokens.length]
  task.output stamp events "" (.ok (tokenText tokens format))

/-- Shows the program of a source, after a report of its diagnostics: `run_ast`, which fails after
the report if it is strict and there are any. -/
def showTree (task : Task) (stamp : String) (source : Source) (format : TreeFormat)
    (strict : Bool) : Output :=
  let reading := readProgram source.text
  task.output stamp reading.events (report source reading.diagnostics) <|
    match verdict strict (messages reading.diagnostics) with
    | .error rejection => .error ⟨"Parsing failed", [rejection.message]⟩
    | .ok _ => .ok (programText reading.program format)

/-- Tells whether a source has diagnostics, after a report of them: `run_check`. -/
def checkSource (task : Task) (stamp : String) (source : Source) : Output :=
  let reading := readProgram source.text
  task.output stamp reading.events (report source reading.diagnostics) <|
    match reading.diagnostics with
    | [] => .ok (source.path ++ ": ok\n")
    | diagnostics =>
        .error
          ⟨source.path ++ " has " ++ Numeral.ofNat diagnostics.length ++ " syntax error(s)", []⟩

/-- Carries out a command on a source. -/
def runOn (task : Task) (stamp : String) (source : Source) : Output :=
  match task.command with
  | .tokens _ format => task.listTokens stamp source format
  | .tree _ format strict => task.showTree stamp source format strict
  | .check _ => task.checkSource stamp source

/-- Finishes a run with the bytes of its input.  The log lines carry a stamp for the time. -/
def finish (task : Task) (stamp : String) (bytes : Except ReadFault ByteArray) : Output :=
  match task.input.source? bytes with
  | .error fault => task.output stamp [] "" (.error (task.input.failure fault))
  | .ok source => task.runOn stamp source

end Task

/-- How a run goes on after its arguments are known. -/
inductive Plan where
  | over (output : Output)
  | needs (task : Task)

/-- The fault of a log filter with the context of `init_logging`.  The cause is told twice. -/
def filterFailure (text : String) : Failure :=
  let cause := "error parsing level filter: expected one of \"off\", \"error\", \"warn\", " ++
    "\"info\", \"debug\", \"trace\", or a number 0-5"
  ⟨"invalid log filter `" ++ text ++ "`", [cause, cause]⟩

/-- Plans a run: `parse` of `Cli` and `init_logging`.  The log filter is the option, or else the
variable `SPRIG_LOG`, or else lets warnings through. -/
def plan (arguments : List String) (environment : Option String) : Plan :=
  match request? arguments with
  | none => .over ⟨2, "", "error: the arguments are not understood\n"⟩
  | some .version => .over ⟨0, "sprig 0.1.0\n", ""⟩
  | some (.run command logLevel) =>
      let text := (logLevel <|> environment).getD "warn"
      match LogFilter.ofText? text with
      | none => .over ⟨1, "", (filterFailure text).message⟩
      | some filter => .needs ⟨command, filter⟩

/-- Runs a command line on the files of a directory and a standard input: `main`, with all that it
reads handed in. -/
def run (arguments : List String) (environment : Option String) (stamp : String)
    (directory : Directory) (standard : ByteArray) : Output :=
  match plan arguments environment with
  | .over output => output
  | .needs task =>
      task.finish stamp <|
        match task.input with
        | .standard => .ok standard
        | .file path => directory.read? path

end Frontend.Cli
