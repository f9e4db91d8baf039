/-!
# Command line arguments

The command line names one of three commands, a path, and options.  Options may stand before and
after the path, with their value attached by an equals sign or as the next argument, and two dashes
end them.  Each option may be given once, but the log level may also stand before the command,
where the one after the command overrides it.  Anything else is a usage error.
-/

namespace Frontend.Cli

/-- The formats of the command `tokens`, a `TokenFormat`. -/
inductive TokenFormat where
  | table | json
  deriving DecidableEq

/-- The formats of the command `ast`, an `AstFormat`, of which the dump is called `debug`. -/
inductive TreeFormat where
  | dump | json | source
  deriving DecidableEq

/-- What to do with the text at a path, a `Command`: `tokens`, `ast` or `check`. -/
inductive Command where
  | tokens (path : String) (format : TokenFormat)
  | tree (path : String) (format : TreeFormat) (strict : Bool)
  | check (path : String)
  deriving DecidableEq

/-- The path whose text a command is about, its `input`. -/
def Command.path : Command → String
  | tokens path _ => path
  | tree path _ _ => path
  | check path => path

/-- What a command line asks for, a `Cli` or the version.  The log level may be missing, for it has
a default. -/
inductive Request where
  | version
  | run (command : Command) (logLevel : Option String)
  deriving DecidableEq

/-- How an argument reads on its own, before it is known whether it is the value of an option. -/
inductive Argument where
  | plain (text : String)
  | option (name : String) (attached : Option String)
  | endOfOptions
  deriving DecidableEq

/-- How an argument reads.  A lone dash is no option, because it is the path of the standard
input. -/
def Argument.ofText (text : String) : Argument :=
  match text.toList with
  | ['-', '-'] => .endOfOptions
  | ['-'] => .plain text
  | '-' :: '-' :: rest =>
      let name := String.ofList (rest.takeWhile (· ≠ '='))
      match rest.dropWhile (· ≠ '=') with
      | [] => .option ("--" ++ name) none
      | _ :: value => .option ("--" ++ name) (some (String.ofList value))
  | '-' :: letter :: _ => .option (String.ofList ['-', letter]) none
  | _ => .plain text

/-- The value of an option and the arguments after it.  An option is no value, unless it is attached
by an equals sign. -/
def valueOf? (attached : Option String) (rest : List String) : Option (String × List String) :=
  match attached, rest with
  | some value, _ => some (value, rest)
  | none, [] => none
  | none, text :: rest =>
      match Argument.ofText text with
      | .plain value => some (value, rest)
      | _ => none

theorem valueOf?_length_le {attached : Option String} {rest after : List String} {value : String}
    (hvalue : valueOf? attached rest = some (value, after)) : after.length ≤ rest.length := by
  unfold valueOf? at hvalue
  split at hvalue
  · simp_all
  · simp at hvalue
  · split at hvalue
    · simp_all
    · simp at hvalue

/-- The arguments after the command, sorted: the fields of all variants of `Command`, and the
`log_level`, which may stand there too. -/
structure Options where
  path : Option String
  format : Option String
  strict : Bool
  logLevel : Option String

namespace Options

/-- The arguments after the command before any was read. -/
def empty : Options := ⟨none, none, false, none⟩

/-- Takes the path, of which there is one, and which is not empty. -/
def withPath? (options : Options) (path : String) : Option Options :=
  if options.path.isSome ∨ path = "" then none else some { options with path := path }

/-- Sorts the arguments after the command.  There is no result if an option is unknown or given
twice. -/
def collect? (options : Options) : List String → Option Options
  | [] => some options
  | text :: rest =>
      match Argument.ofText text with
      | .plain path => (options.withPath? path).bind fun options => options.collect? rest
      | .endOfOptions => rest.foldlM withPath? options
      | .option "--strict" none =>
          if options.strict then none else { options with strict := true }.collect? rest
      | .option "--format" attached =>
          match _hvalue : valueOf? attached rest with
          | some (value, after) =>
              if options.format.isSome then none
              else { options with format := value }.collect? after
          | none => none
      | .option "--log-level" attached =>
          match _hvalue : valueOf? attached rest with
          | some (value, after) =>
              if options.logLevel.isSome then none
              else { options with logLevel := value }.collect? after
          | none => none
      | .option _ _ => none
termination_by arguments => arguments.length
decreasing_by
  all_goals simp only [List.length_cons]
  · omega
  · omega
  · have := valueOf?_length_le _hvalue
    omega
  · have := valueOf?_length_le _hvalue
    omega

/-- The format that `tokens` is asked for; the table is the default. -/
def tokenFormat? (options : Options) : Option TokenFormat :=
  match options.format with
  | none | some "table" => some .table
  | some "json" => some .json
  | some _ => none

/-- The format that `ast` is asked for; the dump is the default. -/
def treeFormat? (options : Options) : Option TreeFormat :=
  match options.format with
  | none | some "debug" => some .dump
  | some "json" => some .json
  | some "source" => some .source
  | some _ => none

/-- The command of a name with the options given to it, which have to be options of that command. -/
def command? (options : Options) (name : String) : Option Command := do
  let path ← options.path
  match name with
  | "tokens" => if options.strict then none else options.tokenFormat?.map (.tokens path)
  | "ast" => options.treeFormat?.map fun format => .tree path format options.strict
  | "check" => if options.strict ∨ options.format.isSome then none else some (.check path)
  | _ => none

end Options

/-- Reads the arguments from the start of the command line, where a log level may have been given
already. -/
def requestFrom? (logLevel : Option String) : List String → Option Request
  | [] => none
  | text :: rest =>
      match Argument.ofText text with
      | .plain name => do
          let options ← Options.empty.collect? rest
          let command ← options.command? name
          some (.run command (options.logLevel <|> logLevel))
      | .option "--version" none | .option "-V" none => some .version
      | .option "--log-level" attached =>
          match _hvalue : valueOf? attached rest with
          | some (value, after) =>
              if logLevel.isSome then none else requestFrom? (some value) after
          | none => none
      | _ => none
termination_by arguments => arguments.length
decreasing_by
  have := valueOf?_length_le _hvalue
  simp only [List.length_cons]
  omega

/-- What a command line asks for, as `parse` of `Cli` finds it; there is none if it cannot be
understood. -/
def request? (arguments : List String) : Option Request := requestFrom? none arguments

end Frontend.Cli
