import Frontend.Cli.Run

/-!
# The program

The outermost layer reads the arguments, the environment and the one input, and writes the output.
-/

namespace Frontend.Cli

/-- The reason for which a file could not be read. -/
def ReadFault.ofError : IO.Error → ReadFault
  | .noFileOrDirectory .. => .notFound
  | .inappropriateType .. => .isDirectory
  | error => .refused (toString error)

/-- The bytes of an input, which are read to the end. -/
def Input.bytes : Input → IO (Except ReadFault ByteArray)
  | .standard => return .ok (← (← IO.getStdin).readBinToEnd)
  | .file path => do
      try
        return .ok (← IO.FS.readBinFile path)
      catch error => return .error (.ofError error)

/-- Writes both texts, and answers with the exit code. -/
def Output.write (output : Output) : IO UInt32 := do
  IO.print output.stdout
  IO.eprint output.stderr
  return output.exit.toUInt32

end Frontend.Cli

open Frontend.Cli in
def main (arguments : List String) : IO UInt32 := do
  match plan arguments (← IO.getEnv "SPRIG_LOG") with
  | .over output => output.write
  | .needs task =>
      let stamp := toString (← IO.monoMsNow) ++ "ms"
      (task.finish stamp (← task.input.bytes)).write
