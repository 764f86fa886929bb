import Rv32.Command.Outcome

/-!
# The program

Reads the file that the arguments name, prints the outcome of the command, and exits with its
status.
-/

/-- The bytes of a file, unless there is none. -/
def Rv32.readBytes (path : String) : IO (Option (List UInt8)) :=
  try
    let bytes ← IO.FS.readBinFile path
    return some bytes.toList
  catch _ => return none

/-- Carries out the command that the arguments ask for. -/
def main (args : List String) : IO UInt32 := do
  let args := args.map String.toList
  let file? := (Rv32.Command.parse args).toOption.bind Rv32.Command.Invocation.file?
  let bytes? ← match file? with
    | some file => Rv32.readBytes (String.ofList file)
    | none => pure none
  let outcome := Rv32.Command.respond (fun _ => bytes?) args
  IO.print outcome.text
  if outcome.status = 2 then IO.eprintln "rv32i-sim: error: the arguments make no command"
  return UInt32.ofNat outcome.status
