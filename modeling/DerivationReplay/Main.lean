import DerivationReplay.Command.Run

/-! The program: reads the files its arguments name, runs the command and prints the outcome. -/
namespace DerivationReplay

/-- Some failures report the number of their error with its sign changed. -/
def errorNumber (code : UInt32) : UInt32 := min code (0 - code)

def ReadFailure.ofNumber (code : UInt32) (details : String) : ReadFailure :=
  match errorNumber code with
  | 2 => .missing
  | 20 => .notDirectory
  | 21 => .isDirectory
  | 36 => .nameTooLong
  | number => .other (details.capitalize ++ " (os error " ++ toString number ++ ")")

def ReadFailure.ofSystem : IO.Error → ReadFailure
  | .noFileOrDirectory _ code details => ofNumber code details
  | .inappropriateType _ code details => ofNumber code details
  | .invalidArgument _ code details => ofNumber code details
  | .permissionDenied _ code details => ofNumber code details
  | .resourceExhausted _ code details => ofNumber code details
  | .hardwareFault code details => ofNumber code details
  | error => .other (toString error)

def readPath (path : String) : IO (Except ReadFailure ByteArray) := do
  try
    return .ok (← IO.FS.readBinFile path)
  catch error => return .error (.ofSystem error)

def readerOf (contents : List (String × Except ReadFailure ByteArray)) : FileReader := fun path =>
  (contents.lookup path).getD (.error .missing)

def Command.Invocation.paths : Invocation → List String
  | .run request => request.paths
  | _ => []

end DerivationReplay

open DerivationReplay in
def main (arguments : List String) : IO UInt32 := do
  let invocation := Command.Invocation.ofArguments arguments
  let contents ← invocation.paths.mapM fun path => do return (path, ← readPath path)
  let outcome := invocation.outcome (readerOf contents)
  IO.print outcome.output
  if let some reason := outcome.error then IO.eprintln reason
  if outcome.exit = 2 then IO.eprintln (Command.helpText)
  return outcome.exit.toUInt32
