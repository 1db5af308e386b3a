import ProcLang.Command.Run

/-!
# The command

The outer layer of the command: it reads files and the standard input, hands them to
`runFile`, `answerLine` and `runCommand`, and writes what they give.
-/

set_option autoImplicit false

namespace ProcLang

/-- The name of the kind of a system error, by its code. -/
def errorKind : Nat → String
  | 1 | 13 => "PermissionDenied"
  | 2 => "NotFound"
  | 4 => "Interrupted"
  | 11 => "WouldBlock"
  | 12 => "OutOfMemory"
  | 16 => "ResourceBusy"
  | 20 => "NotADirectory"
  | 21 => "IsADirectory"
  | 22 => "InvalidInput"
  | 26 => "ExecutableFileBusy"
  | 27 => "FileTooLarge"
  | 36 => "InvalidFilename"
  | 40 => "FilesystemLoop"
  | 110 => "TimedOut"
  | 116 => "StaleNetworkFileHandle"
  | _ => "Uncategorized"

/-- The read error behind an error of the system. -/
def ReadError.ofSystem : IO.Error → ReadError
  | .alreadyExists _ code details | .otherError code details | .resourceBusy code details
  | .resourceVanished code details | .unsupportedOperation code details
  | .hardwareFault code details | .unsatisfiedConstraints code details
  | .illegalOperation code details | .protocolError code details | .timeExpired code details
  | .interrupted _ code details | .noFileOrDirectory _ code details
  | .invalidArgument _ code details | .permissionDenied _ code details
  | .resourceExhausted _ code details | .inappropriateType _ code details
  | .noSuchThing _ code details => .system code.toNat (errorKind code.toNat) details
  | .unexpectedEof => .system 0 "UnexpectedEof" "unexpected end of file"
  | .userError details => .system 0 "Other" details

/-- The bytes of a file. -/
def readPath (path : String) : IO (Except ReadError (List UInt8)) := do
  try
    return .ok (← IO.FS.readBinFile path).toList
  catch e => return .error (ReadError.ofSystem e)

/-- Writes what a run has produced and gives its exit code. -/
def finish (c : Completion) : IO UInt32 := do
  (← IO.getStdout).putStr c.stdout
  (← IO.getStderr).putStr c.stderr
  return c.code.toUInt32

/-- Reads bytes up to and including a line feed, or up to the end of the input. -/
partial def readLineBytes (input : IO.FS.Stream) (before : ByteArray) : IO ByteArray := do
  let byte ← input.read 1
  if byte.isEmpty then return before
  let line := before ++ byte
  if byte.toList = ['\n'.toUInt8] then return line
  readLineBytes input line

/-- Answers the lines of the standard input one after another. -/
partial def interact (display : Display) : IO UInt32 := do
  let out ← IO.getStdout
  out.putStr prompt
  out.flush
  match inputLines (← readLineBytes (← IO.getStdin) ByteArray.empty).toList with
  | [] => return 0
  | line :: _ =>
      match answerLine display line with
      | .error e => finish ⟨1, "", e.report⟩
      | .ok (shown, diagnostic) =>
          let _ ← finish ⟨0, shown, diagnostic⟩
          interact display

end ProcLang

open ProcLang in
/-- Runs the command. -/
def main (args : List String) : IO UInt32 := do
  match Invocation.ofArgs args with
  | .run display none => interact display
  | .run display (some path) => finish (runFile display path (← readPath path))
  | _ => finish (runCommand args (fun _ => .error .notFound) [])
