import Mustache.Command.Run

/-!
# The command as a program

The command run on the files of the system. All that it does is `Command.fill`; here is
only how files are read and written, how output is shown, and how the program ends.
-/

namespace Mustache.Command

/-- What is wrong with a file, going by the number of the system's error. -/
def fileError : IO.Error → FileError
  | .noFileOrDirectory .. => .notFound
  | .inappropriateType _ code text => numbered code text
  | .invalidArgument _ code text => numbered code text
  | .permissionDenied _ code text => numbered code text
  | .resourceExhausted _ code text => numbered code text
  | .resourceVanished code text => numbered code text
  | e => .other (toString e)
where
  /-- Numbers may come with either sign. -/
  numbered (code : UInt32) (text : String) : FileError :=
    match min code.toNat (UInt32.size - code.toNat) with
    | 20 => .notADirectory
    | 21 => .isADirectory
    | 36 => .nameTooLong
    | 22 => .badPath
    | n => .other s!"{text} (os error {n})"

/-- A result, or what is wrong with a file. -/
def guarded (action : IO α) : IO (Except FileError α) := do
  try return .ok (← action)
  catch e => return .error (fileError e)

/-- The files of the system, with the terminal. -/
def Host.system : Host IO where
  read path := do
    match ← guarded (IO.FS.readBinFile path) with
    | .error e => return .error e
    | .ok bytes =>
      match Content.ofBytes bytes with
      | .text text => return .ok text
      | .noText => return .error .notText
  isFile path := do
    match ← guarded (IO.FS.readBinFile path) with
    | .error .notFound | .error .isADirectory => return false
    | _ => return true
  write path text := guarded (IO.FS.writeFile path text)
  display text := guarded do
    IO.print text
    (← IO.getStdout).flush
  note text := IO.eprint text

end Mustache.Command

open Mustache Command

/-- Runs the command with the given arguments. -/
def main (arguments : List String) : IO UInt32 := do
  let surroundings ← IO.getEnv "STACHE_CONFIG"
  match Arguments.parse arguments surroundings with
  | .error usage =>
    let message := usage.message surroundings
    if usage.exitCode = 0 then IO.print message
    else IO.eprintln s!"error: {message}\n\nFor more information, try '--help'."
    return usage.exitCode.toUInt32
  | .ok a =>
    match ← (fill .standard Host.system a).run with
    | .ok () => return 0
    | .error failure =>
      IO.eprintln failure.report
      return 1
