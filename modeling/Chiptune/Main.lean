import Chiptune.Session.Basic

/-!
# The program

Runs one session on the files of the machine, prints what it leaves to be seen
and exits with its code.
-/
namespace Chiptune

def FileError.ofSystem : IO.Error → FileError
  | .noFileOrDirectory .. => .notFound
  | .alreadyExists .. => .alreadyExists
  | .inappropriateType _ 21 _ => .isDirectory
  | .inappropriateType .. => .notDirectory
  | .invalidArgument _ 36 _ => .nameTooLong
  | e => .other (toString e)

def attempt (action : IO α) : IO (Except FileError α) := do
  try return .ok (← action)
  catch e => return .error (.ofSystem e)

instance : Storage IO where
  read path := attempt (IO.FS.readBinFile path)
  write path content := attempt (IO.FS.writeBinFile path content)
  createDirectories path := attempt (IO.FS.createDirAll path)

/-- What the environment variables ask for. -/
def surroundings : IO Session.Surroundings := do
  let configHome ← IO.getEnv "XDG_CONFIG_HOME"
  let home ← IO.getEnv "HOME"
  let level ← IO.getEnv "CHIPTICK_LOG"
  return {
    settingsPath := Settings.path configHome home
    threshold := (level.bind Log.Threshold.ofName?).getD .standard }

end Chiptune

def main (arguments : List String) : IO UInt32 := do
  let outcome ← Chiptune.Session.run (← Chiptune.surroundings) arguments
  for line in outcome.output do
    IO.println line
  IO.eprint outcome.log
  match outcome.report? with
  | some report => IO.eprintln report
  | none => pure ()
  return outcome.exitCode.toUInt32
