import MathKernel.Tool.Run

/-!
# The command-line tool

The tool on the files of the machine it runs on.
-/

namespace MathKernel

/-- What the system says about a failure, with its number. -/
def systemText (details : String) (code : UInt32) : String :=
  details ++ " (os error " ++ toString code ++ ")"

/-- A failure of the system. -/
def HostError.ofSystem : IO.Error → HostError
  | .noFileOrDirectory _ code details => ⟨systemText details code, true⟩
  | .inappropriateType _ code details => ⟨systemText details code, true⟩
  | .alreadyExists _ code details => ⟨systemText details code, false⟩
  | .permissionDenied _ code details => ⟨systemText details code, false⟩
  | e => ⟨toString e, false⟩

/-- The outcome of a file operation. -/
def attempt {α : Type} (action : IO α) : IO (Except HostError α) := do
  match ← action.toBaseIO with
  | .ok a => return .ok a
  | .error e => return .error (.ofSystem e)

/-- The machine as a host. -/
def systemHost : Host IO where
  read path := attempt (IO.FS.readFile path)
  write path text := attempt (IO.FS.writeFile path text)
  createDirs path := attempt (IO.FS.createDirAll path)
  clock := IO.monoMsNow

end MathKernel

open MathKernel in
/-- Run the tool in the current directory. -/
def main (args : List String) : IO UInt32 := do
  let cwd ← IO.currentDir
  let outcome ← systemHost.run (toString cwd) args
  let stdout ← IO.getStdout
  stdout.putStr outcome.output
  stdout.flush
  match outcome.error with
  | some text => (← IO.getStderr).putStrLn text
  | none => pure ()
  return outcome.status.toUInt32
