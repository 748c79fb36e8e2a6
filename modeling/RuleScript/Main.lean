import RuleScript.Command.Run
/-!
# The command-line program

`main` runs the command line over the machine's own files, with the log setting taken
from the `RUST_LOG` variable, prints the two output streams and exits with the run's
status.
-/

namespace RuleScript

namespace Host

def faultOf : IO.Error → IoFault
  | .noFileOrDirectory .. => .notFound
  | .inappropriateType _ 20 _ => .notDirectory
  | .inappropriateType _ 21 _ => .isDirectory
  | .otherError 21 _ => .isDirectory
  | e => .other (toString e)

def files : FileAccess IO where
  present path := do
    try
      let _ ← IO.FS.Handle.mk path .read
      pure true
    catch _ => pure false
  read path := do
    try
      let bytes ← IO.FS.readBinFile path
      pure (.ok bytes.toList)
    catch e => pure (.error (faultOf e))
  write path text := do
    try
      IO.FS.writeFile path text
      pure (.ok ())
    catch e => pure (.error (faultOf e))

end Host

end RuleScript

/-- Runs the command line. -/
def main (args : List String) : IO UInt32 := do
  let logSpec ← IO.getEnv "RUST_LOG"
  let outcome ← RuleScript.Outcome.ofRun RuleScript.Host.files logSpec args
  IO.print outcome.stdout
  IO.eprint outcome.stderr
  pure outcome.status.toUInt32
