import PropertyGraph.CommandLine.Program

open PropertyGraph CommandLine

def missingFile : String := "No such file or directory (os error 2)"

-- The reason why a file cannot be read.
def readFailure : IO.Error → String
  | .noFileOrDirectory .. => missingFile
  | .permissionDenied .. => "Permission denied (os error 13)"
  | e => toString e

def readFile (path : String) : IO (String × Except Fault (List UInt8)) := do
  try
    let bytes ← IO.FS.readBinFile path
    return (path, .ok bytes.toList)
  catch e => return (path, .error (.unreadableTable (readFailure e)))

def main (args : List String) : IO UInt32 := do
  let environment ← IO.getEnv concurrencyVariable
  let contents ← (filesRead args environment).mapM readFile
  let files : Files := fun path =>
    (contents.lookup path).getD (.error (.unreadableTable missingFile))
  let started ← IO.monoMsNow
  let outcome ← IO.lazyPure fun _ => program args environment files
  let elapsed := (← IO.monoMsNow) - started
  (outcome.output elapsed).forM IO.println
  outcome.errors.forM IO.eprintln
  return outcome.code.toUInt32
