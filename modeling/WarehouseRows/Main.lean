import WarehouseRows.Command.Run
import WarehouseRows.Log.RunId
import WarehouseRows.Number.Reading

/-!
# The program

The program reads the files that its command line names, the variables that its
settings mention, the clock and sixteen random bytes, and leaves everything else to
`run`.

## Main definitions

* `Surroundings.gather`: what a command line finds around it.
* `main`: the entry point.
-/

namespace WarehouseRows.Surroundings

/-- The content of a file, or the failure to read it. -/
def fetch (path : String) : IO (Except Failure String) := do
  try
    let bytes ← IO.FS.readBinFile path
    return .ok (String.ofList (Utf8.decodeChars bytes.toList))
  catch e =>
    return .error (.plain (toString e))

/-- The contents of files under their paths. -/
def fetchAll (paths : List String) : IO (Members (Except Failure String)) :=
  paths.mapM fun path => do
    let content ← fetch path
    return (path, content)

/-- The values of those variables that are set. -/
def variablesOf (names : List String) : IO (Members String) := do
  let found ← names.eraseDups.mapM fun name => do
    let value ← IO.getEnv name
    return value.map fun v => (name, v)
  return found.filterMap id

/-- The seconds since 1970: the time at which the machine was started and the time
since then, as the system reports them. Where it does not, the time is zero. -/
def clockSeconds : IO Double := do
  try
    let started ← IO.FS.readFile "/proc/stat"
    let running ← IO.FS.readFile "/proc/uptime"
    let bootLines := (started.splitOn "\n").filter fun line => line.startsWith "btime "
    let boot := ((bootLines.head?.getD "").splitOn " ").getD 1 "0"
    let uptime := (running.splitOn ".").getD 0 "0"
    return match (Double.ofText boot).whole?, (Double.ofText uptime).whole? with
      | some a, some b => Double.ofInt (a + b)
      | _, _ => Double.zero
  catch _ =>
    return Double.zero

/-- What a command line finds around it. -/
def gather (words : List String) : IO Surroundings := do
  let arguments := (Arguments.read words).toOption.join
  let paths := match arguments with
    | some a => a.config.toList ++ [a.input]
    | none => []
  let contents ← fetchAll paths
  let contentOf (path : String) : Except Failure String :=
    (contents.get? path).getD (.error (.plain s!"{path} was not read"))
  let settings := (arguments.bind (·.config)).bind fun path => do
    let content ← (contentOf path).toOption
    (Document.parse path content).toOption
  let vars ← variablesOf ((settings.map Environment.mentioned).getD [])
  let seconds ← clockSeconds
  let bytes ← IO.getRandomBytes 16
  return {
    contentOf := contentOf
    vars := vars
    time := ((Instant.ofNumber (seconds.timesNat 1000)).isoText?).getD ""
    runId := RunId.ofBytes bytes.toList }

/-- The surroundings with the time that a first, silent run takes. -/
def timed (s : Surroundings) (words : List String) : IO Surroundings := do
  let started ← IO.monoMsNow
  let _ ← IO.lazyPure fun _ => (run s words).code
  let ended ← IO.monoMsNow
  return { s with elapsed := ended - started }

end WarehouseRows.Surroundings

/-- The entry point: performs the command line and ends with its exit code. -/
def main (words : List String) : IO UInt32 := do
  let gathered ← WarehouseRows.Surroundings.gather words
  let surroundings ← gathered.timed words
  let outcome := WarehouseRows.run surroundings words
  for line in outcome.errors do
    IO.eprintln line
  for line in outcome.output do
    IO.println line
  return UInt32.ofNat outcome.code
