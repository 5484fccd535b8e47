import CodeHabits.Command.Run
import CodeHabits.Recorded
import Std.Time.DateTime.Timestamp

/-!
# `CodeHabits.Main`: the command line

Takes in the files that a command line names from the disk, runs it, prints
what it prints and writes the files that it has changed. What the grammars
answer for the source texts is read from the file that a variable names.
-/

set_option autoImplicit false

namespace CodeHabits.Outside

/-- What is at a path on the disk and below it, taken in among other
files. -/
partial def gather (files : Files) (path : FilePath) : IO Files := do
  let here := (← IO.currentDir) / path.shown
  if ← here.isDir then
    let names := (← here.readDir).toList.map fun entry => entry.fileName
    names.foldlM (fun files name => gather files (path ++ [name]))
      { files with folders := files.folders ++ [path] }
  else if ← here.pathExists then
    let bytes ← IO.FS.readBinFile here
    return { files with contents := files.contents.put path bytes.toList }
  else return files

/-- Writes the files that differ from earlier ones. -/
def writeBack (earlier files : Files) : IO Unit :=
  files.contents.forM fun (path, bytes) => do
    if earlier.contents.get? path != some bytes then
      IO.FS.createDirAll ((← IO.currentDir) / path.folder.shown)
      IO.FS.writeBinFile ((← IO.currentDir) / path.shown) ⟨bytes.toArray⟩

/-- The variables that matter, as far as they are set. -/
def environment : IO Environment := do
  let names := Config.bindings.flatMap fun entry => entry.2.map Config.Binding.variableName
  let found ← names.mapM fun name => do return (name, ← IO.getEnv name)
  return found.filterMap fun (name, value?) => value?.map fun value => (name, value)

/-- What the grammars answer, as far as it is recorded. -/
def grammars : IO Grammars := do
  match ← IO.getEnv "CODEWHISPER_PARSES" with
  | none => return .ofRecords []
  | some name =>
    let path := FilePath.ofString name
    match Storage.readJson (← gather .empty path) path with
    | .ok (.list records) => return .ofRecords records
    | _ => return .ofRecords []

/-- The configuration files to look for. -/
def configs : IO (List FilePath) := do
  let home := FilePath.ofString ((← IO.getEnv "HOME").getD "")
  return [["codewhisper.yaml"], home ++ [".config", "codewhisper", "config.yaml"]]

/-- The time. -/
def now : IO Time.Timestamp := do
  let nanoseconds := (← Std.Time.Timestamp.now).toNanosecondsSinceUnixEpoch.val
  return ⟨Time.Timestamp.epochInstant + nanoseconds / 1000, 0⟩

/-- The paths that a command reads or writes. -/
def pathsOf : Command → List FilePath
  | .analyze paths _ => paths
  | .feedback _ _ _ modified? => modified?.toList
  | .exportTo path | .importFrom path _ => [path]
  | _ => []

/-- Runs a command line on the disk; answers the exit code. -/
def run (arguments : List String) : IO UInt32 := do
  let configs ← configs
  let invocation := Invocation.read arguments
  let named := match invocation with
    | .ok i => i.config?.toList ++ pathsOf i.command
    | .error _ => []
  let files ← (configs ++ named).foldlM gather .empty
  let around : Surrounding := ⟨files, ← environment, configs, ← grammars, ← now⟩
  let storage? := match invocation with
    | .ok i => ((i.config around).bind Config.storage?).toOption.join
    | .error _ => none
  let files ← storage?.toList.foldlM gather files
  let outcome := runCommandLine arguments { around with files }
  (outcome.printed.flatMap Printout.lines).forM IO.println
  writeBack files outcome.files
  match outcome.exit with
  | .ok code => return UInt32.ofNat code
  | .error fault =>
    IO.eprintln (fault.message?.getD "The command failed.")
    return 1

end CodeHabits.Outside

def main (arguments : List String) : IO UInt32 :=
  CodeHabits.Outside.run arguments
