import CodeHabits.Files
import CodeHabits.Json.Printer
import CodeHabits.Json.Reader
import CodeHabits.Pattern.Record
import CodeHabits.Snapshot

/-!
# `CodeHabits.Storage`: the file in which what was learned is saved

The file holds the snapshot as JSON. A file that is no text, no JSON or of a
layout that is not known is corrupt. Saving replaces the file as a whole.
-/

set_option autoImplicit false

namespace CodeHabits.Storage

/-- The manner of JSON, in which labels are spelled as JSON spells values. -/
def manner : Manner Value :=
  ⟨id, Json.memberName⟩

/-- The value that a text in JSON describes. -/
def decode (text : List Char) : Except Fault Value :=
  match Json.read (String.ofList text) with
  | .ok value => .ok value
  | .error .malformed => .error .notJson
  | .error .tooLong => .error (.refused .unreadable)

/-- The value that a file in JSON describes. -/
def readJson (files : Files) (path : FilePath) : Except Fault Value := do
  decode (← files.chars path)

/-- The snapshot in a file; `none` if there is no file. -/
def load (files : Files) (path : FilePath) : Except Fault (Option (Table String Value)) :=
  if !files.isThere path then .ok none
  else do
    let document ← (readJson files path).mapError fun
      | .refused cause => .refused cause
      | _ => .corrupt (.unreadable path.shown)
    return some (← Snapshot.migrate document)

/-- The files with a document written to one of them. -/
def writeJson (files : Files) (path : FilePath) (document : Value) : Except Fault Files :=
  files.write path (Text.encode (Json.saved document))

/-- The files with a snapshot saved, in a folder that is made if need
be. -/
def save (files : Files) (path : FilePath) (members : Table String Value) : Except Fault Files := do
  let files ← files.makeFolder path.folder
  writeJson files path (.object (members.put "schema_version" (.int Snapshot.currentVersion)))

end CodeHabits.Storage
