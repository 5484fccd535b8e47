import CodeHabits.Fault
import CodeHabits.Language
import CodeHabits.Text.Utf8

/-!
# `CodeHabits.Files`: a working directory and what is in it

Files are known by their paths, which are lists of components, and hold
bytes. A path that does not begin at the working directory begins with the
component `/`. A folder exists if it was made or if something is in it.
-/

set_option autoImplicit false

namespace CodeHabits

/-- The components of a path. -/
abbrev FilePath := List String

/-- A path as it is shown. -/
def FilePath.shown : FilePath → String
  | [] => "."
  | "/" :: rest => "/" ++ "/".intercalate rest
  | path => "/".intercalate path

/-- The path that a text gives. -/
def FilePath.ofString (text : String) : FilePath :=
  if text.startsWith "/" then "/" :: pathComponents text else pathComponents text

/-- The folder that a path is in. -/
def FilePath.folder (path : FilePath) : FilePath :=
  path.dropLast

/-- The files and the folders made. -/
structure Files where
  contents : Table FilePath (List UInt8)
  folders : List FilePath

namespace Files

/-- Nothing there. -/
def empty : Files :=
  ⟨[], []⟩

/-- Whether a path is that of a file. -/
def isFile (files : Files) (path : FilePath) : Bool :=
  files.contents.has path

/-- Whether a path is that of a folder. -/
def isFolder (files : Files) (path : FilePath) : Bool :=
  path.isEmpty || files.folders.any path.isPrefixOf
    || files.contents.any fun entry => path.isPrefixOf entry.1 && path != entry.1

/-- Whether there is anything at a path. -/
def isThere (files : Files) (path : FilePath) : Bool :=
  files.isFile path || files.isFolder path

/-- Whether a path leads through a file. -/
def isBlocked (files : Files) (path : FilePath) : Bool :=
  files.contents.any fun entry => entry.1.isPrefixOf path && entry.1 != path

/-- The bytes of a file. -/
def bytes (files : Files) (path : FilePath) : Except Fault (List UInt8) :=
  match files.contents.get? path with
  | some bytes => .ok bytes
  | none =>
    if files.isFolder path then .error .isDirectory
    else if files.isBlocked path then .error .notADirectory
    else .error .noFile

/-- The characters of a file. -/
def chars (files : Files) (path : FilePath) : Except Fault (List Char) := do
  match Text.decode? (← files.bytes path) with
  | some cs => return cs
  | none => throw .undecodable

/-- Characters with every kind of line end as a line feed. -/
def plainLines : List Char → List Char
  | '\r' :: '\n' :: rest => '\n' :: plainLines rest
  | '\r' :: rest => '\n' :: plainLines rest
  | c :: rest => c :: plainLines rest
  | [] => []

/-- The text of a file, with every kind of line end as a line feed. -/
def text (files : Files) (path : FilePath) : Except Fault String := do
  return String.ofList (plainLines (← files.chars path))

/-- Makes a folder and the folders that it is in. -/
def makeFolder (files : Files) (path : FilePath) : Except Fault Files :=
  if files.isFile path then .error .fileInTheWay
  else if files.isBlocked path then .error .notADirectory
  else if files.isFolder path then .ok files
  else .ok { files with folders := files.folders ++ [path] }

/-- Gives a file its bytes. Its folder has to be there. -/
def write (files : Files) (path : FilePath) (bytes : List UInt8) : Except Fault Files :=
  if files.isFolder path then .error .isDirectory
  else if files.isBlocked path then .error .notADirectory
  else if !files.isFolder path.folder then .error .noFile
  else .ok { files with contents := files.contents.put path bytes }

/-- The next component behind a folder, of a path inside it. -/
def nextName? (folder path : FilePath) : Option String :=
  if folder.isPrefixOf path then (path.drop folder.length).head? else none

/-- The names in a folder, in order and each once. -/
def names (files : Files) (folder : FilePath) : List String :=
  let found := (files.contents.map (·.1) ++ files.folders).filterMap (nextName? folder)
  (found.eraseDups).mergeSort fun a b => !(b < a)

/-- Whether one path comes before another: component by component. -/
def before : FilePath → FilePath → Bool
  | [], [] => false
  | [], _ :: _ => true
  | _ :: _, [] => false
  | a :: as, b :: bs => if a < b then true else if b < a then false else before as bs

/-- The files below a folder, in the order of their components. -/
def below (files : Files) (folder : FilePath) : List FilePath :=
  let inside := (files.contents.map (·.1)).filter fun path => folder.isPrefixOf path
  inside.mergeSort fun a b => !before b a

end Files

end CodeHabits
