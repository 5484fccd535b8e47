import CodeHabits.Table
import CodeHabits.Text.Classes
import CodeHabits.Text.Lowercase

/-!
# `CodeHabits.Language`: names of programming languages

A language goes by its canonical name. Hints may use other spellings, and
the ending of a file name tells the language of a file.
-/

set_option autoImplicit false

namespace CodeHabits

/-- Other spellings of canonical names. -/
def languageAliases : Table String String :=
  [("js", "javascript"), ("jsx", "javascript"), ("mjs", "javascript"),
   ("ecmascript", "javascript"), ("ts", "typescript"), ("tsx", "typescript"), ("py", "python"),
   ("python3", "python"), ("rs", "rust"), ("c++", "cpp"), ("cs", "csharp"), ("c#", "csharp"),
   ("golang", "go")]

/-- The languages of file endings. -/
def endingLanguages : Table String String :=
  [(".js", "javascript"), (".jsx", "javascript"), (".mjs", "javascript"), (".cjs", "javascript"),
   (".ts", "typescript"), (".tsx", "typescript"), (".py", "python"), (".pyi", "python"),
   (".rs", "rust"), (".c", "c"), (".h", "c"), (".cpp", "cpp"), (".cc", "cpp"), (".cxx", "cpp"),
   (".hpp", "cpp"), (".cs", "csharp"), (".java", "java"), (".go", "go"), (".kt", "kotlin"),
   (".swift", "swift"), (".rb", "ruby"), (".php", "php"), (".lua", "lua")]

/-- The canonical name for a hint: without blanks around it, in lower case,
and with other spellings resolved. -/
def normalizeLanguage (hint : String) : String :=
  let name := Text.lower (Text.strip hint)
  (languageAliases.get? name).getD name

/-- The components of a path, without empty ones and `.`. -/
def pathComponents (path : String) : List String :=
  (path.splitOn "/").filter fun component => component != "" && component != "."

/-- The ending of a file name: from its last point on, unless the point
comes first or last. -/
def nameEnding (name : String) : String :=
  let after := name.toList.reverse.takeWhile (· != '.')
  let before := name.toList.reverse.drop (after.length + 1)
  if after.isEmpty || before.isEmpty then "" else String.ofList ('.' :: after.reverse)

/-- The ending of the last component of a path. -/
def pathEnding (path : String) : String :=
  match (pathComponents path).getLast? with
  | some name => nameEnding name
  | none => ""

/-- The language that a file name tells. -/
def detectLanguage (path : String) : String :=
  (endingLanguages.get? (Text.lower (pathEnding path))).getD "unknown"

end CodeHabits
