import CodeHabits.Message.Response

/-!
# `CodeHabits.Service`: a session over HTTP

The service has five routes: its health, the messages of the envelope
protocol, the languages, the patterns of a query, and one pattern. A route
answers one method and refuses the others. A request whose parameters or
body do not fit is answered with the status 422 and no body that means
anything; a slash at the end of a path does not matter.

Patterns are shown only if everything in them is of the kind promised. What
came in with a snapshot may break that promise, and so may numbers that are
not finite; such a fault ends the request without an answer.
-/

set_option autoImplicit false

namespace CodeHabits

namespace Service

/-- A request. -/
structure Call where
  method : String
  path : String
  /-- The parameters of the query, in order. -/
  parameters : List (String × String)
  body? : Option Value

/-- An answer. -/
structure Reply where
  status : Nat
  body? : Option Value

/-- An answer of a status with a remark. -/
def Reply.remark (status : Nat) (detail : String) : Reply :=
  ⟨status, some (.object [("detail", .text detail)])⟩

/-- The answer to a request that does not fit. -/
def Reply.unprocessable : Reply :=
  ⟨422, none⟩

/-- The routes. -/
inductive Route where
  | health
  | message
  | languages
  | patterns
  | pattern (id : String)
  deriving DecidableEq, Repr

/-- The value of a hexadecimal digit. -/
def hexValue? (c : Char) : Option Nat :=
  if c.isDigit then some (c.toNat - 48)
  else if 'a' ≤ c && c ≤ 'f' then some (c.toNat - 87)
  else if 'A' ≤ c && c ≤ 'F' then some (c.toNat - 55)
  else none

/-- The bytes that a path stands for: a percent sign and two hexadecimal
digits stand for one byte. -/
def pathBytes : List Char → List UInt8
  | '%' :: a :: b :: rest =>
    match hexValue? a, hexValue? b with
    | some high, some low => UInt8.ofNat (16 * high + low) :: pathBytes rest
    | _, _ => 37 :: pathBytes (a :: b :: rest)
  | c :: rest => Text.encode (String.ofList [c]) ++ pathBytes rest
  | [] => []

/-- The components of a path, without slashes at its end. -/
def components (path : String) : List String :=
  let decoded := Text.decode (pathBytes path.toList)
  let trimmed := (decoded.reverse.dropWhile (· == '/')).reverse
  (trimmed.splitOn '/').map String.ofList

/-- The route of a path. -/
def Route.ofPath? (path : String) : Option Route :=
  match components path with
  | ["", "health"] => some .health
  | ["", "message"] => some .message
  | ["", "languages"] => some .languages
  | ["", "patterns"] => some .patterns
  | ["", "patterns", id] => if id.isEmpty then none else some (.pattern id)
  | _ => none

/-- The method that a route answers. -/
def Route.method : Route → String
  | .message => "POST"
  | _ => "GET"

/-- The truth value that a parameter stands for, in small or capital
letters. -/
def flag? (text : String) : Option Bool :=
  let text := String.ofList (text.toList.map Char.toLower)
  if ["1", "t", "y", "on", "yes", "true"].contains text then some true
  else if ["0", "f", "n", "no", "off", "false"].contains text then some false
  else none

/-- The last of the parameters of a name. -/
def Call.parameter? (call : Call) (name : String) : Option String :=
  (call.parameters.reverse.find? fun entry => entry.1 == name).map (·.2)

/-- The envelope in a body; `none` if the body does not fit. An id that is
null is as good as none, and a payload that is not given is empty. -/
def envelope? (body : Value) : Option Value := do
  let members ← body.members?
  let type ← (← Table.get? members "type").text?
  let payload ← ((Table.get? members "payload").getD (.object [])).members?
  let id ← match Table.get? members "id" with
    | none | some .null => some []
    | some (.text id) => some [("id", Value.text id)]
    | some _ => none
  return .object ([("type", .text type), ("payload", .object payload)] ++ id)

mutual

/-- Whether every number in a value is finite. -/
def isFinite : Value → Bool
  | .real x => (Binary64.toRat? x).isSome
  | .list items => areFinite items
  | .object members => haveFinite members
  | _ => true

/-- Whether every number in several values is finite. -/
def areFinite : List Value → Bool
  | [] => true
  | item :: rest => isFinite item && areFinite rest

/-- Whether every number in several members is finite. -/
def haveFinite : List (String × Value) → Bool
  | [] => true
  | (_, item) :: rest => isFinite item && haveFinite rest

end

/-- An answer of status 200. -/
def answer (body : Value) : Except Fault Reply :=
  if isFinite body then .ok ⟨200, some body⟩ else .error (.refused .unreadable)

/-- Texts, and nothing else. -/
def needTexts (values : List Value) : Except Fault Unit :=
  if values.all fun value => value.text?.isSome then .ok () else .error .unpresentable

/-- A pattern as it is shown. -/
def shown (p : Pattern Value) : Except Fault Value := do
  let summary ← p.summary
  let style ← p.styles.dominant
  needTexts ([p.id.value, p.language.value, p.sample] ++ p.sourceFiles
    ++ style.map fun habit => habit.2.value)
  let members ← summary.toMembers
  let confidence ← ((members.get? "confidence").getD .null).toReal
  return .object (members.put "confidence" (.real confidence))

/-- How the service is. -/
def reportHealth (s : Session) : Except Fault Reply := do
  let stats ← s.memory.store.stats Storage.manner.spell
  let count (name : String) : Value := (stats.get? name).getD .null
  answer (.object
    [("status", .text "healthy"), ("total_patterns", count "total_patterns"),
     ("active_patterns", count "active_patterns"),
     ("persistence", .bool s.settings.storage?.isSome)])

/-- The patterns of a query. -/
def listPatterns (s : Session) (call : Call) : Except Fault Reply := do
  match flag? ((call.parameter? "include_retired").getD "false") with
  | none => return .unprocessable
  | some withRetired =>
    let kind? := call.parameter? "pattern_type"
    match s.patterns (.ofText? (call.parameter? "language")) (.ofText? kind?) withRetired with
    | .error (.refused _) =>
      return .remark 400 ("Unknown pattern type: " ++ kind?.getD "")
    | .error fault => throw fault
    | .ok found => answer (.object [("patterns", .list (← found.mapM shown))])

/-- One pattern. -/
def showPattern (s : Session) (id : String) : Except Fault Reply :=
  match s.memory.store.get? (.text id) with
  | none => .ok (.remark 404 "Pattern not found")
  | some p => do answer (← shown p)

/-- The answer to an envelope. -/
def exchange (body : Value) : Change Session Reply := do
  match envelope? body with
  | none => return .unprocessable
  | some envelope =>
    let (response, s) := (← get).handle Storage.manner envelope
    set s
    Change.ofExcept (answer response.document)

/-- Answers a request on a route. -/
def Route.handle (route : Route) (call : Call) : Change Session Reply := do
  match route with
  | .health => Change.ofExcept (reportHealth (← get))
  | .message => exchange (call.body?.getD .null)
  | .languages =>
    let supported := (← get).settings.registry.supported
    return ⟨200, some (.object [("languages", .list (supported.map .text))])⟩
  | .patterns => Change.ofExcept (listPatterns (← get) call)
  | .pattern id => Change.ofExcept (showPattern (← get) id)

/-- Answers a request. -/
def handle (call : Call) : Change Session Reply :=
  match Route.ofPath? call.path with
  | none => return .remark 404 "Not Found"
  | some route =>
    if route.method == call.method then route.handle call
    else return .remark 405 "Method Not Allowed"

end Service

end CodeHabits
