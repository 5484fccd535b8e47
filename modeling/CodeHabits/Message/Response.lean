import CodeHabits.Message.Request
import CodeHabits.Session

/-!
# `CodeHabits.Message.Response`: answers to requests

Every envelope gets an answer: what was asked for, or a fault. A fault that
is not of the domain is only told to be one. The answer carries the id of
its request.
-/

set_option autoImplicit false

namespace CodeHabits

namespace Request

/-- Does what a request asks for; answers the data, written in a manner. -/
def perform (manner : Manner Value) : Request → Change Session Value
  | analyze text => do
    return (← Session.learning fun setup now => setup.analyze now text).document
  | analyzeBatch texts => do
    return (← Session.learning fun setup now =>
      setup.analyzeBatch now ⟨[], [], false⟩ none texts).document
  | feedback id reaction reason surroundings content at? => do
    Change.ofExcept
      (← Session.feedback (.text id) reaction reason surroundings content at?).document
  | suggest language recent most? threshold? => do
    let s ← get
    Change.ofExcept do
      let found ← s.suggest language recent most? threshold?
      let documents ← found.mapM (Scored.document s.memory.preferences)
      return .object [("suggestions", .list documents)]
  | decay now? => do return (← Session.decay now?).document
  | stats => do return .object (← Change.ofExcept ((← get).statistics manner))
  | validate code language => do Change.ofExcept ((← get).setup.validate code language)
  | languages path? => do
    let supported := (← get).settings.registry.supported
    return .object
      (("languages", .list (supported.map .text))
        :: (path?.map fun path => ("detected", Value.text (detectLanguage path))).toList)
  | exportAll => do return .object (← Change.ofExcept ((← get).snapshot manner))
  | importAll document replace => do
    let added ← Session.takeSnapshot document replace
    return .object
      [("imported", .ofNat added), ("total_patterns", .ofNat (← get).memory.store.size)]
  | save => do
    let path? ← Session.save
    return .object
      [("saved", .bool path?.isSome), ("path", .ofText? (path?.map FilePath.shown))]

end Request

/-- An answer to an envelope. -/
inductive Response where
  | success (data : Value) (id? : Option String)
  | failure (fault : Fault) (id? : Option String)

namespace Response

/-- A fault as it is told: one that is not of the domain without any
particulars. -/
def faultMembers (fault : Fault) : Table String Value :=
  if fault.isDomain then fault.document
  else [("code", .text "InternalError"), ("message", .text "Internal error")]

/-- The id as a member of an answer. -/
def idMember (id? : Option String) : Table String Value :=
  (id?.map fun id => ("id", Value.text id)).toList

/-- The answer as a document. -/
def document : Response → Value
  | success data id? => .object ([("type", .text "success"), ("data", data)] ++ idMember id?)
  | failure fault id? =>
    .object (("type", .text "error") :: faultMembers fault ++ idMember id?)

end Response

/-- Answers an envelope; the session is left as the request left it. -/
def Session.handle (manner : Manner Value) (s : Session) (envelope : Value) :
    Response × Session :=
  let id? := Request.id? envelope
  match Request.read envelope with
  | .error fault => (.failure fault id?, s)
  | .ok request =>
    match (request.perform manner).outcome s with
    | (.ok data, s) => (.success data id?, s)
    | (.error fault, s) => (.failure fault id?, s)

end CodeHabits
