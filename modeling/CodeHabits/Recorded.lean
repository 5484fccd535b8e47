import CodeHabits.FrontEnd
import CodeHabits.Python.Reader

/-!
# `CodeHabits.Recorded`: recorded answers of the grammars

The grammars are programs of their own. What they answer for source texts
can be recorded as a document: a list of records, each with the name of a
grammar, a source text and the answer. A concrete node is recorded as the
list of its kind, its first byte, the byte behind it, its marks, its field
and its children, of which the last may be left out.
-/

set_option autoImplicit false

namespace CodeHabits

/-- A natural number, zero for what is none. -/
def Value.natural : Value → Nat
  | .int n => n.toNat
  | _ => 0

namespace Concrete.Node

/-- An entry of a recorded node. -/
inductive Entry where
  | fact (value : Value)
  | children (nodes : List Node)

/-- The fact at a position. -/
def factAt (entries : List Entry) (position : Nat) : Value :=
  match entries[position]? with
  | some (.fact value) => value
  | _ => .null

/-- The children among the entries. -/
def childrenOf : List Entry → List Node
  | [] => []
  | .children nodes :: _ => nodes
  | .fact _ :: rest => childrenOf rest

/-- The node with some entries. The marks are one for a named node, two for
a missing one and four for one with a problem in it, added up. -/
def ofEntries (entries : List Entry) : Node :=
  let text (position : Nat) := ((factAt entries position).text?).getD ""
  let marks := (factAt entries 3).natural
  .mk (text 0) (factAt entries 1).natural (factAt entries 2).natural (marks % 2 == 1)
    (marks / 2 % 2 == 1) (marks / 4 % 2 == 1) (text 4) (childrenOf entries)

mutual

/-- The node that a value records. -/
def ofValue : Value → Node
  | .list items => ofEntries (entriesOf items)
  | _ => default

/-- The entries that values record. -/
def entriesOf : List Value → List Entry
  | [] => []
  | .list nodes :: rest => .children (ofValues nodes) :: entriesOf rest
  | value :: rest => .fact value :: entriesOf rest

/-- The nodes that values record. -/
def ofValues : List Value → List Node
  | [] => []
  | value :: rest => ofValue value :: ofValues rest

end

end Concrete.Node

/-- What a record says about reading a Python text. -/
def Python.Reading.ofRecord (record : Value) : Python.Reading :=
  match record.member? "ast", record.member? "syntax_error" with
  | some document, _ => .statements (Python.readModule document)
  | none, some (.list [message, line, column]) =>
    .broken (message.text?.getD "") (wholeOf line) (wholeOf column)
  | _, _ => .refused
where
  /-- A whole number that may be missing. -/
  wholeOf : Value → Option Int
    | .int n => some n
    | _ => none

/-- The answers of a list of records. -/
def Grammars.ofRecords (records : List Value) : Grammars :=
  let find (grammar source : String) : Value :=
    (records.find? fun record =>
      (record.member? "grammar").bind Value.text? == some grammar
        && (record.member? "source").bind Value.text? == some source).getD .null
  { concrete := fun grammar source =>
      .ofValue (((find grammar source).member? "tree").getD .null)
    python := fun source => .ofRecord (find "python" source) }

end CodeHabits
