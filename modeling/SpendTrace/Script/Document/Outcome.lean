import SpendTrace.Json.Read
import SpendTrace.Json.Value
import SpendTrace.Script.Snapshot

/-!
# Documents of stages and outcomes

A stage is an object whose `type` names it, or an array that starts with the name. An outcome has
a `type` and a `value`, in either order, or is the array of the two; what its value must be hangs
on its type, so a value that comes first is kept until the type is known. The type of an outcome
may be an object around the name where it is a member, but not where it is the entry of an array.
-/

namespace SpendTrace.Script

open Json (Tree Value Error Reading Stop)

/-! ## Stages -/

namespace Stage

/-- The stages under their names in documents. -/
def tags : List (String × Stage) :=
  [("ExecutingScriptSig", unlocking), ("ExecutingScriptPubKey", locking),
    ("ExecutingScriptP2SH", payToScriptHash), ("ExecutingScriptWitness", witness)]

def tag : Stage → String
  | unlocking => "ExecutingScriptSig"
  | locking => "ExecutingScriptPubKey"
  | payToScriptHash => "ExecutingScriptP2SH"
  | witness => "ExecutingScriptWitness"

theorem lookup_tag (s : Stage) : Json.lookup tags s.tag = .ok s := by
  cases s <;> rfl

/-- Members beside the type are kept until the stage is known, so they are checked like values that
are read. -/
def member (depth : Nat) (stage : Option Stage) (name : String) (t : Tree) :
    Except Error (Option Stage) :=
  if name = "type" then Json.fill name stage (Json.readName tags t)
  else (t.check depth).map fun _ => stage

def read (depth : Nat) : Tree → Except Error Stage
  | .object members ending => Tree.enter depth fun depth => do
    let stage ← Json.foldMembers (member depth) none members ending
    Json.demand "type" stage
  | .array items ending => Tree.enter depth fun depth => do
    let es : Json.Entries := ⟨items, ending⟩
    let (stage, es) ← es.next? (Json.readName tags)
    let stage ← Json.demand "type" stage
    Tree.checkItems depth es.items
    Json.readEnding es.ending
    if es.items.isEmpty then .ok stage
    else .error (.mismatch (.invalidLength es.items.length "0 elements in sequence"))
  | t => .error (t.unexpected "internally tagged enum ExecutionStage")

def ofJson (s : String) : Except Error Stage :=
  Json.readText read s

def document (s : Stage) : Value :=
  .object [("type", .string s.tag)]

end Stage

/-! ## Outcomes -/

namespace Outcome

/-- The two types of outcome. -/
inductive Tag where
  | noResult
  | result
  deriving DecidableEq, Repr

def Tag.names : List (String × Tag) :=
  [("NoResult", .noResult), ("Result", .result)]

/-- The outcome of a type with the given value. -/
def readValue (tag : Tag) (t : Tree) : Except Error Outcome :=
  match tag with
  | .noResult =>
    match t with
    | .null => .ok pending
    | t => .error (t.unexpected "unit variant Outcome::Pending")
  | .result => (Json.readBool t).map result

/-- The outcome of a type without a value. -/
def withoutValue : Tag → Except Error Outcome
  | .noResult => .ok pending
  | .result => .error (.mismatch (.missingField "value"))

/-- What is known of an outcome of which some members have been read. -/
inductive Draft where
  | empty
  | tagged (tag : Tag)
  /-- A value whose type is still to come. -/
  | valued (value : Tree)
  | complete (outcome : Outcome)

/-- Members beside the type and the value are skipped. -/
def Draft.member (depth : Nat) (d : Draft) (name : String) (t : Tree) : Except Error Draft :=
  if name = "type" then
    match d with
    | empty => (Json.readVariant Tag.names depth t).map tagged
    | valued v => do
      let tag ← Json.readVariant Tag.names depth t
      (readValue tag v).map complete
    | _ => .error (.mismatch (.duplicateField name))
  else if name = "value" then
    match d with
    | empty => (t.check depth).map fun _ => valued t
    | tagged tag => (readValue tag t).map complete
    | _ => .error (.mismatch (.duplicateField name))
  else t.skip.map fun _ => d

def Draft.outcome : Draft → Except Error Outcome
  | tagged tag => withoutValue tag
  | complete o => .ok o
  | _ => .error (.mismatch (.missingField "type"))

/-- How an outcome is called where something else stands. -/
def expected : String := "adjacently tagged enum Outcome"

def read (depth : Nat) : Tree → Except Error Outcome
  | .object members ending => Tree.enter depth fun depth => do
    let d ← Json.foldMembers (Draft.member depth) .empty members ending
    d.outcome
  | .array items ending => Tree.enter depth fun _ => do
    let es : Json.Entries := ⟨items, ending⟩
    let (tag, es) ← es.next 0 expected (Json.readName Tag.names)
    let (outcome, es) ← es.next 1 expected (readValue tag)
    es.finish
    .ok outcome
  | t => .error (t.unexpected expected)

def ofJson (s : String) : Except Error Outcome :=
  Json.readText read s

def document : Outcome → Value
  | pending => .object [("type", .string "NoResult")]
  | result verified => .object [("type", .string "Result"), ("value", .boolean verified)]

end Outcome

end SpendTrace.Script
