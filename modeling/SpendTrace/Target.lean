import SpendTrace.Json.Read
import SpendTrace.Json.Value

/-!
# Trace targets

The transaction input whose scripts are interpreted. Neither the transaction id nor the index is
checked here; whether they name anything is for the interpreter to say.
-/

namespace SpendTrace

structure Target where
  transactionId : String
  inputIndex : UInt32
  deriving DecidableEq, Repr

namespace Target

/-- The target as it is shown: the transaction id, a colon, and the index. -/
def display (t : Target) : String :=
  t.transactionId ++ ":" ++ String.ofList (Text.digits t.inputIndex.toNat)

/-! ## Documents -/

open Json (Tree Value Error)

/-- The members of a target that have been read. -/
structure Draft where
  transactionId : Option String := none
  inputIndex : Option UInt32 := none

def Draft.member (d : Draft) (name : String) (t : Tree) : Except Error Draft :=
  if name = "transaction_id" then do
    .ok { d with transactionId := ← Json.fill name d.transactionId (Json.readString t) }
  else if name = "input_index" then do
    .ok { d with inputIndex := ← Json.fill name d.inputIndex (Json.readUInt32 t) }
  else t.skip.map fun _ => d

/-- A target, written as an object or as the array of its two fields. -/
def read (depth : Nat) : Tree → Except Error Target
  | .object members ending => Tree.enter depth fun _ => do
    let d ← Json.foldMembers Draft.member {} members ending
    let transactionId ← Json.demand "transaction_id" d.transactionId
    let inputIndex ← Json.demand "input_index" d.inputIndex
    .ok ⟨transactionId, inputIndex⟩
  | .array items ending => Tree.enter depth fun _ => do
    let record := "struct TraceTarget with 2 elements"
    let es : Json.Entries := ⟨items, ending⟩
    let (transactionId, es) ← es.next 0 record Json.readString
    let (inputIndex, es) ← es.next 1 record Json.readUInt32
    es.finish
    .ok ⟨transactionId, inputIndex⟩
  | t => .error (t.unexpected "struct TraceTarget")

/-- The target of a document. -/
def ofJson (s : String) : Except Error Target :=
  Json.readText read s

def document (t : Target) : Value :=
  .object [("transaction_id", .string t.transactionId),
    ("input_index", .number (Json.Number.ofUInt32 t.inputIndex))]

end Target

end SpendTrace
