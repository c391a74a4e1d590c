import SpendTrace.Script.Document.Element
import SpendTrace.Script.Document.Outcome

/-!
# Documents of snapshots

A snapshot is written as its outcome, its state and, perhaps, its step; the state holds the scripts,
the stacks and the stage. Both are objects, or the arrays of their fields in the order in which they
are written.
-/

namespace SpendTrace.Script

open Json (Tree Value Error)

/-! ## The state -/

/-- What a snapshot says apart from its outcome and its step. -/
structure MachineState where
  stage : Stage
  locking : List Element
  unlocking : List Element
  current : List Element
  redeem : Option (List Element)
  witness : Option (List Element)
  witnessStack : Option (List Element)
  main : List Element
  alt : List Element

namespace MachineState

/-- The members of a state that have been read. -/
structure Draft where
  locking : Option (List Element) := none
  unlocking : Option (List Element) := none
  current : Option (List Element) := none
  redeem : Option (Option (List Element)) := none
  witness : Option (Option (List Element)) := none
  witnessStack : Option (Option (List Element)) := none
  main : Option (List Element) := none
  alt : Option (List Element) := none
  stage : Option Stage := none

def Draft.member (depth : Nat) (d : Draft) (name : String) (t : Tree) : Except Error Draft :=
  let list := Element.readList depth
  let list? := Json.readOption list
  match name with
  | "scriptPubKey" => do .ok { d with locking := ← Json.fill name d.locking (list t) }
  | "scriptSig" => do .ok { d with unlocking := ← Json.fill name d.unlocking (list t) }
  | "currentScript" => do .ok { d with current := ← Json.fill name d.current (list t) }
  | "scriptP2sh" => do .ok { d with redeem := ← Json.fill name d.redeem (list? t) }
  | "scriptWitness" => do .ok { d with witness := ← Json.fill name d.witness (list? t) }
  | "scriptWitnessStack" => do
    .ok { d with witnessStack := ← Json.fill name d.witnessStack (list? t) }
  | "stack" => do .ok { d with main := ← Json.fill name d.main (list t) }
  | "altStack" => do .ok { d with alt := ← Json.fill name d.alt (list t) }
  | "stage" => do .ok { d with stage := ← Json.fill name d.stage (Stage.read depth t) }
  | _ => t.skip.map fun _ => d

def Draft.state (d : Draft) : Except Error MachineState := do
  let locking ← Json.demand "scriptPubKey" d.locking
  let unlocking ← Json.demand "scriptSig" d.unlocking
  let current ← Json.demand "currentScript" d.current
  let main ← Json.demand "stack" d.main
  let alt ← Json.demand "altStack" d.alt
  let stage ← Json.demand "stage" d.stage
  .ok ⟨stage, locking, unlocking, current, d.redeem.join, d.witness.join, d.witnessStack.join,
    main, alt⟩

def read (depth : Nat) : Tree → Except Error MachineState
  | .object members ending => Tree.enter depth fun depth => do
    let d ← Json.foldMembers (Draft.member depth) {} members ending
    d.state
  | .array items ending => Tree.enter depth fun depth => do
    let record := "struct StateDocument with 9 elements"
    let list := Element.readList depth
    let es : Json.Entries := ⟨items, ending⟩
    let (locking, es) ← es.next 0 record list
    let (unlocking, es) ← es.next 1 record list
    let (current, es) ← es.next 2 record list
    let (redeem, es) ← es.nextOption list
    let (witness, es) ← es.nextOption list
    let (witnessStack, es) ← es.nextOption list
    let (main, es) ← es.next 6 record list
    let (alt, es) ← es.next 7 record list
    let (stage, es) ← es.next 8 record (Stage.read depth)
    es.finish
    .ok ⟨stage, locking, unlocking, current, redeem, witness, witnessStack, main, alt⟩
  | t => .error (t.unexpected "struct StateDocument")

def document (m : MachineState) : Value :=
  let list := Element.listDocument
  .object
    ([("scriptPubKey", list m.locking), ("scriptSig", list m.unlocking),
        ("currentScript", list m.current)] ++
      Value.optional "scriptP2sh" (m.redeem.map list) ++
      Value.optional "scriptWitness" (m.witness.map list) ++
      Value.optional "scriptWitnessStack" (m.witnessStack.map list) ++
      [("stack", list m.main), ("altStack", list m.alt), ("stage", m.stage.document)])

end MachineState

/-! ## The snapshot -/

namespace Snapshot

def ofState (outcome : Outcome) (m : MachineState) (step : Option UInt64) : Snapshot where
  outcome := outcome
  step := step
  stage := m.stage
  locking := m.locking
  unlocking := m.unlocking
  current := m.current
  redeem := m.redeem
  witness := m.witness
  witnessStack := m.witnessStack
  main := m.main
  alt := m.alt

def state (s : Snapshot) : MachineState :=
  ⟨s.stage, s.locking, s.unlocking, s.current, s.redeem, s.witness, s.witnessStack, s.main, s.alt⟩

theorem ofState_state (s : Snapshot) : ofState s.outcome s.state s.step = s := rfl

/-- The members of a snapshot that have been read. -/
structure Draft where
  outcome : Option Outcome := none
  state : Option MachineState := none
  step : Option (Option UInt64) := none

def Draft.member (depth : Nat) (d : Draft) (name : String) (t : Tree) : Except Error Draft :=
  match name with
  | "result" => do .ok { d with outcome := ← Json.fill name d.outcome (Outcome.read depth t) }
  | "state" => do .ok { d with state := ← Json.fill name d.state (MachineState.read depth t) }
  | "step" => do .ok { d with step := ← Json.fill name d.step (Json.readOption Json.readUInt64 t) }
  | _ => t.skip.map fun _ => d

def read (depth : Nat) : Tree → Except Error Snapshot
  | .object members ending => Tree.enter depth fun depth => do
    let d ← Json.foldMembers (Draft.member depth) {} members ending
    let outcome ← Json.demand "result" d.outcome
    let state ← Json.demand "state" d.state
    .ok (ofState outcome state d.step.join)
  | .array items ending => Tree.enter depth fun depth => do
    let record := "struct SnapshotDocument with 3 elements"
    let es : Json.Entries := ⟨items, ending⟩
    let (outcome, es) ← es.next 0 record (Outcome.read depth)
    let (state, es) ← es.next 1 record (MachineState.read depth)
    let (step, es) ← es.nextOption Json.readUInt64
    es.finish
    .ok (ofState outcome state step)
  | t => .error (t.unexpected "struct SnapshotDocument")

def document (s : Snapshot) : Value :=
  .object
    ([("result", s.outcome.document), ("state", s.state.document)] ++
      Value.optional "step" (s.step.map fun n => .number (Json.Number.ofUInt64 n)))

/-- The snapshot that a text writes. -/
def ofJson (text : String) : Except Error Snapshot :=
  Json.readText read text

/-- The document of a snapshot as text. -/
def toJson (s : Snapshot) : String :=
  s.document.toText

end Snapshot

/-! ## Refused documents -/

/-- Why there is no snapshot: the document is at fault, or a literal without a value was to be
made. -/
inductive SnapshotError where
  | document (error : Error)
  | missingValue (missing : MissingValue)
  deriving DecidableEq, Repr

def SnapshotError.message : SnapshotError → String
  | .document e => "malformed interpreter document: " ++ e.message
  | .missingValue m => m.message

end SpendTrace.Script
