import SpendTrace.Script.Element

/-!
# Snapshots of an execution

One point in the execution of an input's scripts: the segment being executed, the scripts, the two
stacks, and the verdict once there is one.
-/

namespace SpendTrace.Script

/-- The script segment that is being executed. -/
inductive Stage where
  | unlocking
  | locking
  | payToScriptHash
  | witness
  deriving DecidableEq, Repr

/-- The name shown for the script being executed. -/
def Stage.scriptName : Stage → String
  | .unlocking => "Script Sig"
  | .locking => "Script PubKey"
  | .payToScriptHash => "Script P2SH"
  | .witness => "Script Witness"

/-- The verdict, once there is one. -/
inductive Outcome where
  | pending
  | result (verified : Bool)
  deriving DecidableEq, Repr

namespace Outcome

def isTerminal : Outcome → Bool
  | pending => false
  | result _ => true

def verdict : Outcome → Option Bool
  | pending => none
  | result verified => some verified

end Outcome

structure Snapshot where
  stage : Stage
  outcome : Outcome
  /-- The number of operations executed so far, if the interpreter numbers them. -/
  step : Option UInt64
  /-- The script that the spent output demands. -/
  locking : List Element
  /-- The script that the spending input supplies. -/
  unlocking : List Element
  /-- What is left of the segment being executed. -/
  current : List Element
  /-- The redeem script of a spend by script hash. -/
  redeem : Option (List Element)
  witness : Option (List Element)
  witnessStack : Option (List Element)
  /-- The main stack, bottom first. -/
  main : List Element
  /-- The alternative stack, bottom first. -/
  alt : List Element
  deriving DecidableEq

namespace Snapshot

def isTerminal (s : Snapshot) : Bool :=
  s.outcome.isTerminal

/-- The script still to be executed: while the unlocking script runs, all of the locking script
follows it. -/
def remaining (s : Snapshot) : List Element :=
  match s.outcome, s.stage with
  | .pending, .unlocking => s.current ++ s.locking
  | _, _ => s.current

/-- The snapshot in one line, where `step` is shown until there is a verdict. -/
def headline (s : Snapshot) (step : UInt64) : String :=
  match s.outcome with
  | .pending =>
    "Executing " ++ s.stage.scriptName ++ " [" ++ String.ofList (Text.digits step.toNat) ++ "]"
  | .result true => "Execution Succeeded"
  | .result false => "Execution Failed"

/-- All elements that a snapshot holds, list by list. -/
def lists (s : Snapshot) : List (List Element) :=
  [s.locking, s.unlocking, s.current] ++ s.redeem.toList ++ s.witness.toList ++
    s.witnessStack.toList ++ [s.main, s.alt]

end Snapshot

end SpendTrace.Script
