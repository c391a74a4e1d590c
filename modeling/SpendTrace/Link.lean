import SpendTrace.Target
import SpendTrace.Text.Blank
import SpendTrace.Text.Cut

/-!
# Links

A link addresses a view of one input: a step of a stepped trace, or a streamed run of all of it.

* `Link.text` writes the one form `/transaction/ID/input/INDEX/interpret?…`.
* `Link.parse` also reads that route behind a `#`, inside a full address, and between blanks. Its
  query is read from front to back, and each pair overwrites what an earlier one has set.
-/

namespace SpendTrace

/-- How the snapshots of a trace are obtained. -/
inductive Mode where
  /-- One request for each step, in both directions. -/
  | stepped
  /-- One stream for the whole input, forward only. -/
  | streamed
  deriving DecidableEq, Repr

/-- What of a trace a link shows. -/
inductive Link.View where
  /-- The snapshot after so many operations. -/
  | step (index : UInt64)
  /-- A streamed run. -/
  | automatic
  deriving DecidableEq, Repr

structure Link where
  target : Target
  view : Link.View
  deriving DecidableEq, Repr

/-- Why a text is not a link. -/
inductive LinkError where
  | notInterpretLink (text : String)
  | invalidInputIndex (text : String)
  | invalidStep (text : String)
  deriving DecidableEq, Repr

def LinkError.message : LinkError → String
  | .notInterpretLink text => "not an interpretation link: " ++ text
  | .invalidInputIndex text => "invalid input index: " ++ text
  | .invalidStep text => "invalid step: " ++ text

namespace Link

open Text

def mode (l : Link) : Mode :=
  match l.view with
  | .step _ => .stepped
  | .automatic => .streamed

/-- The step that is asked for, in a stepped trace. -/
def requestedStep (l : Link) : Option UInt64 :=
  match l.view with
  | .step n => some n
  | .automatic => none

theorem requestedStep_isSome_iff (l : Link) : l.requestedStep.isSome ↔ l.mode = .stepped := by
  cases h : l.view <;> simp [requestedStep, mode, h]

/-! ## Writing -/

def View.query : View → List Char
  | step n => "step=".toList ++ digits n.toNat
  | automatic => "automatic=true".toList

/-- The written form of a link. -/
def chars (l : Link) : List Char :=
  "/transaction/".toList ++ l.target.transactionId.toList ++ "/input/".toList ++
    digits l.target.inputIndex.toNat ++ "/interpret?".toList ++ l.view.query

def text (l : Link) : String :=
  String.ofList l.chars

/-! ## Reading -/

/-- The route that a text leads to: what stands behind the first `#` that a slash follows, or
behind a leading `#`, or behind the host of a full address, or else all of it. What follows the
next `#` is no part of the route. -/
def route (s : List Char) : List Char :=
  let s := trim s
  upTo '#'
    (match cut? ['#', '/'] s with
    | some (_, rest) => '/' :: rest
    | none =>
      match s with
      | '#' :: rest => rest
      | s =>
        match cut? [':', '/', '/'] s with
        | some (_, rest) => rest.dropWhile (· != '/')
        | none => s)

/-- The text before the first `c` and the text behind it, which is empty if there is no `c`. -/
def splitAtFirst (c : Char) (s : List Char) : List Char × List Char :=
  (cut? [c] s).getD (s, [])

/-- The transaction id and the input index that a path names, both still as text. -/
def ofPath? (path : List Char) : Option (List Char × List Char) :=
  match (pieces '/' path).filter (!·.isEmpty) with
  | [transaction, id, input, index, interpret] =>
    if transaction = "transaction".toList ∧ input = "input".toList ∧
        interpret = "interpret".toList then
      some (id, index)
    else none
  | _ => none

/-- The keys and values of a query, in order. -/
def pairs (query : List Char) : List (List Char × List Char) :=
  ((pieces '&' query).filter (!·.isEmpty)).map (splitAtFirst '=')

/-- Only two values switch something on. -/
def isOn (value : List Char) : Bool :=
  value = "true".toList || value = "1".toList

/-- What the pairs of a query have set so far. The step is still as it is written. -/
structure Settings where
  automatic : Bool := false
  step : Option (List Char) := none
  deriving DecidableEq

/-- One pair of a query. Its value replaces the one set before; an unknown key sets nothing. -/
def Settings.assign (s : Settings) (pair : List Char × List Char) : Settings :=
  if pair.1 = "automatic".toList then { s with automatic := isOn pair.2 }
  else if pair.1 = "step".toList then { s with step := some pair.2 }
  else s

/-- What a query asks to see. -/
def View.ofQuery (query : List Char) : Except LinkError View :=
  let settings := (pairs query).foldl Settings.assign {}
  if settings.automatic then .ok .automatic
  else
    match settings.step with
    | none => .ok (.step 0)
    | some value =>
      match uint64? value with
      | some n => .ok (.step n)
      | none => .error (.invalidStep (String.ofList value))

/-- The link that a text writes. -/
def parse (text : String) : Except LinkError Link := do
  let (path, query) := splitAtFirst '?' (route text.toList)
  match ofPath? path with
  | none => .error (.notInterpretLink text)
  | some (id, index) =>
    match uint32? index with
    | none => .error (.invalidInputIndex (String.ofList index))
    | some inputIndex => do
      let view ← View.ofQuery query
      .ok ⟨⟨String.ofList id, inputIndex⟩, view⟩

end Link

end SpendTrace
