import SpendTrace.Link
import SpendTrace.Service.Endpoint
import SpendTrace.Text.Printable

/-!
# Accepted command lines

What an accepted command line says: which view to open, either by a link or by its parts, at which
service, and how to print it. The arguments may lack both; it is for the reading of the line to see
that they do not.
-/

namespace SpendTrace.CommandLine

open Service (Endpoint)

structure Arguments where
  /-- The link, still to be read. -/
  linkText : Option String
  /-- The transaction, if there is no link, and with it the other parts of the view. -/
  tx : Option String
  input : UInt32
  step : UInt64
  automatic : Bool
  endpoint : Endpoint
  /-- Whether to go on to the verdict. -/
  toEnd : Bool
  noColor : Bool
  /-- How often more output was asked for, at most 255 times. -/
  verbosity : Nat
  deriving DecidableEq, Repr

/-- Why there is no view to open. -/
inductive LinkFailure where
  /-- Neither a link nor a transaction is given. -/
  | missing
  | unreadable (text : String) (cause : LinkError)
  deriving DecidableEq, Repr

/-- What went wrong, from the outside to the inside. -/
def LinkFailure.chain : LinkFailure → List String
  | missing => ["either a link or --tx is required"]
  | unreadable text cause => ["cannot open link " ++ Text.quoted text, cause.message]

namespace Arguments

/-- The view to open. A link comes first. -/
def link (a : Arguments) : Except LinkFailure Link :=
  match a.linkText with
  | some text => (Link.parse text).mapError (.unreadable text)
  | none =>
    match a.tx with
    | none => .error .missing
    | some tx =>
      let target : Target := ⟨tx, a.input⟩
      .ok (if a.automatic then ⟨target, .automatic⟩ else ⟨target, .step a.step⟩)

theorem link_of_linkText {a : Arguments} {text : String} (h : a.linkText = some text) :
    a.link = (Link.parse text).mapError (.unreadable text) := by
  simp only [link, h]

theorem link_of_tx {a : Arguments} {tx : String} (h : a.linkText = none) (htx : a.tx = some tx) :
    a.link = .ok ⟨⟨tx, a.input⟩, if a.automatic then .automatic else .step a.step⟩ := by
  simp only [link, h, htx]
  split <;> rfl

/-- The level of the log. -/
def logLevel (a : Arguments) : String :=
  match a.verbosity with
  | 0 => "warn"
  | 1 => "info"
  | 2 => "debug"
  | _ => "trace"

end Arguments

end SpendTrace.CommandLine
