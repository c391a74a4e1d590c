import SpendTrace.Script.Document.Snapshot
import SpendTrace.Service.Endpoint
import SpendTrace.Text.Utf8

/-!
# Replies of the interpreter service

What a request for a step brings back, and the ways in which it fails. Success is decided by the
status first and by the body second.
-/

namespace SpendTrace.Service

open Script (Snapshot SnapshotError)

/-- Why there is no snapshot. -/
inductive Failure where
  /-- The exchange with the server broke down. -/
  | transport (reason : String)
  | invalidSnapshot (cause : SnapshotError)
  /-- The server refused. -/
  | server (status : UInt16) (message : String)
  | notFound
  | invalidUrl (url : String)
  deriving DecidableEq, Repr

namespace Failure

def message : Failure → String
  | transport reason => "HTTP error: " ++ reason
  | invalidSnapshot cause => "invalid snapshot: " ++ cause.message
  | server status message =>
    "server error (" ++ String.ofList (Text.digits status.toNat) ++ "): " ++ message
  | notFound => "not found"
  | invalidUrl url => "invalid server url: " ++ url

/-- Whether the interpreter turned down the target, rather than failing to answer. -/
def isInvalidTarget : Failure → Bool
  | notFound => true
  | server status _ => status == 400
  | _ => false

def ofUnusableServer (u : UnusableServer) : Failure :=
  invalidUrl u.server

end Failure

/-- How the exchange of one request and its reply ends. -/
inductive Exchange where
  | unanswered (reason : String)
  /-- There is a status, but the body breaks off. -/
  | interrupted (status : UInt16) (reason : String)
  | answered (status : UInt16) (body : List UInt8)
  deriving DecidableEq, Repr

/-- Whether a status reports success. -/
def isSuccess (status : UInt16) : Bool :=
  200 ≤ status && status ≤ 299

/-- The snapshot that a document holds. -/
def decode (document : String) : Except Failure Snapshot :=
  match Snapshot.ofJson document with
  | .ok s => .ok s
  | .error e => .error (.invalidSnapshot (.document e))

/-- What a request for a step is answered with. -/
def Exchange.result : Exchange → Except Failure Snapshot
  | unanswered reason => .error (.transport reason)
  | interrupted status reason =>
    if status = 404 then .error .notFound
    else if isSuccess status then .error (.transport reason)
    else .error (.server status "")
  | answered status body =>
    if status = 404 then .error .notFound
    else if isSuccess status then decode (Text.ofUtf8 body)
    else .error (.server status (Text.ofUtf8 body))

end SpendTrace.Service
