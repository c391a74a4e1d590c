import SpendTrace.Target
import SpendTrace.Text.Blank
import SpendTrace.Text.Cut

/-!
# Endpoints of the interpreter service

Where the interpreter answers: the addresses of the single steps of an input and of its stream. Both
lie under the route of the input, which does not depend on how many slashes surround its parts.
-/

namespace SpendTrace.Service

open Text

/-- The server, and the first part of its routes. -/
structure Endpoint where
  server : String
  apiPrefix : String
  deriving DecidableEq, Repr

/-- A server that no stream can be opened at. -/
structure UnusableServer where
  server : String
  deriving DecidableEq, Repr

namespace Endpoint

def defaultServer : String := "http://localhost:8080"

def defaultApiPrefix : String := "api"

/-- The environment variable that names the server. -/
def serverVariable : String := "SCRIPT_PLAYGROUND_URL"

/-- The default endpoint, at the server that the environment names unless that name is blank. -/
def ofEnvironment (setting : Option String) : Endpoint :=
  let named := (setting.map fun s => String.ofList (trim s.toList)).filter (!·.isEmpty)
  ⟨named.getD defaultServer, defaultApiPrefix⟩

/-- The route of an input at a server. -/
def inputRoute (e : Endpoint) (server : List Char) (target : Target) : List Char :=
  stripEnd '/' server ++ '/' :: strip '/' e.apiPrefix.toList ++ "/transaction/".toList ++
    target.transactionId.toList ++ "/input/".toList ++ digits target.inputIndex.toNat

/-- Where the snapshot after `step` operations is found. -/
def stepUrl (e : Endpoint) (target : Target) (step : UInt64) : String :=
  String.ofList
    (e.inputRoute e.server.toList target ++ "/interpret-with-steps/".toList ++ digits step.toNat)

/-- The scheme of streams that goes with a server's scheme, in upper or lower case. -/
def streamScheme? (scheme : List Char) : Option (List Char) :=
  let scheme := String.ofList (scheme.map Char.toLower)
  if scheme = "http" ∨ scheme = "ws" then some "ws".toList
  else if scheme = "https" ∨ scheme = "wss" then some "wss".toList
  else none

/-- Where the snapshots of an input are streamed. -/
def streamUrl (e : Endpoint) (target : Target) : Except UnusableServer String :=
  match cut? [':', '/', '/'] e.server.toList with
  | none => .error ⟨e.server⟩
  | some (scheme, rest) =>
    match streamScheme? scheme with
    | none => .error ⟨e.server⟩
    | some scheme =>
      .ok (String.ofList
        (e.inputRoute (scheme ++ "://".toList ++ rest) target ++ "/stream-interpret".toList))

end Endpoint

end SpendTrace.Service
