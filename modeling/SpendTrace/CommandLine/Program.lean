import SpendTrace.CommandLine.Parse
import SpendTrace.Service.Reply
import SpendTrace.Stream.Connection
import SpendTrace.View.Session

/-!
# The program

What the program prints for a command line and a transcript of the service's replies, and the code
that it exits with. A transcript writes down line by line what the service answered: for single
steps the status and the body of each reply, with a blank between them, for a stream one document a
line.
-/

namespace SpendTrace

open Service (Exchange)
open SpendTrace.Stream (Attempt Arrival)

/-! ## Transcripts -/

/-- The reply that a line of a transcript writes down. -/
def Service.Exchange.ofLine (line : String) : Exchange :=
  let (status, body) := (Text.cut? [' '] line.toList).getD (line.toList, [])
  match Text.natural? status with
  | some n =>
    if n < 1000 then .answered (UInt16.ofNat n) (String.ofList body).toUTF8.toList
    else .unanswered line
  | none => .unanswered line

/-- What a connection yields that sends the lines of a transcript and ends. -/
def Stream.arrivalsOfLines (lines : List String) : List Arrival :=
  lines.map Arrival.text ++ [.ended]

namespace CommandLine

open View (Session Ending)

/-! ## Running a view -/

/-- Opens the view of a command line. Replies to single steps are given in order; `attempt` tells
what the network makes of an address. The viewer looks after every event of a stream. -/
def Arguments.session (a : Arguments) (l : Link) (replies : List Exchange)
    (attempt : String → Attempt) : Session :=
  let entries := (Stream.producerEvents a.endpoint l.target attempt).map fun e => .push [e]
  Session.run { viewer := { toEnd := a.toEnd } } l (replies.map Exchange.result) entries

/-! ## Results -/

structure Result where
  out : String := ""
  err : String := ""
  exitCode : UInt32 := 0

/-- A chain of causes, as it is reported. -/
def chainText : List String → String
  | [] => ""
  | outermost :: causes =>
    "Error: " ++ outermost ++ "\n" ++
      (if causes.isEmpty then ""
      else "\nCaused by:\n" ++ String.join (causes.map fun c => "    " ++ c ++ "\n"))

/-- The program on the lines of a transcript. Colours are for terminals. Of a line that is refused
only the exit code is given, not what is said about it. -/
def program (serverSetting : Option String) (line : List String) (terminal : Bool)
    (transcript : List String) : Result :=
  match parse serverSetting line with
  | .error r => { exitCode := r.exitCode }
  | .ok a =>
    match a.link with
    | .error f => { err := chainText f.chain, exitCode := 1 }
    | .ok l =>
      let s := a.session l (transcript.map Exchange.ofLine) fun _ =>
        .connected (Stream.arrivalsOfLines transcript)
      let out := View.printedText (!a.noColor && terminal) s.printed
      match s.ending with
      | some (.failed chain) => { out, err := chainText chain, exitCode := 1 }
      | _ => { out }

end CommandLine

end SpendTrace
