import SpendTrace.CommandLine.Program

/-!
# Command line

Reads the transcript of the interpreter's replies from standard input and prints the view that the
arguments name.
-/

namespace SpendTrace

/-- The lines of a stream, without their ends. -/
partial def readLines (input : IO.FS.Stream) : IO (List String) := do
  let line ← input.getLine
  if line.isEmpty then return []
  return String.ofList (Text.stripEnd '\n' line.toList) :: (← readLines input)

end SpendTrace

def main (args : List String) : IO UInt32 := do
  let stdout ← IO.getStdout
  let terminal ← stdout.isTty
  let server ← IO.getEnv SpendTrace.Service.Endpoint.serverVariable
  let transcript ← SpendTrace.readLines (← IO.getStdin)
  let result := SpendTrace.CommandLine.program server args terminal transcript
  stdout.putStr result.out
  (← IO.getStderr).putStr result.err
  return result.exitCode
