import SmallLisp.CommandLine.Report

/-!
# SmallLisp.Main

The program: it hands the command line, the environment and the lines of standard input to the
library, and prints what comes back.
-/

open SmallLisp

def readEnviron : IO Environ := do
  let names := ["MYLISP_PROMPT", "MYLISP_REPEAT_TOKEN", "MYLISP_TRACE"]
  let entries ← names.mapM fun name => do
    let text ← IO.getEnv name
    pure (name, text)
  pure fun name => (entries.lookup name).join

def writeNow (stream : IO.FS.Stream) (text : String) : IO Unit := do
  stream.putStr text
  stream.flush

/-- Reads and answers lines until the shell stops; the exit code says whether it broke off. -/
partial def converse (prompt : String) (wanted : Bool) (s : Session) : IO UInt32 := do
  if s.running then
    let out ← IO.getStdout
    writeNow out prompt
    let line ← (← IO.getStdin).getLine
    if line.isEmpty then
      writeNow out Shell.Ending.closed.text
      pure 0
    else
      let turn := Shell.respond s (.ofText (line.dropSuffix "\n").toString)
      writeNow (← IO.getStderr) (CommandLine.logText wanted turn.trace)
      writeNow out turn.output
      match turn.fate with
      | .readsOn => converse prompt wanted turn.session
      | .shutsDown => pure 0
      | .breaksOff => pure 1
  else pure 0

def main (arguments : List String) : IO UInt32 := do
  let environ ← readEnviron
  match CommandLine.Invocation.parse arguments with
  | .run ⟨none, prompt, trace⟩ =>
    let options : CommandLine.Options := ⟨none, prompt, trace⟩
    let settings := Settings.ofEnviron environ
    writeNow (← IO.getStdout) CommandLine.welcome
    converse (options.promptText settings) (options.logs settings) (Session.ofEnviron environ)
  | invocation =>
    let report := invocation.report environ [] .closed
    writeNow (← IO.getStdout) report.out
    writeNow (← IO.getStderr) report.err
    pure report.exitCode.toUInt32
