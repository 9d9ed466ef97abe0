import SmallLisp.CommandLine.Options
import SmallLisp.Shell

/-!
# SmallLisp.CommandLine.Report

What a run prints on each stream, and its exit code.
-/

namespace SmallLisp
namespace CommandLine

/-- What a run prints on standard output and on standard error, and its exit code. -/
structure Report where
  exitCode : Nat
  out : String
  err : String
deriving DecidableEq, Repr

/-- The report of a run that breaks off: it has printed this by then, and has nothing to say about
the end. -/
def Report.brokenOff (out err : String) : Report :=
  ⟨1, out, err⟩

def usage : String := "usage: mylisp [-h] [-c EXPR] [--prompt PROMPT] [--trace]\n"

def helpText : String :=
  usage ++ "\n" ++
  "mylisp - a small homoiconic list-processing language\n" ++ "\n" ++
  "options:\n" ++
  "  -h, --help            show this help message and exit\n" ++
  "  -c EXPR, --command EXPR\n" ++
  "                        Evaluate a single expression, print the result and\n" ++
  "                        exit\n" ++
  "  --prompt PROMPT       Prompt shown before each line (default: $MYLISP_PROMPT\n" ++
  "                        or \">> \")\n" ++
  "  --trace               Log every evaluation step to stderr\n"

def welcome : String := "Welcome to MyLisp.\n"

def logText (wanted : Bool) (trace : List Event) : String :=
  if wanted then String.join ((logLines trace).map (· ++ "\n")) else ""

def runCommand (wanted : Bool) (s : Session) (text : String) : Report :=
  let a := s.request text
  let log := logText wanted a.trace
  match a.result with
  | .ok v => ⟨0, a.output ++ Shell.resultLine v, log⟩
  | .error (.error e) => ⟨1, a.output, log ++ Shell.errorLine e⟩
  | .error _ => .brokenOff a.output log

def runShell (wanted : Bool) (s : Session) (prompt : String) (input : List Shell.Line)
    (ending : Shell.Ending) : Report :=
  let t := Shell.run prompt ending s input
  let out := welcome ++ t.output
  let log := logText wanted t.trace
  if t.brokeOff then .brokenOff out log else ⟨0, out, log⟩

/-- A run of the program. A command of which nothing is left is no text to be read: the run breaks
off. -/
def run (o : Options) (environ : Environ) (input : List Shell.Line) (ending : Shell.Ending) :
    Report :=
  let settings := Settings.ofEnviron environ
  let session := Session.ofEnviron environ
  let wanted := o.logs settings
  match o.command with
  | some (.text text) => runCommand wanted session text
  | some .nothing => .brokenOff "" ""
  | none => runShell wanted session (o.promptText settings) input ending

def Invocation.report (i : Invocation) (environ : Environ) (input : List Shell.Line)
    (ending : Shell.Ending) : Report :=
  match i with
  | .run o => CommandLine.run o environ input ending
  | .help => ⟨0, helpText, ""⟩
  | .misused => ⟨2, "", usage⟩

end CommandLine
end SmallLisp
