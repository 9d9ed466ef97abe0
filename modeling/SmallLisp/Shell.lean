import SmallLisp.Interrupt

/-!
# SmallLisp.Shell

The interactive shell: one request a line. It prompts, answers with the tagged result or with the
message of the error, and goes on until an exit was requested, the input ends or it is interrupted.
A blank line shows the last result again. An interrupt may arrive at the prompt or while a line is
evaluated.
-/

namespace SmallLisp
namespace Shell

/-- How the input goes on behind its last line: it is closed, or an interrupt arrives. -/
inductive Ending where
  | closed
  | interrupted
deriving DecidableEq, Repr

def farewell : String := "\nGot SIGINT. Shutdown gracefully\n"

def Ending.text : Ending → String
  | .closed => "\n"
  | .interrupted => farewell

/-- A line of an input, and the number of calls behind which an interrupt arrives, if one does. -/
structure Line where
  text : String
  interrupt? : Option Nat
deriving DecidableEq, Repr

def Line.ofText (text : String) : Line :=
  ⟨text, none⟩

def resultLine (v : Value) : String :=
  v.tagged ++ "\n"

def errorLine (e : Error) : String :=
  "Error: " ++ e.message ++ "\n"

/-- What becomes of the shell behind a line: it reads on, it shuts down, or it breaks off because
the evaluation cannot go on. -/
inductive Fate where
  | readsOn
  | shutsDown
  | breaksOff
deriving DecidableEq, Repr

structure Turn where
  session : Session
  output : String
  trace : List Event
  fate : Fate

/-- What an answer makes the shell print, and what becomes of the shell. -/
def reply (result : Except Failure Value) : String × Fate :=
  match result with
  | .ok v => (resultLine v, .readsOn)
  | .error (.error e) => (errorLine e, .readsOn)
  | .error .interrupted => (farewell, .shutsDown)
  | .error .exhausted => ("", .breaksOff)

def answer (s : Session) (line : Line) : Session.Answer :=
  match line.interrupt? with
  | none => s.request line.text
  | some moment => s.requestUntil moment line.text

def respond (s : Session) (line : Line) : Turn :=
  if Text.allBlank line.text.toList then ⟨s, resultLine s.lastResult, [], .readsOn⟩
  else
    let a := answer s line
    let (text, fate) := reply a.result
    ⟨a.session, a.output ++ text, a.trace, fate⟩

/-- What a shell has printed, recorded and become, and whether it broke off. -/
structure Transcript where
  session : Session
  output : String
  trace : List Event
  brokeOff : Bool

/-- Runs the shell over the lines of an input. -/
def run (prompt : String) (ending : Ending) : Session → List Line → Transcript
  | s, [] =>
    if s.running then ⟨s, prompt ++ ending.text, [], false⟩ else ⟨s, "", [], false⟩
  | s, line :: lines =>
    if s.running then
      let turn := respond s line
      match turn.fate with
      | .readsOn =>
        let rest := run prompt ending turn.session lines
        ⟨rest.session, prompt ++ turn.output ++ rest.output, turn.trace ++ rest.trace,
          rest.brokeOff⟩
      | fate => ⟨turn.session, prompt ++ turn.output, turn.trace, fate == .breaksOff⟩
    else ⟨s, "", [], false⟩

/-- The lines of an input: each ends at a line feed, which the last one may lack. -/
def lines (input : String) : List String :=
  go [] input.toList
where
  /-- The lines of the rest of an input, behind the characters of a line begun, latest first. -/
  go : List Char → List Char → List String
    | [], [] => []
    | line, [] => [String.ofList line.reverse]
    | line, c :: rest =>
      if c = '\n' then String.ofList line.reverse :: go [] rest else go (c :: line) rest

end Shell
end SmallLisp
