import SmallLisp.Evaluator
import SmallLisp.Settings

/-!
# SmallLisp.Session

A session reads and evaluates texts one after the other over one table and one registry. It keeps
the last code and its result; a text that is the repeat token yields that result again and does
nothing else. Once an exit is requested the session no longer runs, and it does not start again.
-/

namespace SmallLisp

structure Session where
  table : Table
  registry : Registry
  repeatToken : String
  running : Bool
  lastCode : Value
  lastResult : Value
  /-- How many evaluations by `eval` may be inside one another. -/
  nesting : Nat

namespace Session

def start (table : Table) (registry : Registry) (repeatToken : String) : Session where
  table
  registry
  repeatToken
  running := true
  lastCode := .nil
  lastResult := .nil
  nesting := defaultNesting

/-- A session set up by an environment. A repeat token that is given stands as it is, blanks and
all; otherwise the token of the environment counts. -/
def configured (environ : Environ) (token? : Option String) (registry : Registry) (table : Table) :
    Session :=
  start table registry (token?.getD (Settings.ofEnviron environ).repeatToken)

def ofEnviron (environ : Environ) : Session :=
  configured environ none (Registry.standard true) Table.empty

structure Answer where
  result : Except Failure Value
  output : String
  trace : List Event
  session : Session

def refuse (s : Session) (e : Error) : Answer :=
  ⟨.error (.error e), "", [], s⟩

/-- The session after an outcome: it has the new table, and an exit request has ended it. -/
def after (s : Session) (w : World) : Session :=
  { s with table := w.table, running := s.running && w.exits == 0 }

/-- Evaluates code after some events, without touching the last code and result. -/
def evaluateAfter (s : Session) (events : List Event) (code : Value) : Answer :=
  let o := SmallLisp.evaluate s.nesting s.registry code { World.start s.table with trace := events }
  ⟨o.result, o.world.output, o.world.trace, s.after o.world⟩

def evaluate (s : Session) (code : Value) : Answer :=
  s.evaluateAfter [] code

def Answer.remember (a : Answer) (code : Value) : Answer :=
  match a.result with
  | .ok v => { a with session := { a.session with lastCode := code, lastResult := v } }
  | .error _ => a

/-- Whether a text asks for the last result again. -/
def isRepeat (s : Session) (text : String) : Bool :=
  Text.trim text == s.repeatToken

def request (s : Session) (text : String) : Answer :=
  if s.isRepeat text then ⟨.ok s.lastResult, "", [], s⟩
  else
    match Reader.read text with
    | .error e => s.refuse e
    | .ok r => (s.evaluateAfter r.events r.form).remember r.form

def requestExit (s : Session) : Answer :=
  ⟨.ok .nil, "", [.exitRequested], { s with running := false }⟩

def define (s : Session) (key : Key) (v : Value) : Answer :=
  match s.table.define key v with
  | (.ok v, table) => ⟨.ok v, "", [], { s with table }⟩
  | (.error e, table) => refuse { s with table } e

def lookup (s : Session) (key : Key) : Answer :=
  match s.table.lookup key with
  | .ok v => ⟨.ok v, "", [], s⟩
  | .error e => s.refuse e

inductive Request where
  | text (text : String)
  | code (code : Value)
  | define (key : Key) (v : Value)
  | exit

def perform (s : Session) : Request → Answer
  | .text text => s.request text
  | .code code => s.evaluate code
  | .define key v => s.define key v
  | .exit => s.requestExit

/-- Serves requests in order; the answers, and the session at the end. -/
def performAll (s : Session) : List Request → List Answer × Session
  | [] => ([], s)
  | r :: rest =>
    let a := s.perform r
    let (answers, final) := a.session.performAll rest
    (a :: answers, final)

end Session
end SmallLisp
