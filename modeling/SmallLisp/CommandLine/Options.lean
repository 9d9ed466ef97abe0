import SmallLisp.CommandLine.Argument
import SmallLisp.Settings

/-!
# SmallLisp.CommandLine.Options

What the arguments of a run ask for. They are taken from left to right: a mistake in the use of an
option ends it, and so does a request for help. Arguments that belong to no option are noticed only
behind the last one, an ambiguous one is noticed before all else.
-/

namespace SmallLisp
namespace CommandLine

structure Options where
  command : Option Given
  prompt : Option Given
  trace : Bool
deriving DecidableEq, Repr

namespace Options

def unset : Options :=
  ⟨none, none, false⟩

/-- Sets a setting. If it was set before, the later value counts. -/
def set (o : Options) : Setting → Given → Options
  | .command, given => { o with command := some given }
  | .prompt, given => { o with prompt := some given }

def logs (o : Options) (settings : Settings) : Bool :=
  o.trace || settings.trace

/-- The prompt of a run. One that was given nothing is shown as an empty list. -/
def promptText (o : Options) (settings : Settings) : String :=
  match o.prompt with
  | some (.text text) => text
  | some .nothing => "[]"
  | none => settings.prompt

end Options

inductive Invocation where
  | run (options : Options)
  | help
  | misused
deriving DecidableEq, Repr

namespace Invocation

/-- Takes sorted arguments from left to right; `extra` tells whether there was one that belongs to
no option. -/
def takeFrom (o : Options) (extra : Bool) : List Argument → Invocation
  | [] => if extra then .misused else .run o
  | .value _ :: rest => takeFrom o true rest
  | .unknown :: rest => takeFrom o true rest
  | .trace :: rest => takeFrom { o with trace := true } extra rest
  | .sets setting (some given) :: rest => takeFrom (o.set setting given) extra rest
  | .sets setting none :: .value text :: rest => takeFrom (o.set setting (.text text)) extra rest
  | .sets _ none :: _ => .misused
  | .help false :: _ => .help
  | .help true :: .value _ :: _ => .help
  | .help true :: _ => .misused
  | .overfull :: _ => .misused
  | .ambiguous :: _ => .misused
  | .endMark :: _ => .misused

def ofArguments (arguments : List Argument) : Invocation :=
  if arguments.contains .ambiguous then .misused else takeFrom Options.unset false arguments

def parse (texts : List String) : Invocation :=
  ofArguments (Argument.ofTexts texts)

end Invocation
end CommandLine
end SmallLisp
