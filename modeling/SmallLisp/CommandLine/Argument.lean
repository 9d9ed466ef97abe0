import SmallLisp.Text.Digit

/-!
# SmallLisp.CommandLine.Argument

What a single argument of a run is: an option, a value, or a mistake. An option may have a text
attached: a long one behind an equals sign, a short one right behind its letter, with or without an
equals sign. A long option may be cut short as long as its spelling fits no other. An argument that
looks like an option but fits none is a value if it is a negative number or contains a space.
-/

namespace SmallLisp
namespace CommandLine

inductive Setting where
  | command
  | prompt
deriving DecidableEq, Repr

inductive OptionName where
  | sets (setting : Setting)
  | trace
  | help
deriving DecidableEq, Repr

inductive Given where
  | text (text : String)
  /-- The end mark was attached, of which nothing is left. -/
  | nothing
deriving DecidableEq, Repr

inductive Argument where
  | value (text : String)
  /-- An option that needs a value, and what is attached to it. -/
  | sets (setting : Setting) (given? : Option Given)
  | trace
  /-- A request for help; `awaits` tells that an option bundled with it still needs a value. -/
  | help (awaits : Bool)
  /-- An option with a text attached that it does not take. -/
  | overfull
  | unknown
  /-- A spelling cut so short that it fits several options. -/
  | ambiguous
  /-- The mark behind which nothing is an option. -/
  | endMark
deriving DecidableEq, Repr

def shortOption? : Char → Option OptionName
  | 'c' => some (.sets .command)
  | 'h' => some .help
  | _ => none

def longOptions : List (List Char × OptionName) :=
  [("help".toList, .help), ("command".toList, .sets .command), ("prompt".toList, .sets .prompt),
    ("trace".toList, .trace)]

/-- The long options that a spelling fits, whole or cut short. -/
def fitting (spelling : List Char) : List OptionName :=
  (longOptions.filter fun (name, _) => spelling.isPrefixOf name).map Prod.snd

def Given.ofAttached (cs : List Char) : Given :=
  if cs = ['-', '-'] then .nothing else .text (String.ofList cs)

/-- The text behind the equals sign of a long option, if it has one. -/
def attachedLong? (cs : List Char) : Option (List Char) :=
  match cs.dropWhile (· ≠ '=') with
  | [] => none
  | _ :: text => some text

def attachedShort? : List Char → Option (List Char)
  | [] => none
  | '=' :: text => some text
  | text => some text

/-- The letters attached to the short option for help are short options too. One that takes a value
takes the letters behind it. -/
def bundled : List Char → Argument
  | [] => .overfull
  | ['h'] => .help false
  | 'h' :: rest => bundled rest
  | ['c'] => .help true
  | 'c' :: _ => .help false
  | _ => .overfull

def longArgument (name : OptionName) (attached? : Option (List Char)) : Argument :=
  match name, attached? with
  | .sets setting, _ => .sets setting (attached?.map Given.ofAttached)
  | .trace, none => .trace
  | .help, none => .help false
  | _, some _ => .overfull

def shortArgument (name : OptionName) (attached? : Option (List Char)) : Argument :=
  match name, attached? with
  | .help, some letters => bundled letters
  | _, _ => longArgument name attached?

def dropLineFeed (cs : List Char) : List Char :=
  if cs.getLast? = some '\n' then cs.dropLast else cs

/-- A number without a sign: digits, or digits around a point with at least one behind it. -/
def isUnsignedNumber (cs : List Char) : Bool :=
  match cs.dropWhile Text.isDecimalDigit with
  | [] => !cs.isEmpty
  | '.' :: fraction => !fraction.isEmpty && fraction.all Text.isDecimalDigit
  | _ => false

/-- A negative number, possibly with a line feed behind it. -/
def isNegativeNumber : List Char → Bool
  | '-' :: cs => isUnsignedNumber (dropLineFeed cs)
  | _ => false

def dashed (text : String) : Argument :=
  if isNegativeNumber text.toList || text.toList.contains ' ' then .value text else .unknown

def Argument.ofText (text : String) : Argument :=
  match text.toList with
  | ['-', '-'] => .endMark
  | '-' :: '-' :: cs =>
    match fitting (cs.takeWhile (· ≠ '=')) with
    | [] => dashed text
    | [name] => longArgument name (attachedLong? cs)
    | _ => .ambiguous
  | '-' :: c :: rest =>
    match shortOption? c with
    | some name => shortArgument name (attachedShort? rest)
    | none => dashed text
  | _ => .value text

def Argument.ofTexts : List String → List Argument
  | [] => []
  | text :: rest =>
    match ofText text with
    | .endMark => [.endMark]
    | argument => argument :: ofTexts rest

end CommandLine
end SmallLisp
