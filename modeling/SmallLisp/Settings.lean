import SmallLisp.Text.Blank

/-!
# SmallLisp.Settings

Settings from environment variables. A text setting is taken as it stands; a flag is on for a few
words, whatever their case, and blank text leaves it at its default.
-/

namespace SmallLisp

abbrev Environ := String → Option String

namespace Environ

def text (environ : Environ) (name default : String) : String :=
  (environ name).getD default

def onWords : List String := ["1", "true", "yes", "on"]

/-- Whether a text, blanks at its ends and case aside, turns a flag on. -/
def isOn (text : String) : Bool :=
  onWords.contains (String.ofList ((Text.trimChars text.toList).map Char.toLower))

def flag (environ : Environ) (name : String) (default : Bool) : Bool :=
  match environ name with
  | none => default
  | some text => if Text.allBlank text.toList then default else isOn text

end Environ

structure Settings where
  prompt : String
  repeatToken : String
  trace : Bool
deriving DecidableEq, Repr

/-- The settings that an environment makes. The repeat token is compared with trimmed input, so its
own blanks are trimmed too. -/
def Settings.ofEnviron (environ : Environ) : Settings where
  prompt := environ.text "MYLISP_PROMPT" ">> "
  repeatToken := Text.trim (environ.text "MYLISP_REPEAT_TOKEN" "!!")
  trace := environ.flag "MYLISP_TRACE" false

end SmallLisp
