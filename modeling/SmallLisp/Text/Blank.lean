/-!
# SmallLisp.Text.Blank

Blank characters: they separate tokens, and they are trimmed from both ends of a text. Positions
and lengths count code points.
-/

namespace SmallLisp
namespace Text

/-- The blank characters: the space-like separators of Unicode, and the control characters that
end a line, a field or a record. -/
def isBlank (c : Char) : Bool :=
  let n := c.toNat
  (0x09 ≤ n && n ≤ 0x0D) || (0x1C ≤ n && n ≤ 0x20) || n == 0x85 || n == 0xA0 || n == 0x1680 ||
    (0x2000 ≤ n && n ≤ 0x200A) || n == 0x2028 || n == 0x2029 || n == 0x202F || n == 0x205F ||
    n == 0x3000

def trimFront (cs : List Char) : List Char :=
  cs.dropWhile isBlank

def trimChars (cs : List Char) : List Char :=
  (trimFront (trimFront cs).reverse).reverse

def trim (s : String) : String :=
  String.ofList (trimChars s.toList)

def allBlank (cs : List Char) : Bool :=
  cs.all isBlank

end Text
end SmallLisp
