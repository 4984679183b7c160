/-! Blank characters. A directive is cut into words at spaces and tabs only. The text of a fault
and the lines of an expansion are trimmed of all Unicode white space, which is a larger set. -/
namespace QuestScript.Text

def isBlank (c : Char) : Bool := c == ' ' || c == '\t'

/-- The 25 characters with the Unicode property White_Space. -/
def isWhiteSpace (c : Char) : Bool :=
  let n := c.toNat
  (0x09 ≤ n && n ≤ 0x0D) || n == 0x20 || n == 0x85 || n == 0xA0 || n == 0x1680 ||
    (0x2000 ≤ n && n ≤ 0x200A) || n == 0x2028 || n == 0x2029 || n == 0x202F ||
    n == 0x205F || n == 0x3000

def strip (drop : Char → Bool) (cs : List Char) : List Char :=
  ((cs.dropWhile drop).reverse.dropWhile drop).reverse

def trim (s : String) : String := String.ofList (strip isWhiteSpace s.toList)

@[simp] theorem toList_trim (s : String) : (trim s).toList = strip isWhiteSpace s.toList := by
  simp [trim]

end QuestScript.Text
