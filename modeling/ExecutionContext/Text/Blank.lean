/-!
# Blank characters

The white space of Unicode, and texts without the white space at their end.
-/

namespace ExecutionContext.Text

/-- Whether a character is white space. -/
def isBlank (c : Char) : Bool :=
  let code := c.toNat
  decide (0x09 ≤ code ∧ code ≤ 0x0D) || decide (0x2000 ≤ code ∧ code ≤ 0x200A) ||
    [0x20, 0x85, 0xA0, 0x1680, 0x2028, 0x2029, 0x202F, 0x205F, 0x3000].contains code

/-- The text without its trailing white space. -/
def trimEnd (text : String) : String :=
  String.ofList (text.toList.reverse.dropWhile isBlank).reverse

end ExecutionContext.Text
