import ExecutionContext.Text.Extending

/-!
# Quoted text

A text between double quotes in which every character can be told apart: the
quote, the backslash and the common controls have short escapes, and a character
that extends the one before it or has no visible form is written by its code
point. All other characters stand for themselves.
-/

namespace ExecutionContext.Text

/-- A code point in lower-case hexadecimal between braces. -/
def codePoint (c : Char) : String :=
  "\\u\x7b" ++ String.ofList (Nat.toDigits 16 c.toNat) ++ "\x7d"

/-- One character as it stands in quoted text. -/
def quoteChar (c : Char) : String :=
  match c with
  | '\x00' => "\\0"
  | '\t' => "\\t"
  | '\n' => "\\n"
  | '\r' => "\\r"
  | '"' => "\\\""
  | '\\' => "\\\\"
  | _ => if isExtending c || !isVisible c then codePoint c else String.singleton c

/-- The text between double quotes. -/
def quote (text : String) : String :=
  "\"" ++ String.join (text.toList.map quoteChar) ++ "\""

/-- A bracketed list, its parts separated by a comma and a space. -/
def bracketed (parts : List String) : String :=
  "[" ++ ", ".intercalate parts ++ "]"

end ExecutionContext.Text
