import KeyDebounce.Text.GraphemeExtend
/-!
# Quoted strings

A string shown in a complaint stands in double quotes. The quote and the backslash are escaped,
and so are NUL, tab, carriage return and newline by their short forms. Every other character that
would not show as itself, or that would attach to the character before it, is written as its code
point: a backslash, `u`, and the lowercase hexadecimal digits in braces.
-/

set_option autoImplicit false

namespace KeyDebounce.Text

def quoteChar (c : Char) : String :=
  match c with
  | '\x00' => "\\0"
  | '\t' => "\\t"
  | '\r' => "\\r"
  | '\n' => "\\n"
  | '\\' => "\\\\"
  | '"' => "\\\""
  | c =>
    if isGraphemeExtend c || !isPrintable c then
      "\\u" ++ "\x7b" ++ String.ofList (Nat.toDigits 16 c.toNat) ++ "\x7d"
    else c.toString

/-- A string in double quotes with its special characters escaped. -/
def quoted (s : String) : String := "\"" ++ String.join (s.toList.map quoteChar) ++ "\""

end KeyDebounce.Text
