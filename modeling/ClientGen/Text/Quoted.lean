import ClientGen.Text.Basic
import ClientGen.Text.Printable

/-! # Quoted text

Text in double quotes with every unprintable character escaped, as messages
show it.
-/

namespace ClientGen
namespace Text

/-- How one character stands inside double quotes. -/
def quoteChar (c : Char) : String :=
  if c = '"' || c = '\\' then String.ofList ['\\', c]
  else if isPrintable c then String.ofList [c]
  else match c.toNat with
    | 7 => "\\a"
    | 8 => "\\b"
    | 12 => "\\f"
    | 10 => "\\n"
    | 13 => "\\r"
    | 9 => "\\t"
    | 11 => "\\v"
    | n =>
      if n < 32 || n == 127 then "\\x" ++ hexPadded 2 n
      else if n < 0x10000 then "\\u" ++ hexPadded 4 n
      else "\\U" ++ hexPadded 8 n

def quoted (s : String) : String := "\"" ++ String.join (s.toList.map quoteChar) ++ "\""

def quotedChar (c : Char) : String :=
  let inside := match c.toNat with
    | 39 => "\\'"
    | 34 => "\""
    | _ => quoteChar c
  "'" ++ inside ++ "'"

end Text
end ClientGen
