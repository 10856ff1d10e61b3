import StreamOperator.Text.GraphemeExtend
import StreamOperator.Text.Hex
import StreamOperator.Text.Unprintable

/-! Text and bytes as they are shown inside a message. Text stands in double quotes; a character
without a visible form of its own is shown by its number. Bytes stand behind a `b`; all but
printable ASCII are shown by two hexadecimal digits. -/

namespace StreamOperator.Text

/-- The form of a character in quoted text. -/
def quoteChar (c : Char) : String :=
  if c = '\x00' then "\\0"
  else if c = '\t' then "\\t"
  else if c = '\r' then "\\r"
  else if c = '\n' then "\\n"
  else if c = '"' then "\\\""
  else if c = '\\' then "\\\\"
  else if c.isAlphanum || c = ' ' then c.toString
  else if extendsGrapheme c || isUnprintable c then
    "\\u\x7b" ++ String.ofList (Nat.toDigits 16 c.toNat) ++ "\x7d"
  else c.toString

def quote (s : String) : String :=
  "\"" ++ String.join (s.toList.map quoteChar) ++ "\""

/-- The form of a byte in a quoted byte string. -/
def quoteByte (b : UInt8) : String :=
  if b = 0x00 then "\\0"
  else if b = 0x09 then "\\t"
  else if b = 0x0a then "\\n"
  else if b = 0x0d then "\\r"
  else if b = 0x22 then "\\\""
  else if b = 0x5c then "\\\\"
  else if 0x20 ≤ b ∧ b < 0x7f then (Char.ofNat b.toNat).toString
  else "\\x" ++ hexByte b

def quoteBytes (bytes : List UInt8) : String :=
  "b\"" ++ String.join (bytes.map quoteByte) ++ "\""

end StreamOperator.Text
