import StreamOperator.Json.Document

/-! Compact JSON text: no blank between tokens. Control characters, the quote and the backslash
are escaped, five controls by a letter and the others by four lower-case hexadecimal digits;
every other character stands for itself. -/

namespace StreamOperator.Json

def hexDigit (n : Nat) : Char := Nat.digitChar (n % 16)

/-- The form of a character inside a string. -/
def escape (c : Char) : List Char :=
  if c = '"' then ['\\', '"']
  else if c = '\\' then ['\\', '\\']
  else if c = '\x08' then ['\\', 'b']
  else if c = '\x0c' then ['\\', 'f']
  else if c = '\n' then ['\\', 'n']
  else if c = '\r' then ['\\', 'r']
  else if c = '\t' then ['\\', 't']
  else if c.toNat < 0x20 then ['\\', 'u', '0', '0', hexDigit (c.toNat / 16), hexDigit c.toNat]
  else [c]

def printText (content : String) : List Char :=
  '"' :: (content.toList.flatMap escape ++ ['"'])

namespace Numeral

/-- An exponent always shows its sign. -/
def print (n : Numeral) : List Char :=
  (if n.negative then ['-'] else [])
    ++ Nat.toDigits 10 n.whole
    ++ (if n.fraction = [] then [] else '.' :: n.fraction)
    ++ (match n.exponent with
      | none => []
      | some e => 'e' :: (if e < 0 then '-' else '+') :: Nat.toDigits 10 e.natAbs)

end Numeral

namespace Document

/-- Content that names no text is printed as the empty string. -/
def printContent (content : Option String) : List Char :=
  printText (content.getD "")

mutual

def print : Document → List Char
  | .null => ['n', 'u', 'l', 'l']
  | .boolean true => ['t', 'r', 'u', 'e']
  | .boolean false => ['f', 'a', 'l', 's', 'e']
  | .number n => n.print
  | .text content => printContent content
  | .array [] => ['[', ']']
  | .array (d :: ds) => '[' :: (d.print ++ printItems ds ++ [']'])
  | .object [] => ['{', '}']
  | .object ((name, d) :: ms) =>
    '{' :: (printContent name ++ ':' :: (d.print ++ printMembers ms ++ ['}']))

/-- The items after the first, each behind its comma. -/
def printItems : List Document → List Char
  | [] => []
  | d :: ds => ',' :: (d.print ++ printItems ds)

/-- The members after the first, each behind its comma. -/
def printMembers : List (Option String × Document) → List Char
  | [] => []
  | (name, d) :: ms => ',' :: (printContent name ++ ':' :: (d.print ++ printMembers ms))

end

def toText (d : Document) : String := String.ofList d.print

end Document

end StreamOperator.Json
