import StreamOperator.Json.Document
import StreamOperator.Text.Hex

/-! Reading JSON text. Blank is space, tab, line feed and carriage return; a number has no
leading zero and a digit on each side of its point; a string holds no bare control character;
no comma stands before a closing bracket; and only blank may follow the document. -/

namespace StreamOperator.Json

def isBlank (c : Char) : Bool := c = ' ' || c = '\t' || c = '\n' || c = '\r'

def skipBlank (cs : List Char) : List Char := cs.dropWhile isBlank

def hexQuad? (a b c d : Char) : Option Nat := do
  let a ← Text.hexValue? a
  let b ← Text.hexValue? b
  let c ← Text.hexValue? c
  let d ← Text.hexValue? d
  some (((a * 16 + b) * 16 + c) * 16 + d)

/-- A piece of a string: a character, or a 16-bit unit written by number. -/
inductive Piece
  | char (c : Char)
  | unit (n : Nat)
deriving DecidableEq

namespace Piece

def isHighSurrogate (n : Nat) : Bool := 0xD800 ≤ n && n < 0xDC00

def isLowSurrogate (n : Nat) : Bool := 0xDC00 ≤ n && n < 0xE000

/-- Joins pieces into text, a high surrogate with the low one right behind it. Any other
surrogate leaves no text. -/
def join : List Piece → Option (List Char)
  | [] => some []
  | .char c :: ps => (join ps).map (c :: ·)
  | .unit h :: .unit l :: ps =>
    if isHighSurrogate h then
      if isLowSurrogate l then
        (join ps).map (Char.ofNat (0x10000 + (h - 0xD800) * 0x400 + (l - 0xDC00)) :: ·)
      else none
    else if isLowSurrogate h then none
    else (join (.unit l :: ps)).map (Char.ofNat h :: ·)
  | .unit n :: ps =>
    if isHighSurrogate n || isLowSurrogate n then none
    else (join ps).map (Char.ofNat n :: ·)

end Piece

/-- The character that a one-letter escape stands for. -/
def unescape? (c : Char) : Option Char :=
  if c = '"' ∨ c = '\\' ∨ c = '/' then some c
  else if c = 'b' then some '\x08'
  else if c = 'f' then some '\x0c'
  else if c = 'n' then some '\n'
  else if c = 'r' then some '\r'
  else if c = 't' then some '\t'
  else none

/-- Reads the pieces of a string up to its closing quote; the opening one is already read. -/
def readPieces : List Char → Option (List Piece × List Char)
  | [] => none
  | '"' :: r => some ([], r)
  | '\\' :: 'u' :: a :: b :: c :: d :: r => do
    let unit ← hexQuad? a b c d
    let (ps, r) ← readPieces r
    some (.unit unit :: ps, r)
  | '\\' :: e :: r => do
    let char ← unescape? e
    let (ps, r) ← readPieces r
    some (.char char :: ps, r)
  | c :: r =>
    if c = '\\' ∨ c.toNat < 0x20 then none
    else do
      let (ps, r) ← readPieces r
      some (.char c :: ps, r)

def readText (cs : List Char) : Option (Option String × List Char) :=
  (readPieces cs).map fun (ps, r) => ((Piece.join ps).map String.ofList, r)

def readFraction (cs : List Char) : Option (List Char × List Char) :=
  match cs with
  | '.' :: r =>
    match r.span Char.isDigit with
    | ([], _) => none
    | (digits, r) => some (digits, r)
  | _ => some ([], cs)

/-- The digits of an exponent, behind its sign. -/
def readPower (negative : Bool) (cs : List Char) : Option (Option Int × List Char) :=
  match cs.span Char.isDigit with
  | ([], _) => none
  | (digits, r) =>
    let n : Int := Nat.ofDigitChars 10 digits 0
    some (some (if negative then -n else n), r)

def readExponent (cs : List Char) : Option (Option Int × List Char) :=
  match cs with
  | c :: r =>
    if c = 'e' ∨ c = 'E' then
      match r with
      | '-' :: r => readPower true r
      | '+' :: r => readPower false r
      | _ => readPower false r
    else some (none, cs)
  | [] => some (none, [])

/-- Reads a numeral behind its sign. -/
def readUnsigned (negative : Bool) (cs : List Char) : Option (Numeral × List Char) :=
  match cs.span Char.isDigit with
  | ([], _) => none
  | ('0' :: _ :: _, _) => none
  | (digits, r) => do
    let (fraction, r) ← readFraction r
    let (exponent, r) ← readExponent r
    some (⟨negative, Nat.ofDigitChars 10 digits 0, fraction, exponent⟩, r)

def readNumeral (cs : List Char) : Option (Numeral × List Char) :=
  match cs with
  | '-' :: r => readUnsigned true r
  | _ => readUnsigned false cs

mutual

/-- Reads one document, blank in front of it allowed. -/
def readDocument : Nat → List Char → Option (Document × List Char)
  | 0, _ => none
  | fuel + 1, cs =>
    match skipBlank cs with
    | 'n' :: 'u' :: 'l' :: 'l' :: r => some (.null, r)
    | 't' :: 'r' :: 'u' :: 'e' :: r => some (.boolean true, r)
    | 'f' :: 'a' :: 'l' :: 's' :: 'e' :: r => some (.boolean false, r)
    | '"' :: r => (readText r).map fun (content, r) => (.text content, r)
    | '[' :: r =>
      match skipBlank r with
      | ']' :: r => some (.array [], r)
      | r => (readItems fuel r).map fun (ds, r) => (.array ds, r)
    | '{' :: r =>
      match skipBlank r with
      | '}' :: r => some (.object [], r)
      | r => (readMembers fuel r).map fun (ms, r) => (.object ms, r)
    | r => (readNumeral r).map fun (n, r) => (.number n, r)

def readItems : Nat → List Char → Option (List Document × List Char)
  | 0, _ => none
  | fuel + 1, cs => do
    let (d, r) ← readDocument fuel cs
    match skipBlank r with
    | ']' :: r => some ([d], r)
    | ',' :: r =>
      let (ds, r) ← readItems fuel r
      some (d :: ds, r)
    | _ => none

def readMembers : Nat → List Char → Option (List (Option String × Document) × List Char)
  | 0, _ => none
  | fuel + 1, cs =>
    match skipBlank cs with
    | '"' :: r => do
      let (name, r) ← readText r
      match skipBlank r with
      | ':' :: r =>
        let (d, r) ← readDocument fuel r
        match skipBlank r with
        | '}' :: r => some ([(name, d)], r)
        | ',' :: r =>
          let (ms, r) ← readMembers fuel r
          some ((name, d) :: ms, r)
        | _ => none
      | _ => none
    | _ => none

end

namespace Document

/-- Every bracket and every item takes at least one character, so twice the length is fuel
enough. -/
def ofChars? (cs : List Char) : Option Document :=
  match readDocument (2 * cs.length + 2) cs with
  | some (d, r) => if skipBlank r = [] then some d else none
  | none => none

def ofText? (s : String) : Option Document := ofChars? s.toList

/-- Bytes that are not UTF-8 hold no document. -/
def ofBytes? (bytes : Bytes) : Option Document := (Text.ofUtf8? bytes).bind ofText?

end Document

end StreamOperator.Json
