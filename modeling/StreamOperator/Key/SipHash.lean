/-! SipHash with one round for each word and three at the end, under the zero key. -/

namespace StreamOperator.SipHash

structure Lanes where
  v0 : UInt64
  v1 : UInt64
  v2 : UInt64
  v3 : UInt64

def rotate (x : UInt64) (n : UInt64) : UInt64 := (x <<< n) ||| (x >>> (64 - n))

namespace Lanes

def initial : Lanes :=
  ⟨0x736f6d6570736575, 0x646f72616e646f6d, 0x6c7967656e657261, 0x7465646279746573⟩

def round (s : Lanes) : Lanes :=
  let v0 := s.v0 + s.v1
  let v1 := rotate s.v1 13 ^^^ v0
  let v0 := rotate v0 32
  let v2 := s.v2 + s.v3
  let v3 := rotate s.v3 16 ^^^ v2
  let v0 := v0 + v3
  let v3 := rotate v3 21 ^^^ v0
  let v2 := v2 + v1
  let v1 := rotate v1 17 ^^^ v2
  let v2 := rotate v2 32
  ⟨v0, v1, v2, v3⟩

def absorb (s : Lanes) (word : UInt64) : Lanes :=
  let s := ({ s with v3 := s.v3 ^^^ word }).round
  { s with v0 := s.v0 ^^^ word }

def finish (s : Lanes) : UInt64 :=
  let s := ({ s with v2 := s.v2 ^^^ 0xff }).round.round.round
  s.v0 ^^^ s.v1 ^^^ s.v2 ^^^ s.v3

end Lanes

/-- Up to eight bytes as a word, the lowest byte first. -/
def word : List UInt8 → UInt64
  | [] => 0
  | b :: bs => b.toUInt64 ||| (word bs <<< 8)

/-- Absorbs full words, then the rest with the length in the highest byte. -/
def absorbAll (length : Nat) (s : Lanes) : List UInt8 → Lanes
  | a :: b :: c :: d :: e :: f :: g :: h :: rest =>
    absorbAll length (s.absorb (word [a, b, c, d, e, f, g, h])) rest
  | rest => s.absorb (word rest ||| (UInt64.ofNat (length % 256) <<< 56))

def hash (bytes : List UInt8) : UInt64 :=
  (absorbAll bytes.length .initial bytes).finish

def wordBytes (w : UInt64) : List UInt8 :=
  (List.range 8).map fun i => (w >>> UInt64.ofNat (8 * i)).toUInt8

end StreamOperator.SipHash
