/-!
# `CodeHabits.Digest.Sha1`: the SHA-1 digest

Pattern ids are the first digits of a SHA-1 digest. The message is padded
to whole blocks of 64 bytes; each block is stretched to 80 words that stir a
state of five words.
-/

set_option autoImplicit false

namespace CodeHabits.Digest

/-- The five words of the state. -/
structure State where
  a : UInt32
  b : UInt32
  c : UInt32
  d : UInt32
  e : UInt32

/-- The state before the first block. -/
def State.start : State :=
  ⟨0x67452301, 0xefcdab89, 0x98badcfe, 0x10325476, 0xc3d2e1f0⟩

/-- Rotation to the left. -/
def rotate (x : UInt32) (n : UInt32) : UInt32 :=
  (x <<< n) ||| (x >>> (32 - n))

/-- A number as bytes, the highest first. -/
def bigEndian : Nat → Nat → List UInt8
  | 0, _ => []
  | count + 1, n => UInt8.ofNat (n / Nat.pow 256 count) :: bigEndian count n

/-- A one bit, zeros up to eight bytes short of a whole block, and the
length in bits. -/
def padding (length : Nat) : List UInt8 :=
  0x80 :: List.replicate ((119 - length % 64) % 64) 0 ++ bigEndian 8 (8 * length)

/-- Bytes joined into words. -/
def words : List UInt8 → List UInt32
  | a :: b :: c :: d :: rest =>
    (a.toUInt32 <<< 24 ||| b.toUInt32 <<< 16 ||| c.toUInt32 <<< 8 ||| d.toUInt32) :: words rest
  | _ => []

/-- The words from 16 to 79 of a block, each made of four earlier ones. -/
def stretch (block : Array UInt32) : Array UInt32 :=
  (List.range 64).foldl (fun w i =>
    w.push (rotate (w.getD (i + 13) 0 ^^^ w.getD (i + 8) 0 ^^^ w.getD (i + 2) 0 ^^^ w.getD i 0) 1))
    block

/-- The function and the constant of a round. -/
def round (s : State) (i : Nat) : UInt32 :=
  if i < 20 then ((s.b &&& s.c) ||| (~~~s.b &&& s.d)) + 0x5a827999
  else if i < 40 then (s.b ^^^ s.c ^^^ s.d) + 0x6ed9eba1
  else if i < 60 then ((s.b &&& s.c) ||| (s.b &&& s.d) ||| (s.c &&& s.d)) + 0x8f1bbcdc
  else (s.b ^^^ s.c ^^^ s.d) + 0xca62c1d6

/-- Stirs one block into the state. -/
def State.mix (start : State) (block : List UInt32) : State :=
  let w := stretch block.toArray
  let last := (List.range 80).foldl (fun s i =>
    ⟨rotate s.a 5 + round s i + s.e + w.getD i 0, s.a, rotate s.b 30, s.c, s.d⟩) start
  ⟨start.a + last.a, start.b + last.b, start.c + last.c, start.d + last.d, start.e + last.e⟩

/-- Stirs in so many blocks of sixteen words. -/
def mixBlocks : Nat → State → List UInt32 → State
  | 0, s, _ => s
  | count + 1, s, ws => mixBlocks count (s.mix (ws.take 16)) (ws.drop 16)

/-- A word in eight hexadecimal digits. -/
def hexWord (x : UInt32) : List Char :=
  let ds := Nat.toDigits 16 x.toNat
  List.replicate (8 - ds.length) '0' ++ ds

/-- The forty hexadecimal digits of the digest. -/
def sha1Hex (message : List UInt8) : List Char :=
  let padded := message ++ padding message.length
  let s := mixBlocks (padded.length / 64) .start (words padded)
  [s.a, s.b, s.c, s.d, s.e].flatMap hexWord

end CodeHabits.Digest
