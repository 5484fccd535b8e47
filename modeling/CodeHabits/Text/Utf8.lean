/-!
# `CodeHabits.Text.Utf8`: text in bytes

`decode` reads bytes as UTF-8. Where bytes begin no character, the longest
beginning of one counts as a single replacement character.
-/

set_option autoImplicit false

namespace CodeHabits.Text

/-- The character that stands for bytes that are none. -/
def replacement : Char :=
  Char.ofNat 0xfffd

/-- Whether a byte continues a character. -/
def isContinuationByte (b : UInt8) : Bool :=
  0x80 ≤ b && b ≤ 0xbf

/-- Whether a byte may come second after a given first byte: overlong forms,
surrogates and numbers beyond the last character are excluded. -/
def isSecondByte (first b : UInt8) : Bool :=
  if first == 0xe0 then 0xa0 ≤ b && b ≤ 0xbf
  else if first == 0xed then 0x80 ≤ b && b ≤ 0x9f
  else if first == 0xf0 then 0x90 ≤ b && b ≤ 0xbf
  else if first == 0xf4 then 0x80 ≤ b && b ≤ 0x8f
  else isContinuationByte b

/-- The low six bits of a byte. -/
def payload (b : UInt8) : Nat :=
  b.toNat % 64

/-- Joins what is read with the rest; `none` is a replacement character. -/
def decodeParts : List UInt8 → List (Option Char)
  | [] => []
  | a :: rest =>
    if a < 0x80 then some (Char.ofNat a.toNat) :: decodeParts rest
    else if 0xc2 ≤ a && a ≤ 0xdf then
      match rest with
      | b :: rest' =>
        if isContinuationByte b then
          some (Char.ofNat (a.toNat % 32 * 64 + payload b)) :: decodeParts rest'
        else none :: decodeParts (b :: rest')
      | [] => [none]
    else if 0xe0 ≤ a && a ≤ 0xef then
      match rest with
      | b :: c :: rest' =>
        if !isSecondByte a b then none :: decodeParts (b :: c :: rest')
        else if !isContinuationByte c then none :: decodeParts (c :: rest')
        else
          some (Char.ofNat (a.toNat % 16 * 4096 + payload b * 64 + payload c))
            :: decodeParts rest'
      | [b] => if isSecondByte a b then [none] else none :: decodeParts [b]
      | [] => [none]
    else if 0xf0 ≤ a && a ≤ 0xf4 then
      match rest with
      | b :: c :: d :: rest' =>
        if !isSecondByte a b then none :: decodeParts (b :: c :: d :: rest')
        else if !isContinuationByte c then none :: decodeParts (c :: d :: rest')
        else if !isContinuationByte d then none :: decodeParts (d :: rest')
        else
          some (Char.ofNat
              (a.toNat % 8 * 262144 + payload b * 4096 + payload c * 64 + payload d))
            :: decodeParts rest'
      | [b, c] =>
        if !isSecondByte a b then none :: decodeParts [b, c]
        else if !isContinuationByte c then none :: decodeParts [c]
        else [none]
      | [b] => if isSecondByte a b then [none] else none :: decodeParts [b]
      | [] => [none]
    else none :: decodeParts rest

/-- The characters of bytes. -/
def decode (bytes : List UInt8) : List Char :=
  (decodeParts bytes).map fun c => c.getD replacement

/-- The characters of bytes that are all of them characters. -/
def decode? (bytes : List UInt8) : Option (List Char) :=
  (decodeParts bytes).mapM id

/-- The bytes of a text. -/
def encode (s : String) : List UInt8 :=
  s.toUTF8.toList

end CodeHabits.Text
