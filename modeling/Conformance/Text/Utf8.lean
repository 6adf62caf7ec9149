/-!
# Bytes and the text they spell

File names, environment values and compiler output are byte strings that need not be UTF-8.
`pieces` splits a byte string into the characters it spells and the broken pieces between them: a
broken piece is a longest run of bytes that starts a character and cannot be completed. Strict
decoding (`decode?`) refuses any broken piece; lossy decoding (`decodeLossy`) shows each one as a
single U+FFFD.
-/

namespace Conformance

abbrev Bytes := List UInt8

namespace Utf8

/-- A byte that continues a character. -/
def isTail (b : UInt8) : Bool := 0x80 ≤ b && b ≤ 0xBF

/-- What the byte after the first byte `a` of a longer character may be, and how many bytes follow
the first one. Bytes that start no longer character give `none`. -/
def lead? (a : UInt8) : Option (UInt8 × UInt8 × Nat) :=
  if 0xC2 ≤ a && a ≤ 0xDF then some (0x80, 0xBF, 1)
  else if a == 0xE0 then some (0xA0, 0xBF, 2)
  else if a == 0xED then some (0x80, 0x9F, 2)
  else if 0xE1 ≤ a && a ≤ 0xEF then some (0x80, 0xBF, 2)
  else if a == 0xF0 then some (0x90, 0xBF, 3)
  else if 0xF1 ≤ a && a ≤ 0xF3 then some (0x80, 0xBF, 3)
  else if a == 0xF4 then some (0x80, 0x8F, 3)
  else none

def payload (b : UInt8) : Nat := b.toNat % 64

def char2 (a b : UInt8) : Char :=
  Char.ofNat ((a.toNat % 32) * 64 + payload b)

def char3 (a b c : UInt8) : Char :=
  Char.ofNat ((a.toNat % 16) * 4096 + payload b * 64 + payload c)

def char4 (a b c d : UInt8) : Char :=
  Char.ofNat ((a.toNat % 8) * 262144 + payload b * 4096 + payload c * 64 + payload d)

inductive Piece where
  | char (c : Char)
  /-- Bytes that start a character and go no further, or start none. -/
  | broken (bs : Bytes)
deriving DecidableEq, Repr

def pieces : Bytes → List Piece
  | [] => []
  | a :: r =>
    if a < 0x80 then .char (Char.ofNat a.toNat) :: pieces r
    else match lead? a with
      | none => .broken [a] :: pieces r
      | some (lo, hi, n) =>
        match r with
        | [] => [.broken [a]]
        | b :: r₁ =>
          if lo ≤ b && b ≤ hi then
            if n == 1 then .char (char2 a b) :: pieces r₁
            else match r₁ with
              | [] => [.broken [a, b]]
              | c :: r₂ =>
                if isTail c then
                  if n == 2 then .char (char3 a b c) :: pieces r₂
                  else match r₂ with
                    | [] => [.broken [a, b, c]]
                    | d :: r₃ =>
                      if isTail d then .char (char4 a b c d) :: pieces r₃
                      else .broken [a, b, c] :: pieces (d :: r₃)
                else .broken [a, b] :: pieces (c :: r₂)
          else .broken [a] :: pieces (b :: r₁)

/-- The character shown for bytes that spell none. -/
def replacement : Char := '\uFFFD'

def Piece.char? : Piece → Option Char
  | .char c => some c
  | .broken _ => none

def Piece.shown : Piece → Char
  | .char c => c
  | .broken _ => replacement

/-- The text of a byte string, refused unless every byte belongs to a character. -/
def decode? (bs : Bytes) : Option String :=
  ((pieces bs).mapM Piece.char?).map String.ofList

/-- The text of a byte string, with U+FFFD for each broken piece. -/
def decodeLossy (bs : Bytes) : String :=
  String.ofList ((pieces bs).map Piece.shown)

def encodeChar (c : Char) : Bytes :=
  let v := c.toNat
  if v < 0x80 then [v.toUInt8]
  else if v < 0x800 then [(0xC0 + v / 64).toUInt8, (0x80 + v % 64).toUInt8]
  else if v < 0x10000 then
    [(0xE0 + v / 4096).toUInt8, (0x80 + v / 64 % 64).toUInt8, (0x80 + v % 64).toUInt8]
  else
    [(0xF0 + v / 262144).toUInt8, (0x80 + v / 4096 % 64).toUInt8,
      (0x80 + v / 64 % 64).toUInt8, (0x80 + v % 64).toUInt8]

def encode (s : String) : Bytes := s.toList.flatMap encodeChar

end Utf8

end Conformance
