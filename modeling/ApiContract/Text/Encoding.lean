/-!
# Text encodings

Bytes to characters and back: UTF-8 with or without tolerance for ill-formed input, UTF-16 and UTF-32
in both byte orders, and Latin-1. A tolerant reader puts one replacement character in the place of
each longest ill-formed beginning of a sequence. An isolated half of a surrogate pair is read as the
replacement character.
-/

namespace ApiContract.Text

/-- The character that stands for what cannot be read. -/
def replacementChar : Char := '\ufffd'

/-- The number of bytes of a sequence that starts with this byte, and the range of the byte after it;
`none` for a byte that starts no sequence. -/
def sequenceShape? (lead : Nat) : Option (Nat × Nat × Nat) :=
  if lead < 0x80 then some (1, 0, 0)
  else if 0xc2 ≤ lead ∧ lead ≤ 0xdf then some (2, 0x80, 0xbf)
  else if lead = 0xe0 then some (3, 0xa0, 0xbf)
  else if lead = 0xed then some (3, 0x80, 0x9f)
  else if 0xe1 ≤ lead ∧ lead ≤ 0xef then some (3, 0x80, 0xbf)
  else if lead = 0xf0 then some (4, 0x90, 0xbf)
  else if 0xf1 ≤ lead ∧ lead ≤ 0xf3 then some (4, 0x80, 0xbf)
  else if lead = 0xf4 then some (4, 0x80, 0x8f)
  else none

private def isContinuation (b : UInt8) : Bool := 0x80 ≤ b.toNat && b.toNat ≤ 0xbf

private def joinBits (lead : Nat) (rest : List UInt8) : Nat :=
  let bits := match rest.length with
    | 0 => lead
    | 1 => lead % 0x20
    | 2 => lead % 0x10
    | _ => lead % 0x08
  rest.foldl (fun n b => n * 64 + b.toNat % 64) bits

/-- The first character of a byte sequence and the number of bytes it takes; `none` in the first place
if they are ill-formed, with the length of the longest ill-formed beginning. -/
def firstChar (lead : UInt8) (rest : List UInt8) : Option Char × Nat :=
  match sequenceShape? lead.toNat with
  | none => (none, 1)
  | some (size, low, high) =>
    match rest with
    | [] => if size = 1 then (some (Char.ofNat lead.toNat), 1) else (none, 1)
    | second :: more =>
      if size = 1 then (some (Char.ofNat lead.toNat), 1)
      else if second.toNat < low ∨ high < second.toNat then (none, 1)
      else
        let tail := (more.take (size - 2)).takeWhile isContinuation
        if tail.length = size - 2 then
          (some (Char.ofNat (joinBits lead.toNat (second :: tail))), size)
        else (none, 2 + tail.length)

/-- Reads UTF-8 with replacement characters for what is ill-formed. The counter says how many of the
next bytes belong to a character already read. -/
private def lossyFrom : Nat → List UInt8 → List Char
  | _, [] => []
  | skip + 1, _ :: bs => lossyFrom skip bs
  | 0, b :: bs =>
    let (c, size) := firstChar b bs
    c.getD replacementChar :: lossyFrom (size - 1) bs

/-- UTF-8 with replacement characters in the place of what is ill-formed. -/
def decodeUtf8Lossy (bs : List UInt8) : List Char := lossyFrom 0 bs

private def strictFrom : Nat → List UInt8 → Option (List Char)
  | _, [] => some []
  | skip + 1, _ :: bs => strictFrom skip bs
  | 0, b :: bs =>
    match firstChar b bs with
    | (some c, size) => (strictFrom (size - 1) bs).map (c :: ·)
    | (none, _) => none

/-- UTF-8, refused if it is ill-formed. -/
def decodeUtf8? (bs : List UInt8) : Option (List Char) := strictFrom 0 bs

/-- The UTF-8 form of a character. -/
def encodeUtf8Char (c : Char) : List UInt8 :=
  let n := c.toNat
  let unit (m : Nat) : UInt8 := UInt8.ofNat m
  if n < 0x80 then [unit n]
  else if n < 0x800 then [unit (0xc0 + n / 64), unit (0x80 + n % 64)]
  else if n < 0x10000 then
    [unit (0xe0 + n / 4096), unit (0x80 + n / 64 % 64), unit (0x80 + n % 64)]
  else
    [unit (0xf0 + n / 262144), unit (0x80 + n / 4096 % 64), unit (0x80 + n / 64 % 64),
      unit (0x80 + n % 64)]

/-- The UTF-8 form of a text. -/
def encodeUtf8 (s : String) : List UInt8 := s.toList.flatMap encodeUtf8Char

/-- Each byte as the character of its number. -/
def decodeLatin1 (bs : List UInt8) : List Char := bs.map fun b => Char.ofNat b.toNat

/-- The bytes of a text of characters below 256, `none` for another text. -/
def encodeLatin1? (cs : List Char) : Option (List UInt8) :=
  cs.mapM fun c => if c.toNat < 256 then some (UInt8.ofNat c.toNat) else none

/-- The order of the bytes of a unit. -/
inductive ByteOrder where
  | big
  | little
  deriving DecidableEq

private def units16 (order : ByteOrder) : List UInt8 → Option (List Nat)
  | [] => some []
  | [_] => none
  | a :: b :: bs =>
    let unit := match order with
      | .big => a.toNat * 256 + b.toNat
      | .little => b.toNat * 256 + a.toNat
    (units16 order bs).map (unit :: ·)

private def joinSurrogates : List Nat → List Char
  | [] => []
  | [u] => [if 0xd800 ≤ u ∧ u ≤ 0xdfff then replacementChar else Char.ofNat u]
  | u :: v :: us =>
    if 0xd800 ≤ u ∧ u ≤ 0xdbff ∧ 0xdc00 ≤ v ∧ v ≤ 0xdfff then
      Char.ofNat (0x10000 + (u - 0xd800) * 1024 + (v - 0xdc00)) :: joinSurrogates us
    else
      (if 0xd800 ≤ u ∧ u ≤ 0xdfff then replacementChar else Char.ofNat u) :: joinSurrogates (v :: us)

/-- UTF-16 without a byte order mark. -/
def decodeUtf16? (order : ByteOrder) (bs : List UInt8) : Option (List Char) :=
  (units16 order bs).map joinSurrogates

/-- UTF-32 without a byte order mark. -/
def decodeUtf32? (order : ByteOrder) : List UInt8 → Option (List Char)
  | [] => some []
  | a :: b :: c :: d :: bs =>
    let n := match order with
      | .big => ((a.toNat * 256 + b.toNat) * 256 + c.toNat) * 256 + d.toNat
      | .little => ((d.toNat * 256 + c.toNat) * 256 + b.toNat) * 256 + a.toNat
    if 0x110000 ≤ n then none
    else
      (decodeUtf32? order bs).map
        ((if 0xd800 ≤ n ∧ n ≤ 0xdfff then replacementChar else Char.ofNat n) :: ·)
  | _ => none

example : decodeUtf8Lossy [0xe2, 0x82, 0x61] = [replacementChar, 'a'] := by decide
example : decodeUtf8? [0xc3, 0xa9] = some ['é'] := by decide
example : encodeUtf8Char '€' = [0xe2, 0x82, 0xac] := by decide

end ApiContract.Text
