import ApiContract.Calendar.Basic
import ApiContract.Text.Encoding

/-!
# Written dates and times

Dates and times in the basic and the extended form of ISO 8601: calendar dates (`2024-02-29`,
`20240229`), week dates (`2024-W09-4`, `2024W094`, the day being optional), clock times with optional
minutes, seconds and fraction, and an optional distance from universal time. Between date and time
any character may stand.

A text is read as bytes, and a zero byte ends it wherever it stands.
-/

namespace ApiContract.IsoText

/-- A written text: its bytes without end mark. -/
abbrev Bytes := List UInt8

private def code (c : Char) : UInt8 := UInt8.ofNat c.toNat

private def digit? (b : UInt8) : Option Nat :=
  if 0x30 ≤ b.toNat ∧ b.toNat ≤ 0x39 then some (b.toNat - 0x30) else none

private def isDigit (b : UInt8) : Bool := (digit? b).isSome

/-- The number of so many digits at the beginning, and what follows. -/
def takeDigits (count : Nat) (bs : Bytes) : Option (Nat × Bytes) := do
  let ds ← (bs.take count).mapM digit?
  if ds.length < count then none
  return (ds.foldl (10 * · + ·) 0, bs.drop count)

/-- The first byte, zero at the end of the text. -/
private def headByte (bs : Bytes) : UInt8 := bs.headD 0

/-- A date as written: its year, month and day, not yet checked against the calendar. -/
structure WrittenDate where
  year : Nat
  month : Nat
  day : Nat

/-- The date of a day number, if its year has four digits. -/
def dateOfOrdinal? (n : Int) : Option WrittenDate :=
  if n < 1 then none
  else
    let n := n.toNat
    let guess := (n - 1) / 365 + 1
    let year := ((List.range 30).map (guess - ·)).find? fun y =>
      0 < y && (Date.mk y 1 1).ordinal ≤ n
    year.bind fun y =>
      let month := ((List.range 12).map (12 - ·)).find? fun m => (Date.mk y m 1).ordinal ≤ n
      month.map fun m => ⟨y, m, n - (Date.mk y m 1).ordinal + 1⟩

/-- A week date as a calendar date. -/
def ofWeekDate? (year week day : Nat) : Option WrittenDate :=
  if year < 1 ∨ 9999 < year ∨ !Date.isWeekDate year week day then none
  else dateOfOrdinal? (Date.firstMonday year + ((week - 1) * 7 + (day - 1) : Nat))

/-- Reads a date from the beginning of `size` bytes. A week date has a day if any bytes are left for
it; bytes behind the day do not count. -/
def readDate? (size : Nat) (bs : Bytes) : Option WrittenDate := do
  let (year, rest) ← takeDigits 4 bs
  let extended := headByte rest == code '-'
  let rest := if extended then rest.drop 1 else rest
  let taken (rest : Bytes) : Nat := bs.length - rest.length
  if headByte rest == code 'W' then
    let (week, rest) ← takeDigits 2 (rest.drop 1)
    if taken rest < size then
      let rest ← if extended then
          if headByte rest == code '-' then some (rest.drop 1) else none
        else some rest
      let (day, _) ← takeDigits 1 rest
      ofWeekDate? year week day
    else ofWeekDate? year week 1
  else
    let (month, rest) ← takeDigits 2 rest
    let rest ← if extended then
        if headByte rest == code '-' then some (rest.drop 1) else none
      else some rest
    let (day, _) ← takeDigits 2 rest
    return ⟨year, month, day⟩

private def WrittenDate.isReal (d : WrittenDate) : Bool := (Date.make? d.year d.month d.day).isSome

/-- A time of day as written, and whether something is left behind it. -/
structure WrittenClock where
  hour : Nat
  minute : Nat := 0
  second : Nat := 0
  microsecond : Nat := 0
  leftover : Bool

private def fraction? (bs : Bytes) (size : Nat) : Option (Nat × Bool) := do
  let count := min size 6
  let (n, rest) ← takeDigits count bs
  let rest := rest.dropWhile isDigit
  return (n * Nat.pow 10 (6 - count), headByte rest != 0)

/-- Hours, minutes, seconds and fraction, of which `size` bytes may be taken; the bytes behind them
are looked at to see where a number ends. -/
def readClock? (bs : Bytes) (size : Nat) : Option WrittenClock := do
  let stop := fun (rest : Bytes) => size ≤ bs.length - rest.length
  let sizeLeft := fun (rest : Bytes) => size - (bs.length - rest.length)
  let isMark := fun (b : UInt8) => b == code '.' || b == code ','
  let (hour, rest) ← takeDigits 2 bs
  let c := headByte rest
  let colons := c == code ':'
  if stop rest || stop (rest.drop 1) then
    return { hour, leftover := c != 0 }
  if isMark c then
    let (microsecond, leftover) ← fraction? (rest.drop 1) (sizeLeft (rest.drop 1))
    return { hour, microsecond, leftover }
  let (minute, rest) ← takeDigits 2 (if colons then rest.drop 1 else rest)
  let c := headByte rest
  if stop rest || stop (rest.drop 1) then
    return { hour, minute, leftover := c != 0 }
  if isMark c then
    let (microsecond, leftover) ← fraction? (rest.drop 1) (sizeLeft (rest.drop 1))
    return { hour, minute, microsecond, leftover }
  if colons && c != code ':' then none
  let (second, rest) ← takeDigits 2 (if colons then rest.drop 1 else rest)
  let c := headByte rest
  if stop rest || stop (rest.drop 1) then
    return { hour, minute, second, leftover := c != 0 }
  let marked := isMark c || (colons && c == code ':')
  if colons && !marked then none
  let rest := if marked then rest.drop 1 else rest
  let (microsecond, leftover) ← fraction? rest (sizeLeft rest)
  return { hour, minute, second, microsecond, leftover }

private def isZoneMark (b : UInt8) : Bool := b == code '+' || b == code '-' || b == code 'Z'

private def WrittenClock.isReal (t : WrittenClock) : Bool :=
  t.hour < 24 && t.minute < 60 && t.second < 60

/-- Whether a text is a time of day, with an optional distance from universal time of less than a
day. -/
def isClock (bs : Bytes) : Bool :=
  let ahead := bs.takeWhile fun b => !isZoneMark b
  let zone := bs.drop ahead.length
  match readClock? bs ahead.length with
  | none => false
  | some t =>
    t.isReal &&
    match zone with
    | [] => !t.leftover
    | mark :: rest =>
      if mark == code 'Z' then headByte rest == 0
      else
        match readClock? rest rest.length with
        | none => false
        | some z =>
          let seconds := z.hour * 3600 + z.minute * 60 + z.second
          !z.leftover && (seconds < 86400)

/-- Whether a text is a date. -/
def isDate (s : String) : Bool :=
  let bs := Text.encodeUtf8 s
  (bs.length == 7 || bs.length == 8 || bs.length == 10) &&
    ((readDate? bs.length bs).map (·.isReal)).getD false

/-- Whether a text is a time of day, which may begin with `T`. -/
def isTime (s : String) : Bool :=
  match Text.encodeUtf8 s with
  | [] => false
  | b :: bs => isClock (if b == code 'T' then bs else b :: bs)

/-- The number of bytes of the date at the beginning of a date with a time. Where the form of the date
leaves a choice, times are known to have an even number of digits. -/
def dateSize (bs : Bytes) : Nat :=
  let byteAt (i : Nat) : UInt8 := bs.getD i 0
  if bs.length == 7 then 7
  else if byteAt 4 == code '-' then
    if byteAt 5 == code 'W' then
      if 8 < bs.length && byteAt 8 == code '-' then
        if 10 < bs.length && isDigit (byteAt 10) then 8 else 10
      else 8
    else 10
  else if byteAt 4 == code 'W' then
    let stop := 7 + ((bs.drop 7).takeWhile isDigit).length
    if stop < 9 then stop else if stop % 2 == 0 then 7 else 8
  else 8

/-- The number of bytes of a UTF-8 character that begins with this one. -/
private def charSize (b : UInt8) : Nat :=
  if b.toNat < 0x80 then 1
  else if b.toNat / 16 = 0xe then 3
  else if b.toNat / 16 = 0xf then 4
  else 2

/-- Whether a text is a date, alone or with one character and a time of day after it. -/
def isDateTime (s : String) : Bool :=
  let bs := Text.encodeUtf8 s
  if bs.length < 7 then false
  else
    let size := dateSize bs
    ((readDate? size bs).map (·.isReal)).getD false &&
    match bs.drop size with
    | [] => true
    | b :: rest => isClock ((b :: rest).drop (charSize b))

example : isDate "2024-02-29" = true := by decide +kernel
example : isDate "2023-W53-1" = false := by decide +kernel
example : isTime "12:00:00,5+05:30" = true := by decide +kernel
example : isDateTime "20230101T120000" = true := by decide +kernel
example : isDateTime "2023-01-01T24:00" = false := by decide +kernel

end ApiContract.IsoText
