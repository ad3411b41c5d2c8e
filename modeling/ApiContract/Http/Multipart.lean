import ApiContract.Fault
import ApiContract.Http.HeaderOptions
import ApiContract.Text.Encoding

/-!
# Multipart form bodies

A body of parts, each with headers and data, between boundary lines. A field takes its name from the
content disposition of its part. What follows the last boundary is ignored, and so is a part that is
not finished; a malformed boundary or header makes the whole body malformed.
-/

namespace ApiContract.Http.Multipart

abbrev Bytes := List UInt8

/-- Why a body is malformed. -/
inductive Defect where
  | noBoundary
  | malformed
  | unnamedField
  deriving DecidableEq

def Defect.message : Defect → String
  | .noBoundary => "Missing boundary in multipart."
  | .malformed => "Invalid multipart data."
  | .unnamedField => "The Content-Disposition header field \"name\" must be provided."

private def cr : UInt8 := 13
private def lf : UInt8 := 10
private def hyphen : UInt8 := 45
private def colon : UInt8 := 58
private def space : UInt8 := 32

private def asText (bs : Bytes) : String := String.ofList (Text.decodeLatin1 bs)

/-- What is left behind the given bytes, which must come next; nothing where the body ends before. -/
private def expect : Bytes → Bytes → Except Defect (Option Bytes)
  | [], bs => .ok (some bs)
  | _ :: _, [] => .ok none
  | w :: ws, b :: bs => if w == b then expect ws bs else .error .malformed

/-- Whether a character may stand in a header name. -/
private def isNameByte (b : UInt8) : Bool :=
  let c := Char.ofNat b.toNat
  c.isAlphanum || "!#$%&'*+-.^_`|~".contains c

/-- The headers of a part, up to the empty line, and what follows it; nothing where the body ends
before. The name so far is given in reverse. -/
private def readHeaders :
    Nat → Bytes → Bytes → Except Defect (Option (List (String × String) × Bytes))
  | 0, _, _ => .ok none
  | _ + 1, _, [] => .ok none
  | fuel + 1, name, b :: bs => do
    if b == cr && name.isEmpty then
      match ← expect [lf] bs with
      | some rest => return some ([], rest)
      | none => return none
    else if b == colon then
      if name.isEmpty then throw .malformed
      let value := (bs.dropWhile (· == space)).takeWhile (· != cr)
      let after := (bs.dropWhile (· == space)).drop value.length
      match ← expect [cr, lf] after with
      | none => return none
      | some rest =>
        match ← readHeaders fuel [] rest with
        | none => return none
        | some (headers, rest) => return some ((asText name.reverse, asText value) :: headers, rest)
    else if isNameByte b then readHeaders fuel (b :: name) bs
    else throw .malformed

/-- What ends the data of a part. -/
private inductive Ending where
  | next
  | last

/-- The data of a part up to the boundary that ends it. -/
private def readData (boundary : Bytes) : Bytes → Option (Bytes × Ending × Bytes)
  | [] => none
  | b :: bs =>
    let all := b :: bs
    let after := all.drop boundary.length
    if boundary.isPrefixOf all && [cr, lf].isPrefixOf after then some ([], .next, after.drop 2)
    else if boundary.isPrefixOf all && [hyphen, hyphen].isPrefixOf after then
      some ([], .last, after.drop 2)
    else (readData boundary bs).map fun r => (b :: r.1, r.2)

/-- The name of the field that a part with these headers holds. -/
private def fieldName (decode : Bytes → String) (headers : List (String × String)) :
    Except Defect String :=
  let disposition := (headers.reverse.find? fun h => Text.toLower h.1 == "content-disposition").map
    fun h => HeaderValue.read h.2
  match disposition.bind (·.option? "name") with
  | some name => .ok (decode ((Text.encodeLatin1? name.toList).getD []))
  | none => .error .unnamedField

/-- The fields of the parts from the headers of one on. -/
private def readParts (decode : Bytes → String) (boundary : Bytes) :
    Nat → Bytes → Except Defect (List (String × String))
  | 0, _ => .ok []
  | fuel + 1, bs => do
    match ← readHeaders (bs.length + 1) [] bs with
    | none => return []
    | some (headers, rest) =>
      let name ← fieldName decode headers
      match readData boundary rest with
      | none => return []
      | some (data, .last, _) => return [(name, decode data)]
      | some (data, .next, rest) =>
        return (name, decode data) :: (← readParts decode boundary fuel rest)

/-- The text of a field in the character set of the body; bytes that are no text of it are taken as
characters one by one. -/
def decodeField (charset : String) (bs : Bytes) : String :=
  let strict := match Text.toLower charset with
    | "utf-8" | "utf8" | "utf_8" | "u8" => Text.decodeUtf8? bs
    | "ascii" | "us-ascii" | "us_ascii" =>
      if bs.all (· < 128) then some (Text.decodeLatin1 bs) else none
    | "utf-16-le" | "utf-16le" => Text.decodeUtf16? .little bs
    | "utf-16-be" | "utf-16be" => Text.decodeUtf16? .big bs
    | _ => none
  String.ofList (strict.getD (Text.decodeLatin1 bs))

/-- The fields of a body, in order. -/
def readFields (contentType : HeaderValue) (body : Bytes) :
    Except Defect (List (String × String)) := do
  match contentType.option? "boundary" with
  | none => throw .noBoundary
  | some b =>
    let dashed := [hyphen, hyphen] ++ (Text.encodeLatin1? b.toList).getD []
    let decode := decodeField ((contentType.option? "charset").getD "utf-8")
    match ← expect dashed (body.dropWhile fun b => b == cr || b == lf) with
    | none => return []
    | some rest =>
      if rest.head? == some hyphen then
        let _ ← expect [hyphen, hyphen] rest
        return []
      else
        match ← expect [cr, lf] rest with
        | none => return []
        | some rest => readParts decode ([cr, lf] ++ dashed) (rest.length + 1) rest

end ApiContract.Http.Multipart
