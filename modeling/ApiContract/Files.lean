import ApiContract.Text.WordCharacter

/-!
# Files

The text files that definitions and settings are read from, by their paths. A path is written without
empty steps and without steps that stay in place; reading a file turns every line break into a line
feed.
-/

namespace ApiContract

/-- Text files under their paths. -/
structure Files where
  texts : List (String × String) := []

namespace Files

/-- The steps of a path. -/
private def steps (path : String) : List (List Char) :=
  (path.toList.splitOn '/').filter fun s => !s.isEmpty && s != ['.']

/-- The standard spelling of a path. -/
def normalize (path : String) : String :=
  let body := "/".intercalate ((steps path).map String.ofList)
  let slashes := (path.toList.takeWhile (· == '/')).length
  let root := if slashes = 0 then "" else if slashes = 2 then "//" else "/"
  if root.isEmpty && body.isEmpty then "." else root ++ body

/-- The end of a path's last step from its last point on. A point at the start or the end of the step
does not count. -/
def suffix (path : String) : String :=
  match (steps path).getLast? with
  | none => ""
  | some name =>
    let after := name.reverse.takeWhile (· != '.')
    if after.isEmpty || name.length ≤ after.length + 1 then ""
    else String.ofList ('.' :: after.reverse)

/-- A text with every line break turned into a line feed. -/
def joinBreaks : List Char → List Char
  | [] => []
  | '\r' :: '\n' :: cs => '\n' :: joinBreaks cs
  | '\r' :: cs => '\n' :: joinBreaks cs
  | c :: cs => c :: joinBreaks cs

/-- The text of a file, `none` if there is no file. -/
def read? (files : Files) (path : String) : Option (List Char) :=
  (files.texts.find? fun f => normalize f.1 == normalize path).map fun f => joinBreaks f.2.toList

/-- Whether a path leads to a directory. -/
def isDirectory (files : Files) (path : String) : Bool :=
  let p := normalize path
  p == "." || p == "/" || files.texts.any fun f => (p ++ "/").isPrefixOf (normalize f.1)

/-- Whether the directory that a path leads into is there. -/
def hasParent (files : Files) (path : String) : Bool :=
  match (steps path).dropLast with
  | [] => true
  | parents =>
    let root := if path.toList.head? == some '/' then "/" else ""
    files.isDirectory (root ++ "/".intercalate (parents.map String.ofList))

/-- Puts a text into a file. -/
def write (files : Files) (path text : String) : Files :=
  let p := normalize path
  ⟨(files.texts.filter fun f => normalize f.1 != p) ++ [(p, text)]⟩

end Files

end ApiContract
