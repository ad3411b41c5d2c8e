import ApiContract.Files
import ApiContract.Json.Reader
import ApiContract.Schema.Definition
import ApiContract.Text.LetterCase
import ApiContract.Yaml.Document

/-!
# Loading schemas

A definition may be given as text in one of two formats, or in a file whose suffix says the format.
-/

namespace ApiContract

/-- A format of definitions. -/
inductive DefinitionFormat where
  | json
  | yaml
  deriving DecidableEq

namespace DefinitionFormat

def ofName? : String → Option DefinitionFormat
  | "json" => some json
  | "yaml" => some yaml
  | _ => none

/-- The format of files with a suffix, without regard to case. -/
def ofSuffix? (suffix : String) : Option DefinitionFormat :=
  match Text.toLower suffix with
  | ".json" => some json
  | ".yaml" | ".yml" => some yaml
  | _ => none

/-- The value of a text. -/
def read (format : DefinitionFormat) (text : List Char) : Except Fault Value :=
  match format with
  | json =>
    match Json.readChars text with
    | .ok v => .ok v
    | .error (.at what place) =>
      .error (.refused (.jsonSyntax (what ++ ": " ++ Json.placeText text place)))
    | .error .digitLimit => .error .digitLimit
  | yaml =>
    match Yaml.readDocument text with
    | .error (.yaml _) => .error (.refused .yamlSyntax)
    | result => result

end DefinitionFormat

namespace Schema

/-- The schema that a text defines. -/
def ofText (format : DefinitionFormat) (text : List Char) : Except Fault Schema := do
  ofDefinition (← format.read text)

/-- The schema that a text in a format of that name defines. -/
def load (formatName : String) (text : String) : Except Fault Schema :=
  match DefinitionFormat.ofName? formatName with
  | some format => ofText format text.toList
  | none => .error (.refused (.unknownFormat formatName))

/-- The schema that a file defines. -/
def loadFile (files : Files) (path : String) : Except Fault Schema :=
  match DefinitionFormat.ofSuffix? (Files.suffix path) with
  | none => .error (.refused (.unknownExtension (Files.suffix path) (Files.normalize path)))
  | some format =>
    match files.read? path with
    | some text => ofText format text
    | none => .error (.fileMissing "Schema file not found: " (Files.normalize path))

end Schema

end ApiContract
