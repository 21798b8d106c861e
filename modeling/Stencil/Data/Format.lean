import Stencil.Data.Json.Reader
import Stencil.Data.Toml.Reader
import Stencil.Data.Yaml.Reader
import Stencil.Files.FilePath

/-!
# Data formats

The format of a data file shows from the ending of its name, in any case of letters; a file without
one holds JSON.
-/

namespace Stencil

/-- The formats of data files. -/
inductive DataFormat where
  | json
  | yaml
  | toml
  deriving DecidableEq

namespace DataFormat

/-- The name of a format in reports. -/
def name : DataFormat → String
  | json => "JSON"
  | yaml => "YAML"
  | toml => "TOML"

/-- The format with the given file ending, in capital letters or not. -/
def ofEnding? (ending : String) : Option DataFormat :=
  let lower := ending.toLower
  if lower = "json" then some json
  else if lower = "yaml" ∨ lower = "yml" then some yaml
  else if lower = "toml" then some toml
  else none

/-- The format of a data file, or the ending that is not known. -/
def ofPath (path : String) : Except String DataFormat :=
  match (FilePath.ofText path).fileName?.bind FilePath.ending? with
  | none => .ok json
  | some ending =>
    match ofEnding? ending with
    | some format => .ok format
    | none => .error ending

/-- The data tree of a text in the format. -/
def read? : DataFormat → String → Option Datum
  | json => Json.read?
  | yaml => Yaml.read?
  | toml => Toml.read?

end DataFormat

end Stencil
