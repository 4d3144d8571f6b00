import Cadence.Config.Read
import Cadence.Files

/-!
# Configuration files

A configuration file has to be there, to be text and to hold a configuration; `LoadError` tells which
of these failed.
-/

namespace Cadence.Config

inductive LoadError
  /-- The file cannot be read. -/
  | file (path : String) (cause : FileError)
  /-- What it holds is no configuration. -/
  | content (cause : ReadError)

def LoadError.message : LoadError → String
  | file path cause => "failed to read config file " ++ path ++ ": " ++ cause.message
  | content _ => "failed to parse TOML"

def ofFile (read : FileReader) (path : String) : Except LoadError Config := do
  let text ← (read.text path).mapError (.file path)
  (ofToml text).mapError .content

end Cadence.Config
