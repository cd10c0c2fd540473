import LintSetup.Config
import LintSetup.Json.Sorted
import LintSetup.Json.Text
import LintSetup.Yaml.Text

/-!
# Configuration files

A configuration is written as a module of JavaScript, as YAML or as JSON, always with the keys of
its objects in ascending order.  The text of a module may be mended by the linter; if that fails, or
if there is nothing to mend, it stays as it is.

* `FileFormat` --- the formats;
* `FileFormat.text` --- the text of a configuration;
* `mended` --- the text after an attempt to mend it.
-/

namespace LintSetup

/-- The formats of a configuration file. -/
inductive FileFormat where
  | javaScript
  | yaml
  | json
  deriving DecidableEq, Repr

namespace FileFormat

/-- A format as it is offered to the user. -/
def label : FileFormat → String
  | javaScript => "JavaScript"
  | yaml => "YAML"
  | json => "JSON"

/-- The end of the file's name. -/
def extension : FileFormat → String
  | javaScript => ".js"
  | yaml => ".yml"
  | json => ".json"

/-- A configuration as JSON. -/
def jsonText (c : Config) : String := c.toJson.sorted.indented

/-- The text of a configuration. -/
def text (c : Config) : FileFormat → String
  | javaScript => "module.exports = " ++ jsonText c ++ ";"
  | yaml => c.toJson.sorted.yaml
  | json => jsonText c

/-- Whether the linter mends files of a format. -/
def isMended : FileFormat → Bool
  | javaScript => true
  | yaml | json => false

end FileFormat

/-- A text after an attempt to mend it. -/
def mended {ε : Type} (text : String) : Except ε (Option String) → String
  | .ok (some better) => better
  | .ok none => text
  | .error _ => text

end LintSetup
