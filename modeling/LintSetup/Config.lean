import LintSetup.Json.Basic
import LintSetup.Text.Blank

/-!
# Configurations

A configuration of the linter is a JSON object whose members keep their order.  Only the parts that
matter here have functions of their own: the `rules` section, the lists under `plugins` and
`extends`, and values at a path of keys.

* `withRules` --- the configuration with another `rules` section, in the place of the old one;
* `setPath` --- a value at a dotted path; what is missing on the way is made, and what is no object
  on the way is replaced;
* `readPath` --- the value at a path of keys;
* `isOff` --- whether a setting turns its rule off.
-/

namespace LintSetup

/-- A configuration. -/
structure Config where
  members : Members Json
  deriving Inhabited

namespace Config

/-- The configuration without any member. -/
def empty : Config := ⟨[]⟩

/-- A configuration from a value; only an object is one. -/
def ofJson? (v : Json) : Option Config := v.members?.map Config.mk

/-- A configuration as a value. -/
def toJson (c : Config) : Json := .obj c.members

/-- The value of a key. -/
def get? (c : Config) (key : String) : Option Json := Members.get? c.members key

/-- The configuration in which a key has a value. -/
def insert (c : Config) (key : String) (value : Json) : Config := ⟨Members.set c.members key value⟩

/-- The configuration without a key. -/
def erase (c : Config) (key : String) : Config := ⟨Members.erase c.members key⟩

/-- The `rules` section, if it is an object. -/
def rules? (c : Config) : Option (Members Json) := (c.get? "rules").bind Json.members?

/-- The configuration with another `rules` section. -/
def withRules (c : Config) (rules : Members Json) : Config := c.insert "rules" (.obj rules)

/-- Of two `rules` sections, the second one stays. -/
@[simp] theorem withRules_withRules (c : Config) (rules later : Members Json) :
    (c.withRules rules).withRules later = c.withRules later := by
  simp [withRules, insert]

/-- The members under a key, none if there is no object. -/
def within (members : Members Json) (key : String) : Members Json :=
  ((Members.get? members key).bind Json.members?).getD []

/-- Members with a value at a path of keys. -/
def setKeys (value : Json) : List String → Members Json → Members Json
  | [], members => members
  | [key], members => Members.set members key value
  | key :: next :: rest, members =>
    Members.set members key (.obj (setKeys value (next :: rest) (within members key)))

/-- The configuration with a value at a path of keys that are separated by dots. -/
def setPath (c : Config) (path : String) (value : Json) : Config :=
  ⟨setKeys value (Text.pieces '.' path) c.members⟩

/-- The value at a path of keys. -/
def readKeys : List String → Json → Option Json
  | [], v => some v
  | key :: rest, v => (v.get? key).bind (readKeys rest)

/-- The value at a path of keys that are separated by dots. -/
def readPath (c : Config) (path : String) : Option Json :=
  readKeys (Text.pieces '.' path) c.toJson

/-- The texts of a value: itself, or the texts among its items. -/
def texts : Option Json → List String
  | some (.str s) => [s]
  | some (.arr items) => items.filterMap Json.str?
  | _ => []

/-- The names under `plugins`. -/
def plugins (c : Config) : List String := texts (c.get? "plugins")

/-- The names under `extends`. -/
def bases (c : Config) : List String := texts (c.get? "extends")

/-- Whether a severity, which is not a list, is the one that turns a rule off. -/
def isOffSeverity : Json → Bool
  | .str s => s == "off"
  | .num n => n == .whole 0
  | _ => false

/-- Whether a setting turns its rule off: `"off"`, `0`, or a list that starts with one of them. -/
def isOff : Json → Bool
  | .arr (first :: _) => isOffSeverity first
  | .arr [] => false
  | v => isOffSeverity v

end Config
end LintSetup
