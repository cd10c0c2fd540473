import LintSetup.Json.Sorted
import LintSetup.Yaml.Scalar

/-!
# Values as block documents

An object is written with one member a line and its nested collections two spaces further in; a list
has its items behind dashes, and a list that is the value of a member has its dashes right below the
key.  Empty collections stay on the line.  The first line of a collection inside a list stands
behind the dash.

A key that is longer than 128 bytes or that has a line break stands behind a question mark, and its
value on a line of its own behind a colon.

* `valueChars` --- the text of a value that stands at an indentation;
* `Json.yaml` --- a document.
-/

namespace LintSetup
namespace Yaml

/-- The layout of numbers: as in the text of a value, but an exponent has no plus sign. -/
def numberLayout : NumberLayout := ⟨16, 4, false⟩

/-- The length in bytes up to which a key stands on the line of its value. -/
def maxKeyBytes : Nat := 128

/-- Whether a key can stand on the line of its value. -/
def isSimpleKey (key : String) : Bool :=
  !key.toList.any isBreak && (Text.encode key).length ≤ maxKeyBytes

/-- Whether a text ends with a line break. -/
def endsLine (cs : List Char) : Bool := (cs.getLast?.map isBreak).getD false

/-- A new line with an indentation after a text, which may have ended its last line itself. -/
def freshLine (indent : Nat) (text : List Char) : List Char :=
  (if endsLine text then [] else ['\n']) ++ spaces indent

/-- Texts on lines of their own with an indentation; the first one stands where it is. -/
def stacked (indent : Nat) : List (List Char) → List Char
  | [] => []
  | [text] => text
  | text :: next :: rest => text ++ freshLine indent text ++ stacked indent (next :: rest)

mutual

/-- The text of a value whose further lines have an indentation. -/
def valueChars (indent : Nat) : Json → List Char
  | .null => ['n', 'u', 'l', 'l']
  | .bool true => ['t', 'r', 'u', 'e']
  | .bool false => ['f', 'a', 'l', 's', 'e']
  | .num n => n.charsIn numberLayout
  | .str s => scalarChars indent s
  | .arr [] => ['[', ']']
  | .arr (v :: rest) => stacked indent (itemTexts indent (v :: rest))
  | .obj [] => ['\x7b', '\x7d']
  | .obj (m :: rest) => stacked indent (memberTexts indent (m :: rest))

/-- The items of a list behind their dashes. -/
def itemTexts (indent : Nat) : List Json → List (List Char)
  | [] => []
  | v :: rest => ('-' :: ' ' :: valueChars (indent + 2) v) :: itemTexts indent rest

/-- The members of an object. -/
def memberTexts (indent : Nat) : List (String × Json) → List (List Char)
  | [] => []
  | (k, v) :: rest =>
    let key := scalarChars (indent + 2) k
    let member :=
      if isSimpleKey k then
        key ++ ':' ::
          match v with
          | .arr (w :: ws) => '\n' :: spaces indent ++ valueChars indent (.arr (w :: ws))
          | .obj (m :: ms) => '\n' :: spaces (indent + 2) ++ valueChars (indent + 2) (.obj (m :: ms))
          | v => ' ' :: valueChars (indent + 2) v
      else
        let key := '?' :: ' ' :: key
        key ++ freshLine indent key ++ ':' :: ' ' :: valueChars (indent + 2) v
    member :: memberTexts indent rest

end

end Yaml

/-- The block document of a value. -/
def Json.yaml (v : Json) : String :=
  let text := Yaml.valueChars 0 v
  String.ofList (text ++ if Yaml.endsLine text then [] else ['\n'])

end LintSetup
