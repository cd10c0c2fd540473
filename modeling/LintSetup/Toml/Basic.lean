import LintSetup.Members

/-!
# Tables of settings

A settings document is a table of tables.  A table knows how it came about, since that decides what
may still be added to it: a header opens a table once; a header for something inside it implies a
table, which a header of its own may open later; and a dotted key makes a table that only dotted
keys go on with.  An inline table is closed.

* `Toml` --- the values;
* `Toml.descend`, `Toml.open?`, `Toml.append?`, `Toml.define?` --- what headers and keys do to a
  table;
* `Toml.field?` --- a field of a record, by name or by position.
-/

namespace LintSetup

/-- How a table came about. -/
inductive Toml.Origin where
  | header
  | implied
  | dotted
  deriving DecidableEq, Repr

/-- A value.  A number with a point, a date and a time are all `other`, since no setting is one. -/
inductive Toml where
  | text (s : String)
  | whole (n : Int)
  | truth (b : Bool)
  | other
  | list (items : List Toml)
  | closed (members : List (String × Toml))
  | table (origin : Toml.Origin) (members : List (String × Toml))
  | tables (each : List (List (String × Toml)))
  deriving Inhabited

namespace Toml

/-- Members changed by `f` at the end of a path of keys of a header.  Tables on the way are implied
if they do not exist, and of several tables under one key the last one is meant. -/
def descend (f : Members Toml → Option (Members Toml)) :
    List String → Members Toml → Option (Members Toml)
  | [], members => f members
  | key :: rest, members =>
    match Members.get? members key with
    | none => (descend f rest []).map fun m => Members.set members key (table .implied m)
    | some (table origin m) =>
      (descend f rest m).map fun m => Members.set members key (table origin m)
    | some (tables each) =>
      (descend f rest (each.getLast?.getD [])).map fun m =>
        Members.set members key (tables (each.dropLast ++ [m]))
    | some _ => none

/-- Opens the table under a key: a new one, or one that is only implied so far. -/
def openKey? (key : String) (members : Members Toml) : Option (Members Toml) :=
  match Members.get? members key with
  | none => some (Members.set members key (table .header []))
  | some (table .implied m) => some (Members.set members key (table .header m))
  | some _ => none

/-- Adds a table to those under a key. -/
def appendKey? (key : String) (members : Members Toml) : Option (Members Toml) :=
  match Members.get? members key with
  | none => some (Members.set members key (tables [[]]))
  | some (tables each) => some (Members.set members key (tables (each ++ [[]])))
  | some _ => none

/-- What the header of a table does. -/
def open? (path : List String) (root : Members Toml) : Option (Members Toml) :=
  (path.getLast?).bind fun key => descend (openKey? key) path.dropLast root

/-- What the header of one of several tables does. -/
def append? (path : List String) (root : Members Toml) : Option (Members Toml) :=
  (path.getLast?).bind fun key => descend (appendKey? key) path.dropLast root

/-- Gives the last key of a dotted key a value.  The table that it stands in has to be one of a
dotted key, unless there is no dot; `inside` says whether it is. -/
def define? (value : Toml) (inside : Bool) : List String → Members Toml → Option (Members Toml)
  | [], _ => none
  | [key], members =>
    if inside && !Members.has members key then some (Members.set members key value) else none
  | key :: next :: rest, members =>
    match Members.get? members key with
    | none =>
      (define? value true (next :: rest) []).map fun m => Members.set members key (table .dotted m)
    | some (table .header _) => none
    | some (table origin m) =>
      (define? value (origin == .dotted) (next :: rest) m).map fun m =>
        Members.set members key (table origin m)
    | some (tables each) =>
      (define? value false (next :: rest) (each.getLast?.getD [])).map fun m =>
        Members.set members key (tables (each.dropLast ++ [m]))
    | some _ => none

/-- The fields of a record with given names: the members of a table, or the items of a list in the
order of the names. -/
def fields? (names : List String) : Toml → Option (Members Toml)
  | closed members => some members
  | table _ members => some members
  | list items => some (names.zip items)
  | tables each => some (names.zip (each.map (table .header)))
  | _ => none

/-- A field that may be missing: `standard` is its value then.  A value that `read` does not accept
is refused. -/
def field? {α : Type} (fields : Members Toml) (name : String) (standard : α)
    (read : Toml → Option α) : Option α :=
  match Members.get? fields name with
  | none => some standard
  | some v => read v

/-- The value as a text. -/
def text? : Toml → Option String
  | text s => some s
  | _ => none

/-- The value as a whole number that is not negative. -/
def nat? : Toml → Option Nat
  | whole n => if 0 ≤ n then some n.toNat else none
  | _ => none

/-- The value as a truth value. -/
def truth? : Toml → Option Bool
  | truth b => some b
  | _ => none

end Toml
end LintSetup
