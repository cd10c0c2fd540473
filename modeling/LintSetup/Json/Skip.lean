import LintSetup.Json.Parse

/-!
# Reading the fields of a record from a text

A record can be read from a text without making a value of everything in it: a member that is none
of its fields is skipped.  What is skipped still has to be JSON.  But no value is made of it, so
it may be nested at any depth, its numbers may be beyond the largest double, and a surrogate in its
texts need not be one half of a pair.

* `Number.skip`, `Json.skipQuoted`, `Json.skipValue` --- the text after a number, after a text
  between quotes, and after a value;
* `Json.readFields` --- the members of an object that have one of several names;
* `Json.parseRecord?` --- a whole text, of whose members only those with the names are read.
-/

namespace LintSetup

open Text (isDigit hexValue?)

namespace Number

/-- The text after digits, of which there is at least one. -/
def skipSomeDigits (cs : List Char) : Option (List Char) :=
  if cs.head?.any isDigit then some (skipDigits cs).2 else none

/-- A text without the sign at its start. -/
def skipSign : List Char → List Char
  | '+' :: cs => cs
  | '-' :: cs => cs
  | cs => cs

/-- The text after an exponent, if one follows. -/
def skipExponent : List Char → Option (List Char)
  | [] => some []
  | c :: cs =>
    if c = 'e' || c = 'E' then skipSomeDigits (skipSign cs) else some (c :: cs)

/-- The text after what follows the whole part of a number. -/
def skipFraction : List Char → Option (List Char)
  | '.' :: cs => (skipSomeDigits cs).bind skipExponent
  | cs => skipExponent cs

/-- The text after a number without its sign. -/
def skipUnsigned : List Char → Option (List Char)
  | '0' :: cs => if cs.head?.any isDigit then none else skipFraction cs
  | cs => (skipSomeDigits cs).bind skipFraction

/-- The text after a number. -/
def skip : List Char → Option (List Char)
  | '-' :: cs => skipUnsigned cs
  | cs => skipUnsigned cs

end Number

namespace Json

/-- The text after the closing quote.  A numeric escape takes any four digits. -/
def skipQuoted : List Char → Option (List Char)
  | [] => none
  | '\x22' :: cs => some cs
  | '\\' :: 'u' :: h₁ :: h₂ :: h₃ :: h₄ :: cs =>
    if [h₁, h₂, h₃, h₄].all fun h => (hexValue? h).isSome then skipQuoted cs else none
  | '\\' :: e :: cs => if (shortEscape? e).isSome then skipQuoted cs else none
  | c :: cs => if c.toNat < 0x20 then none else skipQuoted cs

/-- The text after a fixed word. -/
def skipWord (word cs : List Char) : Option (List Char) :=
  if word.isPrefixOf cs then some (cs.drop word.length) else none

mutual

/-- The text after a value that follows optional space. -/
def skipValue : Nat → List Char → Option (List Char)
  | 0, _ => none
  | fuel + 1, cs =>
    match skipSpace cs with
    | [] => none
    | c :: cs =>
      if c = 'n' then skipWord ['u', 'l', 'l'] cs
      else if c = 't' then skipWord ['r', 'u', 'e'] cs
      else if c = 'f' then skipWord ['a', 'l', 's', 'e'] cs
      else if c = '\x22' then skipQuoted cs
      else if c = '[' then
        match skipSpace cs with
        | ']' :: rest => some rest
        | cs => skipItems fuel cs
      else if c = '\x7b' then
        match skipSpace cs with
        | '\x7d' :: rest => some rest
        | cs => skipMembers fuel cs
      else Number.skip (c :: cs)

/-- The text after the items of a list that is not empty, and its closing bracket. -/
def skipItems : Nat → List Char → Option (List Char)
  | 0, _ => none
  | fuel + 1, cs => do
    let cs ← skipValue fuel cs
    match skipSpace cs with
    | ',' :: cs => skipItems fuel cs
    | ']' :: rest => return rest
    | _ => none

/-- The text after the members of an object that is not empty, and its closing brace. -/
def skipMembers : Nat → List Char → Option (List Char)
  | 0, _ => none
  | fuel + 1, cs =>
    match skipSpace cs with
    | '\x22' :: cs => do
      let cs ← skipQuoted cs
      match skipSpace cs with
      | ':' :: cs => do
        let cs ← skipValue fuel cs
        match skipSpace cs with
        | ',' :: cs => skipMembers fuel cs
        | '\x7d' :: rest => return rest
        | _ => none
      | _ => none
    | _ => none

end

/-- Reads the value of a member with one of several names, and skips the value of any other. -/
def readField (names : List String) (key : String) (fuel depth : Nat) (cs : List Char) :
    Option (Members Json × List Char) :=
  if names.contains key then (readValue fuel depth cs).map fun (v, rest) => ([(key, v)], rest)
  else (skipValue fuel cs).map fun rest => ([], rest)

/-- Reads the members of an object that is not empty, and its closing brace.  Only those with one of
several names are kept. -/
def readFields (names : List String) : Nat → Nat → List Char → Option (Members Json × List Char)
  | 0, _, _ => none
  | fuel + 1, depth, cs =>
    match skipSpace cs with
    | '\x22' :: cs => do
      let (key, cs) ← readQuoted fuel cs
      match skipSpace cs with
      | ':' :: cs => do
        let (field, cs) ← readField names key fuel depth cs
        match skipSpace cs with
        | ',' :: cs => do
          let (fields, rest) ← readFields names fuel depth cs
          return (field ++ fields, rest)
        | '\x7d' :: rest => return (field, rest)
        | _ => none
      | _ => none
    | _ => none

/-- Reads a value, of an object only the members with one of several names. -/
def readRecord (names : List String) : Nat → Nat → List Char → Option (Json × List Char)
  | fuel + 1, depth + 1, cs =>
    match skipSpace cs with
    | '\x7b' :: cs =>
      match skipSpace cs with
      | '\x7d' :: rest => some (obj [], rest)
      | cs => (readFields names fuel depth cs).map fun (fields, rest) => (obj fields, rest)
    | _ => readValue (fuel + 1) (depth + 1) cs
  | fuel, depth, cs => readValue fuel depth cs

/-- The value of a whole text, members as written; an object has only the members with one of
several names. -/
def parseRecord? (names : List String) (depth : Nat) (s : String) : Option Json :=
  let cs := s.toList
  match readRecord names (2 * cs.length + 2) depth cs with
  | some (v, rest) => if (skipSpace rest).isEmpty then some v else none
  | none => none

end Json
end LintSetup
