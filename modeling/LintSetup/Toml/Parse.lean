import LintSetup.Toml.Scalar

/-!
# Reading a settings document

A document is a sequence of lines: a header, a key with a value, or nothing; a comment may end any
of them.  A value that is a list may go on over several lines, with comments; an inline table may
not.

Reading is over the characters of the text.  Every step consumes a character or ends, so the length
of the text bounds the number of steps; lists and inline tables may be nested `maxDepth` deep.

* `Toml.readValue` --- a value and the rest;
* `Toml.parse?` --- a document.
-/

namespace LintSetup.Toml

/-- How deep lists and inline tables may be nested. -/
def maxDepth : Nat := 80

/-- A text without the spaces and tabs at its start. -/
def skipBlanks (cs : List Char) : List Char := cs.dropWhile fun c => c == ' ' || c == '\t'

/-- A text without the comment at its start, if there is one; a comment goes to the end of its line.
-/
def skipComment : List Char → Option (List Char)
  | '#' :: rest =>
    let rest := rest.dropWhile isPlain
    match rest with
    | [] => some []
    | '\n' :: _ => some rest
    | '\r' :: '\n' :: _ => some rest
    | _ => none
  | cs => some cs

/-- What follows the end of a line: spaces and tabs, a comment, and a line break or the end of the
text. -/
def endLine (cs : List Char) : Option (List Char) :=
  match skipComment (skipBlanks cs) with
  | some [] => some []
  | some ('\n' :: rest) => some rest
  | some ('\r' :: '\n' :: rest) => some rest
  | _ => none

/-- A text without the blanks, line breaks and comments at its start. -/
def skipLines : Nat → List Char → Option (List Char)
  | 0, cs => some cs
  | fuel + 1, cs =>
    match skipBlanks cs with
    | '\n' :: rest => skipLines fuel rest
    | '\r' :: '\n' :: rest => skipLines fuel rest
    | '#' :: rest => (skipComment ('#' :: rest)).bind (skipLines fuel)
    | rest => some rest

/-- Whether a character may stand in a key that has no quotes. -/
def isKeyChar (c : Char) : Bool := c.isAlphanum || c == '_' || c == '-'

/-- A part of a key, and the rest. -/
def readKeyPart (cs : List Char) : Option (String × List Char) :=
  match cs with
  | '\x22' :: _ => readString false cs
  | '\x27' :: _ => readString false cs
  | _ =>
    let part := cs.takeWhile isKeyChar
    if part.isEmpty then none else some (String.ofList part, cs.dropWhile isKeyChar)

/-- A key, whose parts are separated by dots, and the rest without blanks. -/
def readKey : Nat → List Char → Option (List String × List Char)
  | 0, _ => none
  | fuel + 1, cs =>
    (readKeyPart (skipBlanks cs)).bind fun (part, rest) =>
      match skipBlanks rest with
      | '.' :: rest => (readKey fuel rest).map fun (parts, rest) => (part :: parts, rest)
      | rest => some ([part], rest)

mutual

/-- A value, and the rest.  Each call has less fuel than the one that made it, and every list or
inline table has less depth than the one around it. -/
def readValue (depth fuel : Nat) (cs : List Char) : Option (Toml × List Char) :=
  match fuel with
  | 0 => none
  | fuel + 1 =>
    match cs with
    | '\x22' :: _ => (readString true cs).map fun (s, rest) => (text s, rest)
    | '\x27' :: _ => (readString true cs).map fun (s, rest) => (text s, rest)
    | '[' :: rest =>
      if depth = 0 then none
      else (readItems (depth - 1) fuel rest).map fun (items, rest) => (list items, rest)
    | '\x7b' :: rest =>
      if depth = 0 then none
      else
        match skipBlanks rest with
        | '\x7d' :: rest => some (closed [], rest)
        | rest => (readPairs (depth - 1) fuel [] rest).map fun (members, rest) => (closed members, rest)
    | _ => readWord cs
termination_by fuel

/-- The items of a list, up to its closing bracket. -/
def readItems (depth fuel : Nat) (cs : List Char) : Option (List Toml × List Char) :=
  match fuel with
  | 0 => none
  | fuel + 1 =>
    (skipLines cs.length cs).bind fun cs =>
      match cs with
      | ']' :: rest => some ([], rest)
      | cs =>
        (readValue depth fuel cs).bind fun (v, rest) =>
          (skipLines rest.length rest).bind fun rest =>
            match rest with
            | ',' :: rest => (readItems depth fuel rest).map fun (vs, rest) => (v :: vs, rest)
            | ']' :: rest => some ([v], rest)
            | _ => none
termination_by fuel

/-- The members of an inline table after those that were read before, up to its closing brace. -/
def readPairs (depth fuel : Nat) (members : Members Toml) (cs : List Char) :
    Option (Members Toml × List Char) :=
  match fuel with
  | 0 => none
  | fuel + 1 =>
    (readKey (cs.length + 1) cs).bind fun (key, rest) =>
      (after '=' rest).bind fun rest =>
        (readValue depth fuel (skipBlanks rest)).bind fun (v, rest) =>
          (define? v (key.length == 1) key members).bind fun members =>
            match skipBlanks rest with
            | ',' :: rest => readPairs depth fuel members rest
            | '\x7d' :: rest => some (members, rest)
            | _ => none
termination_by fuel

end

/-- What a line says. -/
inductive Line where
  | blank
  | header (path : List String)
  | listHeader (path : List String)
  | pair (key : List String) (value : Toml)

/-- A line, and the lines after it. -/
def readLine (cs : List Char) : Option (Line × List Char) :=
  let found : Option (Line × List Char) :=
    match skipBlanks cs with
    | [] => some (.blank, [])
    | '\n' :: rest => some (.blank, '\n' :: rest)
    | '\r' :: rest => some (.blank, '\r' :: rest)
    | '#' :: rest => some (.blank, '#' :: rest)
    | '[' :: '[' :: rest =>
      (readKey (rest.length + 1) rest).bind fun (path, rest) =>
        ((after ']' rest).bind (after ']')).map (.listHeader path, ·)
    | '[' :: rest =>
      (readKey (rest.length + 1) rest).bind fun (path, rest) =>
        (after ']' rest).map (.header path, ·)
    | rest =>
      (readKey (rest.length + 1) rest).bind fun (key, rest) =>
        (after '=' rest).bind fun rest =>
          (readValue maxDepth (2 * rest.length + 2) (skipBlanks rest)).map fun (v, rest) =>
            (.pair key v, rest)
  found.bind fun (line, rest) => (endLine rest).map (line, ·)

/-- The document that lines make of a table; `here` is the path of the table that keys go to. -/
def readLines : Nat → List String → Members Toml → List Char → Option (Members Toml)
  | 0, _, _, _ => none
  | fuel + 1, here, root, cs =>
    if cs.isEmpty then some root
    else
      (readLine cs).bind fun (line, rest) =>
        match line with
        | .blank => readLines fuel here root rest
        | .header path => (open? path root).bind (readLines fuel path · rest)
        | .listHeader path => (append? path root).bind (readLines fuel path · rest)
        | .pair key v =>
          (descend (define? v (key.length == 1) key) here root).bind (readLines fuel here · rest)

/-- The table that a text is.  A byte order mark at its start does not count. -/
def parse? (s : String) : Option (Members Toml) :=
  let cs := s.toList
  let cs := if cs.head? = some '\uFEFF' then cs.drop 1 else cs
  readLines (cs.length + 1) [] [] cs

end LintSetup.Toml
