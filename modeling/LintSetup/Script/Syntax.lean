import LintSetup.Text.Utf8

/-!
# Scripts

A small part of the language of the shell, in which the programs of a rehearsal are written:
commands with arguments and redirections, variables, and the usual ways to put commands together.

The texts of a script are bytes.  Each of them is written as the character with its number, so that
a script reads like a text and still counts and cuts bytes.

* `Str` --- a text of bytes;
* `Word` --- an argument as written, with the parts of it that stand for something else;
* `Command` --- a command.
-/

namespace LintSetup.Script

/-- A text of bytes. -/
abbrev Str := List Char

/-- Bytes as a text. -/
def ofBytes (bs : Text.Bytes) : Str := bs.map fun b => Char.ofNat b.toNat

/-- The bytes of a text. -/
def toBytes (s : Str) : Text.Bytes := s.map fun c => UInt8.ofNat c.toNat

/-- The bytes of a text of characters. -/
def ofString (s : String) : Str := ofBytes (Text.encode s)

/-- The characters that a text of bytes stands for. -/
def decoded (s : Str) : String := Text.decodeLossy (toBytes s)

/-- A part of a word: itself, or something that the value of a variable or a sum is put in place of.
What is quoted is neither cut into fields nor read as a pattern. -/
inductive Piece where
  | plain (text : Str) (quoted : Bool)
  | variable (name : Str) (quoted : Bool)
  | length (name : Str)
  | trimmed (name : Str) (front longest : Bool) (pattern : List Piece) (quoted : Bool)
  | orElse (name : Str) (unlessEmpty : Bool) (other : List Piece) (quoted : Bool)
  | arithmetic (text : Str) (quoted : Bool)

/-- An argument as written. -/
abbrev Word := List Piece

/-- Where a redirection leads a stream: from a file, to a file that becomes empty first, to the end
of a file, or to where another stream goes. -/
inductive Direction where
  | input
  | output
  | append
  | duplicate
  deriving DecidableEq, Repr

/-- A redirection of a stream. -/
structure Redirect where
  stream : Nat
  direction : Direction
  target : Word

/-- A command. -/
inductive Command where
  | simple (assigned : List (Str × Word)) (words : List Word) (redirects : List Redirect)
  | skip
  | sequence (first rest : Command)
  | both (left right : Command)
  | either (left right : Command)
  | negated (command : Command)
  | branch (condition body otherwise : Command)
  | repeated (condition body : Command)
  | each (name : Str) (words : Option (List Word)) (body : Command)
  | choice (word : Word) (cases : List (List Word × Command))
  | redirected (command : Command) (redirects : List Redirect)

end LintSetup.Script
