import LintSetup.File.Tree
import LintSetup.Script.Expand

/-!
# What commands of a script do by themselves

The texts that a script prints and the conditions that it tests do not depend on anything but
arguments and files.

* `formatted` --- arguments put into a format, as often as it takes to use them up;
* `holds` --- whether a condition holds;
* `distribute` --- a line cut into the values of variables.
-/

namespace LintSetup.Script

/-- The octal digits at the start of a text, at most three. -/
def octalDigits (cs : Str) : Str := (cs.take 3).takeWhile fun c => '0' ≤ c && c ≤ '7'

/-- The byte that octal digits stand for. -/
def octal (ds : Str) : Char :=
  Char.ofNat (ds.foldl (fun n c => n * 8 + Text.digitValue c) 0 % 256)

/-- What a backslash stands for with the text after it, and how many characters of that it takes. -/
def escape (cs : Str) : Char × Nat :=
  match cs with
  | 'n' :: _ => ('\n', 1)
  | 't' :: _ => ('\t', 1)
  | 'r' :: _ => ('\r', 1)
  | 'a' :: _ => ('\x07', 1)
  | 'b' :: _ => ('\x08', 1)
  | 'f' :: _ => ('\x0c', 1)
  | 'v' :: _ => ('\x0b', 1)
  | '\\' :: _ => ('\\', 1)
  | '\x22' :: _ => ('\x22', 1)
  | cs =>
    let ds := octalDigits cs
    if ds.isEmpty then ('\\', 0) else (octal ds, ds.length)

/-- A text with its escapes replaced; `waiting` characters are part of an escape already. -/
def unescapedFrom : Nat → Str → Str
  | _, [] => []
  | waiting + 1, _ :: rest => unescapedFrom waiting rest
  | 0, c :: rest =>
    if c = '\\' then
      let (e, n) := escape rest
      e :: unescapedFrom n rest
    else c :: unescapedFrom 0 rest

/-- A text with its escapes replaced. -/
def unescaped (s : Str) : Str := unescapedFrom 0 s

/-- An argument as a format shows it. -/
def conversion (kind : Char) (arg : Str) : Str :=
  if kind = 's' then arg
  else if kind = 'b' then unescaped arg
  else if kind = 'd' then shown ((number? arg).getD 0)
  else if kind = 'c' then arg.take 1
  else ['%', kind]

/-- One pass over a format, with the arguments that are left; `waiting` characters are part of an
escape already. -/
def formatFrom : Nat → Str → List Str → Str × List Str
  | _, [], args => ([], args)
  | waiting + 1, _ :: rest, args => formatFrom waiting rest args
  | 0, ['%'], args => (['%'], args)
  | 0, c :: d :: rest, args =>
    if c = '%' then
      let (text, args) := if d = '%' then (['%'], args) else (conversion d (args.headD []), args.drop 1)
      let (more, args) := formatFrom 0 rest args
      (text ++ more, args)
    else if c = '\\' then
      let (e, n) := escape (d :: rest)
      let (more, args) := formatFrom n (d :: rest) args
      (e :: more, args)
    else
      let (more, args) := formatFrom 0 (d :: rest) args
      (c :: more, args)
  | 0, [c], args => ([c], args)

/-- A format used until no argument is left, but no more often than there are arguments. -/
def formattedTimes (format : Str) : Nat → List Str → Str
  | 0, _ => []
  | times + 1, args =>
    let (text, rest) := formatFrom 0 format args
    if rest.isEmpty || rest.length = args.length then text
    else text ++ formattedTimes format times rest

/-- Arguments put into a format. -/
def formatted (format : Str) (args : List Str) : Str :=
  formattedTimes format (args.length + 1) args

/-- Whether a condition on one text or file holds; `path` is the path that the text is. -/
def holdsOne (files : Node) (op : String) (arg : Str) (path : String) : Bool :=
  match op with
  | "-n" => !arg.isEmpty
  | "-z" => arg.isEmpty
  | "-f" => files.isFile path
  | "-d" => files.isDir path
  | "-e" => (files.lookup path).toOption.isSome
  | "-r" => (files.lookup path).toOption.isSome
  | "-s" => ((files.readBytes path).toOption.map (!·.isEmpty)).getD false
  | _ => false

/-- Whether a condition on two texts holds. -/
def holdsTwo (op : String) (a b : Str) : Bool :=
  let compare (f : Int → Int → Bool) : Bool := ((number? a).bind fun m => (number? b).map (f m)).getD false
  match op with
  | "=" => a == b
  | "!=" => a != b
  | "-eq" => compare fun m n => m == n
  | "-ne" => compare fun m n => m != n
  | "-lt" => compare fun m n => decide (m < n)
  | "-le" => compare fun m n => decide (m ≤ n)
  | "-gt" => compare fun m n => decide (n < m)
  | "-ge" => compare fun m n => decide (n ≤ m)
  | _ => false

/-- Whether a condition holds for files seen from a directory. -/
def holds (files : Node) (directory : String) : List Str → Bool
  | [] => false
  | [a] => !a.isEmpty
  | [op, a] =>
    if op = ['!'] then a.isEmpty
    else holdsOne files (decoded op) a (Path.join directory (decoded a))
  | [a, op, b] =>
    if a = ['!'] then !holdsOne files (decoded op) b (Path.join directory (decoded b))
    else holdsTwo (decoded op) a b
  | _ => false

/-- The values that a line gives to variables: each the next part between separators, and the last
one the rest. -/
def distribute (separators : Str) : List Str → Str → List (Str × Str)
  | [], _ => []
  | [name], line =>
    let rest := line.dropWhile separators.contains
    [(name, (rest.reverse.dropWhile separators.contains).reverse)]
  | name :: next :: names, line =>
    let rest := line.dropWhile separators.contains
    (name, rest.takeWhile (!separators.contains ·)) ::
      distribute separators (next :: names) (rest.dropWhile (!separators.contains ·))

end LintSetup.Script
