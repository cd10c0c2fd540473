/-!
# White space

The characters that count as white space when a text is trimmed or cut into words: the ones with
the Unicode property `White_Space`.  The zero-width space and the byte order mark are not among
them.

* `isBlank` --- the class;
* `trim`, `trimStart`, `trimEnd` --- a text without the blanks around it;
* `words` --- the maximal runs without blanks;
* `pieces`, `lines` --- a text cut at a character, and at the ends of its lines;
* `afterStart?` --- what follows a beginning.
-/

namespace LintSetup.Text

/-- Whether a character has the Unicode property `White_Space`. -/
def isBlank (c : Char) : Bool :=
  let n := c.toNat
  (9 ≤ n && n ≤ 13) || n == 0x20 || n == 0x85 || n == 0xA0 || n == 0x1680 ||
    (0x2000 ≤ n && n ≤ 0x200A) || n == 0x2028 || n == 0x2029 || n == 0x202F || n == 0x205F ||
    n == 0x3000

/-- A text without the blanks at its start. -/
def trimStart (cs : List Char) : List Char := cs.dropWhile isBlank

/-- A text without the blanks at its end. -/
def trimEnd (cs : List Char) : List Char := (cs.reverse.dropWhile isBlank).reverse

/-- A text without the blanks around it. -/
def trim (s : String) : String := String.ofList (trimEnd (trimStart s.toList))

/-- The maximal runs of characters outside a class, in order; `run` is the run being read,
backwards. -/
def runs (sep : Char → Bool) (run : List Char) : List Char → List (List Char)
  | [] => if run.isEmpty then [] else [run.reverse]
  | c :: cs =>
    if sep c then
      if run.isEmpty then runs sep [] cs else run.reverse :: runs sep [] cs
    else runs sep (c :: run) cs

/-- The words of a text: its maximal runs without blanks. -/
def words (s : String) : List String := (runs isBlank [] s.toList).map String.ofList

/-- A text cut at every occurrence of a character; a text without it is one piece. -/
def cutAt (sep : Char) : List Char → List (List Char)
  | [] => [[]]
  | c :: cs =>
    if c = sep then [] :: cutAt sep cs
    else
      match cutAt sep cs with
      | [] => [[c]]
      | piece :: pieces => (c :: piece) :: pieces

@[simp] theorem cutAt_nil (sep : Char) : cutAt sep [] = [[]] := rfl

/-- There is always a first piece. -/
theorem cutAt_ne_nil (sep : Char) (cs : List Char) : cutAt sep cs ≠ [] := by
  cases cs with
  | nil => simp
  | cons c cs =>
    simp only [cutAt]
    split
    · simp
    · split <;> simp

/-- The pieces of a text between the occurrences of a character. -/
def pieces (sep : Char) (s : String) : List String := (cutAt sep s.toList).map String.ofList

/-- The lines of a text.  A line ends at a line feed; a carriage return before that line feed is
not part of the line, and an empty last line does not count. -/
def lines (s : String) : List String :=
  let cut := cutAt '\n' s.toList
  let closed := cut.dropLast.map fun line =>
    if line.getLast? = some '\r' then line.dropLast else line
  let last := cut.getLast?.getD []
  (closed ++ (if last.isEmpty then [] else [last])).map String.ofList

/-- What follows a given beginning of a text. -/
def afterStart? (start s : String) : Option String :=
  (start.toList.isPrefixOf? s.toList).map String.ofList

/-- Whether a text has a given beginning. -/
def hasStart (start s : String) : Bool := (afterStart? start s).isSome

end LintSetup.Text
