import LintSetup.Script.Syntax

/-!
# Reading scripts

A script is read from left to right.  Every step either takes a character or goes one level deeper
into the grammar, of which there are only a few, so a multiple of the length of the script bounds
the number of steps.

* `readWord` --- a word;
* `readList` --- commands one after another;
* `parse?` --- a whole script.
-/

namespace LintSetup.Script

/-- Reads from the front of a text, or fails. -/
abbrev Reader := StateT Str Option

/-- The next character. -/
def peek : Reader (Option Char) := return (← get).head?

/-- Passes over characters. -/
def drop (n : Nat) : Reader Unit := modify (List.drop n)

/-- Whether the rest starts with a text. -/
def sees (s : String) : Reader Bool := return s.toList.isPrefixOf (← get)

/-- Passes over a text, if the rest starts with it. -/
def take? (s : String) : Reader Bool := do
  if ← sees s then
    drop s.length
    return true
  else return false

/-- Whether a character ends a word that is not quoted. -/
def isMeta (c : Char) : Bool := [' ', '\t', '\n', ';', '&', '|', '<', '>', '(', ')'].contains c

/-- Whether a character may stand in the name of a variable. -/
def isNameChar (c : Char) : Bool := c.isAlphanum || c == '_'

/-- Whether a text is the name of a variable that can be assigned. -/
def isName (s : Str) : Bool :=
  s.all isNameChar && (s.head?.map (!·.isDigit)).getD false

/-- The rest after blanks, and after a comment if one follows them. -/
def afterBlanks (s : Str) : Str :=
  let rest := s.dropWhile fun c => c == ' ' || c == '\t'
  if rest.head? == some '#' then rest.dropWhile (· != '\n') else rest

/-- Passes over blanks and a comment. -/
def skipBlanks : Reader Unit := modify afterBlanks

/-- Passes over blanks, comments and ends of lines. -/
def skipLines : Nat → Reader Unit
  | 0 => pure ()
  | fuel + 1 => do
    skipBlanks
    if ← take? "\n" then skipLines fuel

/-- Takes the characters up to one that has to come, and passes over that one. -/
def takeUntil (stop : Char) : Reader Str := do
  let all ← get
  let taken := all.takeWhile (· != stop)
  if taken.length = all.length then failure
  set (all.drop (taken.length + 1))
  return taken

/-- Takes a sum up to its two closing brackets. -/
def takeSum : Nat → Nat → Reader Str
  | 0, _ => failure
  | fuel + 1, depth => do
    if depth = 0 then
      if ← take? "))" then return []
    match ← get with
    | [] => failure
    | c :: rest =>
      set rest
      let depth := if c = '(' then depth + 1 else if c = ')' then depth - 1 else depth
      return c :: (← takeSum fuel depth)

/-- The signs that are names of variables. -/
def specialNames : Str := ['@', '*', '#', '?', '$']

/-- Takes the name of a variable; there may be none. -/
def takeName : Reader Str := do
  let all ← get
  let name :=
    match all with
    | c :: _ => if c.isDigit || specialNames.contains c then [c] else all.takeWhile isNameChar
    | [] => []
  drop name.length
  return name

mutual

/-- Reads the pieces of a word, up to a character that ends it. -/
def readPieces (stop : Char → Bool) : Nat → Reader Word
  | 0 => failure
  | fuel + 1 => do
    match ← get with
    | [] => return []
    | c :: rest =>
      if stop c then return []
      set rest
      if c = '\x27' then
        let text ← takeUntil '\x27'
        return .plain text true :: (← readPieces stop fuel)
      else if c = '\x22' then
        let inner ← readQuoted fuel
        return .plain [] true :: inner ++ (← readPieces stop fuel)
      else if c = '$' then
        let piece ← readDollar false fuel
        return piece :: (← readPieces stop fuel)
      else if c = '\\' then
        let escaped := rest.take 1
        drop 1
        let more ← readPieces stop fuel
        return if escaped = ['\n'] then more else .plain escaped true :: more
      else return .plain [c] false :: (← readPieces stop fuel)

/-- Reads what stands between double quotes, and passes over the second one. -/
def readQuoted : Nat → Reader Word
  | 0 => failure
  | fuel + 1 => do
    match ← get with
    | [] => failure
    | '\x22' :: rest =>
      set rest
      return []
    | '\\' :: c :: rest =>
      set rest
      let text := if ['$', '\x60', '\x22', '\\'].contains c then [c] else ['\\', c]
      let more ← readQuoted fuel
      return if c = '\n' then more else .plain text true :: more
    | '$' :: rest =>
      set rest
      let piece ← readDollar true fuel
      return piece :: (← readQuoted fuel)
    | c :: rest =>
      set rest
      return .plain [c] true :: (← readQuoted fuel)

/-- Reads what a dollar sign stands for with what follows it. -/
def readDollar (quoted : Bool) : Nat → Reader Piece
  | 0 => failure
  | fuel + 1 => do
    if ← take? "((" then return .arithmetic (← takeSum fuel 0) quoted
    else if ← take? "\x7b" then
      if (← sees "#") && !(← sees "#\x7d") then
        drop 1
        let name ← takeName
        let _ ← takeUntil '\x7d'
        return .length name
      let name ← takeName
      if ← take? "##" then return .trimmed name true true (← readInner fuel) quoted
      else if ← take? "#" then return .trimmed name true false (← readInner fuel) quoted
      else if ← take? "%%" then return .trimmed name false true (← readInner fuel) quoted
      else if ← take? "%" then return .trimmed name false false (← readInner fuel) quoted
      else if ← take? ":-" then return .orElse name true (← readInner fuel) quoted
      else if ← take? "-" then return .orElse name false (← readInner fuel) quoted
      else if ← take? "\x7d" then return .variable name quoted
      else failure
    else
      let name ← takeName
      return if name.isEmpty then .plain ['$'] quoted else .variable name quoted

/-- Reads a word up to a closing brace, and passes over that. -/
def readInner : Nat → Reader Word
  | 0 => failure
  | fuel + 1 => do
    let inner ← readPieces (· == '\x7d') fuel
    if ← take? "\x7d" then return inner else failure

end

/-- A number of steps that is enough for the rest. -/
def enough : Reader Nat := return 20 * (← get).length + 20

/-- Reads a word, if one begins here. -/
def readWord : Reader (Option Word) := do
  skipBlanks
  match ← get with
  | [] => return none
  | c :: _ => if isMeta c then return none else return some (← readPieces isMeta (← enough))

/-- The characters up to the next one that ends a word. -/
def nextBare : Reader String := do
  skipBlanks
  return String.ofList ((← get).takeWhile (!isMeta ·))

/-- Passes over ends of lines and a keyword that has to come. -/
def expect (word : String) : Reader Unit := do
  skipLines (← enough)
  if (← nextBare) = word then drop word.length else failure

/-- The direction that signs stand for, and how many signs. -/
def direction? : Str → Option (Direction × Nat)
  | '>' :: '>' :: _ => some (.append, 2)
  | '>' :: '&' :: _ => some (.duplicate, 2)
  | '>' :: _ => some (.output, 1)
  | '<' :: _ => some (.input, 1)
  | _ => none

/-- Reads a redirection, if one begins here. -/
def readRedirect : Reader (Option Redirect) := do
  skipBlanks
  let all ← get
  let digits := (all.take 1).takeWhile Char.isDigit
  match direction? (all.drop digits.length) with
  | none => return none
  | some (direction, n) =>
    drop (digits.length + n)
    match ← readWord with
    | none => failure
    | some target =>
      let standard := if direction = .input then 0 else 1
      let stream := (digits.head?.map fun d => d.toNat - 48).getD standard
      return some { stream, direction, target }

/-- The character that a piece is, if it is one that is not quoted. -/
def bareChar? : Piece → Option Char
  | .plain [c] false => some c
  | _ => none

/-- The name and the value of an assignment, if a word is one. -/
def assignment? (w : Word) : Option (Str × Word) :=
  let name := (w.map bareChar?).takeWhile fun c => c.any (· != '=')
  let name := name.filterMap id
  if isName name && (w[name.length]?.bind bareChar?) == some '=' then
    some (name, w.drop (name.length + 1))
  else none

/-- Reads the rest of a simple command. -/
def readSimple (assigned : List (Str × Word)) (words : List Word) (redirects : List Redirect) :
    Nat → Reader Command
  | 0 => failure
  | fuel + 1 => do
    match ← readRedirect with
    | some r => readSimple assigned words (redirects ++ [r]) fuel
    | none =>
      match ← readWord with
      | none => return .simple assigned words redirects
      | some w =>
        match (if words.isEmpty then assignment? w else none) with
        | some a => readSimple (assigned ++ [a]) words redirects fuel
        | none => readSimple assigned (words ++ [w]) redirects fuel

/-- Reads redirections. -/
def readRedirects : Nat → Reader (List Redirect)
  | 0 => failure
  | fuel + 1 => do
    match ← readRedirect with
    | some r => return r :: (← readRedirects fuel)
    | none => return []

/-- Reads words. -/
def readWords : Nat → Reader (List Word)
  | 0 => failure
  | fuel + 1 => do
    match ← readWord with
    | some w => return w :: (← readWords fuel)
    | none => return []

/-- Reads the patterns of a case, which are separated by bars, and the bracket after them. -/
def readPatterns : Nat → Reader (List Word)
  | 0 => failure
  | fuel + 1 => do
    match ← readWord with
    | none => failure
    | some pattern =>
      skipBlanks
      if ← take? "|" then return pattern :: (← readPatterns fuel)
      else if ← take? ")" then return [pattern]
      else failure

/-- The keywords that end a list of commands. -/
def closing : List String := ["then", "elif", "else", "fi", "do", "done", "esac", "\x7d"]

/-- Whether a list of commands ends here. -/
def listEnds : Reader Bool := do
  return (← get).isEmpty || (← sees ";;") || (← sees ")") || closing.contains (← nextBare)

mutual

/-- Reads commands one after another. -/
def readList : Nat → Reader Command
  | 0 => failure
  | fuel + 1 => do
    skipLines (← enough)
    if ← listEnds then return .skip
    let first ← readChain fuel
    skipBlanks
    if ← sees ";;" then return .sequence first .skip
    else if (← take? ";") || (← take? "\n") then return .sequence first (← readList fuel)
    else return .sequence first .skip

/-- Reads commands that depend on whether the ones before them succeed. -/
def readChain : Nat → Reader Command
  | 0 => failure
  | fuel + 1 => do
    let first ← readCommand fuel
    readLinks first fuel

/-- Reads the commands that depend on one. -/
def readLinks (left : Command) : Nat → Reader Command
  | 0 => failure
  | fuel + 1 => do
    skipBlanks
    if ← take? "&&" then
      skipLines (← enough)
      let right ← readCommand fuel
      readLinks (.both left right) fuel
    else if ← take? "||" then
      skipLines (← enough)
      let right ← readCommand fuel
      readLinks (.either left right) fuel
    else return left

/-- Reads a command. -/
def readCommand : Nat → Reader Command
  | 0 => failure
  | fuel + 1 => do
    match ← nextBare with
    | "!" =>
      drop 1
      return .negated (← readCommand fuel)
    | "\x7b" =>
      drop 1
      let body ← readList fuel
      expect "\x7d"
      return .redirected body (← readRedirects fuel)
    | "if" =>
      drop 2
      let c ← readBranch fuel
      return .redirected c (← readRedirects fuel)
    | "while" =>
      drop 5
      let condition ← readList fuel
      expect "do"
      let body ← readList fuel
      expect "done"
      return .redirected (.repeated condition body) (← readRedirects fuel)
    | "until" =>
      drop 5
      let condition ← readList fuel
      expect "do"
      let body ← readList fuel
      expect "done"
      return .redirected (.repeated (.negated condition) body) (← readRedirects fuel)
    | "for" =>
      drop 3
      let c ← readFor fuel
      return .redirected c (← readRedirects fuel)
    | "case" =>
      drop 4
      match ← readWord with
      | none => failure
      | some word =>
        expect "in"
        let cases ← readCases fuel
        return .redirected (.choice word cases) (← readRedirects fuel)
    | _ =>
      match ← readSimple [] [] [] fuel with
      | .simple [] [] [] => failure
      | c => return c

/-- Reads a choice between two lists of commands, after its keyword. -/
def readBranch : Nat → Reader Command
  | 0 => failure
  | fuel + 1 => do
    let condition ← readList fuel
    expect "then"
    let body ← readList fuel
    skipLines (← enough)
    match ← nextBare with
    | "elif" =>
      drop 4
      return .branch condition body (← readBranch fuel)
    | "else" =>
      drop 4
      let otherwise ← readList fuel
      expect "fi"
      return .branch condition body otherwise
    | _ =>
      expect "fi"
      return .branch condition body .skip

/-- Reads a loop over words, after its keyword. -/
def readFor : Nat → Reader Command
  | 0 => failure
  | fuel + 1 => do
    skipBlanks
    let name ← takeName
    skipLines (← enough)
    let words ← if (← nextBare) = "in" then do
        drop 2
        pure (some (← readWords fuel))
      else pure none
    skipBlanks
    let _ ← take? ";"
    expect "do"
    let body ← readList fuel
    expect "done"
    return .each name words body

/-- Reads cases up to the keyword after them. -/
def readCases : Nat → Reader (List (List Word × Command))
  | 0 => failure
  | fuel + 1 => do
    skipLines (← enough)
    if (← nextBare) = "esac" then
      drop 4
      return []
    let _ ← take? "("
    let patterns ← readPatterns fuel
    let body ← readList fuel
    skipLines (← enough)
    if ← take? ";;" then return (patterns, body) :: (← readCases fuel)
    else
      expect "esac"
      return [(patterns, body)]

end

/-- The command that a script is. -/
def parse? (script : Str) : Option Command :=
  match readList (20 * script.length + 20) script with
  | some (c, []) => some c
  | _ => none

end LintSetup.Script
