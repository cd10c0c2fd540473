import LintSetup.Failure
import LintSetup.Glob.Parse
import LintSetup.Text.Blank

/-!
# Ignore rules

Lines say which paths are left alone.  A line is trimmed; blank lines and lines that start with a
hash are skipped, and so are negations, with a warning.  Every other line has a base glob.  A path
is ignored when the base glob of a line matches it or something above it, for which the base with
`/**` after it stands.

* `baseOf` --- the base of a line: with a leading slash it is seen from the working directory, with
  a slash inside as well, and without any slash it is a name at any depth;
* `IgnoreRules.ofLines` --- the rules of lines, with the warnings;
* `IgnoreRules.ignores` --- whether a path is ignored.
-/

namespace LintSetup

/-- The globs of what is ignored. -/
structure IgnoreRules where
  globs : List Glob

namespace IgnoreRules

/-- What a line means. -/
inductive Line where
  | skipped
  | negated (line : String)
  | rule (line : String)
  deriving DecidableEq, Repr

/-- The meaning of a line. -/
def lineOf (text : String) : Line :=
  let line := Text.trim text
  match line.toList with
  | [] => .skipped
  | '#' :: _ => .skipped
  | '!' :: _ => .negated line
  | _ => .rule line

/-- The base of a trimmed line. -/
def baseOf (line : String) : String :=
  let cs := (line.toList.reverse.dropWhile (· = '/')).reverse
  match cs with
  | '/' :: anchored => String.ofList anchored
  | _ => if cs.contains '/' then String.ofList cs else String.ofList ('*' :: '*' :: '/' :: cs)

/-- The globs of a trimmed line: its base, and everything below it. -/
def globsOf? (line : String) : Option (List Glob) := do
  let base ← Glob.parse? (baseOf line)
  let below ← Glob.parse? (baseOf line ++ "/**")
  return [base, below]

/-- The warning about a negated line. -/
def negationWarning (line : String) : String :=
  s!"negated ignore pattern '{line}' is not supported"

/-- The rules of lines, and the warnings up to the first line that is no glob. -/
def ofLines : List String → List String × Except Failure IgnoreRules
  | [] => ([], .ok ⟨[]⟩)
  | text :: rest =>
    match lineOf text with
    | .skipped => ofLines rest
    | .negated line =>
      let (warnings, rules) := ofLines rest
      (negationWarning line :: warnings, rules)
    | .rule line =>
      match globsOf? line with
      | none => ([], .error (.during (.parseIgnoreLine line) (.malformed .glob)))
      | some globs =>
        let (warnings, rules) := ofLines rest
        (warnings, rules.map fun rules => ⟨globs ++ rules.globs⟩)

/-- Whether a path is ignored. -/
def ignores (rules : IgnoreRules) (path : String) : Bool :=
  rules.globs.any (·.matchesPath path)

end IgnoreRules
end LintSetup
