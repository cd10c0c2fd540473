import LintSetup.Draft.Config
import LintSetup.Project.Context
import LintSetup.Wizard.Session

/-!
# The questions

What the user is asked, and what the answers mean.  A question is left out when earlier answers have
settled it: about modules without ECMAScript 2015, about CommonJS with modules or outside browsers,
and about React without JSX or without a `package.json` that could hold its plugin.  A choice that
is not on offer counts as the first one.

* `askMethod`, `askDialect`, `askStyle`, `askGuide`, `askPatterns` --- the questions;
* `askDraft` --- the draft that the answers lead to.
-/

namespace LintSetup.Wizard

/-- Asks for one of several things by their labels; the first one is the standard. -/
def choose {α : Type} (message : String) (first : String × α) (others : List (String × α)) :
    Session α := do
  let all := first :: others
  let index ← ask (.select message (all.map (·.1)) 0)
  return (all.getD index first).2

/-- Asks for a yes or no. -/
def confirm (message : String) (standard : Bool) : Session Bool := ask (.confirm message standard)

/-- Asks for a yes or no, standard no, if the question arises; otherwise the answer is no. -/
def confirmIf (arises : Bool) (message : String) : Session Bool :=
  if arises then confirm message false else pure false

/-- Asks how the configuration is to be made. -/
def askMethod : Session Method :=
  choose "How would you like to configure ESLint?" (Method.style.label, .style)
    [(Method.guide.label, .guide), (Method.files.label, .files)]

/-- The environments on offer: the label and the name of each, and whether it is a standard choice.
-/
def environments : List (String × String × Bool) :=
  [("Browser", "browser", true), ("Node", "node", false)]

/-- Asks for the environments.  Choices that are not on offer do not count. -/
def askEnvironments : Session (List String) := do
  let chosen ← ask (.selectMany "Where will your code run?" (environments.map (·.1))
    (environments.map (·.2.2)))
  return (chosen : List Nat).filterMap fun index => environments[index]?.map (·.2.1)

/-- Asks which features of the language the code uses, and where it runs. -/
def askDialect (packageJson : Bool) : Session Dialect := do
  let es2015 ← confirm "Are you using ECMAScript 2015 features?" false
  let modules ← confirmIf es2015 "Are you using ES modules?"
  let environments ← askEnvironments
  let commonjs ← confirmIf (!modules && environments.contains "browser") "Do you use CommonJS?"
  let jsx ← confirm "Do you use JSX?" false
  let react ← confirmIf (jsx && packageJson) "Do you use React?"
  return { es2015, modules, environments, commonjs, jsx, react }

/-- Asks how the code is laid out. -/
def askStyle : Session CodeStyle := do
  let indent ← choose "What style of indentation do you use?" ("Tabs", .tabs)
    [("4 spaces", .spaces 4), ("2 spaces", .spaces 2)]
  let quotes ← choose "What quotes do you use for strings?" ("Double", "double")
    [("Single", "single")]
  let lineEnding ← choose "What line endings do you use?" ("Unix (LF)", "unix")
    [("Windows (CRLF)", "windows")]
  let semicolons ← confirm "Do you require semicolons?" true
  return { indent, quotes, lineEnding, semicolons }

/-- Asks for a style guide. -/
def askGuide : Session Guide := do
  let guide ← choose "Which style guide do you want to follow?" ("Google", Guide.google)
    [("Airbnb", .airbnb false), ("Standard", .standard)]
  match guide with
  | .airbnb _ => return .airbnb (← confirm "Do you use React?" false)
  | guide => return guide

/-- What is to be said against an answer to the question for files: one that names none. -/
def patternsComplaint (s : String) : Option String :=
  if (Text.trim s).isEmpty then some "You must tell us what code to examine. Try again." else none

/-- Asks for the files whose style is to be taken over: the words of the answer are patterns. -/
def askPatterns : Session (List String) := do
  let answer ← ask (.input "Which file(s), path(s), or glob(s) should be examined?" patternsComplaint)
  return Text.words answer

/-- The draft of the style questions. -/
def draftStyle (packageJson : Bool) : Session Draft := do
  let dialect ← askDialect packageJson
  let style ← askStyle
  return { config := .ofStyle dialect style }

/-- The draft of a style guide. -/
def draftGuide : Session Draft := do
  let guide ← askGuide
  return { config := .ofGuide guide }

/-- The draft for files, whose rules are still to be inferred. -/
def draftFiles (packageJson : Bool) : Session Draft := do
  let patterns ← askPatterns
  let dialect ← askDialect packageJson
  return { config := .ofDialect dialect, patterns := some patterns }

/-- The draft of a method. -/
def draft (packageJson : Bool) : Method → Session Draft
  | .style => draftStyle packageJson
  | .guide => draftGuide
  | .files => draftFiles packageJson

/-- Asks for a method, and for what it needs. -/
def askDraft (packageJson : Bool) : Session Draft := do
  let method ← askMethod
  draft packageJson method

end LintSetup.Wizard
