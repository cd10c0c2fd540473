import LintSetup.Config
import LintSetup.Draft.Answers

/-!
# Drafted configurations

The configuration that answers amount to.  Each answer sets values at paths of keys, so what it does
not speak of stays as it was; the order of these steps is the order of the keys in the draft.

* `Config.withEnvironments`, `Config.withJsx`, `Config.withReact` --- what parts of a dialect add;
* `Config.ofStyle`, `Config.ofGuide`, `Config.ofDialect` --- the draft of each method;
* `Draft` --- a draft, and the files whose rules it is still to take over.
-/

namespace LintSetup

namespace Config

/-- The configuration with the environments of a dialect; CommonJS is one of them. -/
def withEnvironments (c : Config) (d : Dialect) : Config :=
  let c := if d.commonjs then c.setPath "env.commonjs" (.bool true) else c
  d.environments.foldl (fun c name => c.setPath s!"env.{name}" (.bool true)) c

/-- The configuration in which JSX is parsed, if the dialect has it. -/
def withJsx (c : Config) (d : Dialect) : Config :=
  if d.jsx then c.setPath "parserOptions.ecmaFeatures.jsx" (.bool true) else c

/-- The configuration with the plugin for React and its recommended rules, if the dialect has it. -/
def withReact (c : Config) (d : Dialect) : Config :=
  if d.react then
    let c := c.insert "extends" (.ofStrings (c.bases ++ ["plugin:react/recommended"]))
    let c := c.insert "plugins" (.ofStrings ["react"])
    c.setPath "parserOptions.ecmaFeatures.experimentalObjectRestSpread" (.bool true)
  else c

/-- A rule that is an error, with one option. -/
def errorWith (option : Json) : Json := .arr [.str "error", option]

/-- The rules that a style of code asks for. -/
def styleRules (s : CodeStyle) : Members Json :=
  [("indent", errorWith s.indent.setting),
    ("quotes", errorWith (.str s.quotes)),
    ("linebreak-style", errorWith (.str s.lineEnding)),
    ("semi", errorWith (.str (if s.semicolons then "always" else "never")))]

/-- The recommended rules and those of a style, for a dialect. -/
def ofStyle (d : Dialect) (s : CodeStyle) : Config :=
  let c : Config := ⟨[("extends", .ofStrings ["eslint:recommended"]), ("rules", .obj (styleRules s))]⟩
  let c := if d.modules then c.setPath "parserOptions.sourceType" (.str "module") else c
  let c :=
    if d.es2015 then
      (c.setPath "parserOptions.ecmaVersion" (.ofNat 2015)).setPath "env.es6" (.bool true)
    else c
  ((c.withEnvironments d).withJsx d).withReact d

/-- The rules of a style guide. -/
def ofGuide (g : Guide) : Config := ⟨[("extends", .str g.name)]⟩

/-- A dialect without any rules. -/
def ofDialect (d : Dialect) : Config :=
  let c :=
    if d.es2015 then
      let c := empty.setPath "env.es6" (.bool true)
      if d.modules then c.setPath "parserOptions.sourceType" (.str "module") else c
    else empty
  ((c.withEnvironments d).withReact d).withJsx d

end Config

/-- A drafted configuration.  With patterns, its rules are still to be inferred from the files that
the patterns select. -/
structure Draft where
  config : Config
  patterns : Option (List String) := none

end LintSetup
