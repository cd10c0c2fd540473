import LintSetup.Config
import LintSetup.Json.Text
import LintSetup.Packages.Manager

/-!
# The packages that a configuration needs

A plugin named `x` is the package `eslint-plugin-x`, and a shareable configuration `y` is the
package `eslint-config-y`; what `extends` names with `eslint:` or `plugin:` in front comes with the
linter or with a plugin.  Each of them is needed in its latest version, together with its peer
dependencies. Where several packages name a peer, the last one decides.  The linter itself is on the
list or not as the user wants.

* `Config.packages` --- the packages that a configuration names;
* `Packages.lookupAll` --- the peer dependencies of several packages;
* `Packages.required` --- the list, each entry a name with a version range.
-/

namespace LintSetup

/-- Whether a name under `extends` stands for a package of its own. -/
def Config.isShareable (name : String) : Bool :=
  !(Text.hasStart "eslint:" name || Text.hasStart "plugin:" name)

/-- The packages that a configuration names: those of its plugins, then its shareable
configurations. -/
def Config.packages (c : Config) : List String :=
  c.plugins.map (s!"eslint-plugin-{·}") ++
    (c.bases.filter Config.isShareable).map (s!"eslint-config-{·}")

namespace Packages

/-- The name of the linter's own package. -/
def linterName : String := "eslint"

/-- A package in its latest version. -/
def latest (package : String) : String := s!"{package}@latest"

/-- Starts look-ups one after another; a failure to start one keeps the others from being started.
-/
def startAll : List String → Session Unit
  | [] => pure ()
  | package :: rest => do
    startLookup package
    startAll rest

/-- Waits for look-ups one after another. -/
def awaitAll : List String → Session (List Peers)
  | [] => pure []
  | package :: rest => do
    let peers ← awaitLookup package
    return peers :: (← awaitAll rest)

/-- The peer dependencies of each of several packages.  All look-ups are started before the first
one is waited for. -/
def lookupAll (packages : List String) : Session (List Peers) := do
  startAll packages
  awaitAll packages

/-- What named packages and their peers come to, as names with ranges in order. -/
def merge (packages : List String) (peers : List Peers) : Members Json :=
  let named := Members.ofList (packages.map fun p => (p, Json.str "latest"))
  peers.flatten.foldl (fun all (name, range) => Members.set all name range) named

/-- The list with the linter on it, in its latest version if no range is given, or without the
linter. -/
def withLinter (wanted : Bool) (all : Members Json) : Members Json :=
  if wanted then Members.setNew all linterName (.str "latest") else Members.erase all linterName

/-- A package with its range, as a package manager takes it. -/
def spec : String × Json → String
  | (name, .str range) => s!"{name}@{range}"
  | (name, range) => s!"{name}@{range.compact}"

/-- The packages that a configuration needs. -/
def required (config : Config) (withLinterItself : Bool) : Session (List String) := do
  let packages := config.packages
  let peers ← lookupAll (packages.map latest)
  return (withLinter withLinterItself (merge packages peers)).map spec

end Packages
end LintSetup
