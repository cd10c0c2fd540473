import LintSetup.Json.Basic

/-!
# What the user is asked for

The answers from which a configuration is drafted.

* `Dialect` --- which features of the language the code uses, and where it runs;
* `CodeStyle` --- how the code is laid out;
* `Guide` --- a popular style guide;
* `Method` --- which of these the configuration is made of.
-/

namespace LintSetup

/-- The features of the language that the code uses, and the names of the environments it runs in.
-/
structure Dialect where
  es2015 : Bool := false
  modules : Bool := false
  environments : List String := []
  commonjs : Bool := false
  jsx : Bool := false
  react : Bool := false
  deriving DecidableEq, Repr

/-- How lines are indented. -/
inductive Indent where
  | tabs
  | spaces (n : Nat)
  deriving DecidableEq, Repr

/-- How the code is laid out.  The quotes around strings (`double` or `single`) and the line endings
(`unix` or `windows`) go by the names that the linter has for them. -/
structure CodeStyle where
  indent : Indent := .tabs
  quotes : String := "double"
  lineEnding : String := "unix"
  semicolons : Bool := true
  deriving DecidableEq, Repr

/-- An indentation as the linter's setting for it. -/
def Indent.setting : Indent → Json
  | tabs => .str "tab"
  | spaces n => .ofNat n

/-- The style guides on offer.  The one of Airbnb comes with rules for React or without. -/
inductive Guide where
  | google
  | airbnb (react : Bool)
  | standard
  deriving DecidableEq, Repr

/-- The shareable configuration of a guide. -/
def Guide.name : Guide → String
  | google => "google"
  | airbnb false => "airbnb-base"
  | airbnb true => "airbnb"
  | standard => "standard"

/-- What a configuration is made of: answers about style, a style guide, or existing files. -/
inductive Method where
  | style
  | guide
  | files
  deriving DecidableEq, Repr

/-- The word for a method. -/
def Method.name : Method → String
  | style => "style"
  | guide => "guide"
  | files => "files"

/-- A method as it is offered to the user. -/
def Method.label : Method → String
  | style => "Answer questions about your style"
  | guide => "Use a popular style guide"
  | files => "Inspect your JavaScript file(s)"

end LintSetup
