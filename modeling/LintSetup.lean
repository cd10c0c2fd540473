import LintSetup.Bridge.Channel
import LintSetup.Bridge.Process
import LintSetup.Bridge.Query
import LintSetup.Bridge.Script
import LintSetup.Candidate.Pool
import LintSetup.Candidate.Reduction
import LintSetup.CommandLine.Launch
import LintSetup.CommandLine.Run
import LintSetup.Config
import LintSetup.ConfigFile.Format
import LintSetup.Decimal.Binary
import LintSetup.Decimal.Shortest
import LintSetup.Dialogue
import LintSetup.Draft.Answers
import LintSetup.Draft.Config
import LintSetup.Failure
import LintSetup.File.Ignore
import LintSetup.File.Listing
import LintSetup.File.Path
import LintSetup.File.Tree
import LintSetup.Glob.Basic
import LintSetup.Glob.Parse
import LintSetup.Inspection.Linter
import LintSetup.Inspection.Run
import LintSetup.Inspection.Schedule
import LintSetup.Inspection.Source
import LintSetup.Json.Basic
import LintSetup.Json.Parse
import LintSetup.Json.Pointer
import LintSetup.Json.Record
import LintSetup.Json.Skip
import LintSetup.Json.Sorted
import LintSetup.Json.Text
import LintSetup.Lazy
import LintSetup.Machine.Host
import LintSetup.Machine.Rehearsal
import LintSetup.Main
import LintSetup.Members
import LintSetup.Options.Setting
import LintSetup.Options.Space
import LintSetup.Packages.Conflict
import LintSetup.Packages.Manager
import LintSetup.Packages.Npm
import LintSetup.Packages.Required
import LintSetup.Project.Context
import LintSetup.Project.Installation
import LintSetup.Project.Settings
import LintSetup.Rule
import LintSetup.Schema.Normal
import LintSetup.Schema.Reference
import LintSetup.Script.Builtin
import LintSetup.Script.Expand
import LintSetup.Script.Parse
import LintSetup.Script.Run
import LintSetup.Script.Syntax
import LintSetup.Text.Blank
import LintSetup.Text.Digits
import LintSetup.Text.Quoted
import LintSetup.Text.Utf8
import LintSetup.Toml.Basic
import LintSetup.Toml.Parse
import LintSetup.Toml.Scalar
import LintSetup.Version.Parse
import LintSetup.Version.Range
import LintSetup.Wizard.Questions
import LintSetup.Wizard.Rehearsal
import LintSetup.Wizard.Session
import LintSetup.Wizard.Setup
import LintSetup.Yaml.Reading
import LintSetup.Yaml.Scalar
import LintSetup.Yaml.Text
import LintSetup.Proofs.Candidate.Eviction
import LintSetup.Proofs.Candidate.Operations
import LintSetup.Proofs.Inspection.Handles
import LintSetup.Proofs.Inspection.Trial
import LintSetup.Proofs.Inspection.Floor
import LintSetup.Proofs.Inspection.Survivors
import LintSetup.Proofs.Json.Proper
import LintSetup.Proofs.Json.Record
import LintSetup.Proofs.Json.Spelling
import LintSetup.Proofs.Json.Layout
import LintSetup.Proofs.Json.Order
import LintSetup.Proofs.Schema.Expansion
import LintSetup.Proofs.Schema.Settled
import LintSetup.Proofs.Schema.Inlined
import LintSetup.Proofs.Options.Fitting
import LintSetup.Proofs.Dialogue
import LintSetup.Proofs.Inspection.Course
import LintSetup.Proofs.Inspection.Evictions
import LintSetup.Proofs.Machine.Lines
import LintSetup.Proofs.Bridge.Replies
import LintSetup.Proofs.Bridge.Files
import LintSetup.Proofs.Wizard.Preparation
import LintSetup.Proofs.Wizard.Course
import LintSetup.Proofs.Packages.Required
import LintSetup.Proofs.Wizard.Lookups
import LintSetup.Proofs.Wizard.Versions
import LintSetup.Proofs.Candidate.Adoption
import LintSetup.Proofs.Inspection.Verdicts
import LintSetup.Proofs.Options.Listing
import LintSetup.Proofs.ConfigFile.Canonical
import LintSetup.Proofs.Options.Interruptions
import LintSetup.Proofs.Options.Product
import LintSetup.Proofs.Inspection.Custody
import LintSetup.Proofs.Schema.Issues
import LintSetup.Proofs.Packages.Listed
import LintSetup.Proofs.Packages.Conflict
import LintSetup.Proofs.Wizard.Conflict
import LintSetup.Proofs.Glob.Matching
import LintSetup.Proofs.Glob.Reading
import LintSetup.Proofs.File.Steps
import LintSetup.Proofs.File.Ignore
import LintSetup.Proofs.File.Below
import LintSetup.Proofs.File.Walk
import LintSetup.Proofs.File.Lookup
import LintSetup.Proofs.File.Selection
import LintSetup.Proofs.File.Patterns
import LintSetup.Proofs.File.Above
import LintSetup.Proofs.File.Resolution
import LintSetup.Proofs.Project.Installation
import LintSetup.Proofs.Config.Path
import LintSetup.Proofs.Json.Numeral
import LintSetup.Proofs.Json.Content
import LintSetup.Proofs.Json.Characters
import LintSetup.Proofs.Bridge.Requests
import LintSetup.Proofs.Packages.Turns
import LintSetup.Proofs.Packages.Remembered
import LintSetup.Proofs.CommandLine.Lookups
