import ModelLint.Allowance
import ModelLint.Analysis
import ModelLint.Catalog
import ModelLint.CommandLine.Arguments
import ModelLint.CommandLine.Notice
import ModelLint.CommandLine.Output
import ModelLint.CommandLine.Session
import ModelLint.Config
import ModelLint.Descriptor
import ModelLint.Discovery
import ModelLint.Dispatch
import ModelLint.Exclusion.Pattern
import ModelLint.FileTree
import ModelLint.Ignore.Pattern
import ModelLint.Ignore.Personal
import ModelLint.Ignore.Repository
import ModelLint.Ignore.Rules
import ModelLint.Ignore.Sources
import ModelLint.Json.Reader
import ModelLint.Json.Record
import ModelLint.Json.Token
import ModelLint.Json.Value
import ModelLint.Json.Writer
import ModelLint.Main
import ModelLint.Model.Basic
import ModelLint.Model.Builder
import ModelLint.Model.Codec
import ModelLint.Model.Kind
import ModelLint.Model.Query
import ModelLint.Model.Validity
import ModelLint.Path
import ModelLint.Proofs.Allowance
import ModelLint.Proofs.Analysis
import ModelLint.Proofs.Analysis.Allowances
import ModelLint.Proofs.Analysis.ByRule
import ModelLint.Proofs.Analysis.Configuration
import ModelLint.Proofs.Analysis.Files
import ModelLint.Proofs.Analysis.RuleOrder
import ModelLint.Proofs.Analysis.Selection
import ModelLint.Proofs.CommandLine.Filter
import ModelLint.Proofs.Config
import ModelLint.Proofs.Config.Options
import ModelLint.Proofs.Config.Scope
import ModelLint.Proofs.Discovery
import ModelLint.Proofs.Dispatch
import ModelLint.Proofs.Dispatch.Cancellation
import ModelLint.Proofs.Fallible
import ModelLint.Proofs.FileTree
import ModelLint.Proofs.Json.Grammar
import ModelLint.Proofs.Json.Record
import ModelLint.Proofs.Json.RoundTrip
import ModelLint.Proofs.Json.Token
import ModelLint.Proofs.Lookup
import ModelLint.Proofs.Model.Ancestry
import ModelLint.Proofs.Model.Builder
import ModelLint.Proofs.Model.Codec
import ModelLint.Proofs.Model.Comments
import ModelLint.Proofs.Model.Decoding
import ModelLint.Proofs.Model.Defects
import ModelLint.Proofs.Model.Insertion
import ModelLint.Proofs.Model.Traversal
import ModelLint.Proofs.Model.Tree
import ModelLint.Proofs.Model.WellFormed
import ModelLint.Proofs.Path
import ModelLint.Proofs.Registry
import ModelLint.Proofs.Rules.Anchors
import ModelLint.Proofs.Rules.Calls
import ModelLint.Proofs.Rules.Comments
import ModelLint.Proofs.Rules.Faultless
import ModelLint.Proofs.Rules.ProjectStructure.Checkout
import ModelLint.Proofs.Rules.ProjectStructure.Positions
import ModelLint.Proofs.Rules.ProjectStructure.Relocation
import ModelLint.Proofs.Rules.ProjectStructure.Verdict
import ModelLint.Proofs.Rules.SetLoadFields.Events
import ModelLint.Proofs.Rules.SetLoadFields.Exemption
import ModelLint.Proofs.Rules.SetLoadFields.History
import ModelLint.Proofs.Rules.SetLoadFields.Likeness
import ModelLint.Proofs.Rules.SetLoadFields.Locality
import ModelLint.Proofs.Rules.SetLoadFields.Scopes
import ModelLint.Proofs.Rules.SetLoadFields.StatementOrder
import ModelLint.Proofs.Rules.SourceExpression.Computed
import ModelLint.Proofs.Rules.SourceExpression.Shown
import ModelLint.Proofs.Rules.Success
import ModelLint.Proofs.Rules.TextBuilder
import ModelLint.Proofs.Rules.VarParameter
import ModelLint.Proofs.Settings
import ModelLint.Proofs.Settings.Content
import ModelLint.Proofs.Template
import ModelLint.Proofs.Text
import ModelLint.Proofs.Toml.Document
import ModelLint.Proofs.Toml.Lines
import ModelLint.Proofs.Toml.Reader
import ModelLint.Proofs.Toml.Table
import ModelLint.Proofs.Violation
import ModelLint.Registry
import ModelLint.Report
import ModelLint.Rule
import ModelLint.Rules.CalcFields
import ModelLint.Rules.Calls
import ModelLint.Rules.DataClassification
import ModelLint.Rules.MissingCaption
import ModelLint.Rules.ProjectStructure
import ModelLint.Rules.SetLoadFields
import ModelLint.Rules.SourceExpression
import ModelLint.Rules.TextBuilder
import ModelLint.Rules.VarParameter
import ModelLint.Settings
import ModelLint.Severity
import ModelLint.Template
import ModelLint.Text.Ascii
import ModelLint.Text.Blank
import ModelLint.Text.Digits
import ModelLint.Text.LetterCase
import ModelLint.Text.Magnitude
import ModelLint.Text.Marks
import ModelLint.Text.Search
import ModelLint.Toml.DateTime
import ModelLint.Toml.Quoted
import ModelLint.Toml.Reader
import ModelLint.Toml.Scalar
import ModelLint.Toml.Table
import ModelLint.Toml.Value
import ModelLint.Violation
import ModelLint.Workplace
