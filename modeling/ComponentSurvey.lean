import ComponentSurvey.Failure.Described
import ComponentSurvey.Main
import ComponentSurvey.Proofs.Session.Memory
import ComponentSurvey.Proofs.Survey.Classification
import ComponentSurvey.Proofs.Survey.HookAgreement
import ComponentSurvey.Proofs.Survey.Uncommented
import ComponentSurvey.Proofs.Session.Fatality
import ComponentSurvey.Proofs.Session.Growth
import ComponentSurvey.Proofs.Survey.Concatenation
import ComponentSurvey.Proofs.Session.Settlement
import ComponentSurvey.Proofs.Session.Workers
import ComponentSurvey.Proofs.Session.Isolation
import ComponentSurvey.Proofs.Session.Laziness
import ComponentSurvey.Proofs.FileTree.Following
import ComponentSurvey.Proofs.FileTree.Detour
import ComponentSurvey.Proofs.Survey.Lowered
import ComponentSurvey.Proofs.Survey.DirectExports
import ComponentSurvey.Proofs.Survey.Exporting
import ComponentSurvey.Proofs.Record.Faithful
import ComponentSurvey.Json.Grammar
import ComponentSurvey.Proofs.Json.Reading
import ComponentSurvey.Proofs.Json.Writing
import ComponentSurvey.Proofs.Json.Numerals
import ComponentSurvey.Proofs.Json.Plain
import ComponentSurvey.Proofs.FileTree.Selection
import ComponentSurvey.Proofs.Record.Text
import ComponentSurvey.Proofs.FileTree.Direct
import ComponentSurvey.Proofs.Session.Repetition
import ComponentSurvey.Proofs.Session.Staleness
import ComponentSurvey.Proofs.Session.Unobserved
import ComponentSurvey.Proofs.Survey.Additivity
import ComponentSurvey.Proofs.Survey.SourceOrder
import ComponentSurvey.Proofs.Complexity.Paths
import ComponentSurvey.Proofs.Survey.Detection
import ComponentSurvey.Proofs.Survey.Confidence
import ComponentSurvey.Proofs.FileTree.Writing
import ComponentSurvey.Proofs.Record.Reals
import ComponentSurvey.Proofs.CommandLine.Analyze
import ComponentSurvey.Proofs.Survey.Refusal
import ComponentSurvey.Proofs.Survey.ConciseArrows
import ComponentSurvey.Proofs.Survey.Bindings
import ComponentSurvey.Proofs.Access.Outcome
import ComponentSurvey.Proofs.Survey.HookRules
import ComponentSurvey.Proofs.Survey.ModuleNames
import ComponentSurvey.Proofs.Complexity.Parameters
import ComponentSurvey.Proofs.Survey.CountedFunctions
import ComponentSurvey.Proofs.Survey.Keywords
import ComponentSurvey.Proofs.Survey.ExportedVariables
import ComponentSurvey.Proofs.Text.Decoding
import ComponentSurvey.Proofs.Text.Lenient
import ComponentSurvey.Proofs.Survey.Callees
import ComponentSurvey.Proofs.Survey.Literals
import ComponentSurvey.Proofs.Complexity.Bounds
import ComponentSurvey.Proofs.Tree.Traversal
import ComponentSurvey.Proofs.Tree.Parentheses
import ComponentSurvey.Proofs.FileTree.Plain
import ComponentSurvey.Proofs.Session.Unsupported
