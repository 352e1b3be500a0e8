/-
Suggestions for partly typed command lines, drawn from grammars of commands.
-/
import CommandCompletion.Arguments
import CommandCompletion.Catalog
import CommandCompletion.Catalog.Generator
import CommandCompletion.Catalog.Locator
import CommandCompletion.Catalog.Source
import CommandCompletion.CommandLine
import CommandCompletion.CompletionScript
import CommandCompletion.Context
import CommandCompletion.Editor.Advisor
import CommandCompletion.Editor.Completer
import CommandCompletion.Editor.Hinter
import CommandCompletion.Editor.Prompt
import CommandCompletion.Editor.Replacement
import CommandCompletion.Engine
import CommandCompletion.Failure
import CommandCompletion.Files
import CommandCompletion.Files.Change
import CommandCompletion.Grammar
import CommandCompletion.Grammar.Document
import CommandCompletion.Grammar.Inheritance
import CommandCompletion.Json.Decoding
import CommandCompletion.Json.Reading
import CommandCompletion.Json.Token
import CommandCompletion.Json.Value
import CommandCompletion.Json.Writing
import CommandCompletion.Location
import CommandCompletion.Main
import CommandCompletion.NameMap
import CommandCompletion.Named
import CommandCompletion.Path
import CommandCompletion.PathReading
import CommandCompletion.Probe
import CommandCompletion.Program
import CommandCompletion.Proofs.Absence
import CommandCompletion.Proofs.AcceptedWords
import CommandCompletion.Proofs.Alike
import CommandCompletion.Proofs.Definitions
import CommandCompletion.Proofs.Delegation
import CommandCompletion.Proofs.DirectoryKeys
import CommandCompletion.Proofs.DocumentLimits
import CommandCompletion.Proofs.Eligibility
import CommandCompletion.Proofs.FileNames
import CommandCompletion.Proofs.FileTrees
import CommandCompletion.Proofs.Hints
import CommandCompletion.Proofs.Identities
import CommandCompletion.Proofs.Independence
import CommandCompletion.Proofs.JsonOutput
import CommandCompletion.Proofs.JsonTokens
import CommandCompletion.Proofs.LastSegment
import CommandCompletion.Proofs.ListedCommands
import CommandCompletion.Proofs.ListingOrder
import CommandCompletion.Proofs.Loading
import CommandCompletion.Proofs.Loads
import CommandCompletion.Proofs.LocalDocuments
import CommandCompletion.Proofs.LookedAt
import CommandCompletion.Proofs.NodeParts
import CommandCompletion.Proofs.Offered
import CommandCompletion.Proofs.OptionScope
import CommandCompletion.Proofs.PathParts
import CommandCompletion.Proofs.PathReplacement
import CommandCompletion.Proofs.Positional
import CommandCompletion.Proofs.Precedence
import CommandCompletion.Proofs.Progress
import CommandCompletion.Proofs.QuotedText
import CommandCompletion.Proofs.Quoting
import CommandCompletion.Proofs.Ranking
import CommandCompletion.Proofs.RecordFields
import CommandCompletion.Proofs.References
import CommandCompletion.Proofs.Refusals
import CommandCompletion.Proofs.Remembering
import CommandCompletion.Proofs.Requests
import CommandCompletion.Proofs.Respelling
import CommandCompletion.Proofs.SavedFiles
import CommandCompletion.Proofs.SavedSettings
import CommandCompletion.Proofs.Sessions
import CommandCompletion.Proofs.Shadowing
import CommandCompletion.Proofs.Splitting
import CommandCompletion.Proofs.StatedTables
import CommandCompletion.Proofs.Steadiness
import CommandCompletion.Proofs.Stopping
import CommandCompletion.Proofs.Tiling
import CommandCompletion.Proofs.Trimming
import CommandCompletion.Proofs.Turns
import CommandCompletion.Proofs.TypingOn
import CommandCompletion.Proofs.UnknownCommands
import CommandCompletion.Proofs.UsedOptions
import CommandCompletion.Proofs.WordForms
import CommandCompletion.Proofs.WordInProgress
import CommandCompletion.Proofs.WordReplacement
import CommandCompletion.Proofs.WrittenJson
import CommandCompletion.Proofs.WrittenNumbers
import CommandCompletion.Proofs.WrittenSettings
import CommandCompletion.Proofs.WrittenToml
import CommandCompletion.Recommendation
import CommandCompletion.Rendering
import CommandCompletion.Rendering.Json
import CommandCompletion.Rendering.Table
import CommandCompletion.Script.Probing
import CommandCompletion.Script.Reading
import CommandCompletion.Settings
import CommandCompletion.Settings.Document
import CommandCompletion.Shell
import CommandCompletion.Suggestion
import CommandCompletion.Text.Blank
import CommandCompletion.Text.Bytes
import CommandCompletion.Text.Decimal
import CommandCompletion.Text.Hexadecimal
import CommandCompletion.Text.Lowercase
import CommandCompletion.Text.Utf8
import CommandCompletion.Text.Width
import CommandCompletion.Toml.Decoding
import CommandCompletion.Toml.Quoted
import CommandCompletion.Toml.Reading
import CommandCompletion.Toml.Scalar
import CommandCompletion.Toml.Value
import CommandCompletion.Toml.Writing
import CommandCompletion.Walk
import CommandCompletion.Word
import CommandCompletion.Word.Splitting
import CommandCompletion.Word.Writing
import CommandCompletion.World
