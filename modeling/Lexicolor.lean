import Lexicolor.Catalog.Classification
import Lexicolor.Catalog.Keyword
import Lexicolor.Catalog.Prefix
import Lexicolor.Catalog.ScopeTable
import Lexicolor.Clangd.Config
import Lexicolor.Clangd.Modifiers
import Lexicolor.Clangd.Rule
import Lexicolor.Clangd.Selectors
import Lexicolor.Classifier
import Lexicolor.Color.Gamut
import Lexicolor.Color.Hex
import Lexicolor.Command.Action
import Lexicolor.Command.Basic
import Lexicolor.Command.Colors
import Lexicolor.Command.Extract
import Lexicolor.Command.Failure
import Lexicolor.Command.Generate
import Lexicolor.Command.Inspect
import Lexicolor.Command.LogFilter
import Lexicolor.Command.Notice
import Lexicolor.Command.Report
import Lexicolor.CommandLine
import Lexicolor.Decimal.Shortest
import Lexicolor.Grammar.Basic
import Lexicolor.Grammar.Coverage
import Lexicolor.Grammar.Generate
import Lexicolor.Json.Decoder
import Lexicolor.Json.Node
import Lexicolor.Json.Number
import Lexicolor.Json.Printer
import Lexicolor.Json.Reader
import Lexicolor.Json.Token
import Lexicolor.Json.Value
import Lexicolor.Main
import Lexicolor.Pattern.Basic
import Lexicolor.Pattern.Bracket
import Lexicolor.Pattern.Chain
import Lexicolor.Pattern.CharClass
import Lexicolor.Pattern.Lexeme
import Lexicolor.Pattern.Progress
import Lexicolor.Pattern.Reader
import Lexicolor.Pattern.Search
import Lexicolor.Pattern.Spot
import Lexicolor.Problem
import Lexicolor.Proofs.Clangd.Agreement
import Lexicolor.Proofs.Clangd.Decoding
import Lexicolor.Proofs.Clangd.Encoding
import Lexicolor.Proofs.Clangd.Filling
import Lexicolor.Proofs.Clangd.FirstRule
import Lexicolor.Proofs.Clangd.ModifierSets
import Lexicolor.Proofs.Clangd.PrefixLanguage
import Lexicolor.Proofs.Clangd.Refilling
import Lexicolor.Proofs.Clangd.Reproduction
import Lexicolor.Proofs.Clangd.RuleLanguage
import Lexicolor.Proofs.Clangd.RuleLines
import Lexicolor.Proofs.Clangd.SetOrder
import Lexicolor.Proofs.Clangd.Slots
import Lexicolor.Proofs.Classification
import Lexicolor.Proofs.Color.Notation
import Lexicolor.Proofs.Combination
import Lexicolor.Proofs.Command.Actions
import Lexicolor.Proofs.Command.Agreement
import Lexicolor.Proofs.Command.Atomicity
import Lexicolor.Proofs.Command.Frame
import Lexicolor.Proofs.Command.Handover
import Lexicolor.Proofs.Command.Pipeline
import Lexicolor.Proofs.Command.Progress
import Lexicolor.Proofs.Command.Repetition
import Lexicolor.Proofs.Command.Steps
import Lexicolor.Proofs.Grammar.Accounts
import Lexicolor.Proofs.Grammar.Coverage
import Lexicolor.Proofs.Grammar.FirstPattern
import Lexicolor.Proofs.Grammar.FullMatches
import Lexicolor.Proofs.Grammar.LongestKeyword
import Lexicolor.Proofs.Grammar.Precedence
import Lexicolor.Proofs.Grammar.WholeWords
import Lexicolor.Proofs.Grouping
import Lexicolor.Proofs.Json.Indentation
import Lexicolor.Proofs.Json.Loosening
import Lexicolor.Proofs.Json.Members
import Lexicolor.Proofs.Json.Numerals
import Lexicolor.Proofs.Json.Places
import Lexicolor.Proofs.Json.Printing
import Lexicolor.Proofs.Json.RoundTrip
import Lexicolor.Proofs.Json.Tables
import Lexicolor.Proofs.Json.WholeTexts
import Lexicolor.Proofs.Pattern.Language
import Lexicolor.Proofs.Pattern.Notation
import Lexicolor.Proofs.Pattern.Preference
import Lexicolor.Proofs.Pattern.Reading
import Lexicolor.Proofs.Pattern.Spans
import Lexicolor.Proofs.Readme.Body
import Lexicolor.Proofs.Readme.Substitution
import Lexicolor.Proofs.Scope.Compound
import Lexicolor.Proofs.Scope.Splitting
import Lexicolor.Proofs.Scope.WordPattern
import Lexicolor.Proofs.Settings.ScopeColors
import Lexicolor.Proofs.Settings.TextMateRules
import Lexicolor.Proofs.Source.Enumerators
import Lexicolor.Proofs.Source.Keywords
import Lexicolor.Proofs.Source.Prefixes
import Lexicolor.Proofs.Source.Scan
import Lexicolor.Proofs.Text.Joining
import Lexicolor.Proofs.Theme.Comparison
import Lexicolor.Proofs.Theme.Duplicates
import Lexicolor.Proofs.Theme.Entries
import Lexicolor.Proofs.Theme.Merging
import Lexicolor.Proofs.Theme.Order
import Lexicolor.Proofs.Theme.Recoloring
import Lexicolor.Proofs.Token.Excluded
import Lexicolor.Proofs.Token.Identifiers
import Lexicolor.Proofs.Token.Legend
import Lexicolor.Proofs.Token.Literals
import Lexicolor.Proofs.Token.Tokens
import Lexicolor.Proofs.Workspace.Agreement
import Lexicolor.Proofs.Workspace.Joined
import Lexicolor.Proofs.Workspace.Layout
import Lexicolor.Proofs.Workspace.Walk
import Lexicolor.Readme
import Lexicolor.Scope.Name
import Lexicolor.Scope.Words
import Lexicolor.Settings.Basic
import Lexicolor.Settings.FromTheme
import Lexicolor.Settings.SemanticColors
import Lexicolor.SortedTable
import Lexicolor.Source.Enumerators
import Lexicolor.Source.Keywords
import Lexicolor.Source.Prefixes
import Lexicolor.Source.Scan
import Lexicolor.Table
import Lexicolor.Text.Blank
import Lexicolor.Text.Digits
import Lexicolor.Text.Hex
import Lexicolor.Text.Lines
import Lexicolor.Text.Longest
import Lexicolor.Text.Search
import Lexicolor.Text.Utf8
import Lexicolor.Theme.Comparison
import Lexicolor.Theme.Dedupe
import Lexicolor.Theme.Recolor
import Lexicolor.Theme.Rule
import Lexicolor.Theme.Variants
import Lexicolor.Token.Basic
import Lexicolor.Token.Excluded
import Lexicolor.Unicode.Cased
import Lexicolor.Unicode.Fold
import Lexicolor.Unicode.Letter
import Lexicolor.Unicode.Lowercase
import Lexicolor.Unicode.Ranges
import Lexicolor.Unicode.Word
import Lexicolor.Workspace.Files
import Lexicolor.Workspace.Layout
import Lexicolor.Workspace.Path
