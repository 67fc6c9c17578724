import TemplateDirectives.Command.Line
import TemplateDirectives.Command.Run
import TemplateDirectives.Command.Template
import TemplateDirectives.Compiler.Basic
import TemplateDirectives.Compiler.Context
import TemplateDirectives.Compiler.Error
import TemplateDirectives.Compiler.Rule
import TemplateDirectives.Config.Basic
import TemplateDirectives.Config.Expansion
import TemplateDirectives.Config.Load
import TemplateDirectives.Directive.Arguments
import TemplateDirectives.Directive.Attribute
import TemplateDirectives.Directive.Block
import TemplateDirectives.Directive.Call
import TemplateDirectives.Directive.EndMarker
import TemplateDirectives.Directive.Name
import TemplateDirectives.Directive.ShortCall
import TemplateDirectives.Edit
import TemplateDirectives.FileSystem.Access
import TemplateDirectives.FileSystem.Path
import TemplateDirectives.FileSystem.Tree
import TemplateDirectives.Glob.Match
import TemplateDirectives.Glob.Pattern
import TemplateDirectives.Handler.Name
import TemplateDirectives.Handler.Registry
import TemplateDirectives.HostLanguage
import TemplateDirectives.Main
import TemplateDirectives.Position
import TemplateDirectives.Proofs.RaisedLimit
import TemplateDirectives.Text.Alphanumeric
import TemplateDirectives.Text.Basic
import TemplateDirectives.Text.Blank
import TemplateDirectives.Text.LiteralState
import TemplateDirectives.Text.Quoted
import TemplateDirectives.Text.Search
import TemplateDirectives.Text.Utf8
import TemplateDirectives.Toml.Document
import TemplateDirectives.Toml.Scalar
import TemplateDirectives.Toml.Value
import TemplateDirectives.Proofs.Markup.Basic
import TemplateDirectives.Proofs.Markup.Reading
import TemplateDirectives.Proofs.Markup.Scanning
import TemplateDirectives.Proofs.Markup.Calls
import TemplateDirectives.Proofs.Markup.Blocks
import TemplateDirectives.Proofs.Markup.Levels
import TemplateDirectives.Proofs.Markup.Meaning
import TemplateDirectives.Proofs.Markup.NestingLimit
import TemplateDirectives.Proofs.Errors.Place
import TemplateDirectives.Proofs.Steps
import TemplateDirectives.Proofs.Edits.Basic
import TemplateDirectives.Proofs.Edits.Rules
import TemplateDirectives.Proofs.Bodies
import TemplateDirectives.Proofs.WholeValue
import TemplateDirectives.Proofs.EndMarkers
import TemplateDirectives.Proofs.Markers
import TemplateDirectives.Proofs.Verbatim
import TemplateDirectives.Proofs.Splices
import TemplateDirectives.Proofs.Splicing
import TemplateDirectives.Proofs.Openings
import TemplateDirectives.Proofs.DefaultSpace
import TemplateDirectives.Proofs.Files.Paths
import TemplateDirectives.Proofs.Files.Ancestors
import TemplateDirectives.Proofs.Files.Writing
import TemplateDirectives.Proofs.Files.Standing
import TemplateDirectives.Proofs.Settings
import TemplateDirectives.Proofs.Templates
import TemplateDirectives.Proofs.Build
import TemplateDirectives.Proofs.Rebuild
import TemplateDirectives.Proofs.Agreement
import TemplateDirectives.Proofs.Grammar.Runs
import TemplateDirectives.Proofs.Grammar.Calls
import TemplateDirectives.Proofs.Grammar.ShortCalls
import TemplateDirectives.Proofs.Grammar.Openings
import TemplateDirectives.Proofs.Grammar.Attributes
import TemplateDirectives.Proofs.Grammar.Endings
import TemplateDirectives.Proofs.ColonPolicy
import TemplateDirectives.Proofs.Variables.Pieces
import TemplateDirectives.Proofs.Variables.Required
import TemplateDirectives.Proofs.Variables.Values
import TemplateDirectives.Proofs.Variables.Outside
import TemplateDirectives.Proofs.Variables.Nested
import TemplateDirectives.Proofs.ArgumentLists
import TemplateDirectives.Proofs.Literals
import TemplateDirectives.Proofs.Registrations
import TemplateDirectives.Proofs.Discovery
import TemplateDirectives.Proofs.HandlerNames
import TemplateDirectives.Proofs.FieldNames
import TemplateDirectives.Proofs.Edits.InTurn
import TemplateDirectives.Proofs.Positions
import TemplateDirectives.Proofs.Grammar.Parentheses
