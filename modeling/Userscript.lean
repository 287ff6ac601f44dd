import Userscript.Command.Arguments
import Userscript.Command.Lookup
import Userscript.Command.Render
import Userscript.Command.Run
import Userscript.Comment
import Userscript.Config.Basic
import Userscript.Config.Decode
import Userscript.Config.Load
import Userscript.Decimal.Layout
import Userscript.Decimal.Shortest
import Userscript.Dict
import Userscript.Digest.Block
import Userscript.Digest.Md5
import Userscript.Digest.Sha256
import Userscript.Digest.Stream
import Userscript.Digest.Word
import Userscript.Expansion.Descriptor
import Userscript.Expansion.Draft
import Userscript.Expansion.Localized
import Userscript.Expansion.ResourceUrl
import Userscript.Expansion.Tag
import Userscript.FileTree.Basic
import Userscript.FileTree.Hash
import Userscript.FileTree.Walk
import Userscript.FileTree.Write
import Userscript.Header.Field
import Userscript.Header.Generate
import Userscript.Hex
import Userscript.Json.Basic
import Userscript.Json.Number
import Userscript.Json.Reader
import Userscript.Json.Scan
import Userscript.Locale.Canonical
import Userscript.Locale.Rule
import Userscript.Locale.Subtag
import Userscript.Main
import Userscript.Path
import Userscript.Proofs.Command.Atomicity
import Userscript.Proofs.Command.Drift
import Userscript.Proofs.Command.Loading
import Userscript.Proofs.Command.RoundTrip
import Userscript.Proofs.Config.Precedence
import Userscript.Proofs.Config.Resolution
import Userscript.Proofs.Config.SourcePaths
import Userscript.Proofs.Config.Templates
import Userscript.Proofs.Digest.Streaming
import Userscript.Proofs.Expansion.Appending
import Userscript.Proofs.Expansion.Digests
import Userscript.Proofs.Expansion.Expanders
import Userscript.Proofs.Expansion.Extending
import Userscript.Proofs.Expansion.Failing
import Userscript.Proofs.Expansion.Fragments
import Userscript.Proofs.Expansion.Presenting
import Userscript.Proofs.Expansion.ResourceCalls
import Userscript.Proofs.Expansion.Success
import Userscript.Proofs.Expansion.Translating
import Userscript.Proofs.Expansion.Values
import Userscript.Proofs.FileTree.Walking
import Userscript.Proofs.FileTree.Writing
import Userscript.Proofs.Header.Acceptance
import Userscript.Proofs.Header.BlockComment
import Userscript.Proofs.Header.Decoration
import Userscript.Proofs.Header.Delimiting
import Userscript.Proofs.Header.LineComments
import Userscript.Proofs.Header.LineGrammar
import Userscript.Proofs.Header.Passing
import Userscript.Proofs.Header.Required
import Userscript.Proofs.Header.Segment
import Userscript.Proofs.Locale.Grammar
import Userscript.Proofs.Locale.NormalForm
import Userscript.Proofs.Locale.Recasing
import Userscript.Proofs.Locale.Spelling
import Userscript.Proofs.Record.Insertion
import Userscript.Proofs.Record.Layout
import Userscript.Proofs.Record.Parts
import Userscript.Proofs.Record.Recovery
import Userscript.Proofs.Record.Written
import Userscript.Proofs.Template.Filling
import Userscript.Proofs.Text.Marks
import Userscript.Proofs.Text.Runs
import Userscript.Proofs.Text.Splitting
import Userscript.Proofs.Text.Trimming
import Userscript.Record.Basic
import Userscript.Record.Decode
import Userscript.Record.Descriptor
import Userscript.Record.Translations
import Userscript.Template
import Userscript.Text
import Userscript.Toml.Basic
import Userscript.Toml.Reader
import Userscript.Toml.Scalar
import Userscript.Toml.Scan
