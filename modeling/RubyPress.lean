import RubyPress.Config.Read
import RubyPress.Layout.Encode
import RubyPress.Main
import RubyPress.Sample
import RubyPress.Tree.Equality
import RubyPress.Proofs.Text.Run
import RubyPress.Proofs.Text.Utf8
import RubyPress.Proofs.Ruby.Token
import RubyPress.Proofs.Ruby.Expression
import RubyPress.Proofs.Ruby.Phrase
import RubyPress.Proofs.Render.Writing
import RubyPress.Proofs.Tree.Children
import RubyPress.Proofs.Json.Literal
import RubyPress.Proofs.Json.Nesting
import RubyPress.Proofs.Render.Grouping
import RubyPress.Proofs.Layout.Storage
import RubyPress.Proofs.Ruby.Scan
import RubyPress.Proofs.Ruby.Literal
import RubyPress.Proofs.Render.Quoted
import RubyPress.Proofs.Render.Nested
import RubyPress.Proofs.Render.Separators
import RubyPress.Proofs.Render.Pieces
import RubyPress.Proofs.Render.Embedded
import RubyPress.Proofs.Render.Within
import RubyPress.Proofs.Render.OneLine
import RubyPress.Proofs.Tree.Visited
import RubyPress.Proofs.Render.Written
import RubyPress.Proofs.Render.Success
import RubyPress.Proofs.Ruby.Scope
import RubyPress.Proofs.Render.Locals
import RubyPress.Proofs.Render.Lists
import RubyPress.Proofs.Success
import RubyPress.Proofs.Command.Files
import RubyPress.Proofs.Command.Outcome
import RubyPress.Proofs.Json.Spelling
import RubyPress.Proofs.Json.Grammar
import RubyPress.Proofs.Layout.Represents
import RubyPress.Proofs.Layout.Reading
import RubyPress.Proofs.Render.Depth
import RubyPress.Proofs.Layout.Height
import RubyPress.Proofs.Render.Lookalikes
import RubyPress.Proofs.Render.Slots
import RubyPress.Proofs.Render.Silent
import RubyPress.Proofs.Render.Draft
import RubyPress.Proofs.Render.Levels
import RubyPress.Proofs.Render.Composition
import RubyPress.Proofs.Render.Abbreviation
import RubyPress.Proofs.Render.Operands
import RubyPress.Proofs.Layout.Rearrangement
import RubyPress.Proofs.Render.Followers
import RubyPress.Proofs.Render.Leftmost
import RubyPress.Proofs.Render.Formula
import RubyPress.Proofs.Render.Lexemes
import RubyPress.Proofs.Render.Junctions
import RubyPress.Proofs.Path.Outline
import RubyPress.Proofs.Path.Output
import RubyPress.Proofs.Render.Wrappers
import RubyPress.Proofs.Alias.Replay
import RubyPress.Proofs.Alias.History
