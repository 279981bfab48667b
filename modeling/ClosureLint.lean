import ClosureLint.Counting
import ClosureLint.Examples
import ClosureLint.Main
import ClosureLint.Proofs.Text.Utf8
import ClosureLint.Proofs.Comment.Crossing
import ClosureLint.Proofs.Comment.Byte
import ClosureLint.Proofs.Comment.Piece
import ClosureLint.Proofs.Comment.Literal
import ClosureLint.Proofs.Comment.Lookahead
import ClosureLint.Proofs.Comment.Pieces
import ClosureLint.Proofs.Comment.CodeLines
import ClosureLint.Proofs.Comment.Restart
import ClosureLint.Proofs.Comment.Cut
import ClosureLint.Proofs.Comment.Padding
import ClosureLint.Proofs.Comment.Newlines
import ClosureLint.Proofs.Comment.Returns
import ClosureLint.Proofs.Comment.Append
import ClosureLint.Proofs.Comment.CodeBytes
import ClosureLint.Proofs.Comment.Indexed
import ClosureLint.Proofs.Comment.Progress
import ClosureLint.Proofs.Source.Lines
import ClosureLint.Proofs.Source.Position
import ClosureLint.Proofs.Source.Measure
import ClosureLint.Proofs.Source.Span
import ClosureLint.Proofs.Source.BlankLines
import ClosureLint.Proofs.Rules
import ClosureLint.Proofs.Rust.Parts
import ClosureLint.Proofs.Rust.FrontEnd
import ClosureLint.Proofs.Rust.CommentShape
import ClosureLint.Proofs.Rust.LiteralShape
import ClosureLint.Proofs.Rust.Readable
import ClosureLint.Proofs.Rust.TokenPieces
import ClosureLint.Proofs.Rust.Places
import ClosureLint.Proofs.Rust.Nesting
import ClosureLint.Proofs.Rust.Matched
import ClosureLint.Proofs.Rust.Legible
import ClosureLint.Proofs.Rust.Preamble
import ClosureLint.Proofs.Rust.Trivia
import ClosureLint.Proofs.Rust.TriviaPass
import ClosureLint.Proofs.Source.Rows
import ClosureLint.Proofs.Files.Order
import ClosureLint.Proofs.Files.Components
import ClosureLint.Proofs.Files.Collected
import ClosureLint.Proofs.Files.Target
import ClosureLint.Proofs.Files.Written
import ClosureLint.Proofs.Files.Unseen
import ClosureLint.Proofs.Selection
import ClosureLint.Proofs.Additions
import ClosureLint.Proofs.Report.Findings
import ClosureLint.Proofs.Report.ExitCode
import ClosureLint.Proofs.Report.Highest
import ClosureLint.Proofs.Report.Flags
import ClosureLint.Proofs.Report.Limits
import ClosureLint.Proofs.Report.Arrangement
import ClosureLint.Proofs.Report.Positions
import ClosureLint.Proofs.Report.Once
import ClosureLint.Proofs.Report.Collapse
import ClosureLint.Proofs.Report.Arguments
import ClosureLint.Proofs.BodyLength.Padding
import ClosureLint.Proofs.BodyLength.Exhaustive
import ClosureLint.Proofs.BodyLength.Enclosing
import ClosureLint.Proofs.BodyLength.Ascending
import ClosureLint.Proofs.BodyLength.Shebang
import ClosureLint.Proofs.BodyLength.Visible
import ClosureLint.Proofs.BodyLength.Returns
import ClosureLint.Proofs.Json.Reading
import ClosureLint.Proofs.BodyLength.Samples
import ClosureLint.Proofs.Config.Reading
import ClosureLint.Proofs.Config.Acceptance
import ClosureLint.Proofs.Config.Limits
import ClosureLint.Proofs.Command.Lint
import ClosureLint.Proofs.Command.Effects
import ClosureLint.Proofs.Command.Neutral
