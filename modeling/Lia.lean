import Lia.Number.Binary64
import Lia.Number.Decimal
import Lia.Number
import Lia.Text.Printable
import Lia.Text.Quoted
import Lia.Value
import Lia.Value.Json
import Lia.Note
import Lia.Token
import Lia.Token.Lexeme
import Lia.Token.Scan
import Lia.Text.Lines
import Lia.Stmt
import Lia.Parser.State
import Lia.Parser
import Lia.Stmt.Record
import Lia.Stmt.Print
import Lia.Stmt.Summary
import Lia.Ids
import Lia.Block
import Lia.Target
import Lia.Lowering.Draft
import Lia.Lowering
import Lia.Bytes
import Lia.Digest.Crc32
import Lia.Digest.Md5
import Lia.Archive
import Lia.Archive.Reader
import Lia.Text.Blank
import Lia.Text.Digit
import Lia.Asset
import Lia.Project
import Lia.Report
import Lia.Command.Arguments
import Lia.FileSystem
import Lia.Command
import Lia.Main
import Lia.Proofs.Grammar
import Lia.Proofs.Parser.Step
import Lia.Proofs.Grammar.Complete
import Lia.Proofs.Grammar.Sound
import Lia.Proofs.Grammar.Parse
import Lia.Proofs.Image
import Lia.Proofs.Lowering.Numbers
import Lia.Proofs.Lowering.Statements
import Lia.Proofs.Lowering.Scripts
import Lia.Proofs.Lowering.Forest
import Lia.Proofs.Lowering.Reading
import Lia.Proofs.Number.Plain
import Lia.Proofs.Token.Spelled
import Lia.Proofs.Stmt.Print
import Lia.Proofs.Parser.FirstError
import Lia.Proofs.Token.Segmentation
import Lia.Proofs.Number.Reread
import Lia.Proofs.Stmt.WellFormed
import Lia.Proofs.Stmt.Reprint
import Lia.Proofs.Lowering.Ids
import Lia.Proofs.Lowering.Prune
import Lia.Proofs.Token.Append
import Lia.Proofs.Value
import Lia.Proofs.Value.Json
import Lia.Proofs.Grammar.Append
import Lia.Proofs.Stmt.Record
import Lia.Proofs.Parser.Run
import Lia.Proofs.Parser.Calls
import Lia.Proofs.Parser.Layout
import Lia.Proofs.Lowering.Renaming
import Lia.Proofs.Number.Exact
import Lia.Proofs.Stmt.Faithful
import Lia.Proofs.Token.Joined
import Lia.Proofs.Token.Unexpected
import Lia.Proofs.Grammar.Cut
import Lia.Proofs.Lowering.Refusal
import Lia.Proofs.Lowering.Creation
import Lia.Proofs.Lowering.Links
import Lia.Proofs.Lowering.Behind
import Lia.Proofs.Lowering.Stepwise
import Lia.Proofs.Lowering.Program
import Lia.Proofs.Lowering.Frame
import Lia.Proofs.Text.Lines
import Lia.Proofs.Report
import Lia.Proofs.Stmt.Defects
import Lia.Proofs.Lowering.Places
import Lia.Proofs.Lowering.Notes
import Lia.Proofs.Stmt.Equality
import Lia.Proofs.Lowering.Alike
import Lia.Proofs.Archive
import Lia.Proofs.Project
import Lia.Proofs.Command
