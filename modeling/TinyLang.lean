import TinyLang.Main
import TinyLang.Directory
import TinyLang.Grammar
import TinyLang.Proofs.KindSet.Construction
import TinyLang.Proofs.Grammar.Language
import TinyLang.Proofs.Parser.Language
import TinyLang.Proofs.Parser.Move
import TinyLang.Proofs.Parser.Prediction
import TinyLang.Proofs.Parser.Input
import TinyLang.Proofs.Parser.Recognition
import TinyLang.Proofs.Parser.EarliestError
import TinyLang.Proofs.Parser.Recovery
import TinyLang.Proofs.Lexer.Division
import TinyLang.Proofs.Lexer.Scanning
import TinyLang.Proofs.Lexer.Lossless
import TinyLang.Proofs.Lexer.Halting
import TinyLang.Proofs.Lexer.Lines
import TinyLang.Proofs.Lexer.Legality
import TinyLang.Proofs.Parser.Accounting
import TinyLang.Proofs.Command.Output
import TinyLang.Proofs.Command.Verdict
import TinyLang.Proofs.Lexer.Order
import TinyLang.Proofs.Parser.ErrorOrder
import TinyLang.Proofs.Parser.ErrorLimit
import TinyLang.Proofs.Parser.Termination
import TinyLang.LineReader
import TinyLang.Proofs.Lexer.Failure
import TinyLang.Proofs.Source.LineReader
import TinyLang.Proofs.Lexer.Bytes
import TinyLang.Proofs.Lexer.Comments
import TinyLang.Proofs.Lexer.Printing
import TinyLang.Proofs.Lexer.Latch
import TinyLang.Proofs.Lexer.LifeCycle
import TinyLang.Proofs.Parser.Completion
import TinyLang.Proofs.Parser.Expressions
import TinyLang.Proofs.Parser.Symmetry
import TinyLang.Proofs.Parser.Statements
import TinyLang.Proofs.Parser.Unfinished
import TinyLang.Proofs.Diagnostic.Color
import TinyLang.Proofs.Command.Excerpt
import TinyLang.Proofs.Command.Flags
import TinyLang.Proofs.Command.Skipped
import TinyLang.Proofs.Command.Prompting
import TinyLang.Proofs.Lexer.Resume
import TinyLang.Proofs.Lexer.Lookahead
import TinyLang.Proofs.Parser.Walk
