import ProcLang.Tree.Equality
import ProcLang.Main
import ProcLang.Tree.WellFormed
import ProcLang.Tree.Nesting
import ProcLang.Tree.Grouping
import ProcLang.Parse.Session
import ProcLang.Parse.Log
import ProcLang.Lexical.Tiling
import ProcLang.Parse.Account
import ProcLang.Proofs.RoundTrip
import ProcLang.Proofs.Parse.Resumption
import ProcLang.Proofs.Parse.ErrorPlace
import ProcLang.Parse.Unlimited
import ProcLang.Proofs.Parse.Recursion
import ProcLang.Tree.Openings
import ProcLang.Proofs.Parse.Openings
import ProcLang.Proofs.Tree.Levels
import ProcLang.Proofs.Parse.NestingLimit
import ProcLang.Proofs.Lexical.Concatenation
import ProcLang.Proofs.Parse.Concatenation
import ProcLang.Proofs.Lexical.LongestMatch
import ProcLang.Proofs.Lexical.Lossless
import ProcLang.Proofs.Diagnostics
import ProcLang.Tree.Nodes
import ProcLang.Proofs.Tree.Walk
import ProcLang.Proofs.Tree.Marks
import ProcLang.Proofs.Tree.Conservation
import ProcLang.Tree.Texts
import ProcLang.Proofs.Parse.Naturality
import ProcLang.Tree.Height
import ProcLang.Proofs.Tree.Height
import ProcLang.Proofs.Text.Lines
import ProcLang.Proofs.Text.Carets
import ProcLang.Proofs.Parse.Precedence
import ProcLang.Proofs.Parse.Replay
import ProcLang.Proofs.Text.Bytes
import ProcLang.Proofs.Command.Sessions
import ProcLang.Proofs.Lexical.Separation
import ProcLang.Proofs.Lexical.Stray
import ProcLang.Proofs.Parse.Lookahead
import ProcLang.Tree.Writer
import ProcLang.Proofs.Tree.Writing
import ProcLang.Proofs.Text.Coordinates
import ProcLang.Tree.Places
import ProcLang.Tree.Leaves
import ProcLang.Proofs.Tree.SourceOrder
import ProcLang.Proofs.Tree.Families
import ProcLang.Tree.Spelled
import ProcLang.Proofs.Tree.Clauses
import ProcLang.Proofs.Tree.Blocks
import ProcLang.Proofs.Tree.Indentation
import ProcLang.Parse.Rounds
import ProcLang.Proofs.Command.Outcomes
import ProcLang.Proofs.Parse.Progress
import ProcLang.Proofs.Text.Rendering
