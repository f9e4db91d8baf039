import Frontend.Cli.Run
import Frontend.Main
import Frontend.Parser
import Frontend.Source
import Frontend.Trace
import Frontend.Tree.Canonical
import Frontend.Tree.Dump
import Frontend.Tree.Json
import Frontend.Proofs.Lexing.Tokens
import Frontend.Proofs.Tree.Spans
import Frontend.Proofs.Tree.WellFormed
import Frontend.Proofs.Tree.Operator
import Frontend.Proofs.Tree.Moved
import Frontend.Proofs.Tree.BlockDepth
import Frontend.Proofs.Tree.Spelling
import Frontend.Proofs.Grammar.Derivation
import Frontend.Proofs.Grammar.Delivery
import Frontend.Proofs.Grammar.Adequacy
import Frontend.Proofs.Grammar.Soundness
import Frontend.Proofs.Grammar.Image
import Frontend.Proofs.Grammar.Coverage
import Frontend.Proofs.Grammar.Completeness
import Frontend.Proofs.Lexing.Layout
import Frontend.Proofs.Lexing.LongestMatch
import Frontend.Proofs.Lexing.Lossless
import Frontend.Proofs.Grammar.TreeSpans
import Frontend.Proofs.Lexing.Parts
import Frontend.Proofs.Grammar.Beside
import Frontend.Proofs.Grammar.Locality
import Frontend.Proofs.Grammar.Rounds
import Frontend.Proofs.Grammar.Slices
import Frontend.Proofs.Grammar.Appending
import Frontend.Proofs.Grammar.BlockDepth
import Frontend.Proofs.Tree.Height
import Frontend.Proofs.Grammar.Height
import Frontend.Proofs.Tree.Alike
import Frontend.Proofs.Grammar.NodeSpans
import Frontend.Proofs.Grammar.Notices
import Frontend.Proofs.Grammar.Words
import Frontend.Proofs.Grammar.Sentence
import Frontend.Proofs.Grammar.Viable
import Frontend.Proofs.Grammar.FirstFault
import Frontend.Proofs.Checked.Checks
import Frontend.Proofs.Checked.Scanner
import Frontend.Proofs.Checked.Grammar
import Frontend.Proofs.Checked.Reading
import Frontend.Proofs.Checked.Report
import Frontend.Proofs.Checked.NoPanic
import Frontend.Proofs.Tree.Nodes
import Frontend.Proofs.Trace.Walk
import Frontend.Proofs.Trace.Narration
import Frontend.Proofs.Trace.Events
import Frontend.Proofs.Trace.Order
import Frontend.Proofs.Tree.Unambiguous
import Frontend.Proofs.Tree.OpenEnd
import Frontend.Proofs.Grammar.Rendering
import Frontend.Proofs.Tree.CanonicalSpelling
import Frontend.Proofs.Grammar.Stable
import Frontend.Proofs.Source.Lines
import Frontend.Proofs.Source.Excerpts
import Frontend.Proofs.Cascade.Log
import Frontend.Proofs.Cascade.Readers
import Frontend.Proofs.Cascade.Bound
import Frontend.Proofs.Grammar.Quotations
import Frontend.Proofs.Text.SingleLines
import Frontend.Proofs.Grammar.Rejection
import Frontend.Proofs.Text.Quoted
import Frontend.Proofs.Text.TokenTable
import Frontend.Proofs.Text.Json
import Frontend.Proofs.Text.JsonLayout
import Frontend.Proofs.Tree.Json
import Frontend.Proofs.Checked.Expression
import Frontend.Proofs.Lexing.Calls
