import GraphTex.Command.Record
import GraphTex.FileTree
import GraphTex.Main
import GraphTex.Session
import GraphTex.Proofs.Balance
import GraphTex.Proofs.Words
import GraphTex.Proofs.Groups
import GraphTex.Proofs.Trees
import GraphTex.Proofs.Grammar
import GraphTex.Proofs.Reading
import GraphTex.Proofs.Acceptance
import GraphTex.Proofs.Rendering
import GraphTex.Proofs.WellFormed
import GraphTex.Proofs.Relocation
import GraphTex.Proofs.Concatenation
import GraphTex.Proofs.Faithful
import GraphTex.Proofs.Printing
import GraphTex.Proofs.Mismatch
import GraphTex.Proofs.Checking
import GraphTex.Proofs.Names
import GraphTex.Proofs.Written
import GraphTex.Proofs.ControlWords
import GraphTex.Proofs.Nesting
import GraphTex.Proofs.Linearity
import GraphTex.Proofs.Lines
import GraphTex.Proofs.Pointing
import GraphTex.Proofs.Attribution
import GraphTex.Proofs.FileChecks
import GraphTex.Proofs.Phases
import GraphTex.Proofs.JsonReader
import GraphTex.Proofs.JsonTexts
import GraphTex.Proofs.Subcommands
import GraphTex.Proofs.Depths
import GraphTex.Proofs.Truncation
import GraphTex.Proofs.Accounting
import GraphTex.Proofs.ArityReports
import GraphTex.Proofs.Formulas
import GraphTex.Proofs.Decoding
import GraphTex.Proofs.Partners
import GraphTex.Proofs.Outermost
import GraphTex.Proofs.Visits
import GraphTex.Proofs.RenderedOnce
import GraphTex.Proofs.Mentioned
import GraphTex.Proofs.ByteOrder
import GraphTex.Proofs.Discovery
import GraphTex.Proofs.FileTrees
import GraphTex.Proofs.JsonTrees
import GraphTex.Proofs.Lexemes
import GraphTex.Proofs.Layouts
