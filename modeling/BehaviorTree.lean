import BehaviorTree.Vocabulary.Keyword
import BehaviorTree.Vocabulary.Operator
import BehaviorTree.Vocabulary.Punctuation
import BehaviorTree.Vocabulary.BuiltinType
import BehaviorTree.Vocabulary.Foreign
import BehaviorTree.Vocabulary.Policy
import BehaviorTree.Source
import BehaviorTree.Diagnostic
import BehaviorTree.Diagnostic.Code
import BehaviorTree.Text.Blank
import BehaviorTree.Binary64
import BehaviorTree.Lexical.Fault
import BehaviorTree.Lexical.Escape
import BehaviorTree.Lexical.TokenStream
import BehaviorTree.Program
import BehaviorTree.Program.Arena
import BehaviorTree.Parsing.Skip
import BehaviorTree.Parsing.Recovery
import BehaviorTree.Parsing.Expression
import BehaviorTree.Parsing.Declaration
import BehaviorTree.Program.Traversal
import BehaviorTree.Diagnostic.Printer
import BehaviorTree.Diagnostic.Record
import BehaviorTree.Diagnostic.Graphic
import BehaviorTree.Names.Resolution
import BehaviorTree.Module.Graph
import BehaviorTree.Module.ImportPath
import BehaviorTree.Session
import BehaviorTree.FileSystem.Tree
import BehaviorTree.Compilation
import BehaviorTree.Token.Dump
import BehaviorTree.Program.Dump
import BehaviorTree.CommandLine.Command
import BehaviorTree.Main
import BehaviorTree.Proofs.Syntax.Grammar
import BehaviorTree.Proofs.Parsing.Silence
import BehaviorTree.Proofs.Parsing.TermsRead
import BehaviorTree.Proofs.Parsing.StatementsRead
import BehaviorTree.Proofs.Parsing.ProgramsRead
import BehaviorTree.Proofs.Lexical.Stream
import BehaviorTree.Proofs.Syntax.Nodes
import BehaviorTree.Proofs.Parsing.Soundness
import BehaviorTree.Proofs.Parsing.Acceptance
import BehaviorTree.Proofs.Parsing.TermsAccepted
import BehaviorTree.Proofs.Parsing.StatementsAccepted
import BehaviorTree.Proofs.Parsing.ProgramsAccepted
import BehaviorTree.Proofs.Syntax.Spelling
import BehaviorTree.Proofs.Module.Graph
import BehaviorTree.Proofs.Module.LoadingInvariant
import BehaviorTree.Proofs.Parsing.Ledger
import BehaviorTree.Proofs.Parsing.TermsAccounted
import BehaviorTree.Proofs.Parsing.StatementsAccounted
import BehaviorTree.Proofs.Parsing.ProgramsAccounted
import BehaviorTree.Proofs.Parsing.Accounting
import BehaviorTree.Proofs.Parsing.Agreement
import BehaviorTree.Proofs.Parsing.TermsAgree
import BehaviorTree.Proofs.Parsing.ProgramsAgree
import BehaviorTree.Proofs.FileSystem.Canonical
import BehaviorTree.Proofs.Module.LoadingRun
import BehaviorTree.Proofs.Module.Loading
import BehaviorTree.Proofs.Lexical.Gaps
import BehaviorTree.Proofs.Lexical.Tiling
import BehaviorTree.Proofs.Names.Environment
import BehaviorTree.Proofs.Names.Outline
import BehaviorTree.Proofs.Module.Built
import BehaviorTree.Proofs.Names.Collection
import BehaviorTree.Proofs.Names.Meaning
import BehaviorTree.Proofs.Names.Resolution
import BehaviorTree.Proofs.Parsing.Omission
import BehaviorTree.Proofs.Parsing.TermsMirrored
import BehaviorTree.Proofs.Parsing.ItemsMirrored
import BehaviorTree.Proofs.Parsing.ItemStarts
import BehaviorTree.Proofs.Parsing.Resumption
import BehaviorTree.Proofs.Parsing.StatementsResumed
import BehaviorTree.Proofs.Parsing.ProgramsResumed
import BehaviorTree.Proofs.Parsing.Terminators
import BehaviorTree.Proofs.Module.Steps
import BehaviorTree.Proofs.Module.Cycles
import BehaviorTree.Proofs.Parsing.Errorless
import BehaviorTree.Proofs.Parsing.Scan
import BehaviorTree.Proofs.Syntax.Pieces
import BehaviorTree.Proofs.Parsing.TermsLaid
import BehaviorTree.Proofs.Parsing.Reflow
import BehaviorTree.Proofs.Parsing.StatementsFlow
import BehaviorTree.Proofs.Parsing.StatementsLaid
import BehaviorTree.Proofs.Parsing.ProgramsLaid
import BehaviorTree.Proofs.Parsing.ProgramsFlow
import BehaviorTree.Proofs.Syntax.Forest
import BehaviorTree.Proofs.Parsing.Planted
import BehaviorTree.Proofs.Parsing.TermsPlanted
import BehaviorTree.Proofs.Parsing.ProgramsPlanted
import BehaviorTree.Proofs.Parsing.Forests
import BehaviorTree.Proofs.Lexical.Lines
import BehaviorTree.Proofs.Lexical.Alone
import BehaviorTree.Proofs.Lexical.Texts
import BehaviorTree.Proofs.Names.Locality
import BehaviorTree.Proofs.Syntax.Marks
import BehaviorTree.Proofs.Parsing.Invariants
import BehaviorTree.Proofs.Parsing.TermsRespect
import BehaviorTree.Proofs.Parsing.ProgramsRespect
import BehaviorTree.Proofs.Parsing.Gates
import BehaviorTree.Proofs.Parsing.OneReport
import BehaviorTree.Proofs.Lexical.Faults
import BehaviorTree.Proofs.Parsing.Ranges
import BehaviorTree.Proofs.CommandLine.Stages
import BehaviorTree.Proofs.Syntax.Parentheses
import BehaviorTree.Proofs.Parsing.Anywhere
import BehaviorTree.Proofs.Parsing.Precedence
import BehaviorTree.Proofs.Parsing.NamedStatements
import BehaviorTree.Proofs.Parsing.ChainRuns
import BehaviorTree.Proofs.Parsing.Chains
import BehaviorTree.Proofs.Parsing.Advance
import BehaviorTree.Proofs.Parsing.RecoverySteps
import BehaviorTree.Proofs.Parsing.Enough
import BehaviorTree.Proofs.Parsing.AlwaysAdvances
import BehaviorTree.Proofs.Parsing.Nearsight
import BehaviorTree.Proofs.Parsing.ParsersNearsight
import BehaviorTree.Proofs.Parsing.Enclosed
import BehaviorTree.Proofs.Parsing.Crossings
import BehaviorTree.Proofs.Parsing.ItemEnds
import BehaviorTree.Proofs.Parsing.Braces
import BehaviorTree.Proofs.Parsing.ForkedBlocks
import BehaviorTree.Proofs.Parsing.Constructs
import BehaviorTree.Proofs.Parsing.ForeignConstructs
import BehaviorTree.Proofs.Parsing.OpenBlocks
import BehaviorTree.Proofs.Parsing.MissingBraces
import BehaviorTree.Proofs.Lexical.Numerals
import BehaviorTree.Proofs.Lexical.Reports
import BehaviorTree.Proofs.Lexical.Escapes
import BehaviorTree.Proofs.Lexical.Literals
import BehaviorTree.Proofs.Lexical.Numbers
import BehaviorTree.Proofs.Source.Positions
import BehaviorTree.Proofs.Module.DependencyOrder
import BehaviorTree.Proofs.Source.LineTiling
import BehaviorTree.Proofs.Names.Definitions
import BehaviorTree.Proofs.Names.FirstDefinitions
import BehaviorTree.Proofs.Parsing.ImportPaths
import BehaviorTree.Proofs.Module.DrawnImports
import BehaviorTree.Proofs.Names.UnusedImports
import BehaviorTree.Proofs.FileSystem.Components
import BehaviorTree.Proofs.Module.ImportRules
import BehaviorTree.Proofs.Module.ExtensionRepair
import BehaviorTree.Proofs.Diagnostic.Gutters
import BehaviorTree.Proofs.Diagnostic.Underlines
import BehaviorTree.Proofs.Lexical.Lookahead
import BehaviorTree.Proofs.Lexical.Cuts
import BehaviorTree.Proofs.Parsing.Removals
import BehaviorTree.Proofs.Parsing.CutImports
import BehaviorTree.Proofs.Module.RemovedImports
import BehaviorTree.Proofs.Diagnostic.Layout
import BehaviorTree.Proofs.Diagnostic.Drawing
import BehaviorTree.Proofs.Diagnostic.Headers
import BehaviorTree.Proofs.Diagnostic.Colors
import BehaviorTree.Proofs.Names.ScopeStack
import BehaviorTree.Proofs.Parsing.Brackets
