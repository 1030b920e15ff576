import SsaTypes.Decl.Error
import SsaTypes.Decl.Parser
import SsaTypes.Decl.Scan
import SsaTypes.DocComment
import SsaTypes.Fault
import SsaTypes.Hierarchy.Basic
import SsaTypes.Hierarchy.Walk
import SsaTypes.Inference.Context
import SsaTypes.Inference.Guards
import SsaTypes.Inference.Members
import SsaTypes.Inference.Rounds
import SsaTypes.Inference.Rules
import SsaTypes.Inference.Run
import SsaTypes.Inference.Values
import SsaTypes.Json.Basic
import SsaTypes.Json.Printer
import SsaTypes.Json.Reader
import SsaTypes.Json.Token
import SsaTypes.Lookup
import SsaTypes.Options
import SsaTypes.Proofs.AncestorOrder
import SsaTypes.Proofs.Ancestors
import SsaTypes.Proofs.Building
import SsaTypes.Proofs.ByteOffsets
import SsaTypes.Proofs.Closure
import SsaTypes.Proofs.Declarations
import SsaTypes.Proofs.Definite
import SsaTypes.Proofs.Emptied
import SsaTypes.Proofs.Fading
import SsaTypes.Proofs.FailedRuns
import SsaTypes.Proofs.Flattening
import SsaTypes.Proofs.Incoming
import SsaTypes.Proofs.Inert
import SsaTypes.Proofs.Inferred
import SsaTypes.Proofs.Joined
import SsaTypes.Proofs.LatestEntries
import SsaTypes.Proofs.LetterCase
import SsaTypes.Proofs.Limits
import SsaTypes.Proofs.Merging
import SsaTypes.Proofs.MethodCalls
import SsaTypes.Proofs.MissingParents
import SsaTypes.Proofs.NormalForm
import SsaTypes.Proofs.OrderFree
import SsaTypes.Proofs.Pairing
import SsaTypes.Proofs.PlainScans
import SsaTypes.Proofs.Provenance
import SsaTypes.Proofs.Reach
import SsaTypes.Proofs.ReadBack
import SsaTypes.Proofs.Reads
import SsaTypes.Proofs.References
import SsaTypes.Proofs.Renumber
import SsaTypes.Proofs.Respelled
import SsaTypes.Proofs.RespelledRuns
import SsaTypes.Proofs.RespelledTables
import SsaTypes.Proofs.RootMark
import SsaTypes.Proofs.RoundBound
import SsaTypes.Proofs.SameOperations
import SsaTypes.Proofs.Sameness
import SsaTypes.Proofs.Scan
import SsaTypes.Proofs.ScriptForm
import SsaTypes.Proofs.Seeding
import SsaTypes.Proofs.SelfEdges
import SsaTypes.Proofs.SmallLetters
import SsaTypes.Proofs.Spelling
import SsaTypes.Proofs.Stability
import SsaTypes.Proofs.Stall
import SsaTypes.Proofs.StrictSubset
import SsaTypes.Proofs.SubsetOrder
import SsaTypes.Proofs.SubsetRules
import SsaTypes.Proofs.SubsetUnions
import SsaTypes.Proofs.SubsetValues
import SsaTypes.Proofs.TagCase
import SsaTypes.Proofs.Undocumented
import SsaTypes.Proofs.Varied
import SsaTypes.Proofs.Visits
import SsaTypes.Proofs.Yields
import SsaTypes.Script.Basic
import SsaTypes.Script.Build
import SsaTypes.Script.Form
import SsaTypes.Script.Literal
import SsaTypes.Script.Op
import SsaTypes.Script.OpForm
import SsaTypes.Signatures.Basic
import SsaTypes.Signatures.Form
import SsaTypes.Signatures.Standard
import SsaTypes.Table
import SsaTypes.Text.Ascii
import SsaTypes.Text.Blank
import SsaTypes.Text.WordChar
import SsaTypes.Ty.Basic
import SsaTypes.Ty.Combine
import SsaTypes.Ty.Display
import SsaTypes.Ty.Form
import SsaTypes.Ty.Same
import SsaTypes.Ty.Subset
