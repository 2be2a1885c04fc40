import Baby.Main
import Baby.Store.Snapshot
import Baby.Workspace
import Baby.Proofs.Grammar
import Baby.Proofs.GrammarSound
import Baby.Proofs.GrammarComplete
import Baby.Proofs.Walk
import Baby.Proofs.Traced
import Baby.Proofs.World
import Baby.Proofs.Acts
import Baby.Proofs.Trace
import Baby.Proofs.Replies
import Baby.Proofs.Evaluation
import Baby.Proofs.Scanning
import Baby.Proofs.ParsedTrees
import Baby.Proofs.Log
import Baby.Proofs.Sessions
import Baby.Proofs.Markers
import Baby.Proofs.Frames
import Baby.Proofs.Signals
import Baby.Proofs.Bisimilarity
import Baby.Proofs.HashEntries
import Baby.Proofs.Termination
import Baby.Proofs.Lexemes
import Baby.Proofs.Rereading
import Baby.Proofs.Reprint
import Baby.Proofs.Inspection
import Baby.Proofs.Spelling
import Baby.Proofs.Mimicry
import Baby.Proofs.Relining
import Baby.Proofs.Joining
import Baby.Proofs.Seams
import Baby.Proofs.Aliasing
import Baby.Proofs.Conversations
import Baby.Proofs.DocumentIndex
import Baby.Proofs.Depth
import Baby.Proofs.Assignment
import Baby.Proofs.Chains
import Baby.Proofs.Layout
import Baby.Proofs.Recovery
import Baby.Proofs.WellFormed
import Baby.Proofs.ErrorLines
import Baby.Proofs.Uniformity
import Baby.Proofs.Resynchronisation
import Baby.Proofs.MaximalMunch
import Baby.Proofs.Respacing
import Baby.Proofs.Arithmetic
import Baby.Proofs.HashLiterals
import Baby.Proofs.Effects
import Baby.Proofs.Sequences
import Baby.Proofs.Association
import Baby.Proofs.Printing
import Baby.Proofs.ScopeChains
