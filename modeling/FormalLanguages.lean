import FormalLanguages.Symbol
import FormalLanguages.Digest
import FormalLanguages.SymbolString
import FormalLanguages.Phrase
import FormalLanguages.Index.Kind
import FormalLanguages.Key
import FormalLanguages.Fault
import FormalLanguages.Index
import FormalLanguages.Refusal
import FormalLanguages.Store
import FormalLanguages.Store.Session
import FormalLanguages.Graph
import FormalLanguages.Table
import FormalLanguages.Alphabet
import FormalLanguages.Pattern
import FormalLanguages.Grammar.Production
import FormalLanguages.Grammar
import FormalLanguages.Grammar.Pattern
import FormalLanguages.Automaton.Transition
import FormalLanguages.Automaton
import FormalLanguages.Automaton.Pattern
import FormalLanguages.Match
import FormalLanguages.Container
import FormalLanguages.Search
import FormalLanguages.Workspace
import FormalLanguages.Workspace.Command
import FormalLanguages.Workspace.Holding
import FormalLanguages.Proofs.SymbolString
import FormalLanguages.Proofs.Fingerprint
import FormalLanguages.Proofs.Agreement
import FormalLanguages.Proofs.Rendering
import FormalLanguages.Proofs.Outcome
import FormalLanguages.Proofs.Store
import FormalLanguages.Proofs.Store.Ledger
import FormalLanguages.Proofs.Store.Mirrors
import FormalLanguages.Proofs.Store.Session
import FormalLanguages.Proofs.Chain
import FormalLanguages.Proofs.Graph
import FormalLanguages.Proofs.Graph.Append
import FormalLanguages.Proofs.Graph.Reclaim
import FormalLanguages.Proofs.Graph.Order
import FormalLanguages.Proofs.Graph.Seek
import FormalLanguages.Proofs.Graph.Change
import FormalLanguages.Proofs.Pattern
import FormalLanguages.Proofs.Unification
import FormalLanguages.Proofs.Table
import FormalLanguages.Proofs.Container
import FormalLanguages.Proofs.Grammar
import FormalLanguages.Proofs.Automaton
import FormalLanguages.Proofs.Axis
import FormalLanguages.Proofs.Search
import FormalLanguages.Proofs.References
import FormalLanguages.Proofs.Workspace
import FormalLanguages.Proofs.Workspace.Step
import FormalLanguages.Proofs.Workspace.Account
import FormalLanguages.Proofs.Workspace.Chains
import FormalLanguages.Proofs.Graph.Cover
import FormalLanguages.Proofs.Search.Enumeration
import FormalLanguages.Proofs.Workspace.Enumeration
import FormalLanguages.Proofs.Graph.Listing
import FormalLanguages.Proofs.Search.Drain
import FormalLanguages.Proofs.Workspace.Filter
import FormalLanguages.Proofs.Workspace.Frame
import FormalLanguages.Proofs.Workspace.History
import FormalLanguages.Proofs.Workspace.Duplicates
import FormalLanguages.Proofs.Workspace.Productions
import FormalLanguages.Proofs.Workspace.Transitions
import FormalLanguages.Proofs.Graph.Alike
import FormalLanguages.Proofs.Search.Alike
import FormalLanguages.Proofs.Concealing
import FormalLanguages.Proofs.Workspace.Alike
import FormalLanguages.Proofs.Workspace.Reclaiming
import FormalLanguages.Proofs.Workspace.Creation
import FormalLanguages.Proofs.Workspace.Identity
import FormalLanguages.Proofs.Workspace.Faults
import FormalLanguages.Proofs.Workspace.Changes
import FormalLanguages.Proofs.Alphabet
import FormalLanguages.Proofs.Workspace.Interning
import FormalLanguages.Proofs.Workspace.Closed
import FormalLanguages.Proofs.Graph.Uncounted
import FormalLanguages.Proofs.Search.Uncounted
import FormalLanguages.Proofs.Workspace.Writing
import FormalLanguages.Proofs.Workspace.Lineage
import FormalLanguages.Proofs.Search.Restart
import FormalLanguages.Proofs.Workspace.Restart
import FormalLanguages.Proofs.Workspace.Matching
import FormalLanguages.Proofs.Workspace.Clearing
import FormalLanguages.Proofs.Workspace.Refusals
import FormalLanguages.Proofs.Search.Numbers
import FormalLanguages.Proofs.Workspace.Numbers
import FormalLanguages.Proofs.Workspace.Productive
import FormalLanguages.Proofs.Graph.Strike
import FormalLanguages.Proofs.Workspace.Settling
import FormalLanguages.Proofs.Workspace.Heredity
import FormalLanguages.Proofs.Search.Plain
import FormalLanguages.Proofs.Holding
import FormalLanguages.Proofs.Holding.Search
import FormalLanguages.Proofs.Workspace.Holding
import FormalLanguages.Proofs.Workspace.Removal
import FormalLanguages.Proofs.Workspace.Emptying
import FormalLanguages.Proofs.Workspace.Walks
