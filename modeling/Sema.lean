import Sema.Syntax.Draft
import Sema.Syntax.Tour
import Sema.Analysis.Report
import Sema.Proofs.Inversion
import Sema.Proofs.Growth
import Sema.Proofs.Nodes
import Sema.Proofs.Search
import Sema.Proofs.Parts
import Sema.Proofs.Displayed
import Sema.Proofs.Accepted
import Sema.Proofs.Placeholders
import Sema.Proofs.Keeps
import Sema.Proofs.Walk
import Sema.Proofs.Filled
import Sema.Proofs.Frames
import Sema.Proofs.Untouched
import Sema.Proofs.Footprint
import Sema.Proofs.Layout
import Sema.Proofs.Collected
import Sema.Proofs.Arranged
import Sema.Proofs.Signed
import Sema.Proofs.Scopes
import Sema.Proofs.Declared
import Sema.Proofs.Planned
import Sema.Proofs.StartingState
import Sema.Proofs.Locals
import Sema.Proofs.ResolutionSites
import Sema.Proofs.Printed
import Sema.Proofs.Traces
import Sema.Proofs.DeclaredTypes
import Sema.Proofs.OpenScopes
import Sema.Proofs.ScopeTree
import Sema.Proofs.Visible
import Sema.Proofs.Lexical
import Sema.Proofs.Returns
import Sema.Proofs.Annotations
import Sema.Proofs.Variables
import Sema.Proofs.Ensures
import Sema.Proofs.WellFormed
import Sema.Proofs.Operations
import Sema.Proofs.Intact
import Sema.Proofs.Complaints
import Sema.Proofs.Members
import Sema.Proofs.Agreement
import Sema.Proofs.Copies
import Sema.Proofs.Symmetry
import Sema.Proofs.Hierarchy
import Sema.Proofs.Lockstep
import Sema.Proofs.OnDemand
import Sema.Proofs.FlowBlocks
import Sema.Proofs.Rearranging
import Sema.Proofs.Assembled
import Sema.Proofs.Counted
import Sema.Proofs.UniqueNames
import Sema.Proofs.SecondWalk
import Sema.Proofs.Faults
import Sema.Proofs.Redeclared
import Sema.Proofs.Pieces
import Sema.Proofs.Checks
import Sema.Proofs.SearchOrder
import Sema.Proofs.RepeatedAnnotations
import Sema.Proofs.Reachability
import Sema.Proofs.SharedSlots
import Sema.Proofs.Soundness
