import KernelIR.Arena.Basic
import KernelIR.Arena.Edit
import KernelIR.Arena.Ownership
import KernelIR.Arena.Placement
import KernelIR.Arena.Replacement
import KernelIR.Column
import KernelIR.Construction
import KernelIR.Construction.Program
import KernelIR.Decimal.Binary64
import KernelIR.Decimal.Shortest
import KernelIR.Device.Context
import KernelIR.Device.Driver
import KernelIR.Device.Session
import KernelIR.Fault
import KernelIR.Handle
import KernelIR.Kind
import KernelIR.Log
import KernelIR.Proofs.Arena.Commuting
import KernelIR.Proofs.Arena.Effects
import KernelIR.Proofs.Arena.Erasing
import KernelIR.Proofs.Arena.Erasure
import KernelIR.Proofs.Arena.Exactness
import KernelIR.Proofs.Arena.Links
import KernelIR.Proofs.Arena.Nesting
import KernelIR.Proofs.Arena.Places
import KernelIR.Proofs.Arena.Reach
import KernelIR.Proofs.Arena.Redirecting
import KernelIR.Proofs.Arena.Replacing
import KernelIR.Proofs.Arena.Step
import KernelIR.Proofs.Arena.Tombstones
import KernelIR.Proofs.Arena.Usage
import KernelIR.Proofs.Arena.View
import KernelIR.Proofs.Construction.Growth
import KernelIR.Proofs.Construction.Order
import KernelIR.Proofs.Descent
import KernelIR.Proofs.Device.Handles
import KernelIR.Proofs.Device.Release
import KernelIR.Proofs.Device.Session
import KernelIR.Proofs.Fallible
import KernelIR.Proofs.Rewrite.Acceptance
import KernelIR.Proofs.Rewrite.Bounds
import KernelIR.Proofs.Rewrite.Confined
import KernelIR.Proofs.Rewrite.Counting
import KernelIR.Proofs.Rewrite.Drafts
import KernelIR.Proofs.Rewrite.Enclosing
import KernelIR.Proofs.Rewrite.Failing
import KernelIR.Proofs.Rewrite.FixedPoint
import KernelIR.Proofs.Rewrite.Leftovers
import KernelIR.Proofs.Rewrite.OnePass
import KernelIR.Proofs.Rewrite.Preservation
import KernelIR.Proofs.Rewrite.Reports
import KernelIR.Proofs.Rewrite.Rounds
import KernelIR.Proofs.Rewrite.Sequence
import KernelIR.Proofs.Rewrite.Splice
import KernelIR.Proofs.Rewrite.Truncation
import KernelIR.Proofs.Rewrite.Verification
import KernelIR.Proofs.Slots
import KernelIR.Proofs.Tree.Checks
import KernelIR.Proofs.Tree.Climbing
import KernelIR.Proofs.Tree.Contraction
import KernelIR.Proofs.Tree.Cycles
import KernelIR.Proofs.Tree.Exchanging
import KernelIR.Proofs.Tree.Likeness
import KernelIR.Proofs.Tree.Numbering
import KernelIR.Proofs.Tree.Ownership
import KernelIR.Proofs.Tree.Pruning
import KernelIR.Proofs.Tree.Rendering
import KernelIR.Proofs.Tree.Scan
import KernelIR.Proofs.Tree.Usages
import KernelIR.Proofs.Tree.Valid
import KernelIR.Proofs.Visits
import KernelIR.Rewrite.Pipeline
import KernelIR.Rewrite.Rule
import KernelIR.Rewrite.Run
import KernelIR.Scalar
import KernelIR.Tree.Listing
import KernelIR.Tree.Validity
import KernelIR.Tree.Walk
