import GoTree.Builder
import GoTree.Fault
import GoTree.Grammar.Decl
import GoTree.Grammar.Expr
import GoTree.Grammar.Leaf
import GoTree.Grammar.Operator
import GoTree.Grammar.Payload
import GoTree.Grammar.Stmt
import GoTree.Grammar.Type
import GoTree.Handle
import GoTree.Main
import GoTree.NameTable
import GoTree.Node
import GoTree.Number.Binary64
import GoTree.Number.Decimal
import GoTree.Number.Digits
import GoTree.Number.Word64
import GoTree.Print.Doc
import GoTree.Print.Drafter
import GoTree.Print.Pen
import GoTree.Print.Printer
import GoTree.Profile.Arguments
import GoTree.Profile.Run
import GoTree.Profile.Template
import GoTree.Proofs.AbortedRuns
import GoTree.Proofs.AcyclicStores
import GoTree.Proofs.Adequacy
import GoTree.Proofs.Bounds
import GoTree.Proofs.Brackets
import GoTree.Proofs.Changes
import GoTree.Proofs.Checksum
import GoTree.Proofs.ClosedStores
import GoTree.Proofs.Closedness
import GoTree.Proofs.Commutation
import GoTree.Proofs.Construction
import GoTree.Proofs.Counting
import GoTree.Proofs.Determinism
import GoTree.Proofs.Edits
import GoTree.Proofs.Execution
import GoTree.Proofs.History
import GoTree.Proofs.IdentityWalk
import GoTree.Proofs.Indentation
import GoTree.Proofs.Interning
import GoTree.Proofs.KindDiscipline
import GoTree.Proofs.LeafMaps
import GoTree.Proofs.Ledger
import GoTree.Proofs.Literals
import GoTree.Proofs.Machine
import GoTree.Proofs.Moments
import GoTree.Proofs.Observer
import GoTree.Proofs.OpenEdits
import GoTree.Proofs.Origins
import GoTree.Proofs.Outline
import GoTree.Proofs.Ownership
import GoTree.Proofs.Parts
import GoTree.Proofs.PrintedParts
import GoTree.Proofs.PrintedText
import GoTree.Proofs.Refinement
import GoTree.Proofs.Rendering
import GoTree.Proofs.Resplitting
import GoTree.Proofs.RunFrame
import GoTree.Proofs.Scanning
import GoTree.Proofs.SingleVisits
import GoTree.Proofs.Splicing
import GoTree.Proofs.SplitTrees
import GoTree.Proofs.Splitting
import GoTree.Proofs.StableHandles
import GoTree.Proofs.SteadyStores
import GoTree.Proofs.StoreLaws
import GoTree.Proofs.SurfaceOrder
import GoTree.Proofs.Templates
import GoTree.Proofs.TextTrees
import GoTree.Proofs.TraceLaw
import GoTree.Proofs.TreeTraversal
import GoTree.Proofs.Unfolding
import GoTree.Proofs.Writing
import GoTree.Slots.Basic
import GoTree.Slots.Grammar
import GoTree.Store.Action
import GoTree.Store.Basic
import GoTree.Store.Table
import GoTree.Text.CodeSet
import GoTree.Text.CombiningMark
import GoTree.Text.DefaultIgnorable
import GoTree.Text.Quoted
import GoTree.Text.Unprintable
import GoTree.Transform.Basic
import GoTree.Transform.Rules
import GoTree.Transform.Split
import GoTree.Transform.Violation
import GoTree.Transform.Walk
