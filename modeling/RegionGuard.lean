import RegionGuard.Checker.Handle
import RegionGuard.Command.Folder
import RegionGuard.Main
import RegionGuard.Proofs.Table.Chain
import RegionGuard.Proofs.Table.Range
import RegionGuard.Proofs.Table.Reserved
import RegionGuard.Proofs.Table.Block
import RegionGuard.Proofs.Table.Linking
import RegionGuard.Proofs.Table.BlockChange
import RegionGuard.Proofs.Table.Registration
import RegionGuard.Proofs.Table.Room
import RegionGuard.Proofs.Table.Separate
import RegionGuard.Proofs.Table.Tracking
import RegionGuard.Proofs.Run
import RegionGuard.Proofs.Table.Live
import RegionGuard.Proofs.Table.Access
import RegionGuard.Proofs.Heap.Extents
import RegionGuard.Proofs.Heap.Tiling
import RegionGuard.Proofs.Heap.Memory
import RegionGuard.Proofs.Checker.InStep
import RegionGuard.Proofs.Checker.Operations
import RegionGuard.Proofs.Access.Scalar
import RegionGuard.Proofs.Checker.Run
import RegionGuard.Proofs.Checker.Isolation
import RegionGuard.Proofs.Table.Footprint
import RegionGuard.Proofs.Table.Blocks
import RegionGuard.Proofs.Table.Looking
import RegionGuard.Proofs.Table.GuardZone
import RegionGuard.Proofs.Table.Accounting
import RegionGuard.Proofs.Table.Travel
import RegionGuard.Proofs.Checker.Failing
import RegionGuard.Proofs.Checker.Peers
import RegionGuard.Proofs.Trace.Strictness
import RegionGuard.Proofs.Heap.Gaps
import RegionGuard.Proofs.Heap.Exact
import RegionGuard.Proofs.Heap.Ledger
import RegionGuard.Proofs.Checker.Upkeep
import RegionGuard.Proofs.Checker.Resizing
import RegionGuard.Proofs.Checker.PlainPointers
import RegionGuard.Proofs.Text.Numeral
import RegionGuard.Proofs.Text.Split
import RegionGuard.Proofs.Trace.Layout
import RegionGuard.Proofs.Trace.RoundTrip
import RegionGuard.Proofs.Table.Barred
import RegionGuard.Proofs.Table.Wrapping
import RegionGuard.Proofs.Table.Undoing
import RegionGuard.Proofs.Table.Rollback
import RegionGuard.Proofs.Table.Marking
import RegionGuard.Proofs.Heap.FirstFit
import RegionGuard.Proofs.Access.Codec
import RegionGuard.Proofs.Table.Repeating
import RegionGuard.Proofs.Checker.StoreLoad
import RegionGuard.Proofs.Checker.Zeroing
import RegionGuard.Proofs.Table.Supply
import RegionGuard.Proofs.Trace.SignedNumber
import RegionGuard.Proofs.Config.Written
import RegionGuard.Proofs.Address.Word
import RegionGuard.Proofs.Table.Picture
import RegionGuard.Proofs.Table.Reuse
import RegionGuard.Proofs.Heap.Copying
import RegionGuard.Proofs.Table.Visiting
