import SourceBundle.Main
import SourceBundle.Proofs.Disk.Tree
import SourceBundle.Proofs.Path.Joining
import SourceBundle.Proofs.Path.Steps
import SourceBundle.Proofs.Disk.Lookup
import SourceBundle.Proofs.Collection.Visits
import SourceBundle.Proofs.Collection.Ordered
import SourceBundle.Proofs.Disk.Relisting
import SourceBundle.Proofs.Collection.Sorted
import SourceBundle.Proofs.Collection.Selection
import SourceBundle.Proofs.Collection.Rerooting
import SourceBundle.Proofs.Collection.Composition
import SourceBundle.Proofs.Collection.Narrowing
import SourceBundle.Proofs.Text.Newline
import SourceBundle.Proofs.Collection.Spelling
import SourceBundle.Proofs.Disk.Leading
import SourceBundle.Proofs.Disk.Growth
import SourceBundle.Proofs.Disk.Writing
import SourceBundle.Proofs.Run.Delivery
import SourceBundle.Proofs.Collection.Readback
import SourceBundle.Proofs.Disk.Making
import SourceBundle.Proofs.Run.Failure
import SourceBundle.Proofs.Disk.Resolving
import SourceBundle.Proofs.Run.ExitCode
import SourceBundle.Proofs.Collection.Grown
import SourceBundle.Proofs.Disk.Rewriting
import SourceBundle.Proofs.Run.Repetition
import SourceBundle.Proofs.Disk.Saving
import SourceBundle.Proofs.Collection.Written
import SourceBundle.Proofs.Disk.Hiding
import SourceBundle.Proofs.Disk.Passing
import SourceBundle.Proofs.Collection.Hidden
import SourceBundle.Proofs.Collection.Reordered
import SourceBundle.Proofs.Collection.Relative
import SourceBundle.Proofs.Text.Positions
import SourceBundle.Proofs.Run.Abort
import SourceBundle.Proofs.Text.Pieces
import SourceBundle.Proofs.Rules.Shown
import SourceBundle.Proofs.Path.Spelled
import SourceBundle.Proofs.Rules.Extension
import SourceBundle.Proofs.Rules.Agreement
import SourceBundle.Proofs.Text.Seams
import SourceBundle.Proofs.Text.LineEnds
import SourceBundle.Proofs.Text.Sizes
import SourceBundle.Proofs.Collection.Sizes
import SourceBundle.Proofs.Path.Home
import SourceBundle.Proofs.Disk.Given
import SourceBundle.Proofs.Disk.Placing
import SourceBundle.Proofs.Path.Parents
import SourceBundle.Proofs.Disk.Paving
import SourceBundle.Proofs.Disk.Writable
import SourceBundle.Proofs.Options.Wording
import SourceBundle.Proofs.Options.Order
import SourceBundle.Proofs.Decimal.Numeral
import SourceBundle.Proofs.Decimal.Nearness
import SourceBundle.Proofs.Collection.Summary
import SourceBundle.Proofs.Collection.Logged
import SourceBundle.Proofs.Run.Verbosity
