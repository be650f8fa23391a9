import SaveRam.Main
import SaveRam.Interchange
import SaveRam.Proofs.Pass.Effect
import SaveRam.Proofs.Pass.Append
import SaveRam.Proofs.Pass.Outcome
import SaveRam.Proofs.Nibble.Table
import SaveRam.Proofs.Nibble.Linear
import SaveRam.Proofs.Pass.Affine
import SaveRam.Proofs.Pass.Footprint
import SaveRam.Proofs.Numeral.Notation
import SaveRam.Proofs.Token.Longest
import SaveRam.Proofs.Token.Segmentation
import SaveRam.Proofs.Token.Words
import SaveRam.Proofs.Reading.Written
import SaveRam.Proofs.Reading.Words
import SaveRam.Proofs.Report.Recorded
import SaveRam.Proofs.Search.Rounds
import SaveRam.Proofs.Search.Times
import SaveRam.Proofs.Search.Failure
import SaveRam.Proofs.Search.Course
import SaveRam.Proofs.Search.FirstReturn
import SaveRam.Proofs.Search.Footprint
import SaveRam.Proofs.Search.Cycle
import SaveRam.Proofs.Report.Order
import SaveRam.Proofs.Pass.Reset
import SaveRam.Proofs.Search.Matches
import SaveRam.Proofs.Search.Independence
import SaveRam.Proofs.Search.Resume
import SaveRam.Proofs.Dump.Windows
import SaveRam.Proofs.Report.Grouping
import SaveRam.Proofs.Search.Observer
import SaveRam.Proofs.Search.Totals
import SaveRam.Proofs.Numeral.Shown
import SaveRam.Proofs.Program.Listing
import SaveRam.Proofs.Report.Reader
import SaveRam.Proofs.Report.Faithful
import SaveRam.Proofs.Memory.Map
import SaveRam.Proofs.Files.Writing
import SaveRam.Proofs.Dump.Observer
import SaveRam.Proofs.Command.Product
import SaveRam.Proofs.CommandLine.Exit
import SaveRam.Proofs.CommandLine.Strict
import SaveRam.Proofs.Dump.Resume
import SaveRam.Proofs.CommandLine.Resume
import SaveRam.Proofs.Pass.Access
import SaveRam.Proofs.Pass.Frame
import SaveRam.Proofs.Pass.Exchange
import SaveRam.Proofs.Pass.Involution
import SaveRam.Proofs.CommandLine.Effects
import SaveRam.Proofs.Nibble.RunningXor
import SaveRam.Proofs.Triple.Canonical
import SaveRam.Proofs.Reading.Stop
import SaveRam.Proofs.Reading.Append
import SaveRam.Proofs.Pass.Untouched
import SaveRam.Proofs.Search.Untouched
import SaveRam.Proofs.Digest.Change
import SaveRam.Proofs.Nibble.Origin
import SaveRam.Proofs.Dump.Reader
import SaveRam.Proofs.Snapshot.RoundTrip
import SaveRam.Proofs.Digest.Polynomial
import SaveRam.Proofs.Numeral.Cut
import SaveRam.Proofs.Interchange.RoundTrip
