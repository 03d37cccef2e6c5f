import ObjectModel.Call.Basic
import ObjectModel.Proofs.Arithmetic
import ObjectModel.Proofs.ClassInfo
import ObjectModel.Proofs.Encoding.RoundTrip
import ObjectModel.Proofs.Numeral.Grammar
import ObjectModel.Proofs.Numeral.RoundTrip
import ObjectModel.Proofs.Numeral.Sources
import ObjectModel.Proofs.Program.Cuts
import ObjectModel.Proofs.Program.Dict
import ObjectModel.Proofs.Program.Equality
import ObjectModel.Proofs.Program.Exhaustion
import ObjectModel.Proofs.Program.Extreme
import ObjectModel.Proofs.Program.Failure
import ObjectModel.Proofs.Program.Growth
import ObjectModel.Proofs.Program.Identity
import ObjectModel.Proofs.Program.InPlace
import ObjectModel.Proofs.Program.Lines
import ObjectModel.Proofs.Program.Merge
import ObjectModel.Proofs.Program.Newlines
import ObjectModel.Proofs.Program.Order
import ObjectModel.Proofs.Program.Range
import ObjectModel.Proofs.Program.Repetition
import ObjectModel.Proofs.Program.Search
import ObjectModel.Proofs.Program.Sequence
import ObjectModel.Proofs.Program.Sort
import ObjectModel.Proofs.Program.SortInPlace
import ObjectModel.Proofs.Program.TextOrder
import ObjectModel.Proofs.Program.TruthValue
import ObjectModel.Proofs.Program.View
import ObjectModel.Proofs.Program.Zip
import ObjectModel.Proofs.Range.Overflow
import ObjectModel.Proofs.Shift
import ObjectModel.Proofs.Slice.Edits
import ObjectModel.Proofs.Text.Literal
import ObjectModel.Proofs.Text.Packed
import ObjectModel.Proofs.Text.Percent
import ObjectModel.Proofs.Text.Search
import ObjectModel.Proofs.Text.Splitting
import ObjectModel.Proofs.Text.Window
import ObjectModel.Proofs.Text.Words
