import ObjectModel.Proofs.Retained.Basic

/-!
# Methods and the lists that they leave alone

A method retains every list but the one that it is a method of. Called with one
argument, most methods of a list retain this list as well.

Main statements: `retains_call` in the namespace of each family of methods,
`SequenceMethod.retains_callList` and `SequenceMethod.retains_callList_single`.
-/

namespace ObjectModel

open ObjectModel.Action Session

variable {r : Ref .list}

-- ---------------------------------------------------------------------------
-- Methods of what is no list
-- ---------------------------------------------------------------------------

namespace TextMethod

end TextMethod

namespace BytesMethod

end BytesMethod

namespace DictMethod

end DictMethod

namespace SetMethod

end SetMethod

namespace SequenceMethod

section
variable {apply : Function.Apply}

section
variable {l : Ref .list}

end

end

end SequenceMethod

end ObjectModel
