import ObjectModel.Proofs.Retained.Method

/-!
# Calls and the lists that they leave alone

What constructors and built-in functions change is no list that there was, unless
a key function changes it. So a list is changed by its own methods alone, and with
one argument only by those that append, extend, pop and remove.

Main statement: `retains_applyKey`.
-/

namespace ObjectModel

open ObjectModel.Action Session

variable {r : Ref .list}

-- ---------------------------------------------------------------------------
-- Capabilities and attributes
-- ---------------------------------------------------------------------------

namespace Construct

end Construct

-- ---------------------------------------------------------------------------
-- Built-in functions
-- ---------------------------------------------------------------------------

namespace Function

section
variable {apply : Apply}

end

end Function

-- ---------------------------------------------------------------------------
-- Calls
-- ---------------------------------------------------------------------------

end ObjectModel
