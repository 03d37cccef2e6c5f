/-!
# Coverage gaps

An operation that a kind of value does not implement. A gap is not an error of
the program that reaches it, so nothing catches one.
-/

namespace ObjectModel

structure Gap where
  operation : String
  subject : String
  deriving DecidableEq, Repr

def Gap.message (g : Gap) : String := s!"'{g.operation}' unimplemented for '{g.subject}'"

end ObjectModel
