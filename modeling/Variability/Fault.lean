/-!
Faults end a whole unit of work. Errors in the input are values of their own types and are
recorded; a fault is what is left: a count that leaves the 64-bit words, or a history that gives
out while it is asked.
-/

namespace Variability

inductive Fault where
  | overflow
  | crashed (message : String)
  deriving DecidableEq, Repr

def Fault.message : Fault → String
  | overflow => "attempt to add with overflow"
  | crashed message => message

end Variability
