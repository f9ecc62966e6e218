import Variability.Regex.Footprint
import Variability.Regex.Meaning
import Variability.Regex.Reader

/-!
Regular expressions from texts. A text is read, given its meaning, and taken only if the expression
is not too large to be used.
-/

namespace Variability.Regex

inductive Rejection where
  | problem (problem : Problem)
  | tooLarge
  deriving DecidableEq, Repr

def Rejection.message (text : List Char) : Rejection → String
  | problem p => p.report text
  | tooLarge => s!"Compiled regex exceeds size limit of {sizeLimit} bytes."

def ofText (text : List Char) : Except Rejection Regex :=
  match Expression.read text with
  | .error p => .error (.problem p)
  | .ok e =>
    match e.meaning .standard with
    | .error p => .error (.problem p)
    | .ok (r, _) => if r.fits then .ok r else .error .tooLarge

end Variability.Regex
