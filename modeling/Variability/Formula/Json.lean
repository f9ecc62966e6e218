import Variability.Formula
import Variability.Json

/-!
Formulas as JSON values: the constants are texts, everything else is an object with one member
that is named for the connective.
-/

namespace Variability.Formula

mutual
def toJson : Formula → Json
  | tt => .string "True"
  | ff => .string "False"
  | var name => .object [("Var", .string name)]
  | not f => .object [("Not", f.toJson)]
  | and fs => .object [("And", .array (toJsonAll fs))]
  | or fs => .object [("Or", .array (toJsonAll fs))]

def toJsonAll : List Formula → List Json
  | [] => []
  | f :: fs => f.toJson :: toJsonAll fs
end

end Variability.Formula
