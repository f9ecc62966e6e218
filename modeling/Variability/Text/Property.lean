import Variability.Text.Property.Age
import Variability.Text.Property.Binary
import Variability.Text.Property.Category
import Variability.Text.Property.Script

/-!
Sets of characters by the names of Unicode properties. A name alone is a property that a character
has or has not, a general category, or a script; with a value it is a category, a script, the
extended scripts or an age. Letter case, blanks, underscores and hyphens in names do not matter, nor
does the word *is* at the start.
-/

namespace Variability.Text.Property

inductive NameError where
  | propertyNotFound
  | valueNotFound
  deriving DecidableEq, Repr

/-- A name with everything removed that does not matter. The name of comments is kept apart from
the category that it would shrink to. -/
def normalize (name : List Char) : List Char :=
  let shrink (cs : List Char) : List Char :=
    (cs.filter fun c => c.toNat < 0x80 && c ≠ '_' && c ≠ '-' && c ≠ ' ').map Char.toLower
  match name with
  | a :: b :: rest =>
    if a.toLower = 'i' && b.toLower = 's' then
      if shrink rest = ['c'] then ['i', 's', 'c'] else shrink rest
    else shrink name
  | _ => shrink name

def isNamed (name : List Char) (names : List String) : Bool :=
  names.any fun other => normalize other.toList = name

def numberOf? (names : List (List String)) (name : List Char) : Option Nat :=
  names.findIdx? (isNamed name)

/-- The characters of a category, whose name is known but may have no characters. -/
def category? (name : List Char) : Option (Except NameError CharSet) :=
  let ofNumbers (ns : List Nat) : CharSet := ofRuns categoryRuns ns.contains
  let number? (short : String) : Option Nat := numberOf? categoryNames (normalize short.toList)
  if isNamed name ["Any"] then some (.ok .all)
  else if isNamed name ["ASCII"] then some (.ok .ascii)
  else if isNamed name ["Assigned"] then
    some (.ok (ofNumbers (number? "Cn").toList).complement)
  else if isNamed name ["Cs", "Surrogate"] then some (.error .valueNotFound)
  else
    match categoryGroups.find? fun (names, _) => isNamed name names with
    | some (_, members) => some (.ok (ofNumbers (members.filterMap number?)))
    | none => (numberOf? categoryNames name).map fun n => .ok (ofNumbers [n])

def script? (name : List Char) : Option (Except NameError CharSet) :=
  if isNamed name emptyScriptNames then some (.error .valueNotFound)
  else (numberOf? scriptNames name).map fun n => .ok (ofRuns scriptRuns (· = n))

def extendedScript? (name : List Char) : Option (Except NameError CharSet) :=
  let inSet (n value : Nat) : Bool :=
    scriptNames.length < value &&
      (scriptSets[value - scriptNames.length - 1]?.any fun set => set.contains n)
  if isNamed name emptyScriptNames then some (.error .valueNotFound)
  else
    (numberOf? scriptNames name).map fun n =>
      .ok (ofRuns extendedScriptRuns fun value => value = n || inSet n value)

def age? (name : List Char) : Option (Except NameError CharSet) :=
  (numberOf? ageNames name).map fun n => .ok (ofRuns ageRuns (· ≤ n))

/-- The characters that have a property which a character has or has not. -/
def binary? (name : List Char) : Option CharSet :=
  (binaryProperties.find? fun (names, _) => isNamed name names).map fun (_, table) =>
    ofChanges table

/-- Properties that have names but no tables here. -/
def untabledNames : List String :=
  ["Bidi_Class", "bc", "Block", "blk", "Bidi_Mirroring_Glyph", "bmg", "Bidi_Paired_Bracket", "bpb",
    "Bidi_Paired_Bracket_Type", "bpt", "Canonical_Combining_Class", "ccc", "Case_Folding", "cf",
    "Composition_Exclusion", "CE", "Full_Composition_Exclusion", "Comp_Ex",
    "Changes_When_NFKC_Casefolded", "CWKCF", "Decomposition_Mapping", "dm", "Decomposition_Type",
    "dt", "East_Asian_Width", "ea", "Equivalent_Unified_Ideograph", "EqUIdeo",
    "Expands_On_NFC", "XO_NFC", "Expands_On_NFD", "XO_NFD", "Expands_On_NFKC", "XO_NFKC",
    "Expands_On_NFKD", "XO_NFKD", "FC_NFKC_Closure", "FC_NFKC", "Hangul_Syllable_Type", "hst",
    "Indic_Positional_Category", "InPC", "Indic_Syllabic_Category", "InSC", "ISO_Comment",
    "Jamo_Short_Name", "JSN", "Joining_Group", "jg", "Joining_Type", "jt", "Line_Break", "lb",
    "Lowercase_Mapping", "lc", "Name", "na", "Name_Alias", "Unicode_1_Name", "na1",
    "NFC_Quick_Check", "NFC_QC", "NFD_Quick_Check", "NFD_QC", "NFKC_Casefold", "NFKC_CF",
    "NFKC_Quick_Check", "NFKC_QC", "NFKD_Quick_Check", "NFKD_QC", "Numeric_Type", "nt",
    "Numeric_Value", "nv", "Simple_Case_Folding", "scf", "sfc", "Simple_Lowercase_Mapping", "slc",
    "Simple_Titlecase_Mapping", "stc", "Simple_Uppercase_Mapping", "suc", "Titlecase_Mapping", "tc",
    "Unicode_Radical_Stroke", "kRSUnicode", "Uppercase_Mapping", "uc", "Vertical_Orientation", "vo",
    "Grapheme_Cluster_Break", "GCB", "Sentence_Break", "SB", "Word_Break", "WB"]

/-- The set that goes by a name alone. Some short names of properties are taken by categories. -/
def ofName (name : List Char) : Except NameError CharSet :=
  let name := normalize name
  let valued := ["Age", "General_Category", "gc", "Script", "Script_Extensions", "scx"]
  let asProperty :=
    if isNamed name ["cf", "sc", "lc"] then none
    else if isNamed name (valued ++ untabledNames) then some (.error .propertyNotFound)
    else (binary? name).map .ok
  ((asProperty <|> category? name) <|> script? name).getD (.error .propertyNotFound)

def ofValue (property value : List Char) : Except NameError CharSet :=
  let property := normalize property
  let value := normalize value
  let valueOr (found : Option (Except NameError CharSet)) : Except NameError CharSet :=
    found.getD (.error .valueNotFound)
  if isNamed property ["General_Category", "gc"] then valueOr (category? value)
  else if isNamed property ["Script", "sc"] then valueOr (script? value)
  else if isNamed property ["Script_Extensions", "scx"] then valueOr (extendedScript? value)
  else if isNamed property ["Age"] then valueOr (age? value)
  else if isNamed property untabledNames || (binary? property).isSome then .error .valueNotFound
  else .error .propertyNotFound

end Variability.Text.Property
