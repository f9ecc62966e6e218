/-!
The two sides of an edit, and what the edit did to a line. A line that was added exists only
after the edit, a removed one only before it, any other on both sides.
-/

namespace Variability

inductive Side where
  | before
  | after
  deriving DecidableEq, Repr

namespace Side

def all : List Side :=
  [before, after]

def other : Side → Side
  | before => after
  | after => before

def name : Side → String
  | before => "before"
  | after => "after"

@[simp] theorem other_other (s : Side) : s.other.other = s := by
  cases s <;> rfl

@[simp] theorem mem_all (s : Side) : s ∈ all := by
  cases s <;> simp [all]

end Side

inductive Edit where
  | added
  | removed
  | kept
  deriving DecidableEq, Repr

namespace Edit

def all : List Edit :=
  [added, removed, kept]

/-- The token that stands for the edit in line graphs and statistics. -/
def token : Edit → String
  | added => "ADD"
  | removed => "REM"
  | kept => "NON"

def ofToken? (text : String) : Option Edit :=
  all.find? (·.token = text)

/-- The edit that a line's marker announces: every marker but `+` and `-` marks context. -/
def ofMarker (marker : Char) : Edit :=
  if marker = '+' then added else if marker = '-' then removed else kept

def existsOn : Edit → Side → Bool
  | added, .before => false
  | added, .after => true
  | removed, .before => true
  | removed, .after => false
  | kept, _ => true

def sides (e : Edit) : List Side :=
  Side.all.filter e.existsOn

@[simp] theorem mem_sides {e : Edit} {s : Side} : s ∈ e.sides ↔ e.existsOn s = true := by
  simp [sides]

@[simp] theorem ofToken?_token (e : Edit) : ofToken? e.token = some e := by
  cases e <;> decide

end Edit

end Variability
