/-!
Lines of text. A line ends at a line feed or at a carriage return with a line feed behind it; a
carriage return that stands elsewhere, also at the very end of the text, belongs to its line.
-/

namespace Variability.Text

/-- The pieces between line feeds: one more than there are line feeds. -/
def pieces (cs : List Char) : List (List Char) :=
  cs.foldr
    (fun c rest =>
      if c = '\n' then [] :: rest
      else
        match rest with
        | [] => [[c]]
        | piece :: rest => (c :: piece) :: rest)
    [[]]

def dropReturn (line : List Char) : List Char :=
  if line.getLast? = some '\r' then line.dropLast else line

/-- A piece with a line feed behind it is a line and loses its carriage return; the last piece is
a line, as it stands, unless it is empty. -/
def linesOfPieces : List (List Char) → List (List Char)
  | [] => []
  | [last] => if last.isEmpty then [] else [last]
  | piece :: next :: rest => dropReturn piece :: linesOfPieces (next :: rest)

def lines (cs : List Char) : List (List Char) :=
  linesOfPieces (pieces cs)

def unlines (ls : List (List Char)) : List Char :=
  ls.flatMap (· ++ ['\n'])

@[simp] theorem unlines_cons (l : List Char) (ls : List (List Char)) :
    unlines (l :: ls) = l ++ '\n' :: unlines ls := by
  simp [unlines]

theorem unlines_append (ls ms : List (List Char)) :
    unlines (ls ++ ms) = unlines ls ++ unlines ms := by
  simp [unlines]

end Variability.Text
