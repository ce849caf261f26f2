/-!
# Lines of text

A line ends at a line feed, and a carriage return right before that line feed belongs to the line
end. Text after the last line feed is a line of its own unless it is empty, and there a carriage
return is kept.
-/

namespace ByteComputer.Text

/-- The pieces between the separators; there is one more of them than there are separators. -/
def pieces (sep : Char) (cs : List Char) : List (List Char) :=
  cs.foldr
    (fun c ps => if c = sep then [] :: ps else (c :: ps.headD []) :: ps.tail)
    [[]]

/-- Drops one carriage return from the end. -/
def dropReturn (line : List Char) : List Char :=
  if line.getLast? = some '\r' then line.dropLast else line

/-- The lines of a text, without their line ends. -/
def lines (cs : List Char) : List (List Char) :=
  let ps := pieces '\n' cs
  let rest := ps.getLastD []
  ps.dropLast.map dropReturn ++ if rest = [] then [] else [rest]

end ByteComputer.Text
