/-! A text cut into its lines. -/

namespace PeerHealth.Text

/-- The pieces of `cs` between the characters equal to `sep`; always at least one. -/
def splitOnChar (sep : Char) : List Char → List (List Char)
  | [] => [[]]
  | c :: cs =>
    if c = sep then [] :: splitOnChar sep cs
    else match splitOnChar sep cs with
      | [] => [[c]]
      | piece :: pieces => (c :: piece) :: pieces

/-- A line ending in a carriage return, without it. -/
def dropReturn (line : List Char) : List Char :=
  if line.getLast? = some '\r' then line.dropLast else line

/-- The lines of a text: each ends in a newline or in a carriage return and a newline, which are
not part of it, and the last needs no ending. -/
def lines (s : String) : List String :=
  let pieces := splitOnChar '\n' s.toList
  let ended := (pieces.dropLast.map dropReturn)
  let last := match pieces.getLast? with
    | some (c :: cs) => [c :: cs]
    | _ => []
  (ended ++ last).map String.ofList

end PeerHealth.Text
