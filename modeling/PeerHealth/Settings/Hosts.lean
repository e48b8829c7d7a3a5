import PeerHealth.Settings.Value
import PeerHealth.Text.Lines
import PeerHealth.Text.Utf8

/-! The list of hosts to look for: either in the setting itself, with commas, or in a file that it
names, one a line. -/

namespace PeerHealth.Settings

/-- The files that a node may read, by name. -/
abbrev Files := String → Option (List UInt8)

/-- An entry of a host list. Blank lines and lines that start with a number sign are none. -/
def isHostEntry (line : String) : Bool := line ≠ "" && line.toList.head? ≠ some '#'

def hostLines (s : String) : List String := ((Text.lines s).map Text.trim).filter isHostEntry

/-- The text with each comma a line ending. -/
def commasToLines (s : String) : String :=
  String.ofList (s.toList.map fun c => if c = ',' then '\n' else c)

def hosts (files : Files) (value : String) : Except Fault (List String) :=
  match files value with
  | none => .ok (hostLines (commasToLines value))
  | some bytes =>
    match Text.Utf8.decode bytes with
    | .ok s => .ok (hostLines s)
    | .error _ => .error (.hostsFile "stream did not contain valid UTF-8")

end PeerHealth.Settings
