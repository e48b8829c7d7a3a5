import PeerHealth.Text.Quoted

/-! Compact JSON text: no white space, members in the order given, and only quotes, backslashes and
control characters escaped. -/

namespace PeerHealth.Json

/-- One character inside the quotes of a text. -/
def escapeChar (c : Char) : List Char :=
  match c with
  | '"' => ['\\', '"']
  | '\\' => ['\\', '\\']
  | '\x08' => ['\\', 'b']
  | '\t' => ['\\', 't']
  | '\n' => ['\\', 'n']
  | '\x0c' => ['\\', 'f']
  | '\r' => ['\\', 'r']
  | _ =>
    if c.toNat < 0x20 then
      ['\\', 'u', '0', '0', Text.hexDigit (c.toNat / 16), Text.hexDigit (c.toNat % 16)]
    else [c]

def writeText (s : String) : List Char := '"' :: s.toList.flatMap escapeChar ++ ['"']

def commaSeparated : List (List Char) → List Char
  | [] => []
  | [item] => item
  | item :: items => item ++ ',' :: commaSeparated items

def writeArray (items : List (List Char)) : List Char := '[' :: commaSeparated items ++ [']']

def writeObject (entries : List (String × List Char)) : List Char :=
  '\x7b' :: commaSeparated (entries.map fun entry => writeText entry.1 ++ ':' :: entry.2) ++
    ['\x7d']

def writeInt (n : Int) : List Char := (toString n).toList

def writeTextOrNull : Option String → List Char
  | some s => writeText s
  | none => "null".toList

end PeerHealth.Json
