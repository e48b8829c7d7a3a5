/-! JSON text cut into tokens. The cut is made byte by byte and knows nothing of nesting; what is
wrong inside a token is kept in the token, so that it counts only where a reader gets to it. -/

namespace PeerHealth.Json

/-- Why a text could not be read: it ends too early, it is not JSON, or it is JSON of another
shape than the one asked for. -/
inductive Problem where
  | truncated
  | malformed
  | mismatched
deriving DecidableEq, Repr

/-- A token. The bytes of a text are those between its quotes, escapes unresolved. -/
inductive Token where
  | openBrace
  | closeBrace
  | openBracket
  | closeBracket
  | colon
  | comma
  /-- The words `null`, `true` and `false`. -/
  | word
  | number (bytes : List UInt8)
  /-- A number that the input ends in before a digit it needs. -/
  | cutNumber
  | text (bytes : List UInt8)
  /-- A text that is not closed: the input ends in it, or something in it is not allowed. -/
  | brokenText (bytes : List UInt8) (problem : Problem)
  /-- Anything else: a byte that starts no token, a misspelt or cut word, a misspelt number. -/
  | broken (problem : Problem)
deriving DecidableEq, Repr

/-- How far a number has been read. -/
inductive NumberPart where
  | minus
  | zero
  | whole
  | point
  | fraction
  | mark
  | sign
  | power
deriving DecidableEq, Repr

/-- A number may end here. -/
def NumberPart.complete : NumberPart → Bool
  | .zero | .whole | .fraction | .power => true
  | _ => false

/-- What the scanner is inside of. Bytes collected for the token are kept last first. -/
inductive Scan where
  | between
  | inWord (left : List UInt8)
  | inNumber (part : NumberPart) (bytes : List UInt8)
  | inText (bytes : List UInt8)
  | inEscape (bytes : List UInt8)
  | inHex (left : Nat) (valid : Bool) (bytes : List UInt8)
  /-- After a broken token nothing more is read. -/
  | stopped
deriving DecidableEq, Repr

def isDigitByte (b : UInt8) : Bool := 0x30 ≤ b && b ≤ 0x39

/-- The value of a hexadecimal digit of either case. -/
def hexValue? (b : UInt8) : Option Nat :=
  let n := b.toNat
  if 0x30 ≤ n ∧ n ≤ 0x39 then some (n - 0x30)
  else if 0x61 ≤ n ∧ n ≤ 0x66 then some (n - 0x61 + 10)
  else if 0x41 ≤ n ∧ n ≤ 0x46 then some (n - 0x41 + 10)
  else none

/-- Space, tab, line feed and carriage return. -/
def isSpaceByte (b : UInt8) : Bool := b == 0x20 || b == 0x09 || b == 0x0a || b == 0x0d

/-- The letters that may follow a backslash, `u` apart. -/
def isEscapeByte (b : UInt8) : Bool :=
  b == 0x22 || b == 0x5c || b == 0x2f || b == 0x62 || b == 0x66 || b == 0x6e || b == 0x72 ||
    b == 0x74

namespace Scan

/-- The first byte of a token, or white space. -/
def start (b : UInt8) : List Token × Scan :=
  if isSpaceByte b then ([], between)
  else if b == 0x7b then ([.openBrace], between)
  else if b == 0x7d then ([.closeBrace], between)
  else if b == 0x5b then ([.openBracket], between)
  else if b == 0x5d then ([.closeBracket], between)
  else if b == 0x3a then ([.colon], between)
  else if b == 0x2c then ([.comma], between)
  else if b == 0x22 then ([], inText [])
  else if b == 0x2d then ([], inNumber .minus [b])
  else if b == 0x30 then ([], inNumber .zero [b])
  else if isDigitByte b then ([], inNumber .whole [b])
  else if b == 0x6e then ([], inWord [0x75, 0x6c, 0x6c])
  else if b == 0x74 then ([], inWord [0x72, 0x75, 0x65])
  else if b == 0x66 then ([], inWord [0x61, 0x6c, 0x73, 0x65])
  else ([.broken .malformed], stopped)

/-- How a number goes on with `b`: the next part, or `none` if `b` is not of it. -/
def numberPart? (part : NumberPart) (b : UInt8) : Option NumberPart :=
  let digit := isDigitByte b
  let mark := b == 0x65 || b == 0x45
  match part with
  | .minus => if b == 0x30 then some .zero else if digit then some .whole else none
  | .zero => if b == 0x2e then some .point else if mark then some .mark else none
  | .whole =>
    if digit then some .whole
    else if b == 0x2e then some .point
    else if mark then some .mark
    else none
  | .point => if digit then some .fraction else none
  | .fraction => if digit then some .fraction else if mark then some .mark else none
  | .mark =>
    if digit then some .power else if b == 0x2b || b == 0x2d then some .sign else none
  | .sign => if digit then some .power else none
  | .power => if digit then some .power else none

/-- The next byte: the tokens it completes, and what the scanner is inside of after it. -/
def step (scan : Scan) (b : UInt8) : List Token × Scan :=
  match scan with
  | between => start b
  | inWord [] => (.word :: (start b).1, (start b).2)
  | inWord (c :: left) => if b == c then ([], inWord left) else ([.broken .malformed], stopped)
  | inNumber part bytes =>
    match numberPart? part b with
    | some next => ([], inNumber next (b :: bytes))
    | none =>
      if part.complete && !(part == .zero && isDigitByte b) then
        (.number bytes.reverse :: (start b).1, (start b).2)
      else ([.broken .malformed], stopped)
  | inText bytes =>
    if b == 0x22 then ([.text bytes.reverse], between)
    else if b == 0x5c then ([], inEscape (b :: bytes))
    else if b < 0x20 then ([.brokenText bytes.reverse .malformed], stopped)
    else ([], inText (b :: bytes))
  | inEscape bytes =>
    if isEscapeByte b then ([], inText (b :: bytes))
    else if b == 0x75 then ([], inHex 4 true (b :: bytes))
    else ([.brokenText bytes.reverse .malformed], stopped)
  | inHex left valid bytes =>
    let valid := valid && (hexValue? b).isSome
    if 1 < left then ([], inHex (left - 1) valid (b :: bytes))
    else if valid then ([], inText (b :: bytes))
    else ([.brokenText bytes.reverse .malformed], stopped)
  | stopped => ([], stopped)

/-- What the end of the input completes. -/
def finish : Scan → List Token
  | between => []
  | inWord [] => [.word]
  | inWord _ => [.broken .truncated]
  | inNumber part bytes => if part.complete then [.number bytes.reverse] else [.cutNumber]
  | inText bytes => [.brokenText bytes.reverse .truncated]
  | inEscape bytes => [.brokenText bytes.reverse .truncated]
  | inHex _ _ bytes => [.brokenText bytes.reverse .truncated]
  | stopped => []

end Scan

/-- The tokens of the bytes read from `scan` on, after those in `before`, last first. -/
def tokensFrom (before : List Token) (scan : Scan) : List UInt8 → List Token
  | [] => before.reverse ++ scan.finish
  | b :: bytes => tokensFrom ((scan.step b).1.reverse ++ before) (scan.step b).2 bytes

def tokens (bytes : List UInt8) : List Token := tokensFrom [] .between bytes

end PeerHealth.Json
