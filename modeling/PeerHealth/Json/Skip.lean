import PeerHealth.Json.Token

/-! Passing over a value that nobody asked for. Only its grammar is checked, at any depth of
nesting; its texts may hold anything that a closed text token can hold. -/

namespace PeerHealth.Json

/-- What must come next inside the value that is passed over. -/
inductive Expect where
  | value
  /-- Directly after an opening bracket. -/
  | itemOrClose
  /-- Directly after an opening brace. -/
  | keyOrClose
  | key
  | colon
  /-- After a value: a comma or the end of its container. -/
  | next
deriving DecidableEq, Repr

/-- The kind of a container that is still open. -/
inductive Container where
  | array
  | object
deriving DecidableEq, Repr

/-- One token of a value: what must come after it, and the containers then open. -/
def skipStep (expect : Expect) (opened : List Container) (t : Token) :
    Except Problem (Expect × List Container) :=
  match expect, t with
  | .value, .word | .value, .number _ | .value, .text _ => .ok (.next, opened)
  | .itemOrClose, .word | .itemOrClose, .number _ | .itemOrClose, .text _ => .ok (.next, opened)
  | .value, .openBracket | .itemOrClose, .openBracket => .ok (.itemOrClose, .array :: opened)
  | .value, .openBrace | .itemOrClose, .openBrace => .ok (.keyOrClose, .object :: opened)
  | .value, .broken p | .value, .brokenText _ p => .error p
  | .itemOrClose, .broken p | .itemOrClose, .brokenText _ p => .error p
  | .itemOrClose, .closeBracket => .ok (.next, opened.tail)
  | .keyOrClose, .text _ | .key, .text _ => .ok (.colon, opened)
  | .keyOrClose, .brokenText _ p | .key, .brokenText _ p => .error p
  | .keyOrClose, .closeBrace => .ok (.next, opened.tail)
  | .colon, .colon => .ok (.value, opened)
  | .next, .comma =>
    match opened with
    | .array :: _ => .ok (.value, opened)
    | .object :: _ => .ok (.key, opened)
    | [] => .error .malformed
  | .next, .closeBracket =>
    match opened with
    | .array :: outer => .ok (.next, outer)
    | _ => .error .malformed
  | .next, .closeBrace =>
    match opened with
    | .object :: outer => .ok (.next, outer)
    | _ => .error .malformed
  | _, _ => .error .malformed

/-- Reads on until the outermost value is complete; gives what follows it. -/
def skip (expect : Expect) (opened : List Container) : List Token → Except Problem (List Token)
  | [] => if expect = .next ∧ opened = [] then .ok [] else .error .truncated
  | t :: ts =>
    if expect = .next ∧ opened = [] then .ok (t :: ts)
    else match skipStep expect opened t with
      | .error p => .error p
      | .ok (expect', opened') => skip expect' opened' ts

def skipValue (ts : List Token) : Except Problem (List Token) := skip .value [] ts

end PeerHealth.Json
