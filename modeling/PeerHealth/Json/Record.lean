import PeerHealth.Json.Magnitude
import PeerHealth.Json.Skip
import PeerHealth.Json.Text

/-! Records read from JSON. A record is an object with its fields in any order, or an array with
them in the declared one. Members that are not declared are passed over; a declared one may not
come twice; whatever is wrong is reported where reading from left to right first shows it. -/

namespace PeerHealth.Json

/-- The outcome of reading a value at the front of the tokens: the value and what follows it. -/
abbrev Result (α : Type) := Except Problem (α × List Token)

/-- What is wrong with a token where a value of another kind is wanted. Texts, words and numbers
are read to their end first. -/
def wrongKind : Token → Problem
  | .word | .openBrace | .openBracket => .mismatched
  | .number bytes => if tooGreat bytes then .malformed else .mismatched
  | .cutNumber => .truncated
  | .text bytes =>
    match readText bytes with
    | .ok _ => .mismatched
    | .error p => p
  | .brokenText bytes p => brokenTextProblem bytes p
  | .broken p => p
  | .closeBrace | .closeBracket | .colon | .comma => .malformed

def text : List Token → Result String
  | [] => .error .truncated
  | .text bytes :: ts => (readText bytes).map (·, ts)
  | t :: _ => .error (wrongKind t)

/-- A field of a record that is being read into a draft `δ`. -/
structure Field (δ : Type) where
  name : String
  required : Bool
  filled : δ → Bool
  read : δ → List Token → Result δ

/-- A field that holds a text, kept in the draft where `get` and `put` say. -/
def textField {δ : Type} (name : String) (required : Bool) (get : δ → Option String)
    (put : δ → String → δ) : Field δ where
  name := name
  required := required
  filled := fun draft => (get draft).isSome
  read := fun draft ts => (text ts).map fun (s, rest) => (put draft s, rest)

/-- The key at the front of the tokens, if the object goes on; what follows it, or what follows the
closing brace. -/
def nextKey (first : Bool) (ts : List Token) : Result (Option String) :=
  let keyIn : List Token → Result (Option String)
    | [] => .error .truncated
    | .text bytes :: rest => (readText bytes).map (some ·, rest)
    | .brokenText bytes p :: _ => .error (brokenTextProblem bytes p)
    | _ => .error .malformed
  match ts with
  | .closeBrace :: rest => .ok (none, rest)
  | .comma :: rest => if first then .error .malformed else keyIn rest
  | ts => if first || ts.isEmpty then keyIn ts else .error .malformed

def afterColon : List Token → Except Problem (List Token)
  | .colon :: ts => .ok ts
  | [] => .error .truncated
  | _ => .error .malformed

/-- Reads the members of an object up to its closing brace. Each member takes one unit of `fuel`;
there are no more members than tokens. -/
def members {δ : Type} (fields : List (Field δ)) : Nat → Bool → δ → List Token → Result δ
  | 0, _, _, _ => .error .truncated
  | fuel + 1, first, draft, ts =>
    match nextKey first ts with
    | .error p => .error p
    | .ok (none, rest) => .ok (draft, rest)
    | .ok (some key, rest) =>
      match fields.find? (·.name = key) with
      | some field =>
        if field.filled draft then .error .mismatched
        else match afterColon rest with
          | .error p => .error p
          | .ok value =>
            match field.read draft value with
            | .error p => .error p
            | .ok (draft, rest) => members fields fuel false draft rest
      | none =>
        match afterColon rest with
        | .error p => .error p
        | .ok value =>
          match skipValue value with
          | .error p => .error p
          | .ok rest => members fields fuel false draft rest

/-- The front of the next item of an array, or `none` at its closing bracket, which stays. -/
def nextItem (first : Bool) (ts : List Token) : Except Problem (Option (List Token)) :=
  match ts with
  | [] => .error .truncated
  | .closeBracket :: _ => .ok none
  | .comma :: rest =>
    if first then .ok (some ts)
    else match rest with
      | [] => .error .truncated
      | .closeBracket :: _ => .error .malformed
      | _ => .ok (some rest)
  | _ => if first then .ok (some ts) else .error .malformed

/-- What follows the closing bracket of an array that may hold nothing more. -/
def closeArray : List Token → Except Problem (List Token)
  | .closeBracket :: ts => .ok ts
  | [] => .error .truncated
  | _ => .error .malformed

/-- Reads the items of an array into the fields in order. Optional fields at the end may be
missing. -/
def items {δ : Type} : List (Field δ) → Bool → δ → List Token → Result δ
  | [], _, draft, ts => (closeArray ts).map (draft, ·)
  | field :: fields, first, draft, ts =>
    match nextItem first ts with
    | .error p => .error p
    | .ok none =>
      if (field :: fields).any (·.required) then .error .mismatched
      else (closeArray ts).map (draft, ·)
    | .ok (some value) =>
      match field.read draft value with
      | .error p => .error p
      | .ok (draft, rest) => items fields false draft rest

/-- How records of a type are read: the draft to start from, the fields in declared order, and the
value a draft stands for once all required fields are filled. -/
structure Record (δ α : Type) where
  blank : δ
  fields : List (Field δ)
  finish : δ → Option α

def Record.read {δ α : Type} (record : Record δ α) (ts : List Token) : Result α :=
  let drafted : Result δ := match ts with
    | [] => .error .truncated
    | .openBrace :: rest => members record.fields (rest.length + 1) true record.blank rest
    | .openBracket :: rest => items record.fields true record.blank rest
    | t :: _ => .error (wrongKind t)
  match drafted with
  | .error p => .error p
  | .ok (draft, rest) =>
    match record.finish draft with
    | some value => .ok (value, rest)
    | none => .error .mismatched

/-- Reads the items of an array of records up to its closing bracket. Each item takes one unit of
`fuel`; there are no more items than tokens. -/
def Record.readItems {δ α : Type} (record : Record δ α) :
    Nat → Bool → List α → List Token → Result (List α)
  | 0, _, _, _ => .error .truncated
  | fuel + 1, first, before, ts =>
    match nextItem first ts with
    | .error p => .error p
    | .ok none => (closeArray ts).map (before.reverse, ·)
    | .ok (some item) =>
      match record.read item with
      | .error p => .error p
      | .ok (value, rest) => record.readItems fuel false (value :: before) rest

def Record.readList {δ α : Type} (record : Record δ α) : List Token → Result (List α)
  | [] => .error .truncated
  | .openBracket :: rest => record.readItems (rest.length + 1) true [] rest
  | t :: _ => .error (wrongKind t)

/-- Reads a whole text: one value, with nothing after it. -/
def whole {α : Type} (read : List Token → Result α) (bytes : List UInt8) : Except Problem α :=
  match read (tokens bytes) with
  | .error p => .error p
  | .ok (value, []) => .ok value
  | .ok (_, _ :: _) => .error .malformed

end PeerHealth.Json
