/-! Text as bytes in UTF-8. `encode` writes each character as its bytes; `decode` reads the bytes
back and says where they stop being UTF-8; `decodeLossy` puts U+FFFD for what cannot be read.
Main statement: `decode (encode s)` is `s`. -/

namespace PeerHealth.Text.Utf8

def encode (s : String) : List UInt8 := s.toList.flatMap String.utf8EncodeChar

/-- Where bytes stop being UTF-8: the index of the first byte that belongs to no character, and how
many bytes are wrong there, or `none` if the bytes end inside a character. -/
structure Fault where
  index : Nat
  length : Option Nat
deriving DecidableEq, Repr

def Fault.message (fault : Fault) : String :=
  match fault.length with
  | some n => s!"invalid utf-8 sequence of {n} bytes from index {fault.index}"
  | none => s!"incomplete utf-8 byte sequence from index {fault.index}"

/-- What a non-empty byte string starts with: a character, `length` bytes that start no character,
or the beginning of a character that the string ends in. -/
inductive Front where
  | char (c : Char) (rest : List UInt8)
  | invalid (length : Nat) (rest : List UInt8)
  | cut

/-- The bits that a byte after the first adds to a character, if it is one. -/
def tail? (b : UInt8) : Option Nat :=
  if 0x80 ≤ b.toNat ∧ b.toNat ≤ 0xbf then some (b.toNat - 0x80) else none

/-- The second bytes that may follow `lead`: overlong forms, surrogates and numbers past U+10FFFF
are excluded here. -/
def second? (lead b : UInt8) : Option Nat :=
  let low := if lead.toNat = 0xe0 then 0xa0 else if lead.toNat = 0xf0 then 0x90 else 0x80
  let high := if lead.toNat = 0xed then 0x9f else if lead.toNat = 0xf4 then 0x8f else 0xbf
  if low ≤ b.toNat ∧ b.toNat ≤ high then some (b.toNat - 0x80) else none

/-- What `lead` and the bytes after it start with. -/
def front (lead : UInt8) (rest : List UInt8) : Front :=
  let n := lead.toNat
  if n < 0x80 then .char (Char.ofNat n) rest
  else if n < 0xc2 then .invalid 1 rest
  else if n < 0xe0 then
    match rest with
    | [] => .cut
    | b :: rest₁ =>
      match tail? b with
      | none => .invalid 1 rest
      | some x => .char (Char.ofNat ((n - 0xc0) * 64 + x)) rest₁
  else if n < 0xf0 then
    match rest with
    | [] => .cut
    | b :: rest₁ =>
      match second? lead b, rest₁ with
      | none, _ => .invalid 1 rest
      | some _, [] => .cut
      | some x, c :: rest₂ =>
        match tail? c with
        | none => .invalid 2 rest₁
        | some y => .char (Char.ofNat ((n - 0xe0) * 4096 + x * 64 + y)) rest₂
  else if n < 0xf5 then
    match rest with
    | [] => .cut
    | b :: rest₁ =>
      match second? lead b, rest₁ with
      | none, _ => .invalid 1 rest
      | some _, [] => .cut
      | some x, c :: rest₂ =>
        match tail? c, rest₂ with
        | none, _ => .invalid 2 rest₁
        | some _, [] => .cut
        | some y, d :: rest₃ =>
          match tail? d with
          | none => .invalid 3 rest₂
          | some z => .char (Char.ofNat ((n - 0xf0) * 262144 + x * 4096 + y * 64 + z)) rest₃
  else .invalid 1 rest

theorem front_char_length {lead : UInt8} {rest r : List UInt8} {c : Char}
    (h : front lead rest = .char c r) : r.length ≤ rest.length := by
  simp only [front] at h
  repeat' split at h
  all_goals first
    | (cases h; done)
    | (cases h; simp; done)
    | (cases h; simp; omega)

theorem front_invalid_length {lead : UInt8} {rest r : List UInt8} {n : Nat}
    (h : front lead rest = .invalid n r) : r.length ≤ rest.length := by
  simp only [front] at h
  repeat' split at h
  all_goals first
    | (cases h; done)
    | (cases h; simp)

/-- Reads on at byte `index`, with the characters before it in `before`, last first. -/
def decodeFrom (index : Nat) (before : List Char) : List UInt8 → Except Fault (List Char)
  | [] => .ok before.reverse
  | lead :: rest =>
    match _h : front lead rest with
    | .char c r => decodeFrom (index + c.utf8Size) (c :: before) r
    | .invalid n _ => .error ⟨index, some n⟩
    | .cut => .error ⟨index, none⟩
termination_by bytes => bytes.length
decreasing_by
  have := front_char_length _h
  simp only [List.length_cons]
  omega

/-- The text that the bytes write, or where they stop being UTF-8. -/
def decode (bytes : List UInt8) : Except Fault String :=
  (decodeFrom 0 [] bytes).map String.ofList

/-- Reads on as `decodeFrom` does, with U+FFFD for each run of bytes that starts no character. -/
def decodeLossyFrom (before : List Char) : List UInt8 → List Char
  | [] => before.reverse
  | lead :: rest =>
    match _h : front lead rest with
    | .char c r => decodeLossyFrom (c :: before) r
    | .invalid _ r => decodeLossyFrom ('\ufffd' :: before) r
    | .cut => ('\ufffd' :: before).reverse
termination_by bytes => bytes.length
decreasing_by
  all_goals simp only [List.length_cons]
  · exact Nat.lt_succ_of_le (front_char_length _h)
  · exact Nat.lt_succ_of_le (front_invalid_length _h)

/-- The text that the bytes write, with U+FFFD in place of what is not UTF-8. -/
def decodeLossy (bytes : List UInt8) : String := String.ofList (decodeLossyFrom [] bytes)

/-! ### Reading back -/

theorem toNat_ofNat_of_lt {n : Nat} (h : n < 256) : (UInt8.ofNat n).toNat = n := by
  simp [UInt8.toNat_ofNat', Nat.mod_eq_of_lt h]

/-- A character's bytes are read as that character, whatever follows. -/
theorem front_encode (c : Char) (rest : List UInt8) :
    ∃ lead more, String.utf8EncodeChar c = lead :: more ∧
      front lead (more ++ rest) = .char c rest := by
  have hv : c.val.toNat < 0xd800 ∨ 0xdfff < c.val.toNat ∧ c.val.toNat < 0x110000 := c.valid
  have hc : Char.ofNat c.val.toNat = c := Char.ofNat_toNat c
  simp only [String.utf8EncodeChar]
  generalize c.val.toNat = n at hv hc ⊢
  have number {m : Nat} (h : m = n) : Front.char (Char.ofNat m) rest = .char c rest := by
    rw [h, hc]
  split
  · refine ⟨_, _, rfl, ?_⟩
    simp only [front, List.nil_append]
    rw [toNat_ofNat_of_lt (by omega), if_pos (by omega)]
    exact number rfl
  split
  · refine ⟨_, _, rfl, ?_⟩
    simp only [front, List.cons_append, List.nil_append, tail?]
    rw [toNat_ofNat_of_lt (by omega), toNat_ofNat_of_lt (by omega)]
    rw [if_neg (by omega), if_neg (by omega), if_pos (by omega), if_pos (by omega)]
    exact number (by omega)
  split
  · refine ⟨_, _, rfl, ?_⟩
    simp only [front, List.cons_append, List.nil_append, tail?, second?]
    rw [toNat_ofNat_of_lt (by omega), toNat_ofNat_of_lt (by omega)]
    rw [if_neg (by omega), if_neg (by omega), if_neg (by omega), if_pos (by omega),
      if_pos (by constructor <;> (repeat' split) <;> omega)]
    simp only
    rw [toNat_ofNat_of_lt (by omega), if_pos (by omega)]
    exact number (by omega)
  · refine ⟨_, _, rfl, ?_⟩
    simp only [front, List.cons_append, List.nil_append, tail?, second?]
    rw [toNat_ofNat_of_lt (by omega), toNat_ofNat_of_lt (by omega)]
    rw [if_neg (by omega), if_neg (by omega), if_neg (by omega), if_neg (by omega),
      if_pos (by omega), if_pos (by constructor <;> (repeat' split) <;> omega)]
    simp only
    rw [toNat_ofNat_of_lt (by omega), if_pos (by omega)]
    simp only
    rw [toNat_ofNat_of_lt (by omega), if_pos (by omega)]
    exact number (by omega)

theorem decodeFrom_encodeChar (c : Char) (index : Nat) (before : List Char) (rest : List UInt8) :
    ∃ next, decodeFrom index before (String.utf8EncodeChar c ++ rest) =
      decodeFrom next (c :: before) rest := by
  obtain ⟨lead, more, he, hf⟩ := front_encode c rest
  rw [he, List.cons_append, decodeFrom]
  split
  · rename_i c' r h
    rw [hf] at h
    cases h
    exact ⟨_, rfl⟩
  · rename_i h; rw [hf] at h; cases h
  · rename_i h; rw [hf] at h; cases h

theorem decodeFrom_flatMap (cs : List Char) (index : Nat) (before : List Char) :
    decodeFrom index before (cs.flatMap String.utf8EncodeChar) = .ok (before.reverse ++ cs) := by
  induction cs generalizing index before with
  | nil => simp [decodeFrom]
  | cons c cs ih =>
    obtain ⟨next, hn⟩ := decodeFrom_encodeChar c index before (cs.flatMap String.utf8EncodeChar)
    rw [List.flatMap_cons, hn, ih]
    simp

/-- Reading what was written gives the text back. -/
theorem decode_encode (s : String) : decode (encode s) = .ok s := by
  simp [decode, encode, decodeFrom_flatMap, Except.map]

end PeerHealth.Text.Utf8
