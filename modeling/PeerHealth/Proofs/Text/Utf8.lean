import PeerHealth.Text.Utf8

/-! What decodes as UTF-8. Main statement: bytes that read as a text are the bytes that write it. -/

namespace PeerHealth.Text.Utf8

theorem toNat_val_ofNat {n : Nat} (h : n.isValidChar) : (Char.ofNat n).val.toNat = n := by
  rw [Char.ofNat, dif_pos h]
  show (UInt32.ofNatLT n _).toNat = n
  rw [UInt32.toNat_ofNatLT]

theorem eq_ofNat {b : UInt8} {n : Nat} (h : n = b.toNat) : UInt8.ofNat n = b := by
  rw [h, UInt8.ofNat_toNat]

theorem tail?_eq_some {b : UInt8} {x : Nat} (h : tail? b = some x) :
    x < 64 ∧ b.toNat = x + 0x80 := by
  simp only [tail?, Option.ite_none_right_eq_some, Option.some.injEq] at h
  omega

/-- The second byte keeps a character out of the forms that are too long, out of the surrogates and
below the last character. -/
theorem second?_eq_some {lead b : UInt8} {x : Nat} (h : second? lead b = some x) :
    x < 64 ∧ b.toNat = x + 0x80 ∧ (lead.toNat = 0xe0 → 0x20 ≤ x) ∧
      (lead.toNat = 0xed → x < 0x20) ∧ (lead.toNat = 0xf0 → 0x10 ≤ x) ∧
      (lead.toNat = 0xf4 → x < 0x10) := by
  simp only [second?, Option.ite_none_right_eq_some, Option.some.injEq] at h
  obtain ⟨⟨hlow, hhigh⟩, rfl⟩ := h
  (repeat' split at hlow) <;> (repeat' split at hhigh) <;> omega

/-! ### The bytes of a character from the bits that were read -/

theorem encode_one {lead : UInt8} (h : lead.toNat < 0x80) :
    String.utf8EncodeChar (Char.ofNat lead.toNat) = [lead] := by
  simp only [String.utf8EncodeChar, toNat_val_ofNat (Or.inl (by omega) : lead.toNat.isValidChar)]
  rw [if_pos (by omega), UInt8.ofNat_toNat]

theorem encode_two {lead b : UInt8} {x : Nat} (hlow : 0xc2 ≤ lead.toNat)
    (hhigh : lead.toNat < 0xe0) (hx : tail? b = some x) :
    String.utf8EncodeChar (Char.ofNat ((lead.toNat - 0xc0) * 64 + x)) = [lead, b] := by
  obtain ⟨hx64, hb⟩ := tail?_eq_some hx
  have hvalid : ((lead.toNat - 0xc0) * 64 + x).isValidChar := .inl (by omega)
  simp only [String.utf8EncodeChar, toNat_val_ofNat hvalid]
  rw [if_neg (by omega), if_pos (by omega), eq_ofNat (b := lead) (by omega),
    eq_ofNat (b := b) (by omega)]

theorem encode_three {lead b c : UInt8} {x y : Nat} (hlow : 0xe0 ≤ lead.toNat)
    (hhigh : lead.toNat < 0xf0) (hx : second? lead b = some x) (hy : tail? c = some y) :
    String.utf8EncodeChar (Char.ofNat ((lead.toNat - 0xe0) * 4096 + x * 64 + y)) =
      [lead, b, c] := by
  obtain ⟨hx64, hb, he0, hed, -, -⟩ := second?_eq_some hx
  obtain ⟨hy64, hc⟩ := tail?_eq_some hy
  have hvalid : ((lead.toNat - 0xe0) * 4096 + x * 64 + y).isValidChar := by
    unfold Nat.isValidChar
    omega
  simp only [String.utf8EncodeChar, toNat_val_ofNat hvalid]
  rw [if_neg (by omega), if_neg (by omega), if_pos (by omega), eq_ofNat (b := lead) (by omega),
    eq_ofNat (b := b) (by omega), eq_ofNat (b := c) (by omega)]

theorem encode_four {lead b c d : UInt8} {x y z : Nat} (hlow : 0xf0 ≤ lead.toNat)
    (hhigh : lead.toNat < 0xf5) (hx : second? lead b = some x) (hy : tail? c = some y)
    (hz : tail? d = some z) :
    String.utf8EncodeChar (Char.ofNat ((lead.toNat - 0xf0) * 262144 + x * 4096 + y * 64 + z)) =
      [lead, b, c, d] := by
  obtain ⟨hx64, hb, -, -, hf0, hf4⟩ := second?_eq_some hx
  obtain ⟨hy64, hc⟩ := tail?_eq_some hy
  obtain ⟨hz64, hd⟩ := tail?_eq_some hz
  have hvalid : ((lead.toNat - 0xf0) * 262144 + x * 4096 + y * 64 + z).isValidChar := by
    unfold Nat.isValidChar
    omega
  simp only [String.utf8EncodeChar, toNat_val_ofNat hvalid]
  rw [if_neg (by omega), if_neg (by omega), if_neg (by omega), eq_ofNat (b := lead) (by omega),
    eq_ofNat (b := b) (by omega), eq_ofNat (b := c) (by omega), eq_ofNat (b := d) (by omega)]

theorem eq_encode_of_front {lead : UInt8} {rest r : List UInt8} {c : Char}
    (h : front lead rest = .char c r) : lead :: rest = String.utf8EncodeChar c ++ r := by
  simp only [front] at h
  split at h
  · rename_i hone
    cases h
    rw [encode_one hone]
    rfl
  split at h
  · cases h
  split at h
  · split at h
    · cases h
    · split at h
      · cases h
      · rename_i hx
        cases h
        rw [encode_two (by omega) (by assumption) hx]
        rfl
  split at h
  · split at h
    · cases h
    · split at h
      · cases h
      · cases h
      · rename_i hx
        split at h
        · cases h
        · rename_i hy
          cases h
          rw [encode_three (by omega) (by assumption) hx hy]
          rfl
  split at h
  · split at h
    · cases h
    · split at h
      · cases h
      · cases h
      · rename_i hx
        split at h
        · cases h
        · cases h
        · rename_i hy
          split at h
          · cases h
          · rename_i hz
            cases h
            rw [encode_four (by omega) (by assumption) hx hy hz]
            rfl
  · cases h

theorem eq_encode_of_decodeFrom {index : Nat} {before cs : List Char} {bytes : List UInt8}
    (h : decodeFrom index before bytes = .ok cs) :
    ∃ more, cs = before.reverse ++ more ∧ more.flatMap String.utf8EncodeChar = bytes := by
  induction index, before, bytes using decodeFrom.induct with
  | case1 index before =>
    rw [decodeFrom] at h
    cases h
    exact ⟨[], by simp, rfl⟩
  | case2 index before lead rest c r hfront ih =>
    have hnext : decodeFrom index before (lead :: rest) =
        decodeFrom (index + c.utf8Size) (c :: before) r := by
      rw [decodeFrom]
      split <;> simp_all
    obtain ⟨more, rfl, hmore⟩ := ih (hnext ▸ h)
    refine ⟨c :: more, by simp, ?_⟩
    rw [List.flatMap_cons, hmore, eq_encode_of_front hfront]
  | case3 index before lead rest n r hfront =>
    rw [decodeFrom] at h
    split at h <;> simp_all
  | case4 index before lead rest hfront =>
    rw [decodeFrom] at h
    split at h <;> simp_all

/-- Bytes that read as a text are the bytes that write it. -/
theorem encode_of_decode {bytes : List UInt8} {s : String} (h : decode bytes = .ok s) :
    encode s = bytes := by
  rw [decode] at h
  cases hcs : decodeFrom 0 [] bytes with
  | error fault =>
    rw [hcs] at h
    cases h
  | ok cs =>
    rw [hcs] at h
    cases h
    obtain ⟨more, rfl, hmore⟩ := eq_encode_of_decodeFrom hcs
    rw [encode, String.toList_ofList]
    exact hmore

theorem decodeLossyFrom_encodeChar (c : Char) (before : List Char) (rest : List UInt8) :
    decodeLossyFrom before (String.utf8EncodeChar c ++ rest) =
      decodeLossyFrom (c :: before) rest := by
  obtain ⟨lead, more, hc, hfront⟩ := front_encode c rest
  rw [hc, List.cons_append, decodeLossyFrom]
  split
  · rename_i h
    rw [hfront] at h
    cases h
    rfl
  · rename_i h
    rw [hfront] at h
    cases h
  · rename_i h
    rw [hfront] at h
    cases h

/-- Nothing is lost of a text that was written. -/
theorem decodeLossy_encode (s : String) : decodeLossy (encode s) = s := by
  have hfrom (cs before : List Char) :
      decodeLossyFrom before (cs.flatMap String.utf8EncodeChar) = before.reverse ++ cs := by
    induction cs generalizing before with
    | nil => simp [decodeLossyFrom]
    | cons c cs ih => simp [decodeLossyFrom_encodeChar, ih]
  rw [decodeLossy, encode, hfrom, List.reverse_nil, List.nil_append, String.ofList_toList]

theorem Fault.message_ne_empty (fault : Fault) : fault.message ≠ "" := by
  intro hempty
  have hlength := congrArg String.length hempty
  rw [message] at hlength
  split at hlength <;> simp [String.length_append] at hlength

/-! ### The bytes of a character as numbers -/

def unitsOf (n : Nat) : List Nat :=
  if n ≤ 0x7f then [n]
  else if n ≤ 0x7ff then [n / 64 + 0xc0, n % 64 + 0x80]
  else if n ≤ 0xffff then [n / 4096 + 0xe0, n / 64 % 64 + 0x80, n % 64 + 0x80]
  else [n / 262144 + 0xf0, n / 4096 % 64 + 0x80, n / 64 % 64 + 0x80, n % 64 + 0x80]

theorem map_toNat_encodeChar (c : Char) :
    (String.utf8EncodeChar c).map UInt8.toNat = unitsOf c.toNat := by
  have hvalid : c.val.toNat < 0x110000 := by
    have hv : c.val.toNat < 0xd800 ∨ 0xdfff < c.val.toNat ∧ c.val.toNat < 0x110000 := c.valid
    omega
  show _ = unitsOf c.val.toNat
  simp only [String.utf8EncodeChar, unitsOf]
  generalize c.val.toNat = n at hvalid ⊢
  split
  · simp only [List.map_cons, List.map_nil]
    rw [toNat_ofNat_of_lt (by omega)]
  split
  · simp only [List.map_cons, List.map_nil]
    rw [toNat_ofNat_of_lt (by omega), toNat_ofNat_of_lt (by omega), Nat.mod_eq_of_lt (by omega)]
  split
  · simp only [List.map_cons, List.map_nil]
    rw [toNat_ofNat_of_lt (by omega), toNat_ofNat_of_lt (by omega), toNat_ofNat_of_lt (by omega),
      Nat.mod_eq_of_lt (a := n / 4096) (by omega)]
  · simp only [List.map_cons, List.map_nil]
    rw [toNat_ofNat_of_lt (by omega), toNat_ofNat_of_lt (by omega), toNat_ofNat_of_lt (by omega),
      toNat_ofNat_of_lt (by omega), Nat.mod_eq_of_lt (a := n / 262144) (by omega)]

/-- A byte below 0x80 is a character of its own. -/
theorem toNat_of_mem_encodeChar {b : UInt8} (hb : b.toNat < 0x80) {c : Char}
    (h : b ∈ String.utf8EncodeChar c) : c.toNat = b.toNat := by
  have hunit : b.toNat ∈ unitsOf c.toNat := by
    rw [← map_toNat_encodeChar]
    exact List.mem_map_of_mem h
  simp only [unitsOf] at hunit
  (repeat' split at hunit) <;>
    simp only [List.mem_cons, List.not_mem_nil, or_false] at hunit <;> omega

theorem mem_encode_of_ascii {b : UInt8} (hb : b.toNat < 0x80) {s : String} (h : b ∈ encode s) :
    Char.ofNat b.toNat ∈ s.toList := by
  obtain ⟨c, hc, hmem⟩ := List.mem_flatMap.mp h
  rw [← toNat_of_mem_encodeChar hb hmem, Char.ofNat_toNat]
  exact hc

end PeerHealth.Text.Utf8
