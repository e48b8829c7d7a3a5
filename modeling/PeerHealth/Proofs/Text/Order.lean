import PeerHealth.Proofs.Text.Utf8

/-! The order of texts. Main statement: a text stands before another exactly if its bytes do. -/

namespace PeerHealth.Text.Utf8

theorem lt_of_map_toNat {bytes bytes' : List UInt8}
    (h : bytes.map UInt8.toNat < bytes'.map UInt8.toNat) : bytes < bytes' := by
  induction bytes generalizing bytes' with
  | nil =>
    cases bytes' with
    | nil => exact absurd h (List.lt_irrefl _)
    | cons b' bytes' => exact List.nil_lt_cons b' bytes'
  | cons b bytes ih =>
    cases bytes' with
    | nil => exact absurd h (List.not_lt_nil _)
    | cons b' bytes' =>
      rcases List.cons_lt_cons_iff.mp h with hlt | ⟨heq, hrest⟩
      · exact List.cons_lt_cons_iff.mpr (.inl (UInt8.lt_iff_toNat_lt.mpr hlt))
      · exact List.cons_lt_cons_iff.mpr (.inr ⟨UInt8.toNat_inj.mp heq, ih hrest⟩)

/-- The units of a smaller number stand first, whatever follows. -/
theorem unitsOf_lt {m n : Nat} (h : m < n) (rest rest' : List Nat) :
    unitsOf m ++ rest < unitsOf n ++ rest' := by
  simp only [unitsOf]
  (repeat' split) <;>
    simp only [List.cons_append, List.nil_append, List.cons_lt_cons_iff] <;> omega

theorem encodeChar_lt {c d : Char} (h : c < d) (bytes bytes' : List UInt8) :
    String.utf8EncodeChar c ++ bytes < String.utf8EncodeChar d ++ bytes' := by
  refine lt_of_map_toNat ?_
  rw [List.map_append, List.map_append, map_toNat_encodeChar, map_toNat_encodeChar]
  exact unitsOf_lt h _ _

theorem flatMap_encodeChar_lt {cs ds : List Char} (h : cs < ds) :
    cs.flatMap String.utf8EncodeChar < ds.flatMap String.utf8EncodeChar := by
  induction cs generalizing ds with
  | nil =>
    cases ds with
    | nil => exact absurd h (List.lt_irrefl _)
    | cons d ds =>
      obtain ⟨b, bytes, hd⟩ := List.exists_cons_of_ne_nil (String.utf8EncodeChar_ne_nil (c := d))
      rw [List.flatMap_cons, hd]
      exact List.nil_lt_cons _ _
  | cons c cs ih =>
    cases ds with
    | nil => exact absurd h (List.not_lt_nil _)
    | cons d ds =>
      rw [List.flatMap_cons, List.flatMap_cons]
      rcases List.cons_lt_cons_iff.mp h with hlt | ⟨rfl, hrest⟩
      · exact encodeChar_lt hlt _ _
      · exact List.append_left_lt (ih hrest)

/-- Texts stand in the order of their bytes. -/
theorem encode_lt {s t : String} (h : s < t) : encode s < encode t :=
  flatMap_encodeChar_lt (String.lt_iff.mp h)

theorem encode_inj {s t : String} : encode s = encode t ↔ s = t := by
  refine ⟨fun h => ?_, congrArg encode⟩
  have hread := congrArg decode h
  rw [decode_encode, decode_encode] at hread
  exact Except.ok.inj hread

theorem encode_lt_iff {s t : String} : encode s < encode t ↔ s < t := by
  refine ⟨fun h => Decidable.not_not.mp fun hge => ?_, encode_lt⟩
  by_cases heq : s = t
  · exact List.lt_irrefl _ (heq ▸ h)
  · have hlt : t < s :=
      String.not_le.mp fun hle => heq (String.le_antisymm hle (String.not_lt.mp hge))
    exact List.lt_asymm h (encode_lt hlt)

end PeerHealth.Text.Utf8
