import PeerHealth.Proofs.Text.Trim
import PeerHealth.Text.Lines

/-! The pieces of a text between separators, and white space at their ends, which trimming takes
away. -/

namespace PeerHealth.Text

section Pieces

variable {sep c : Char}

theorem splitOnChar_of_not_mem {cs : List Char} (h : sep ∉ cs) : splitOnChar sep cs = [cs] := by
  induction cs with
  | nil => rfl
  | cons d cs ih =>
    simp only [List.mem_cons, not_or] at h
    rw [splitOnChar, if_neg (Ne.symm h.1), ih h.2]

theorem splitOnChar_ne_nil (cs : List Char) : splitOnChar sep cs ≠ [] := by
  cases cs with
  | nil => exact List.cons_ne_nil _ _
  | cons d cs =>
    rw [splitOnChar]
    split
    · exact List.cons_ne_nil _ _
    · split <;> exact List.cons_ne_nil _ _

theorem splitOnChar_append (as bs : List Char) :
    splitOnChar sep (as ++ sep :: bs) = splitOnChar sep as ++ splitOnChar sep bs := by
  induction as with
  | nil => simp [splitOnChar]
  | cons d as ih =>
    rw [List.cons_append, splitOnChar, splitOnChar, ih]
    split
    · rfl
    · obtain ⟨piece, pieces, hpieces⟩ := List.exists_cons_of_ne_nil (splitOnChar_ne_nil as)
      rw [hpieces]
      rfl

/-- A character at the end that is no separator belongs to the last piece. -/
theorem exists_splitOnChar_concat (h : c ≠ sep) (cs : List Char) :
    ∃ pieces last, splitOnChar sep cs = pieces ++ [last] ∧
      splitOnChar sep (cs ++ [c]) = pieces ++ [last ++ [c]] := by
  induction cs with
  | nil => exact ⟨[], [], rfl, splitOnChar_of_not_mem (by simpa using Ne.symm h)⟩
  | cons d cs ih =>
    obtain ⟨pieces, last, hpieces, hconcat⟩ := ih
    rw [List.cons_append, splitOnChar, splitOnChar, hpieces, hconcat]
    split
    · exact ⟨[] :: pieces, last, rfl, rfl⟩
    · cases pieces with
      | nil => exact ⟨[], d :: last, rfl, rfl⟩
      | cons piece pieces => exact ⟨(d :: piece) :: pieces, last, rfl, rfl⟩

/-- No piece holds the separator. -/
theorem not_mem_of_mem_splitOnChar {cs piece : List Char} (h : piece ∈ splitOnChar sep cs) :
    sep ∉ piece := by
  induction cs generalizing piece with
  | nil =>
    rw [splitOnChar, List.mem_singleton] at h
    simp [h]
  | cons d cs ih =>
    rw [splitOnChar] at h
    split at h
    · rcases List.mem_cons.mp h with rfl | h
      · simp
      · exact ih h
    · rename_i hd
      split at h
      · rw [List.mem_singleton] at h
        simp [h, Ne.symm hd]
      · rename_i first pieces hpieces
        rw [hpieces] at ih
        rcases List.mem_cons.mp h with rfl | h
        · simp [Ne.symm hd, ih List.mem_cons_self]
        · exact ih (List.mem_cons_of_mem _ h)

end Pieces

section Trimmed

variable {c : Char}

theorem trim_cons_blank (h : isBlankChar c = true) (cs : List Char) :
    trim (String.ofList (c :: cs)) = trim (String.ofList cs) := by
  rw [← String.toList_inj]
  simp [h]

theorem trim_concat_blank (h : isBlankChar c = true) (cs : List Char) :
    trim (String.ofList (cs ++ [c])) = trim (String.ofList cs) := by
  rw [← String.toList_inj]
  simp only [toList_trim, String.toList_ofList, List.dropWhile_append]
  split
  · rename_i hnil
    rw [List.isEmpty_iff.mp hnil, List.dropWhile_cons_of_pos h]
    rfl
  · rw [dropEndWhile_concat, if_pos h]

/-- What a text that does not start in white space starts with stays. -/
theorem exists_trim_cons (h : isBlankChar c = false) (cs : List Char) :
    ∃ ds, (trim (String.ofList (c :: cs))).toList = c :: ds := by
  have hstart : (c :: cs).dropWhile isBlankChar = c :: cs :=
    List.dropWhile_cons_of_neg (by simp [h])
  obtain ⟨rest, hrest⟩ := dropEndWhile_prefix isBlankChar (c :: cs)
  rw [toList_trim, String.toList_ofList, hstart]
  cases hds : dropEndWhile isBlankChar (c :: cs) with
  | nil =>
    rw [dropEndWhile, List.reverse_eq_nil_iff, dropWhile_eq_nil_iff_all, List.all_reverse] at hds
    simp [h] at hds
  | cons d ds =>
    rw [hds, List.cons_append] at hrest
    exact ⟨ds, by rw [(List.cons.inj hrest).1]⟩

end Trimmed
end PeerHealth.Text
