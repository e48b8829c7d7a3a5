import PeerHealth.Text.Blank

/-! What is taken off the front of a text and off its end. Main statement: trimming leaves nothing
to be trimmed. -/

namespace PeerHealth.Text

theorem dropWhile_dropWhile (p : Char → Bool) (cs : List Char) :
    (cs.dropWhile p).dropWhile p = cs.dropWhile p := by
  induction cs with
  | nil => rfl
  | cons c cs ih => by_cases h : p c <;> simp [h, ih]

theorem takeWhile_of_stop {p : Char → Bool} {cs : List Char} (h : ∀ c ∈ cs.head?, p c = false) :
    cs.takeWhile p = [] := by
  cases cs with
  | nil => rfl
  | cons c cs => simp [h c rfl]

theorem takeWhile_append_of_stop {p : Char → Bool} {ds : List Char} (cs : List Char)
    (h : ∀ c ∈ ds, p c = true) (hcs : ∀ c ∈ cs.head?, p c = false) :
    (ds ++ cs).takeWhile p = ds := by
  rw [List.takeWhile_append_of_pos h, takeWhile_of_stop hcs, List.append_nil]

theorem dropEndWhile_dropEndWhile (p : Char → Bool) (cs : List Char) :
    dropEndWhile p (dropEndWhile p cs) = dropEndWhile p cs := by
  simp [dropEndWhile, dropWhile_dropWhile]

theorem dropEndWhile_prefix (p : Char → Bool) (cs : List Char) : dropEndWhile p cs <+: cs := by
  rw [dropEndWhile, ← List.reverse_suffix, List.reverse_reverse]
  exact List.dropWhile_suffix p

theorem dropEndWhile_concat (p : Char → Bool) (cs : List Char) (c : Char) :
    dropEndWhile p (cs ++ [c]) = if p c then dropEndWhile p cs else cs ++ [c] := by
  simp only [dropEndWhile, List.reverse_append, List.reverse_cons, List.reverse_nil,
    List.nil_append, List.singleton_append, List.dropWhile_cons]
  split <;> simp

theorem dropEndWhile_congr {p q : Char → Bool} {cs : List Char} (h : ∀ c ∈ cs, p c = q c) :
    dropEndWhile p cs = dropEndWhile q cs := by
  have hreverse : ∀ ds : List Char, (∀ c ∈ ds, p c = q c) → ds.dropWhile p = ds.dropWhile q := by
    intro ds hds
    induction ds with
    | nil => rfl
    | cons c ds ih =>
      rw [List.dropWhile_cons, List.dropWhile_cons, hds c List.mem_cons_self,
        ih fun d hd => hds d (List.mem_cons_of_mem c hd)]
  rw [dropEndWhile, dropEndWhile, hreverse _ fun c hc => h c (List.mem_reverse.mp hc)]

/-- What has no `p` in front has none in front without its ending either. -/
theorem dropWhile_dropEndWhile (p : Char → Bool) (cs : List Char) :
    (dropEndWhile p (cs.dropWhile p)).dropWhile p = dropEndWhile p (cs.dropWhile p) := by
  cases hds : dropEndWhile p (cs.dropWhile p) with
  | nil => rfl
  | cons d ds =>
    obtain ⟨es, hes⟩ := dropEndWhile_prefix p (cs.dropWhile p)
    have hd : p d = false := by
      have hhead := List.head?_dropWhile_not p cs
      rw [← hes, hds] at hhead
      simpa using hhead
    simp [hd]

@[simp] theorem trim_trim (s : String) : trim (trim s) = trim s := by
  rw [← String.toList_inj]
  simp only [toList_trim, dropWhile_dropEndWhile, dropEndWhile_dropEndWhile]

end PeerHealth.Text
