import PeerHealth.Proofs.Store.Rows
import PeerHealth.Store.Checks

/-! Lists of rows: put in order, cut to a limit, read one by one, picked by number, and with the row
of a key replaced. -/

namespace PeerHealth.Store

section InOrder

variable {α : Type} {before : α → α → Bool}

theorem insertBefore_perm (before : α → α → Bool) (x : α) (ys : List α) :
    (insertBefore before x ys).Perm (x :: ys) := by
  induction ys with
  | nil => exact .refl _
  | cons y ys ih =>
    rw [insertBefore]
    split
    · exact .refl _
    · exact (ih.cons y).trans (.swap x y ys)

theorem inOrder_perm (before : α → α → Bool) (xs : List α) : (inOrder before xs).Perm xs := by
  induction xs with
  | nil => exact .refl _
  | cons x xs ih => exact (insertBefore_perm before x (inOrder before xs)).trans (ih.cons x)

theorem insertBefore_pairwise
    (trans : ∀ x y z, before x y = true → before y z = true → before x z = true)
    (total : ∀ x y, before x y = true ∨ before y x = true) (x : α) {ys : List α}
    (h : ys.Pairwise fun y z => before y z = true) :
    (insertBefore before x ys).Pairwise fun y z => before y z = true := by
  induction ys with
  | nil => exact List.pairwise_singleton _ _
  | cons y ys ih =>
    obtain ⟨hy, hys⟩ := List.pairwise_cons.mp h
    rw [insertBefore]
    split
    · rename_i hxy
      refine List.pairwise_cons.mpr ⟨fun z hz => ?_, h⟩
      rcases List.mem_cons.mp hz with rfl | hz
      · exact hxy
      · exact trans x y z hxy (hy z hz)
    · rename_i hxy
      refine List.pairwise_cons.mpr ⟨fun z hz => ?_, ih hys⟩
      rcases List.mem_cons.mp ((insertBefore_perm before x ys).mem_iff.mp hz) with rfl | hz
      · exact (total z y).resolve_left hxy
      · exact hy z hz

theorem inOrder_pairwise
    (trans : ∀ x y z, before x y = true → before y z = true → before x z = true)
    (total : ∀ x y, before x y = true ∨ before y x = true) (xs : List α) :
    (inOrder before xs).Pairwise fun x y => before x y = true := by
  induction xs with
  | nil => exact List.Pairwise.nil
  | cons x xs ih => exact insertBefore_pairwise trans total x ih

theorem insertBefore_of_last {x : α} {ys : List α} (h : ∀ y ∈ ys, before x y = false) :
    insertBefore before x ys = ys ++ [x] := by
  induction ys with
  | nil => rfl
  | cons y ys ih =>
    have hy := h y (List.mem_cons_self ..)
    rw [insertBefore, hy, ih fun z hz => h z (List.mem_cons_of_mem _ hz)]
    rfl

/-- Items of which none may stand before a later one are put in order back to front. -/
theorem inOrder_eq_reverse {xs : List α} (h : xs.Pairwise fun x y => before x y = false) :
    inOrder before xs = xs.reverse := by
  induction xs with
  | nil => rfl
  | cons x xs ih =>
    obtain ⟨hx, hxs⟩ := List.pairwise_cons.mp h
    rw [inOrder, ih hxs, List.reverse_cons]
    exact insertBefore_of_last fun y hy => hx y (List.mem_reverse.mp hy)

theorem upTo_eq_take {limit : Nat} {xs : List α} (h : xs.length < Number.limit63) :
    upTo limit xs = xs.take limit := by
  unfold upTo
  split
  · rw [List.take_of_length_le (by omega)]
  · rfl

end InOrder

section ReadAll

variable {ρ α : Type} {read : ρ → Except TableFault α}

theorem mapM_eq_ok {f : α → ρ} {as : List α} (h : ∀ a ∈ as, read (f a) = .ok a) :
    (as.map f).mapM read = .ok as := by
  induction as with
  | nil => rfl
  | cons a as ih =>
    rw [List.map_cons, List.mapM_cons, h a (List.mem_cons_self ..),
      ih fun b hb => h b (List.mem_cons_of_mem _ hb)]
    rfl

/-- Rows written from values read as these. -/
theorem readAll_eq_ok {f : α → ρ} {as : List α} (h : ∀ a ∈ as, read (f a) = .ok a) :
    readAll read (as.map f) = .ok as := by
  rw [readAll, mapM_eq_ok h]
  rfl

theorem exists_map_eq {f : α → ρ} {p : α → Prop} {rows : List ρ}
    (h : ∀ r ∈ rows, ∃ a, p a ∧ r = f a) : ∃ as : List α, (∀ a ∈ as, p a) ∧ rows = as.map f := by
  induction rows with
  | nil => exact ⟨[], fun _ ha => absurd ha List.not_mem_nil, rfl⟩
  | cons r rows ih =>
    obtain ⟨a, ha, rfl⟩ := h r (List.mem_cons_self ..)
    obtain ⟨as, has, rfl⟩ := ih fun s hs => h s (List.mem_cons_of_mem _ hs)
    refine ⟨a :: as, fun b hb => ?_, rfl⟩
    rcases List.mem_cons.mp hb with rfl | hb
    · exact ha
    · exact has b hb

end ReadAll

section Numbered

variable {ρ : Type} {id : ρ → Int} {rows : List ρ}

theorem find?_id_eq (h : rows.Pairwise fun r s => id r < id s) {r : ρ} (hr : r ∈ rows) :
    rows.find? (fun s => decide (id s = id r)) = some r := by
  induction rows with
  | nil => cases hr
  | cons s rows ih =>
    obtain ⟨hs, hrows⟩ := List.pairwise_cons.mp h
    rcases List.mem_cons.mp hr with rfl | hr
    · rw [List.find?_cons_of_pos (by simp)]
    · have hlt := hs r hr
      rw [List.find?_cons_of_neg (by simp only [decide_eq_true_eq]; omega), ih hrows hr]

/-- Of rows whose numbers increase the last ones are picked out by their numbers. -/
theorem filter_id_drop (h : rows.Pairwise fun r s => id r < id s) (n : Nat) :
    rows.filter (fun r => ((rows.drop n).map id).contains (id r)) = rows.drop n := by
  have hmem : ∀ r ∈ rows.drop n, ((rows.drop n).map id).contains (id r) = true := fun r hr =>
    List.contains_iff_mem.mpr (List.mem_map_of_mem hr)
  have hnot : ∀ r ∈ rows.take n, ¬((rows.drop n).map id).contains (id r) = true := by
    intro r hr hc
    obtain ⟨s, hs, hid⟩ := List.mem_map.mp (List.contains_iff_mem.mp hc)
    rw [← List.take_append_drop n rows] at h
    have hlt := (List.pairwise_append.mp h).2.2 r hr s hs
    omega
  calc rows.filter (fun r => ((rows.drop n).map id).contains (id r))
      = (rows.take n ++ rows.drop n).filter
          (fun r => ((rows.drop n).map id).contains (id r)) := by rw [List.take_append_drop]
    _ = [] ++ rows.drop n := by
        rw [List.filter_append, List.filter_eq_nil_iff.mpr hnot, List.filter_eq_self.mpr hmem]
    _ = rows.drop n := List.nil_append _

theorem length_le_of_ids (h : rows.Pairwise fun r s => id r < id s) {least last : Int}
    (hleast : ∀ r ∈ rows, least ≤ id r) (hlast : ∀ r ∈ rows, id r ≤ last) :
    rows ≠ [] → (rows.length : Int) ≤ last - least + 1 := by
  induction rows generalizing least with
  | nil => exact fun hne => absurd rfl hne
  | cons r rows ih =>
    intro _
    obtain ⟨hr, hrows⟩ := List.pairwise_cons.mp h
    have hl := hleast r (List.mem_cons_self ..)
    have hu := hlast r (List.mem_cons_self ..)
    cases hnil : rows with
    | nil =>
      simp only [List.length_cons, List.length_nil]
      omega
    | cons s rest =>
      have hrest := ih hrows (fun t ht => Int.add_one_le_of_lt (hr t ht))
        (fun t ht => hlast t (List.mem_cons_of_mem _ ht)) (by simp [hnil])
      rw [← hnil, List.length_cons]
      omega

end Numbered

section PutRow

variable {ρ : Type} {p q : ρ → Bool} {f : ρ → ρ} {new : ρ} {rows : List ρ}

/-- The rows with those that `p` holds of changed, or with a new one if there are none. -/
def putRow (p : ρ → Bool) (f : ρ → ρ) (new : ρ) (rows : List ρ) : List ρ :=
  if rows.any p then rows.map fun r => if p r then f r else r else rows ++ [new]

theorem filter_eq_nil_of_not_any (h : ¬rows.any p = true) : rows.filter p = [] :=
  List.filter_eq_nil_iff.mpr fun r hr hp => h (List.any_eq_true.mpr ⟨r, hr, hp⟩)

/-- Changing rows commutes with picking some, if the change is of no matter to the choice. -/
theorem filter_map_ite (h : ∀ r ∈ rows, p r = true → q (f r) = q r) :
    (rows.map fun r => if p r then f r else r).filter q =
      (rows.filter q).map fun r => if p r then f r else r := by
  rw [List.filter_map]
  refine congrArg _ (List.filter_congr ?_)
  intro r hr
  show q (if p r then f r else r) = q r
  by_cases hp : p r = true
  · rw [if_pos hp, h r hr hp]
  · rw [if_neg hp]

theorem filter_putRow (hf : ∀ r ∈ rows, p r = true → p (f r) = true) (hnew : p new = true) :
    (putRow p f new rows).filter p =
      if rows.filter p = [] then [new] else (rows.filter p).map f := by
  by_cases hany : rows.any p = true
  · obtain ⟨r, hr, hp⟩ := List.any_eq_true.mp hany
    have hne : rows.filter p ≠ [] := List.ne_nil_of_mem (List.mem_filter.mpr ⟨hr, hp⟩)
    rw [putRow, if_pos hany, if_neg hne,
      filter_map_ite fun r hr hp => (hf r hr hp).trans hp.symm]
    exact List.map_congr_left fun r hr => if_pos (List.mem_filter.mp hr).2
  · have hnil := filter_eq_nil_of_not_any hany
    rw [putRow, if_neg hany, if_pos hnil, List.filter_append, hnil, List.nil_append,
      List.filter_cons_of_pos hnew, List.filter_nil]

/-- The first of the rows is the one that was first, changed, or the new one. -/
theorem find?_putRow (hf : ∀ r ∈ rows, p r = true → p (f r) = true) (hnew : p new = true) :
    (putRow p f new rows).find? p = some (((rows.find? p).map f).getD new) := by
  rw [← List.head?_filter, filter_putRow hf hnew, ← List.head?_filter]
  split
  · rename_i hnil
    rw [hnil]
    rfl
  · rename_i hne
    obtain ⟨r, rest, hcons⟩ := List.exists_cons_of_ne_nil hne
    rw [hcons]
    rfl

theorem filter_putRow_of_disjoint (hpq : ∀ r, p r = true → q r = false)
    (hf : ∀ r ∈ rows, p r = true → p (f r) = true) (hnew : p new = true) :
    (putRow p f new rows).filter q = rows.filter q := by
  by_cases hany : rows.any p = true
  · rw [putRow, if_pos hany,
      filter_map_ite fun r hr hp => (hpq _ (hf r hr hp)).trans (hpq r hp).symm]
    refine (List.map_congr_left ?_).trans (List.map_id _)
    intro r hr
    refine if_neg ?_
    intro hp
    have hq := (List.mem_filter.mp hr).2
    rw [hpq r hp] at hq
    cases hq
  · have hq : ¬q new = true := by rw [hpq new hnew]; decide
    rw [putRow, if_neg hany, List.filter_append, List.filter_cons_of_neg hq, List.filter_nil,
      List.append_nil]

theorem mem_putRow {r : ρ} (h : r ∈ putRow p f new rows) :
    r ∈ rows ∨ r = new ∨ ∃ s ∈ rows, p s = true ∧ r = f s := by
  unfold putRow at h
  split at h
  · obtain ⟨s, hs, rfl⟩ := List.mem_map.mp h
    by_cases hp : p s = true
    · rw [if_pos hp]
      exact .inr (.inr ⟨s, hs, hp, rfl⟩)
    · rw [if_neg hp]
      exact .inl hs
  · rcases List.mem_append.mp h with h | h
    · exact .inl h
    · exact .inr (.inl (List.mem_singleton.mp h))

/-- Rows written from values change as the values do. -/
theorem putRow_map {α : Type} {g : α → ρ} {p' : α → Bool} {f' : α → α} {new' : α} {as : List α}
    (hp : ∀ a ∈ as, p (g a) = p' a) (hf : ∀ a ∈ as, p' a = true → f (g a) = g (f' a)) :
    putRow p f (g new') (as.map g) = (putRow p' f' new' as).map g := by
  have hany : (as.map g).any p = as.any p' := by
    rw [List.any_map, Bool.eq_iff_iff, List.any_eq_true, List.any_eq_true]
    exact exists_congr fun a => and_congr_right fun ha => by rw [Function.comp_apply, hp a ha]
  by_cases h : as.any p' = true
  · rw [putRow, putRow, hany, if_pos h, if_pos h, List.map_map, List.map_map]
    refine List.map_congr_left fun a ha => ?_
    simp only [Function.comp_apply, hp a ha]
    by_cases hpa : p' a = true
    · rw [if_pos hpa, if_pos hpa, hf a ha hpa]
    · rw [if_neg hpa, if_neg hpa]
  · rw [putRow, putRow, hany, if_neg h, if_neg h, List.map_append, List.map_singleton]

end PutRow
end PeerHealth.Store
