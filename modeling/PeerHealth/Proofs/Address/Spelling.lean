import PeerHealth.Proofs.Address.Groups
import PeerHealth.Proofs.Number.Halves

/-! How IPv6 addresses are spelled. `Spells` tells which texts stand for an address. Main
statements: exactly these texts are read as the address, and the usual text is one of them. -/

namespace PeerHealth.Address.IPv6

/-- An address is spelled by its eight groups, or with a double colon for one zero group or more. -/
inductive Spells (ip : IPv6) : List Char → Prop
  | whole {cs : List Char} {dotted : Bool} (h : Row true cs ip.groups dotted) : Spells ip cs
  | gap {as bs : List Char} {start finish : List UInt16} {dotted : Bool} (zeros : Nat)
      (hstart : Row true as start false) (hfinish : Row true bs finish dotted)
      (hgroups : ip.groups = start ++ List.replicate (zeros + 1) 0 ++ finish) :
      Spells ip (as ++ ':' :: ':' :: bs)

section Parsing

variable {s : String} {ip : IPv6} {start finish : List UInt16} {cs : List Char} {dotted : Bool}

theorem ofEnds?_eq_some_iff :
    ofEnds? start finish = some ip ↔
      ip.groups = start ++ List.replicate (8 - start.length - finish.length) 0 ++ finish := by
  obtain ⟨groups, hlength⟩ := ip
  unfold ofEnds?
  dsimp only
  constructor
  · intro h
    split at h
    · cases h
      rfl
    · cases h
  · rintro rfl
    exact dif_pos hlength

theorem length_gap {zeros : Nat} (h : ip.groups = start ++ List.replicate zeros 0 ++ finish) :
    start.length + zeros + finish.length = 8 := by
  have hgroups := ip.length_groups
  rwa [h, List.length_append, List.length_append, List.length_replicate] at hgroups

theorem parse?_of_whole (hread : readGroups 8 true s.toList = (start, dotted, []))
    (hlength : start.length = 8) : parse? s = ofEnds? start [] := by
  unfold parse?
  rw [hread]
  simp only [hlength, if_true]

theorem parse?_of_gap (hread : readGroups 8 true s.toList = (start, false, ':' :: ':' :: cs))
    (hlength : start.length ≠ 8)
    (hfinish : readGroups (7 - start.length) true cs = (finish, dotted, [])) :
    parse? s = ofEnds? start finish := by
  unfold parse?
  rw [hread]
  simp only [hlength, if_false, hfinish, if_true, Bool.false_eq_true]

theorem parse?_of_spells (h : Spells ip s.toList) : parse? s = some ip := by
  generalize htext : s.toList = text at h
  cases h with
  | whole h =>
    have hread := h.read (Nat.le_of_eq ip.length_groups) (.inl rfl)
    rw [List.append_nil, ← htext] at hread
    rw [parse?_of_whole hread ip.length_groups, ofEnds?_eq_some_iff]
    simp [ip.length_groups]
  | @gap as bs start finish dotted zeros hstart hfinish hgroups =>
    have hlength := length_gap hgroups
    have hread : readGroups 8 true (as ++ ':' :: ':' :: bs) = (start, false, ':' :: ':' :: bs) :=
      hstart.read (by omega) (.inr ⟨bs, rfl⟩)
    have hlast : readGroups (7 - start.length) true (bs ++ []) = (finish, dotted, []) :=
      hfinish.read (by omega) (.inl rfl)
    rw [List.append_nil] at hlast
    rw [← htext] at hread
    rw [parse?_of_gap hread (by omega) hlast, ofEnds?_eq_some_iff,
      show 8 - start.length - finish.length = zeros + 1 by omega]
    exact hgroups

theorem spells_of_parse? (h : parse? s = some ip) : Spells ip s.toList := by
  unfold parse? at h
  obtain ⟨start, dotted, cs, hread⟩ :
      ∃ start dotted cs, readGroups 8 true s.toList = (start, dotted, cs) := ⟨_, _, _, rfl⟩
  obtain ⟨hroom, text, htext, hstart⟩ := row_of_readGroups hread
  rw [hread] at h
  dsimp only at h
  split at h
  · rename_i hlength
    split at h
    · rename_i hend
      have hgroups := ofEnds?_eq_some_iff.mp h
      rw [hlength] at hgroups
      simp only [List.length_nil, Nat.sub_self, List.replicate_zero, List.append_nil] at hgroups
      rw [htext, hend, List.append_nil]
      exact .whole (hgroups ▸ hstart)
    · cases h
  · rename_i hlength
    split at h
    · cases h
    · rename_i hdotted
      split at h
      · rename_i bs
        obtain ⟨finish, dotted', cs', hlast⟩ :
            ∃ finish dotted' cs', readGroups (7 - start.length) true bs = (finish, dotted', cs') :=
          ⟨_, _, _, rfl⟩
        obtain ⟨hleft, text', rfl, hfinish⟩ := row_of_readGroups hlast
        rw [hlast] at h
        dsimp only at h
        split at h
        · rename_i hend
          have hgroups := ofEnds?_eq_some_iff.mp h
          rw [show 8 - start.length - finish.length = 7 - start.length - finish.length + 1 by omega]
            at hgroups
          rw [Bool.not_eq_true] at hdotted
          rw [htext, hend, List.append_nil]
          exact .gap _ (hdotted ▸ hstart) hfinish hgroups
        · cases h
      · cases h

theorem parse?_eq_some_iff : parse? s = some ip ↔ Spells ip s.toList :=
  ⟨spells_of_parse?, parse?_of_spells⟩

end Parsing

/-! ### The usual text -/

section Rendering

variable {ip : IPv6} {gs : List UInt16}

theorem renderGroups_cons (g : UInt16) (gs : List UInt16) :
    renderGroups (g :: gs) = hexText g.toNat ++ gs.flatMap fun g => ':' :: hexText g.toNat := by
  induction gs generalizing g with
  | nil => simp [renderGroups]
  | cons g' gs ih => rw [renderGroups, ih g', List.flatMap_cons, List.cons_append]; simp

theorem row_behind (gs : List UInt16) :
    Row false (gs.flatMap fun g => ':' :: hexText g.toNat) gs false := by
  induction gs with
  | nil => exact .none false
  | cons g gs ih => exact .group (spellsGroup_hexText g) ih

theorem row_renderGroups (gs : List UInt16) : Row true (renderGroups gs) gs false := by
  cases gs with
  | nil => exact .none true
  | cons g gs =>
    rw [renderGroups_cons]
    exact .group (spellsGroup_hexText g) (row_behind gs)

theorem longestZeros_spec (gs : List UInt16) :
    gs = gs.take (longestZeros gs).1 ++ List.replicate (longestZeros gs).2 0 ++
      gs.drop ((longestZeros gs).1 + (longestZeros gs).2) := by
  induction gs with
  | nil => rfl
  | cons g gs ih =>
    rw [longestZeros]
    dsimp only
    split
    · have hzeros : (g :: gs).takeWhile (· = 0) =
          List.replicate ((g :: gs).takeWhile (· = 0)).length 0 :=
        List.eq_replicate_of_mem fun z hz => by
          simpa using List.all_eq_true.mp List.all_takeWhile z hz
      rw [List.take_zero, List.nil_append, Nat.zero_add, ← hzeros]
      exact (List.prefix_iff_eq_append.mp (List.takeWhile_prefix _)).symm
    · rw [List.take_succ_cons, Nat.add_right_comm, List.drop_succ_cons, List.cons_append,
        List.cons_append, ← ih]

theorem groups_of_mapped {v4 : IPv4} (h : ip.mapped? = some v4) :
    ip.groups = [] ++ List.replicate (4 + 1) 0 ++ 0xffff :: groupsOf v4 := by
  unfold mapped? at h
  split at h
  · rename_i hgroups
    cases h
    simp only [hgroups, groupsOf, Number.halves_eq]
    rfl
  · cases h

theorem row_mapped (v4 : IPv4) :
    Row true (['f', 'f', 'f', 'f'] ++ ':' :: v4.render) (0xffff :: groupsOf v4) true := by
  have htext : hexText (0xffff : UInt16).toNat = ['f', 'f', 'f', 'f'] := by decide +kernel
  have hgroup := spellsGroup_hexText 0xffff
  rw [htext] at hgroup
  exact .group hgroup (.dotted false v4)

/-- The usual text of an address stands for the address. -/
theorem spells_render (ip : IPv6) : Spells ip ip.render := by
  unfold render
  split
  · rename_i v4 hmapped
    have htext : "::ffff:".toList = [':', ':', 'f', 'f', 'f', 'f', ':'] := by decide
    rw [htext]
    exact .gap 4 (.none true) (row_mapped v4) (groups_of_mapped hmapped)
  · dsimp only
    split
    · rename_i hlong
      obtain ⟨zeros, hzeros⟩ := Nat.exists_eq_add_of_le' (Nat.le_of_lt hlong)
      have hgroups := longestZeros_spec ip.groups
      rw [hzeros] at hgroups ⊢
      exact .gap zeros (row_renderGroups _) (row_renderGroups _) hgroups
    · exact .whole (row_renderGroups ip.groups)

theorem parse?_render (ip : IPv6) : parse? (String.ofList ip.render) = some ip := by
  rw [parse?_eq_some_iff, String.toList_ofList]
  exact spells_render ip

end Rendering

end PeerHealth.Address.IPv6
