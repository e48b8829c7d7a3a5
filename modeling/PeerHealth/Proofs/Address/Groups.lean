import Mathlib.Algebra.GroupWithZero.Nat
import PeerHealth.Address.IPv6
import PeerHealth.Proofs.Address.IPv4

/-! The groups of an IPv6 address in text. `Row` tells how they are written. Main statement: they
are read exactly as they are written, up to the end or to a double colon. -/

namespace PeerHealth.Address

open Number (digits isDigit)
open Text (hexDigit)

def isHex (c : Char) : Bool := (hexDigit? c).isSome

/-! ### Hexadecimal digits -/

theorem hexDigit?_hexDigit {n : Nat} (h : n < 16) : hexDigit? (hexDigit n) = some n := by
  have : ∀ m : Fin 16, hexDigit? (hexDigit m.1) = some m.1 := by decide
  exact this ⟨n, h⟩

theorem isHex_hexDigit {n : Nat} (h : n < 16) : isHex (hexDigit n) = true := by
  rw [isHex, hexDigit?_hexDigit h]
  rfl

theorem isHex_of_isDigit {c : Char} (h : isDigit c = true) : isHex c = true := by
  unfold isDigit Number.digit? at h
  split at h
  · rename_i hc
    simp [isHex, hexDigit?, hc]
  · simp at h

theorem hexDigit?_lt {c : Char} {d : Nat} (h : hexDigit? c = some d) : d < 16 := by
  unfold hexDigit? at h
  dsimp only at h
  split at h
  · cases h
    omega
  · split at h
    · cases h
      omega
    · split at h
      · cases h
        omega
      · cases h

theorem hexValue_concat (cs : List Char) (c : Char) :
    hexValue (cs ++ [c]) = 16 * hexValue cs + (hexDigit? c).getD 0 := by
  simp only [hexValue, List.foldl_append, List.foldl_cons, List.foldl_nil]

theorem hexValue_lt (cs : List Char) : hexValue cs < 16 ^ cs.length := by
  induction cs using List.reverseRecOn with
  | nil => decide
  | append_singleton cs c ih =>
    have hdigit : (hexDigit? c).getD 0 < 16 := by
      cases hc : hexDigit? c with
      | none => decide
      | some d => exact hexDigit?_lt hc
    rw [hexValue_concat, List.length_append, List.length_singleton, Nat.pow_succ]
    omega

theorem hexText_lt_sixteen {n : Nat} (h : n < 16) : hexText n = [hexDigit n] := by
  rw [hexText, if_pos h]

theorem hexText_sixteen_le {n : Nat} (h : 16 ≤ n) :
    hexText n = hexText (n / 16) ++ [hexDigit (n % 16)] := by
  rw [hexText, if_neg (Nat.not_lt.mpr h)]

theorem hexText_ne_nil (n : Nat) : hexText n ≠ [] := by
  rw [hexText]
  split <;> simp

theorem hexValue_hexText (n : Nat) : hexValue (hexText n) = n := by
  induction n using Nat.strongRecOn with
  | _ n ih =>
    by_cases h : n < 16
    · rw [hexText_lt_sixteen h]
      simp [hexValue, hexDigit?_hexDigit h]
    · rw [hexText_sixteen_le (Nat.not_lt.mp h), hexValue_concat, ih (n / 16) (by omega),
        hexDigit?_hexDigit (Nat.mod_lt n (by decide)), Option.getD_some]
      omega

theorem isHex_of_mem_hexText (n : Nat) : ∀ c ∈ hexText n, isHex c = true := by
  induction n using Nat.strongRecOn with
  | _ n ih =>
    intro c hc
    by_cases h : n < 16
    · rw [hexText_lt_sixteen h, List.mem_singleton] at hc
      rw [hc]
      exact isHex_hexDigit h
    · rw [hexText_sixteen_le (Nat.not_lt.mp h), List.mem_append, List.mem_singleton] at hc
      rcases hc with hc | rfl
      · exact ih (n / 16) (by omega) c hc
      · exact isHex_hexDigit (Nat.mod_lt n (by decide))

theorem length_hexText {w n : Nat} (h : n < 16 ^ (w + 1)) : (hexText n).length ≤ w + 1 := by
  induction w generalizing n with
  | zero =>
    rw [hexText_lt_sixteen (by simpa using h)]
    exact Nat.le_refl 1
  | succ w ih =>
    by_cases hn : n < 16
    · rw [hexText_lt_sixteen hn]
      exact Nat.le_add_left _ _
    · have hlast := ih (show n / 16 < 16 ^ (w + 1) by rw [Nat.pow_succ] at h; omega)
      rw [hexText_sixteen_le (Nat.not_lt.mp hn), List.length_append]
      exact Nat.add_le_add_right hlast 1

namespace IPv6

/-! ### One group -/

/-- A group is written in one to four hexadecimal digits of either case, zeros in front or not. -/
structure SpellsGroup (ds : List Char) (g : UInt16) : Prop where
  ne_nil : ds ≠ []
  length_le : ds.length ≤ 4
  isHex : ∀ c ∈ ds, isHex c = true
  value : hexValue ds = g.toNat

/-- Neither a hexadecimal digit nor a point comes next. -/
def StopsGroup (rest : List Char) : Prop := ∀ c ∈ rest.head?, isHex c = false ∧ c ≠ '.'

section Group

variable {g : UInt16} {ds cs rest : List Char}

theorem StopsGroup.not_isHex (h : StopsGroup rest) : ∀ c ∈ rest.head?, Address.isHex c = false :=
  fun c hc => (h c hc).1

theorem stopsGroup_nil : StopsGroup [] := by
  intro c hc
  simp at hc

theorem stopsGroup_colon (rest : List Char) : StopsGroup (':' :: rest) := by
  intro c hc
  rw [← Option.some.inj hc]
  decide

theorem spellsGroup_hexText (g : UInt16) : SpellsGroup (hexText g.toNat) g :=
  ⟨hexText_ne_nil _, length_hexText g.toNat_lt, isHex_of_mem_hexText _, hexValue_hexText _⟩

theorem SpellsGroup.read (h : SpellsGroup ds g) (hrest : StopsGroup rest) :
    group? (ds ++ rest) = some (g, rest) := by
  have htake := Text.takeWhile_append_of_stop rest h.isHex hrest.not_isHex
  have hlength := h.length_le
  unfold group?
  change (ds ++ rest).takeWhile (fun c => (hexDigit? c).isSome) = ds at htake
  rw [htake]
  dsimp only
  rw [if_neg, h.value, List.drop_left, UInt16.ofNat_toNat]
  rintro (hnil | hlong)
  · exact h.ne_nil hnil
  · omega

theorem exists_of_group? (h : group? cs = some (g, rest)) :
    ∃ ds, cs = ds ++ rest ∧ SpellsGroup ds g := by
  unfold group? at h
  dsimp only at h
  split at h
  · cases h
  · rename_i hds
    simp only [not_or, Nat.not_lt] at hds
    cases h
    refine ⟨cs.takeWhile Address.isHex,
      (List.prefix_iff_eq_append.mp (List.takeWhile_prefix _)).symm, hds.1, hds.2,
      List.all_eq_true.mp List.all_takeWhile, ?_⟩
    have hlt := Nat.lt_of_lt_of_le (hexValue_lt (cs.takeWhile Address.isHex))
      (Nat.pow_le_pow_right (by decide) hds.2)
    exact (UInt16.toNat_ofNat_of_lt' hlt).symm

theorem group?_of_stop (h : StopsGroup rest) : group? rest = none := by
  have htake : rest.takeWhile (fun c => (hexDigit? c).isSome) = [] :=
    Text.takeWhile_of_stop h.not_isHex
  rw [group?, htake]
  exact if_pos (.inl rfl)

/-- Digits that no point follows do not start a dotted address. -/
theorem read?_of_stop (hds : ∀ c ∈ ds, Address.isHex c = true) (hrest : StopsGroup rest) :
    IPv4.read? (ds ++ rest) = none := by
  rw [Option.eq_none_iff_forall_ne_some]
  intro ⟨ip, after⟩ hread
  obtain ⟨a, more, htext⟩ := IPv4.exists_of_read? hread
  have hdigits : ∀ c ∈ digits a, Address.isHex c = true := fun c hc =>
    isHex_of_isDigit (Number.isDigit_of_mem_digits a c hc)
  have hpoint : ∀ c ∈ ('.' :: more).head?, Address.isHex c = false := by
    intro c hc
    rw [← Option.some.inj hc]
    decide
  -- Both sides start with the same hexadecimal digits, so what follows them is the same too.
  have hstart : ds = digits a := by
    rw [← Text.takeWhile_append_of_stop rest hds hrest.not_isHex, htext,
      Text.takeWhile_append_of_stop _ hdigits hpoint]
  rw [hstart] at htext
  have hrest_eq := List.append_cancel_left htext
  exact (hrest '.' (by rw [hrest_eq]; rfl)).2 rfl

end Group

/-! ### Rows of groups -/

/-- What stands in front of a group: a colon, unless it comes first. -/
def lead (first : Bool) : List Char := if first then [] else [':']

/-- How a row of groups is written: with colons between them, and the last two perhaps as a dotted
IPv4 address, which the last flag tells. -/
inductive Row : Bool → List Char → List UInt16 → Bool → Prop
  | none (first : Bool) : Row first [] [] false
  | dotted (first : Bool) (ip : IPv4) : Row first (lead first ++ ip.render) (groupsOf ip) true
  | group {first dotted : Bool} {ds cs : List Char} {g : UInt16} {gs : List UInt16}
      (hg : SpellsGroup ds g) (hgs : Row false cs gs dotted) :
      Row first (lead first ++ ds ++ cs) (g :: gs) dotted

/-- The end, or a double colon: what may follow a row. -/
def EndsRow (rest : List Char) : Prop := rest = [] ∨ ∃ more, rest = ':' :: ':' :: more

/-- Where a group is looked for: behind a colon, unless it comes first. -/
def groupPlace? (first : Bool) (cs : List Char) : Option (List Char) :=
  if first then some cs else skip? ':' cs

section Rows

variable {room : Nat} {first dotted : Bool} {g : UInt16} {gs : List UInt16}
  {cs body rest text : List Char}

theorem groupPlace?_eq_some_iff : groupPlace? first cs = some body ↔ cs = lead first ++ body := by
  cases first
  · exact skip?_eq_some_iff
  · exact Option.some_inj

theorem readGroups_succ (room : Nat) (first : Bool) (cs : List Char) :
    readGroups (room + 1) first cs =
      match if 0 < room then (groupPlace? first cs).bind IPv4.read? else none with
      | some (ip, rest) => (groupsOf ip, true, rest)
      | none =>
        match (groupPlace? first cs).bind group? with
        | some (g, rest) =>
          (g :: (readGroups room false rest).1, (readGroups room false rest).2)
        | none => ([], false, cs) := rfl

/-- What is read is a row, with no more groups than there is room for. -/
theorem row_of_readGroups (h : readGroups room first cs = (gs, dotted, rest)) :
    gs.length ≤ room ∧ ∃ text, cs = text ++ rest ∧ Row first text gs dotted := by
  induction room generalizing first cs gs with
  | zero =>
    cases h
    exact ⟨Nat.le_refl 0, [], rfl, .none first⟩
  | succ room ih =>
    rw [readGroups_succ] at h
    split at h
    · rename_i ip after hdotted
      cases h
      split at hdotted
      · rename_i hroom
        obtain ⟨body, hbody, hread⟩ := Option.bind_eq_some_iff.mp hdotted
        obtain ⟨rfl, -⟩ := IPv4.read?_eq_some_iff.mp hread
        refine ⟨Nat.succ_le_succ hroom, _, ?_, .dotted first ip⟩
        rw [groupPlace?_eq_some_iff.mp hbody, List.append_assoc]
      · cases hdotted
    · split at h
      · rename_i g after hgroup
        obtain ⟨body, hbody, hread⟩ := Option.bind_eq_some_iff.mp hgroup
        obtain ⟨ds, rfl, hg⟩ := exists_of_group? hread
        obtain ⟨gs', dotted', rest', hbehind⟩ :
            ∃ gs' dotted' rest', readGroups room false after = (gs', dotted', rest') :=
          ⟨_, _, _, rfl⟩
        rw [hbehind] at h
        cases h
        obtain ⟨hlength, text, rfl, hgs⟩ := ih hbehind
        refine ⟨Nat.succ_le_succ hlength, _, ?_, .group hg hgs⟩
        rw [groupPlace?_eq_some_iff.mp hbody]
        simp only [List.append_assoc]
      · cases h
        exact ⟨Nat.zero_le _, [], rfl, .none first⟩

theorem EndsRow.stopsGroup (h : EndsRow rest) : StopsGroup rest := by
  rcases h with rfl | ⟨more, rfl⟩
  · exact stopsGroup_nil
  · exact stopsGroup_colon _

theorem Row.stopsGroup (h : Row false text gs dotted) (hrest : EndsRow rest) :
    StopsGroup (text ++ rest) := by
  cases h with
  | none => exact hrest.stopsGroup
  | dotted | group => exact stopsGroup_colon _

theorem StopsGroup.stopsDigits (h : StopsGroup rest) : StopsDigits rest := by
  intro c hc
  have hnot := (h c hc).1
  exact Bool.eq_false_iff.mpr fun hdigit => by simp [isHex_of_isDigit hdigit] at hnot

/-- No group is looked for where a row has ended, or none is there. -/
theorem EndsRow.stopsGroup_of_groupPlace? (h : EndsRow rest)
    (hplace : groupPlace? first rest = some body) : StopsGroup body := by
  have hrest := groupPlace?_eq_some_iff.mp hplace
  cases first
  · rcases h with rfl | ⟨more, rfl⟩
    · cases hrest
    · have hcolons : ':' :: ':' :: more = ':' :: body := hrest
      obtain rfl := (List.cons.inj hcolons).2
      exact stopsGroup_colon _
  · obtain rfl : rest = body := hrest
    exact h.stopsGroup

theorem readGroups_of_endsRow (h : EndsRow rest) :
    readGroups room first rest = ([], false, rest) := by
  cases room with
  | zero => rfl
  | succ room =>
    have hdotted : (groupPlace? first rest).bind IPv4.read? = none :=
      Option.bind_eq_none_iff.mpr fun body hbody =>
        @read?_of_stop [] body (by simp) (h.stopsGroup_of_groupPlace? hbody)
    have hgroup : (groupPlace? first rest).bind group? = none :=
      Option.bind_eq_none_iff.mpr fun body hbody =>
        group?_of_stop (h.stopsGroup_of_groupPlace? hbody)
    rw [readGroups_succ, hdotted, hgroup, ite_self]

/-- A row is read, if there is room for its groups, up to where it ends. -/
theorem Row.read (h : Row first text gs dotted) (hroom : gs.length ≤ room) (hrest : EndsRow rest) :
    readGroups room first (text ++ rest) = (gs, dotted, rest) := by
  induction h generalizing room with
  | none first => exact readGroups_of_endsRow hrest
  | dotted first ip =>
    obtain ⟨room, rfl⟩ : ∃ r, room = r + 2 := Nat.exists_eq_add_of_le' hroom
    have hplace : groupPlace? first (lead first ++ ip.render ++ rest) = some (ip.render ++ rest) :=
      groupPlace?_eq_some_iff.mpr (List.append_assoc _ _ _)
    have hread : IPv4.read? (ip.render ++ rest) = some (ip, rest) :=
      IPv4.read?_eq_some_iff.mpr ⟨rfl, hrest.stopsGroup.stopsDigits⟩
    rw [readGroups_succ, hplace, Option.bind_some, hread, if_pos (Nat.zero_lt_succ room)]
  | @group first dotted ds cs g gs hg hgs ih =>
    obtain ⟨room, rfl⟩ : ∃ r, room = r + 1 :=
      Nat.exists_eq_add_of_le' (Nat.le_trans (Nat.le_add_left 1 _) hroom)
    have hplace : groupPlace? first (lead first ++ ds ++ cs ++ rest) = some (ds ++ (cs ++ rest)) :=
      groupPlace?_eq_some_iff.mpr (by simp only [List.append_assoc])
    have hstop := hgs.stopsGroup hrest
    rw [readGroups_succ, hplace, Option.bind_some, Option.bind_some, read?_of_stop hg.isHex hstop,
      ite_self, hg.read hstop]
    simp only [ih (Nat.le_of_succ_le_succ hroom)]

end Rows

end IPv6
end PeerHealth.Address
