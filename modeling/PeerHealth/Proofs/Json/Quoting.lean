import PeerHealth.Json.Writer
import PeerHealth.Proofs.Json.Spelling

/-! Texts between quotes. Main statement: the quoted form of a text spells one token, which reads as
that text. -/

namespace PeerHealth.Json

def bytesOf (cs : List Char) : List UInt8 := cs.flatMap String.utf8EncodeChar

theorem bytesOf_cons (c : Char) (cs : List Char) :
    bytesOf (c :: cs) = String.utf8EncodeChar c ++ bytesOf cs :=
  List.flatMap_cons

theorem bytesOf_append (cs ds : List Char) : bytesOf (cs ++ ds) = bytesOf cs ++ bytesOf ds :=
  List.flatMap_append

theorem encode_ofList (cs : List Char) : Text.Utf8.encode (String.ofList cs) = bytesOf cs := by
  rw [Text.Utf8.encode, String.toList_ofList]
  rfl

theorem bytesOf_prefix {cs ds : List Char} (h : cs <+: ds) : bytesOf cs <+: bytesOf ds := by
  obtain ⟨rest, rfl⟩ := h
  rw [bytesOf_append]
  exact List.prefix_append _ _

/-! ### Inside a text -/

/-- What the scanner has collected of a text that it is inside of, last byte first. -/
def Scan.collected? : Scan → Option (List UInt8)
  | .inText bytes | .inEscape bytes | .inHex _ _ bytes => some bytes
  | _ => none

theorem Scan.finish_of_collected? {scan : Scan} {bytes : List UInt8}
    (h : scan.collected? = some bytes) : scan.finish = [.brokenText bytes.reverse .truncated] := by
  cases scan <;> cases h <;> rfl

/-- Inside a text a byte completes a token or is collected. -/
theorem Scan.collected?_step {scan : Scan} {bytes : List UInt8} (h : scan.collected? = some bytes)
    {b : UInt8} (hstep : (scan.step b).1 = []) :
    (scan.step b).2.collected? = some (b :: bytes) := by
  cases scan with
  | inText held =>
    cases h
    unfold step at hstep ⊢
    grind [collected?]
  | inEscape held =>
    cases h
    unfold step at hstep ⊢
    grind [collected?]
  | inHex left valid held =>
    cases h
    unfold step at hstep ⊢
    grind [collected?]
  | _ => cases h

theorem Scan.collected?_run {scan : Scan} {bytes more : List UInt8}
    (h : scan.collected? = some bytes) (hrun : (scan.run more).1 = []) :
    (scan.run more).2.collected? = some (more.reverse ++ bytes) := by
  induction more generalizing scan bytes with
  | nil => exact h
  | cons b more ih =>
    simp only [run, List.append_eq_nil_iff] at hrun ⊢
    rw [ih (collected?_step h hrun.1) hrun.2, List.reverse_cons, List.append_assoc]
    rfl

theorem unescapeFrom_letter (lead : Option Nat) (done : List UInt8) {b : UInt8} (hb : b ≠ 0x75)
    (rest : List UInt8) :
    unescapeFrom lead done (0x5c :: b :: rest) =
      if lead.isSome then .error .loneSurrogate
      else unescapeFrom none (escapedByte b :: done) rest := by
  rw [unescapeFrom.eq_4 lead done b rest fun _ _ _ _ _ h => absurd h hb, if_neg (by simp [hb])]

theorem unescapeFrom_byte (lead : Option Nat) (done : List UInt8) {b : UInt8} (hb : b ≠ 0x5c)
    (rest : List UInt8) :
    unescapeFrom lead done (b :: rest) =
      if lead.isSome then .error .loneSurrogate else unescapeFrom none (b :: done) rest :=
  unescapeFrom.eq_6 lead done b rest (fun _ _ _ _ _ h => absurd h hb) (fun h => absurd h hb)
    fun _ _ h => absurd h hb

/-- Half a surrogate pair stands alone whatever follows. -/
theorem unescapeFrom_append_of_lone {lead : Option Nat} {done front : List UInt8}
    (h : unescapeFrom lead done front = .error .loneSurrogate) (rest : List UInt8) :
    unescapeFrom lead done (front ++ rest) = .error .loneSurrogate := by
  fun_induction unescapeFrom lead done front with
  | case1 done a b c d more n hlow =>
    simp only [List.cons_append]
    rw [unescapeFrom, if_pos hlow]
  | case2 done a b c d more n hlow hhigh ih =>
    simp only [List.cons_append]
    rw [unescapeFrom, if_neg hlow, if_pos hhigh]
    exact ih h
  | case3 done a b c d more n hlow hhigh ih =>
    simp only [List.cons_append]
    rw [unescapeFrom, if_neg hlow, if_neg hhigh]
    exact ih h
  | case4 done a b c d more n m hlow ih =>
    simp only [List.cons_append]
    rw [unescapeFrom, if_pos hlow]
    exact ih h
  | case5 done a b c d more n m hlow =>
    simp only [List.cons_append]
    rw [unescapeFrom, if_neg hlow]
  | case6 => cases h
  | case7 => cases h
  | case8 lead done b more _ hb hlead =>
    simp only [List.cons_append]
    rw [unescapeFrom_letter _ _ (by simpa using hb), if_pos hlead]
  | case9 lead done b more _ hb hlead ih =>
    simp only [List.cons_append]
    rw [unescapeFrom_letter _ _ (by simpa using hb), if_neg hlead]
    exact ih h
  | case10 => cases h
  | case11 => cases h
  | case12 lead done b more _ hlast hmore hlead =>
    have hb : b ≠ 0x5c := fun hb => by cases more <;> simp_all
    rw [List.cons_append, unescapeFrom_byte _ _ hb, if_pos hlead]
  | case13 lead done b more _ hlast hmore hlead ih =>
    have hb : b ≠ 0x5c := fun hb => by cases more <;> simp_all
    rw [List.cons_append, unescapeFrom_byte _ _ hb, if_neg hlead]
    exact ih h

/-- Bytes that may stand between quotes, and what they stand for. -/
structure Quoted (bytes resolved : List UInt8) : Prop where
  passes : ∀ before, (Scan.inText before).run bytes = ([], .inText (bytes.reverse ++ before))
  resolves : ∀ done rest,
    unescapeFrom none done (bytes ++ rest) = unescapeFrom none (resolved.reverse ++ done) rest
  plain : ∀ b ∈ bytes, 0x20 ≤ b

namespace Quoted

theorem nil : Quoted [] [] :=
  ⟨fun _ => rfl, fun _ _ => rfl, fun _ h => absurd h List.not_mem_nil⟩

theorem append {bytes more resolved resolved' : List UInt8} (h : Quoted bytes resolved)
    (h' : Quoted more resolved') : Quoted (bytes ++ more) (resolved ++ resolved') := by
  refine ⟨fun before => ?_, fun done rest => ?_, fun b hb => ?_⟩
  · rw [Scan.run_append, h.passes, h'.passes]
    simp only [List.append_nil, List.reverse_append, List.append_assoc]
  · rw [List.append_assoc, h.resolves, h'.resolves, List.reverse_append, List.append_assoc]
  · rcases List.mem_append.mp hb with hb | hb
    · exact h.plain b hb
    · exact h'.plain b hb

/-- A byte that stands for itself. -/
theorem byte {b : UInt8} (hplain : 0x20 ≤ b) (hquote : b ≠ 0x22) (hescape : b ≠ 0x5c) :
    Quoted [b] [b] := by
  refine ⟨fun before => ?_, fun done rest => ?_, fun b' hb' => ?_⟩
  · simp [Scan.run, Scan.step, hquote, hescape, UInt8.not_lt.mpr hplain]
  · simp [unescapeFrom_byte, hescape]
  · rw [List.mem_singleton.mp hb']
    exact hplain

theorem bytes {bytes : List UInt8} (h : ∀ b ∈ bytes, 0x20 ≤ b ∧ b ≠ 0x22 ∧ b ≠ 0x5c) :
    Quoted bytes bytes := by
  induction bytes with
  | nil => exact nil
  | cons b bytes ih =>
    obtain ⟨hplain, hquote, hescape⟩ := h b List.mem_cons_self
    exact (byte hplain hquote hescape).append (ih fun b' hb' => h b' (List.mem_cons_of_mem _ hb'))

/-- A backslash and a letter. -/
theorem letter {b : UInt8} (h : isEscapeByte b = true) : Quoted [0x5c, b] [escapedByte b] := by
  have hu : b ≠ 0x75 := by
    rintro rfl
    exact absurd h (by decide)
  refine ⟨fun before => ?_, fun done rest => ?_, fun b' hb' => ?_⟩
  · simp [Scan.run, Scan.step, h]
  · simp [unescapeFrom_letter, hu]
  · rcases List.mem_cons.mp hb' with rfl | hb'
    · decide
    · rw [List.mem_singleton.mp hb']
      simp only [isEscapeByte, Bool.or_eq_true, beq_iff_eq] at h
      grind

/-- A backslash and the number of a control character. -/
theorem number {a b : UInt8} {m n : Nat} (ha : hexValue? a = some m) (hb : hexValue? b = some n)
    (hm : m < 2) (hn : n < 16) (hplain : 0x20 ≤ a ∧ 0x20 ≤ b) :
    Quoted [0x5c, 0x75, 0x30, 0x30, a, b]
      (String.utf8EncodeChar (Char.ofNat (m * 16 + n))) := by
  refine ⟨fun before => ?_, fun done rest => ?_, fun b' hb' => ?_⟩
  · simp [Scan.run, Scan.step, isEscapeByte, ha, hb, show hexValue? 0x30 = some 0 by decide]
  · have hnumber : hexNumber 0x30 0x30 a b = m * 16 + n := by
      simp [hexNumber, ha, hb, show hexValue? 0x30 = some 0 by decide]
    simp only [List.cons_append, List.nil_append]
    rw [unescapeFrom, hnumber, if_neg (by omega), if_neg (by omega)]
    rfl
  · simp only [List.mem_cons, List.not_mem_nil, or_false] at hb'
    rcases hb' with rfl | rfl | rfl | rfl | rfl | rfl
    · decide
    · decide
    · decide
    · decide
    · exact hplain.1
    · exact hplain.2

theorem plain_ofNat {n : Nat} (hplain : 0x20 ≤ n) (hbyte : n < 256) (hquote : n ≠ 0x22)
    (hescape : n ≠ 0x5c) :
    0x20 ≤ UInt8.ofNat n ∧ UInt8.ofNat n ≠ 0x22 ∧ UInt8.ofNat n ≠ 0x5c := by
  have hn : (UInt8.ofNat n).toNat = n := Text.Utf8.toNat_ofNat_of_lt hbyte
  refine ⟨UInt8.le_iff_toNat_le.mpr (hn.symm ▸ hplain), fun h => hquote ?_, fun h => hescape ?_⟩
  · rw [← hn, h]
    rfl
  · rw [← hn, h]
    rfl

theorem plain_utf8EncodeChar {c : Char} (hplain : 0x20 ≤ c.toNat) (hquote : c ≠ '"')
    (hescape : c ≠ '\\') :
    ∀ b ∈ String.utf8EncodeChar c, 0x20 ≤ b ∧ b ≠ 0x22 ∧ b ≠ 0x5c := by
  have hquote' : c.val.toNat ≠ 0x22 := fun h => hquote (Char.toNat_inj.mp h)
  have hescape' : c.val.toNat ≠ 0x5c := fun h => hescape (Char.toNat_inj.mp h)
  have hplain' : 0x20 ≤ c.val.toNat := hplain
  intro b hb
  simp only [String.utf8EncodeChar] at hb
  split at hb
  · rw [List.mem_singleton.mp hb]
    exact plain_ofNat hplain' (by omega) hquote' hescape'
  -- All bytes of a longer character are from 0x80 up.
  split at hb
  · simp only [List.mem_cons, List.not_mem_nil, or_false] at hb
    rcases hb with rfl | rfl <;> exact plain_ofNat (by omega) (by omega) (by omega) (by omega)
  split at hb
  · simp only [List.mem_cons, List.not_mem_nil, or_false] at hb
    rcases hb with rfl | rfl | rfl <;> exact plain_ofNat (by omega) (by omega) (by omega) (by omega)
  · simp only [List.mem_cons, List.not_mem_nil, or_false] at hb
    rcases hb with rfl | rfl | rfl | rfl <;>
      exact plain_ofNat (by omega) (by omega) (by omega) (by omega)

theorem hexDigit_byte : ∀ n < 16,
    String.utf8EncodeChar (Text.hexDigit n) = [UInt8.ofNat (Text.hexDigit n).toNat] ∧
      hexValue? (UInt8.ofNat (Text.hexDigit n).toNat) = some n ∧
      0x20 ≤ UInt8.ofNat (Text.hexDigit n).toNat := by
  decide

theorem escapeChar (c : Char) : Quoted (bytesOf (escapeChar c)) (String.utf8EncodeChar c) := by
  unfold Json.escapeChar
  split
  · exact letter (b := 0x22) (by decide)
  · exact letter (b := 0x5c) (by decide)
  · exact letter (b := 0x62) (by decide)
  · exact letter (b := 0x74) (by decide)
  · exact letter (b := 0x6e) (by decide)
  · exact letter (b := 0x66) (by decide)
  · exact letter (b := 0x72) (by decide)
  · split
    · rename_i hcontrol
      obtain ⟨ha, ha', haplain⟩ := hexDigit_byte (c.toNat / 16) (by omega)
      obtain ⟨hb, hb', hbplain⟩ := hexDigit_byte (c.toNat % 16) (by omega)
      have hquoted := number ha' hb' (by omega) (by omega) ⟨haplain, hbplain⟩
      rw [Nat.div_add_mod', Char.ofNat_toNat] at hquoted
      have hbytes : bytesOf ['\\', 'u', '0', '0', Text.hexDigit (c.toNat / 16),
          Text.hexDigit (c.toNat % 16)] = [0x5c, 0x75, 0x30, 0x30,
            UInt8.ofNat (Text.hexDigit (c.toNat / 16)).toNat,
            UInt8.ofNat (Text.hexDigit (c.toNat % 16)).toNat] := by
        simp only [bytesOf, List.flatMap_cons, List.flatMap_nil, ha, hb]
        rfl
      rw [hbytes]
      exact hquoted
    · rename_i hquote hescape _ _ _ _ _ hplain
      have hraw := bytes (plain_utf8EncodeChar (c := c) (by omega) hquote hescape)
      simpa [bytesOf] using hraw

theorem flatMap_escapeChar (cs : List Char) :
    Quoted (bytesOf (cs.flatMap Json.escapeChar)) (bytesOf cs) := by
  induction cs with
  | nil => exact nil
  | cons c cs ih =>
    rw [List.flatMap_cons, bytesOf_append, bytesOf_cons]
    exact (escapeChar c).append ih

variable {bytes resolved : List UInt8}

theorem unescape_eq (h : Quoted bytes resolved) : unescapeFrom none [] bytes = .ok resolved := by
  have hend := h.resolves [] []
  rw [List.append_nil] at hend
  rw [hend, unescapeFrom, if_neg (by decide), List.append_nil, List.reverse_reverse]

/-- Nothing is wrong with quoted bytes that are cut off. -/
theorem brokenTextProblem_eq (h : Quoted bytes resolved) {front : List UInt8}
    (hfront : front <+: bytes) : brokenTextProblem front .truncated = .truncated := by
  obtain ⟨rest, rfl⟩ := hfront
  unfold brokenTextProblem
  split
  -- A lone half of a pair would be one in all of the bytes as well, and these are read.
  · rename_i hlone
    have hok := h.unescape_eq
    rw [unescapeFrom_append_of_lone hlone] at hok
    cases hok
  · rfl

/-- Quoted bytes that are cut off after their first quote make a text that is broken off. -/
theorem tokens_cut (h : Quoted bytes resolved) {front : List UInt8} (hfront : front <+: bytes) :
    tokens (0x22 :: front) = [.brokenText front .truncated] := by
  obtain ⟨rest, rfl⟩ := hfront
  have hrun := congrArg Prod.fst (h.passes [])
  rw [Scan.run_append] at hrun
  have hnone : ((Scan.inText []).run front).1 = [] := (List.append_eq_nil_iff.mp hrun).1
  have hcollected : ((Scan.inText []).run front).2.collected? = some (front.reverse ++ []) :=
    Scan.collected?_run rfl hnone
  have hopen : Scan.between.step 0x22 = ([], .inText []) := rfl
  rw [tokens_eq, Scan.run, hopen, hnone, Scan.finish_of_collected? hcollected]
  simp only [List.append_nil, List.nil_append, List.reverse_reverse]

/-- A text between its quotes spells one token. -/
theorem spells (h : Quoted bytes resolved) : Spells (0x22 :: bytes ++ [0x22]) [.text bytes] := by
  refine ⟨?_, fun front hfront hne => ?_, fun b hb => ?_⟩
  · have hopen : Scan.between.step 0x22 = ([], .inText []) := rfl
    rw [List.cons_append, Scan.run, hopen, Scan.run_append, h.passes]
    simp [Scan.run, Scan.step]
  · rcases List.prefix_cons_iff.mp hfront with rfl | ⟨front', rfl, hfront'⟩
    · exact .ended _ _
    · have hinside : front' <+: bytes :=
        (List.prefix_concat_iff.mp hfront').resolve_left fun hall => hne (hall ▸ rfl)
      rw [h.tokens_cut hinside]
      exact .broken bytes front' [] (h.brokenTextProblem_eq hinside)
  · simp only [List.cons_append, List.mem_cons, List.mem_append, List.not_mem_nil, or_false] at hb
    rcases hb with rfl | hb | rfl
    · decide
    · exact h.plain b hb
    · decide

end Quoted

/-- The bytes between the quotes of a text. -/
def held (s : String) : List UInt8 := bytesOf (s.toList.flatMap escapeChar)

theorem readText_held (s : String) : readText (held s) = .ok s := by
  have hquoted := Quoted.flatMap_escapeChar s.toList
  have hdecode : Text.Utf8.decode (bytesOf s.toList) = .ok s := Text.Utf8.decode_encode s
  rw [readText, held, hquoted.unescape_eq]
  simp only [hdecode]

theorem spells_writeText (s : String) : Spells (bytesOf (writeText s)) [.text (held s)] := by
  have hbytes : bytesOf (writeText s) = 0x22 :: held s ++ [0x22] := by
    rw [writeText, bytesOf_append, bytesOf_cons]
    rfl
  rw [hbytes]
  exact (Quoted.flatMap_escapeChar s.toList).spells

end PeerHealth.Json
