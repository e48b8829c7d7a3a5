import Mathlib.Data.List.Basic
import PeerHealth.Proofs.Json.Numeral
import PeerHealth.Proofs.Json.Values

/-! JSON text: tokens as the grammar spells them, with white space between them. Main statements:
the text of a value is cut into the tokens of the value, however it is laid out, and text that is
cut into tokens of which none is broken is those tokens laid out. -/

namespace PeerHealth.Json

/-- Bytes that may stand between the quotes of a text. -/
inductive Inside : List UInt8 → Prop
  | nil : Inside []
  | plain {b : UInt8} {bytes : List UInt8} (printed : 0x20 ≤ b) (quote : b ≠ 0x22)
      (escape : b ≠ 0x5c) (rest : Inside bytes) : Inside (b :: bytes)
  | letter {b : UInt8} {bytes : List UInt8} (isEscape : isEscapeByte b = true)
      (rest : Inside bytes) : Inside (0x5c :: b :: bytes)
  | number {digits bytes : List UInt8} (length : digits.length = 4)
      (hex : ∀ d ∈ digits, (hexValue? d).isSome = true) (rest : Inside bytes) :
      Inside (0x5c :: 0x75 :: (digits ++ bytes))

/-- The words `null`, `true` and `false`. -/
def words : List (List UInt8) :=
  [[0x6e, 0x75, 0x6c, 0x6c], [0x74, 0x72, 0x75, 0x65], [0x66, 0x61, 0x6c, 0x73, 0x65]]

/-- How a token is spelled. -/
inductive Lexeme : Token → List UInt8 → Prop
  | openBrace : Lexeme .openBrace [0x7b]
  | closeBrace : Lexeme .closeBrace [0x7d]
  | openBracket : Lexeme .openBracket [0x5b]
  | closeBracket : Lexeme .closeBracket [0x5d]
  | colon : Lexeme .colon [0x3a]
  | comma : Lexeme .comma [0x2c]
  | word {bytes : List UInt8} (isWord : bytes ∈ words) : Lexeme .word bytes
  | number {bytes : List UInt8} (isNumber : IsNumber bytes) : Lexeme (.number bytes) bytes
  | text {bytes : List UInt8} (inside : Inside bytes) :
      Lexeme (.text bytes) (0x22 :: (bytes ++ [0x22]))

def IsSpace (bytes : List UInt8) : Prop := ∀ b ∈ bytes, isSpaceByte b = true

/-- Tokens one after the other, with white space before and after any of them. -/
inductive LaidOut : List Token → List UInt8 → Prop
  | nil {space : List UInt8} (isSpace : IsSpace space) : LaidOut [] space
  | cons {t : Token} {ts : List Token} {space bytes rest : List UInt8} (isSpace : IsSpace space)
      (lexeme : Lexeme t bytes) (others : LaidOut ts rest) :
      LaidOut (t :: ts) (space ++ (bytes ++ rest))

/-- The tokens of bytes that are read from within one. -/
def scanFrom (scan : Scan) (bytes : List UInt8) : List Token :=
  (scan.run bytes).1 ++ (scan.run bytes).2.finish

theorem tokens_eq_scanFrom (bytes : List UInt8) : tokens bytes = scanFrom .between bytes :=
  tokens_eq bytes

theorem scanFrom_cons (scan : Scan) (b : UInt8) (bytes : List UInt8) :
    scanFrom scan (b :: bytes) = (scan.step b).1 ++ scanFrom (scan.step b).2 bytes := by
  simp only [scanFrom, Scan.run, List.append_assoc]

theorem scanFrom_append (scan : Scan) (front back : List UInt8) :
    scanFrom scan (front ++ back) = (scan.run front).1 ++ scanFrom (scan.run front).2 back := by
  simp only [scanFrom, Scan.run_append, List.append_assoc]

/-! ### Text that is laid out is cut into its tokens -/

section Cutting

variable {t : Token} {ts : List Token} {bytes space rest : List UInt8} {b : UInt8}

theorem start_space (h : isSpaceByte b = true) : Scan.start b = ([], .between) := if_pos h

theorem scanFrom_space (h : IsSpace space) (rest : List UInt8) :
    scanFrom .between (space ++ rest) = scanFrom .between rest := by
  induction space with
  | nil => rfl
  | cons b space ih =>
    obtain ⟨hb, hspace⟩ := List.forall_mem_cons.mp h
    rw [List.cons_append, scanFrom_cons, Scan.step, start_space hb]
    exact ih hspace

theorem Inside.run (h : Inside bytes) (before : List UInt8) :
    (Scan.inText before).run bytes = ([], .inText (bytes.reverse ++ before)) := by
  induction h generalizing before with
  | nil => rfl
  | plain printed quote escape _ ih =>
    simp [Scan.run, Scan.step, quote, escape, UInt8.not_lt.mpr printed, ih]
  | letter isEscape _ ih => simp [Scan.run, Scan.step, isEscape, ih]
  | number length hex _ ih =>
    obtain ⟨a, b, c, d, rfl⟩ := List.length_eq_four.mp length
    simp only [List.forall_mem_cons] at hex
    simp [Scan.run, Scan.step, isEscapeByte, hex, ih]

/-- A byte that is not of a number that may end before it. -/
def EndsNumber (b : UInt8) : Prop := isDigitByte b = false ∧ b ≠ 0x2e ∧ ¬IsMark b

theorem step_endsNumber {part : NumberPart} (hpart : part.complete = true) (hb : EndsNumber b)
    (held : List UInt8) :
    (Scan.inNumber part held).step b =
      (.number held.reverse :: (Scan.start b).1, (Scan.start b).2) := by
  obtain ⟨hdigit, hpoint, hmark⟩ := hb
  rw [IsMark, not_or] at hmark
  have hnone : Scan.numberPart? part b = none := by
    cases part <;> simp_all [Scan.numberPart?, NumberPart.complete]
  simp [Scan.step, hnone, hpart, hdigit]

def Token.isNumber : Token → Bool
  | .number _ => true
  | _ => false

/-- A spelling is cut off as its token, unless it is a number that goes on. -/
theorem Lexeme.scanFrom_append (h : Lexeme t bytes)
    (hends : t.isNumber = true → ∀ b ∈ rest.head?, EndsNumber b) :
    scanFrom .between (bytes ++ rest) = t :: scanFrom .between rest := by
  cases h with
  | word isWord =>
    have hrun : Scan.between.run bytes = ([], .inWord []) := by
      simp only [words, List.mem_cons, List.not_mem_nil, or_false] at isWord
      rcases isWord with rfl | rfl | rfl <;> rfl
    rw [Json.scanFrom_append, hrun]
    cases rest with
    | nil => rfl
    | cons b rest => simp only [scanFrom_cons, Scan.step, List.nil_append, List.cons_append]
  | number isNumber =>
    obtain ⟨part, hpart, hrun⟩ := scanned_number isNumber
    have hcomplete : part.complete = true := by
      clear hrun
      revert part
      decide
    rw [Json.scanFrom_append, hrun]
    cases rest with
    | nil => simp [scanFrom, Scan.finish, hcomplete]
    | cons b rest =>
      have hb : EndsNumber b := hends rfl b rfl
      rw [List.nil_append, scanFrom_cons, step_endsNumber hcomplete hb, List.reverse_reverse,
        scanFrom_cons, Scan.step]
      rfl
  | text inside =>
    rename_i bytes
    have hopen : Scan.between.step 0x22 = ([], .inText []) := rfl
    rw [List.cons_append, scanFrom_cons, hopen, List.append_assoc, Json.scanFrom_append,
      inside.run, List.append_nil, List.singleton_append, scanFrom_cons, Scan.step]
    simp
  | _ => rfl

theorem endsNumber_of_space (h : isSpaceByte b = true) : EndsNumber b := by
  simp only [isSpaceByte, Bool.or_eq_true, beq_iff_eq] at h
  unfold EndsNumber IsMark
  rcases h with ((rfl | rfl) | rfl) | rfl <;> decide

theorem Lexeme.endsNumber (h : Lexeme t bytes) (ht : t.isNumber = false) :
    ∃ b more, bytes = b :: more ∧ EndsNumber b := by
  unfold EndsNumber IsMark
  cases h with
  | word isWord =>
    simp only [words, List.mem_cons, List.not_mem_nil, or_false] at isWord
    rcases isWord with rfl | rfl | rfl <;> exact ⟨_, _, rfl, by decide⟩
  | number => cases ht
  | _ => exact ⟨_, _, rfl, by decide⟩

theorem LaidOut.endsNumber (h : LaidOut ts bytes) (hts : ∀ t ∈ ts.head?, t.isNumber = false) :
    ∀ b ∈ bytes.head?, EndsNumber b := by
  have hspace {space more : List UInt8} (hspace : IsSpace space)
      (hmore : ∀ b ∈ more.head?, EndsNumber b) : ∀ b ∈ (space ++ more).head?, EndsNumber b := by
    cases space with
    | nil => exact hmore
    | cons c space =>
      intro b hb
      cases hb
      exact endsNumber_of_space (hspace c List.mem_cons_self)
  cases h with
  | nil isSpace =>
    rw [← List.append_nil bytes]
    exact hspace isSpace fun b hb => nomatch hb
  | cons isSpace lexeme others =>
    obtain ⟨b, more, rfl, hb⟩ := lexeme.endsNumber (hts _ rfl)
    refine hspace isSpace fun c hc => ?_
    cases hc
    exact hb

/-- No number follows a number. -/
def Parted : List Token → Prop
  | [] => True
  | t :: ts => (t.isNumber = true → ∀ u ∈ ts.head?, u.isNumber = false) ∧ Parted ts

theorem LaidOut.tokens_eq (h : LaidOut ts bytes) (hparted : Parted ts) : tokens bytes = ts := by
  rw [tokens_eq_scanFrom]
  induction h with
  | nil isSpace =>
    rename_i space
    rw [← List.append_nil space, scanFrom_space isSpace]
    rfl
  | cons isSpace lexeme others ih =>
    obtain ⟨hnext, hothers⟩ := hparted
    rw [scanFrom_space isSpace,
      lexeme.scanFrom_append fun ht => others.endsNumber (hnext ht), ih hothers]

theorem head?_tokensOfItems (items : List Value) :
    ∀ t ∈ (Value.tokensOfItems false items ++ ts).head?, t.isNumber = false := by
  cases items <;> (intro t ht; cases ht; rfl)

theorem head?_tokensOfMembers (members : List (List UInt8 × Value)) :
    ∀ t ∈ (Value.tokensOfMembers false members ++ ts).head?, t.isNumber = false := by
  cases members <;> (intro t ht; cases ht; rfl)

theorem Parted.mark (h : Parted ts) (ht : t.isNumber = false) : Parted (t :: ts) :=
  ⟨fun hnumber => (nomatch ht.symm.trans hnumber), h⟩

theorem Parted.separator (h : Parted ts) (first : Bool) :
    Parted (Value.separator first ++ ts) := by
  cases first with
  | true => exact h
  | false => exact h.mark rfl

theorem parted_items {items : List Value}
    (h : ∀ v ∈ items, ∀ ts, Parted ts → (∀ u ∈ ts.head?, u.isNumber = false) →
      Parted (v.tokens ++ ts)) (first : Bool) (hts : Parted ts) :
    Parted (Value.tokensOfItems first items ++ ts) := by
  induction items generalizing first with
  | nil => exact hts.mark rfl
  | cons v items ih =>
    have hitems := ih (fun w hw => h w (List.mem_cons_of_mem v hw)) false
    rw [Value.tokensOfItems, List.append_assoc, List.append_assoc]
    exact (h v List.mem_cons_self _ hitems (head?_tokensOfItems items)).separator first

theorem parted_members {members : List (List UInt8 × Value)}
    (h : ∀ m ∈ members, ∀ ts, Parted ts → (∀ u ∈ ts.head?, u.isNumber = false) →
      Parted (m.2.tokens ++ ts)) (first : Bool) (hts : Parted ts) :
    Parted (Value.tokensOfMembers first members ++ ts) := by
  induction members generalizing first with
  | nil => exact hts.mark rfl
  | cons m members ih =>
    obtain ⟨key, v⟩ := m
    have hmembers := ih (fun m hm => h m (List.mem_cons_of_mem _ hm)) false
    have hvalue := h (key, v) List.mem_cons_self _ hmembers (head?_tokensOfMembers members)
    simp only [Value.tokensOfMembers, List.append_assoc, List.cons_append]
    exact ((hvalue.mark rfl).mark rfl).separator first

theorem parted_tokens (v : Value) : ∀ ts, Parted ts →
    (∀ u ∈ ts.head?, u.isNumber = false) → Parted (v.tokens ++ ts) := by
  induction v using Value.rec_of_mem with
  | word => exact fun ts hts _ => hts.mark rfl
  | number bytes => exact fun ts hts hhead => ⟨fun _ => hhead, hts⟩
  | text bytes => exact fun ts hts _ => hts.mark rfl
  | array items ih => exact fun ts hts _ => (parted_items ih true hts).mark rfl
  | object members ih => exact fun ts hts _ => (parted_members ih true hts).mark rfl

/-- However a value is laid out, its text is cut into its tokens. -/
theorem tokens_of_laidOut {v : Value} (h : LaidOut v.tokens bytes) : tokens bytes = v.tokens := by
  have hparted := parted_tokens v [] trivial fun u hu => nomatch hu
  rw [List.append_nil] at hparted
  exact h.tokens_eq hparted

end Cutting

/-! ### Text that is cut into tokens is laid out -/

/-- A token in which something is wrong or missing. -/
def Token.isBroken : Token → Bool
  | .cutNumber | .brokenText _ _ | .broken _ => true
  | _ => false

/-- The bytes after the last token that is complete are white space, or white space and the
beginning of the token that the scanner is inside of. -/
def Holding (bytes : List UInt8) : Scan → Prop
  | .between => IsSpace bytes
  | .inWord left =>
    ∃ space front, IsSpace space ∧ bytes = space ++ front ∧ front ++ left ∈ words
  | .inNumber part held =>
    ∃ space, IsSpace space ∧ bytes = space ++ held.reverse ∧ SoFar held.reverse part
  | .inText held =>
    ∃ space, IsSpace space ∧ bytes = space ++ 0x22 :: held.reverse ∧ Inside held.reverse
  | .inEscape held =>
    ∃ space inner, IsSpace space ∧ bytes = space ++ 0x22 :: held.reverse ∧ Inside inner ∧
      held.reverse = inner ++ [0x5c]
  | .inHex left valid held =>
    ∃ space inner digits, IsSpace space ∧ bytes = space ++ 0x22 :: held.reverse ∧ Inside inner ∧
      held.reverse = inner ++ 0x5c :: 0x75 :: digits ∧ digits.length + left = 4 ∧ 1 ≤ left ∧
      (valid = true → ∀ d ∈ digits, (hexValue? d).isSome = true)
  | .stopped => False

/-- What one more byte can come to: it is held, or it ends a token, or something is broken. -/
inductive Advances (bytes : List UInt8) (b : UInt8) : List Token × Scan → Prop
  | held {scan : Scan} (h : Holding (bytes ++ [b]) scan) : Advances bytes b ([], scan)
  | closed {t : Token} {space spelled : List UInt8} (isSpace : IsSpace space)
      (lexeme : Lexeme t spelled) (eq : bytes ++ [b] = space ++ spelled) :
      Advances bytes b ([t], .between)
  | broken {t : Token} {scan : Scan} (h : t.isBroken = true) : Advances bytes b ([t], scan)

section Laying

variable {t : Token} {ts us : List Token} {bytes more space : List UInt8} {b : UInt8} {scan : Scan}

theorem Inside.append (h : Inside bytes) (hmore : Inside more) : Inside (bytes ++ more) := by
  induction h with
  | nil => exact hmore
  | plain printed quote escape _ ih => exact .plain printed quote escape ih
  | letter isEscape _ ih => exact .letter isEscape ih
  | number length hex _ ih =>
    rw [List.cons_append, List.cons_append, List.append_assoc]
    exact .number length hex ih

theorem IsSpace.concat (h : IsSpace bytes) (hb : isSpaceByte b = true) :
    IsSpace (bytes ++ [b]) := by
  intro c hc
  rcases List.mem_append.mp hc with hc | hc
  · exact h c hc
  · rw [List.mem_singleton.mp hc]
    exact hb

theorem isSpace_nil : IsSpace [] := fun _ h => (nomatch h)

theorem Advances.ite {c : Prop} [Decidable c] {out out' : List Token × Scan}
    (h : c → Advances bytes b out) (h' : ¬c → Advances bytes b out') :
    Advances bytes b (if c then out else out') := by
  split
  · exact h ‹_›
  · exact h' ‹_›

/-- After white space a byte goes on with it, is a token or begins one. -/
theorem advances_start (h : IsSpace bytes) (b : UInt8) : Advances bytes b (Scan.start b) := by
  have hmark {t : Token} {c : UInt8} (hc : Lexeme t [c]) (hb : (b == c) = true) :
      Advances bytes b ([t], .between) := by
    rw [beq_iff_eq.mp hb]
    exact .closed h hc rfl
  have hword {left : List UInt8} {c : UInt8} (hmem : c :: left ∈ words) (hb : (b == c) = true) :
      Advances bytes b ([], .inWord left) := by
    rw [beq_iff_eq.mp hb]
    exact .held ⟨bytes, [c], h, rfl, hmem⟩
  have hquote (hb : (b == 0x22) = true) : Advances bytes b ([], .inText []) := by
    rw [beq_iff_eq.mp hb]
    exact .held ⟨bytes, h, rfl, .nil⟩
  have hminus (hb : (b == 0x2d) = true) : Advances bytes b ([], .inNumber .minus [b]) := by
    rw [beq_iff_eq.mp hb]
    exact .held ⟨bytes, h, rfl, rfl⟩
  have hzero (hb : (b == 0x30) = true) : Advances bytes b ([], .inNumber .zero [b]) := by
    rw [beq_iff_eq.mp hb]
    exact .held ⟨bytes, h, rfl, soFar_zero⟩
  unfold Scan.start
  refine .ite (fun hb => .held (h.concat hb)) fun _ => ?_
  refine .ite (hmark .openBrace) fun _ => .ite (hmark .closeBrace) fun _ => ?_
  refine .ite (hmark .openBracket) fun _ => .ite (hmark .closeBracket) fun _ => ?_
  refine .ite (hmark .colon) fun _ => .ite (hmark .comma) fun _ => .ite hquote fun _ => ?_
  refine .ite hminus fun _ => .ite hzero fun hne => .ite (fun hb => ?_) fun _ => ?_
  · exact .held ⟨bytes, h, rfl, soFar_digit hb fun heq => hne (beq_iff_eq.mpr heq)⟩
  · refine .ite (hword (by decide)) fun _ => .ite (hword (by decide)) fun _ => ?_
    exact .ite (hword (by decide)) fun _ => .broken rfl

/-- A word or a number that is complete ends before the byte, which then starts anew. -/
def Ends (bytes : List UInt8) (b : UInt8) (out : List Token × Scan) : Prop :=
  ∃ t space spelled, IsSpace space ∧ Lexeme t spelled ∧ bytes = space ++ spelled ∧
    out = (t :: (Scan.start b).1, (Scan.start b).2)

theorem advances_inText {held : List UInt8} (h : Holding bytes (.inText held)) :
    Advances bytes b ((Scan.inText held).step b) := by
  obtain ⟨space, hspace, rfl, hinside⟩ := h
  unfold Scan.step
  simp only
  split
  · rename_i hb
    rw [beq_iff_eq.mp hb]
    exact .closed hspace (.text hinside) (by simp)
  split
  · rename_i hb
    rw [beq_iff_eq.mp hb]
    exact .held ⟨space, held.reverse, hspace, by simp, hinside, by simp⟩
  split
  · exact .broken rfl
  · rename_i hquote hescape hprinted
    refine .held ⟨space, hspace, by simp, ?_⟩
    rw [List.reverse_cons]
    exact hinside.append (.plain (UInt8.not_lt.mp hprinted) (by simpa using hquote)
      (by simpa using hescape) .nil)

theorem advances_inEscape {held : List UInt8} (h : Holding bytes (.inEscape held)) :
    Advances bytes b ((Scan.inEscape held).step b) := by
  obtain ⟨space, inner, hspace, rfl, hinside, hheld⟩ := h
  unfold Scan.step
  simp only
  split
  · rename_i hb
    refine .held ⟨space, hspace, by simp, ?_⟩
    rw [List.reverse_cons, hheld, List.append_assoc]
    exact hinside.append (.letter hb .nil)
  split
  · rename_i hb
    rw [beq_iff_eq.mp hb]
    refine .held ⟨space, inner, [], hspace, by simp, hinside, ?_, rfl, by decide, by simp⟩
    rw [List.reverse_cons, hheld, List.append_assoc]
    rfl
  · exact .broken rfl

theorem advances_inHex {left : Nat} {valid : Bool} {held : List UInt8}
    (h : Holding bytes (.inHex left valid held)) :
    Advances bytes b ((Scan.inHex left valid held).step b) := by
  obtain ⟨space, inner, digits, hspace, rfl, hinside, hheld, hlength, hleft, hhex⟩ := h
  have hheld' : (b :: held).reverse = inner ++ 0x5c :: 0x75 :: (digits ++ [b]) := by
    rw [List.reverse_cons, hheld, List.append_assoc]
    rfl
  have hhex' (hvalid : (valid && (hexValue? b).isSome) = true) :
      ∀ d ∈ digits ++ [b], (hexValue? d).isSome = true := by
    rw [Bool.and_eq_true] at hvalid
    intro d hd
    rcases List.mem_append.mp hd with hd | hd
    · exact hhex hvalid.1 d hd
    · rw [List.mem_singleton.mp hd]
      exact hvalid.2
  unfold Scan.step
  simp only
  split
  · refine .held ⟨space, inner, digits ++ [b], hspace, by simp, hinside, hheld', ?_, by omega,
      hhex'⟩
    rw [List.length_append, List.length_singleton]
    omega
  split
  · rename_i hone hvalid
    refine .held ⟨space, hspace, by simp, ?_⟩
    have hfour : (digits ++ [b]).length = 4 := by
      rw [List.length_append, List.length_singleton]
      omega
    rw [hheld', ← List.append_nil (digits ++ [b])]
    exact hinside.append (.number hfour (hhex' hvalid) .nil)
  · exact .broken rfl

theorem advances_step (h : Holding bytes scan) (b : UInt8) :
    Advances bytes b (scan.step b) ∨ Ends bytes b (scan.step b) := by
  cases scan with
  | between => exact .inl (advances_start h b)
  | inWord left =>
    obtain ⟨space, front, hspace, rfl, hmem⟩ := h
    cases left with
    | nil =>
      rw [List.append_nil] at hmem
      exact .inr ⟨.word, space, front, hspace, .word hmem, rfl, rfl⟩
    | cons c left =>
      unfold Scan.step
      simp only
      split
      · rename_i hb
        rw [beq_iff_eq.mp hb]
        exact .inl (.held ⟨space, front ++ [c], hspace, by simp, by simpa using hmem⟩)
      · exact .inl (.broken rfl)
  | inNumber part held =>
    obtain ⟨space, hspace, rfl, hsoFar⟩ := h
    unfold Scan.step
    simp only
    split
    · rename_i next hnext
      refine .inl (.held ⟨space, hspace, by simp, ?_⟩)
      rw [List.reverse_cons]
      exact hsoFar.step hnext
    split
    · rename_i hcomplete
      rw [Bool.and_eq_true] at hcomplete
      exact .inr ⟨_, space, _, hspace, .number (hsoFar.isNumber hcomplete.1), rfl, rfl⟩
    · exact .inl (.broken rfl)
  | inText held => exact .inl (advances_inText h)
  | inEscape held => exact .inl (advances_inEscape h)
  | inHex left valid held => exact .inl (advances_inHex h)
  | stopped => exact h.elim

/-- What the scanner is inside of at the end is broken, or it is the last token. -/
theorem laidOut_finish (h : Holding bytes scan) (hsane : ∀ t ∈ scan.finish, t.isBroken = false) :
    LaidOut scan.finish bytes := by
  have hlast {t : Token} {space spelled : List UInt8} (hspace : IsSpace space)
      (hlexeme : Lexeme t spelled) : LaidOut [t] (space ++ spelled) := by
    rw [← List.append_nil spelled]
    exact .cons hspace hlexeme (.nil isSpace_nil)
  have hbroken {t : Token} (hfinish : scan.finish = [t]) (ht : t.isBroken = true) :
      LaidOut scan.finish bytes := by
    have hnot := hsane t (by rw [hfinish]; exact List.mem_singleton_self t)
    rw [ht] at hnot
    cases hnot
  cases scan with
  | between => exact .nil h
  | inWord left =>
    cases left with
    | nil =>
      obtain ⟨space, front, hspace, rfl, hmem⟩ := h
      rw [List.append_nil] at hmem
      exact hlast hspace (.word hmem)
    | cons c left => exact hbroken rfl rfl
  | inNumber part held =>
    obtain ⟨space, hspace, rfl, hsoFar⟩ := h
    by_cases hcomplete : part.complete = true
    · rw [Scan.finish, if_pos hcomplete]
      exact hlast hspace (.number (hsoFar.isNumber hcomplete))
    · exact hbroken (if_neg hcomplete) rfl
  | inText held => exact hbroken rfl rfl
  | inEscape held => exact hbroken rfl rfl
  | inHex left valid held => exact hbroken rfl rfl
  | stopped => exact h.elim

/-- If what follows is laid out wherever the scanner gets to, so is all. -/
theorem Advances.laidOut {out : List Token × Scan} (h : Advances bytes b out)
    (hmore : ∀ {held : List UInt8} {scan : Scan}, Holding held scan →
      (∀ t ∈ scanFrom scan more, t.isBroken = false) →
      LaidOut (scanFrom scan more) (held ++ more))
    (hsane : ∀ t ∈ out.1 ++ scanFrom out.2 more, t.isBroken = false) :
    LaidOut (out.1 ++ scanFrom out.2 more) (bytes ++ b :: more) := by
  rw [← List.singleton_append, ← List.append_assoc]
  cases h with
  | held h => exact hmore h hsane
  | closed isSpace lexeme eq =>
    have hnothing : Holding [] .between := isSpace_nil
    rw [eq, List.append_assoc]
    exact .cons isSpace lexeme
      (hmore hnothing fun t ht => hsane t (List.mem_cons_of_mem _ ht))
  | broken h =>
    rw [hsane _ List.mem_cons_self] at h
    cases h

theorem laidOut_scanFrom (h : Holding bytes scan)
    (hsane : ∀ t ∈ scanFrom scan more, t.isBroken = false) :
    LaidOut (scanFrom scan more) (bytes ++ more) := by
  induction more generalizing bytes scan with
  | nil =>
    rw [List.append_nil]
    exact laidOut_finish h hsane
  | cons b more ih =>
    rw [scanFrom_cons] at hsane ⊢
    rcases advances_step h b with hstep | ⟨t, space, spelled, hspace, hlexeme, rfl, hout⟩
    · exact hstep.laidOut ih hsane
    · rw [hout] at hsane ⊢
      rw [List.append_assoc]
      refine .cons hspace hlexeme ((advances_start isSpace_nil b).laidOut ih fun u hu => ?_)
      exact hsane u (List.mem_cons_of_mem t hu)

/-- Text in which no token is broken is its tokens laid out. -/
theorem laidOut_tokens (hsane : ∀ t ∈ tokens bytes, t.isBroken = false) :
    LaidOut (tokens bytes) bytes := by
  rw [tokens_eq_scanFrom] at hsane ⊢
  have hnothing : Holding [] .between := isSpace_nil
  exact laidOut_scanFrom hnothing hsane

theorem not_isBroken_of_mem_tokens (v : Value) : ∀ t ∈ v.tokens, t.isBroken = false := by
  have hseparator (first : Bool) : ∀ t ∈ Value.separator first, t.isBroken = false := by
    cases first <;> decide
  induction v using Value.rec_of_mem with
  | word => simp [Value.tokens, Token.isBroken]
  | number bytes => simp [Value.tokens, Token.isBroken]
  | text bytes => simp [Value.tokens, Token.isBroken]
  | array items ih =>
    have hitems (first : Bool) : ∀ t ∈ Value.tokensOfItems first items, t.isBroken = false := by
      induction items generalizing first with
      | nil => simp [Value.tokensOfItems, Token.isBroken]
      | cons v items ih' =>
        have hv := ih v List.mem_cons_self
        have hothers := ih' (fun w hw => ih w (List.mem_cons_of_mem v hw)) false
        simp only [Value.tokensOfItems, List.forall_mem_append]
        exact ⟨hseparator first, hv, hothers⟩
    exact List.forall_mem_cons.mpr ⟨rfl, hitems true⟩
  | object members ih =>
    have hmembers (first : Bool) :
        ∀ t ∈ Value.tokensOfMembers first members, t.isBroken = false := by
      induction members generalizing first with
      | nil => simp [Value.tokensOfMembers, Token.isBroken]
      | cons m members ih' =>
        obtain ⟨key, v⟩ := m
        have hv := ih (key, v) List.mem_cons_self
        have hothers := ih' (fun m hm => ih m (List.mem_cons_of_mem _ hm)) false
        simp only [Value.tokensOfMembers, List.forall_mem_append, List.forall_mem_cons]
        exact ⟨hseparator first, rfl, rfl, hv, hothers⟩
    exact List.forall_mem_cons.mpr ⟨rfl, hmembers true⟩

/-- Text that is cut into the tokens of a value is that value laid out. -/
theorem laidOut_of_tokens {v : Value} (h : tokens bytes = v.tokens) : LaidOut v.tokens bytes := by
  rw [← h]
  refine laidOut_tokens ?_
  rw [h]
  exact not_isBroken_of_mem_tokens v

end Laying
end PeerHealth.Json
