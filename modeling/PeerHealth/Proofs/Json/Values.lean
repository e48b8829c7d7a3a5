import PeerHealth.Json.Skip

/-! Values and their tokens. Main statements: to pass over a value is to pass over its tokens and
nothing more, and all that can be passed over is a value. -/

namespace PeerHealth.Json

/-- A value. Its numbers, texts and keys are the bytes that write them, at any depth. -/
inductive Value where
  | word
  | number (bytes : List UInt8)
  | text (bytes : List UInt8)
  | array (items : List Value)
  | object (members : List (List UInt8 × Value))

namespace Value

/-- What stands before an item or a member: a comma, unless it is the first. -/
def separator (first : Bool) : List Token := if first then [] else [.comma]

@[simp] theorem separator_true : separator true = [] := rfl

@[simp] theorem separator_false : separator false = [.comma] := rfl

mutual

/-- The tokens that write a value. -/
def tokens : Value → List Token
  | word => [.word]
  | number bytes => [.number bytes]
  | text bytes => [.text bytes]
  | array items => .openBracket :: tokensOfItems true items
  | object members => .openBrace :: tokensOfMembers true members

/-- The tokens of items, up to the closing bracket. -/
def tokensOfItems (first : Bool) : List Value → List Token
  | [] => [.closeBracket]
  | v :: items => separator first ++ (v.tokens ++ tokensOfItems false items)

/-- The tokens of members, up to the closing brace. -/
def tokensOfMembers (first : Bool) : List (List UInt8 × Value) → List Token
  | [] => [.closeBrace]
  | (key, v) :: members =>
    separator first ++ .text key :: .colon :: (v.tokens ++ tokensOfMembers false members)

end

/-- What holds of each value if it holds of those in it, holds of all. -/
theorem rec_of_mem {P : Value → Prop} (word : P word) (number : ∀ bytes, P (number bytes))
    (text : ∀ bytes, P (text bytes)) (array : ∀ items, (∀ v ∈ items, P v) → P (array items))
    (object : ∀ members, (∀ m ∈ members, P m.2) → P (object members)) (v : Value) : P v := by
  refine @Value.rec P (fun items => ∀ v ∈ items, P v) (fun members => ∀ m ∈ members, P m.2)
    (fun m => P m.2) word number text array object ?_ ?_ ?_ ?_ (fun _ _ h => h) v
  · exact fun _ h => (nomatch h)
  · exact fun _ _ hv hitems => List.forall_mem_cons.mpr ⟨hv, hitems⟩
  · exact fun _ h => (nomatch h)
  · exact fun _ _ hm hmembers => List.forall_mem_cons.mpr ⟨hm, hmembers⟩

end Value

/-- A token that a value may start with. -/
def Token.startsValue : Token → Bool
  | .word | .number _ | .text _ | .openBracket | .openBrace => true
  | _ => false

theorem Value.tokens_eq_cons (v : Value) :
    ∃ t ts, v.tokens = t :: ts ∧ t.startsValue = true := by
  cases v <;> exact ⟨_, _, by rw [tokens], rfl⟩

section Skip

variable {expect expect' : Expect} {opened opened' outer : List Container} {t : Token}

theorem skip_of_step (hopen : ¬(expect = .next ∧ opened = []))
    (hstep : skipStep expect opened t = .ok (expect', opened')) (ts : List Token) :
    skip expect opened (t :: ts) = skip expect' opened' ts := by
  rw [skip, if_neg hopen, hstep]

theorem skipStep_itemOrClose (h : t.startsValue = true) :
    skipStep .itemOrClose opened t = skipStep .value opened t := by
  cases t <;> first | rfl | cases h

/-- An item may be passed over where the array may also be closed. -/
theorem skip_itemOrClose (v : Value) (opened : List Container) (rest : List Token) :
    skip .itemOrClose opened (v.tokens ++ rest) = skip .value opened (v.tokens ++ rest) := by
  obtain ⟨t, ts, htokens, hstarts⟩ := v.tokens_eq_cons
  rw [htokens, List.cons_append, skip, skip, skipStep_itemOrClose hstarts]
  simp

/-- What is expected in a container: its end is possible too. -/
def Expect.inArray (first : Bool) : Expect := if first then .itemOrClose else .next

def Expect.inObject (first : Bool) : Expect := if first then .keyOrClose else .next

/-- Items are passed over if each of them is. -/
theorem skip_items {items : List Value}
    (h : ∀ v ∈ items, ∀ opened rest, skip .value opened (v.tokens ++ rest) =
      skip .next opened rest) (first : Bool) (outer : List Container) (rest : List Token) :
    skip (.inArray first) (.array :: outer) (Value.tokensOfItems first items ++ rest) =
      skip .next outer rest := by
  induction items generalizing first with
  | nil => cases first <;> exact skip_of_step (by simp [Expect.inArray]) rfl rest
  | cons v items ih =>
    have hv := h v List.mem_cons_self (.array :: outer)
      (Value.tokensOfItems false items ++ rest)
    have hitems := ih (fun w hw => h w (List.mem_cons_of_mem v hw)) false
    rw [Value.tokensOfItems, List.append_assoc, List.append_assoc]
    cases first with
    | true =>
      show skip .itemOrClose _ _ = _
      rw [Value.separator_true, List.nil_append, skip_itemOrClose, hv]
      exact hitems
    | false =>
      rw [Value.separator_false, List.cons_append]
      refine (skip_of_step (by simp) rfl _).trans ?_
      exact hv.trans hitems

theorem skip_members {members : List (List UInt8 × Value)}
    (h : ∀ m ∈ members, ∀ opened rest, skip .value opened (m.2.tokens ++ rest) =
      skip .next opened rest) (first : Bool) (outer : List Container) (rest : List Token) :
    skip (.inObject first) (.object :: outer) (Value.tokensOfMembers first members ++ rest) =
      skip .next outer rest := by
  induction members generalizing first with
  | nil => cases first <;> exact skip_of_step (by simp [Expect.inObject]) rfl rest
  | cons m members ih =>
    obtain ⟨key, v⟩ := m
    have hv := h (key, v) List.mem_cons_self (.object :: outer)
      (Value.tokensOfMembers false members ++ rest)
    have hmembers := ih (fun m hm => h m (List.mem_cons_of_mem _ hm)) false
    have hvalue : skip .colon (.object :: outer)
        (.colon :: (v.tokens ++ Value.tokensOfMembers false members ++ rest)) =
          skip .next outer rest := by
      rw [skip_of_step (by simp) rfl, List.append_assoc]
      exact hv.trans hmembers
    rw [Value.tokensOfMembers]
    cases first with
    | true => exact (skip_of_step (by simp [Expect.inObject]) rfl _).trans hvalue
    | false =>
      refine (skip_of_step (by simp) rfl _).trans ?_
      exact (skip_of_step (by simp) rfl _).trans hvalue

/-- A value is passed over whole, and nothing after it. -/
theorem skip_tokens (v : Value) : ∀ (opened : List Container) (rest : List Token),
    skip .value opened (v.tokens ++ rest) = skip .next opened rest := by
  induction v using Value.rec_of_mem with
  | word => exact fun opened rest => skip_of_step (by simp) rfl rest
  | number bytes => exact fun opened rest => skip_of_step (by simp) rfl rest
  | text bytes => exact fun opened rest => skip_of_step (by simp) rfl rest
  | array items ih =>
    intro opened rest
    exact (skip_of_step (by simp) rfl _).trans (skip_items ih true opened rest)
  | object members ih =>
    intro opened rest
    exact (skip_of_step (by simp) rfl _).trans (skip_members ih true opened rest)

theorem skipValue_tokens (v : Value) (rest : List Token) :
    skipValue (v.tokens ++ rest) = .ok rest := by
  rw [skipValue, skip_tokens]
  cases rest <;> simp [skip]

end Skip

/-! ### What can be passed over -/

/-- Tokens with which all that is open comes to its end after a value. -/
def Closes : List Container → List Token → Prop
  | [], ts => ts = []
  | .array :: outer, ts =>
    ∃ items rest, ts = Value.tokensOfItems false items ++ rest ∧ Closes outer rest
  | .object :: outer, ts =>
    ∃ members rest, ts = Value.tokensOfMembers false members ++ rest ∧ Closes outer rest

/-- Tokens with which all that is open comes to its end. -/
def Completes (opened : List Container) (ts : List Token) : Expect → Prop
  | .value => ∃ (v : Value) (rest : List Token), ts = v.tokens ++ rest ∧ Closes opened rest
  | .itemOrClose =>
    ∃ outer items rest, opened = .array :: outer ∧
      ts = Value.tokensOfItems true items ++ rest ∧ Closes outer rest
  | .keyOrClose =>
    ∃ outer members rest, opened = .object :: outer ∧
      ts = Value.tokensOfMembers true members ++ rest ∧ Closes outer rest
  | .key =>
    ∃ (key : List UInt8) (v : Value) (rest : List Token),
      ts = .text key :: .colon :: (v.tokens ++ rest) ∧ Closes opened rest
  | .colon =>
    ∃ (v : Value) (rest : List Token), ts = .colon :: (v.tokens ++ rest) ∧ Closes opened rest
  | .next => Closes opened ts

/-- What is expected is expected in the innermost container. -/
def Expect.Fits (opened : List Container) : Expect → Prop
  | .itemOrClose => ∃ outer, opened = .array :: outer
  | .keyOrClose | .key | .colon => ∃ outer, opened = .object :: outer
  | .value | .next => True

section Passed

variable {expect expect' : Expect} {opened opened' outer : List Container} {t : Token}
  {ts : List Token}

theorem completes_of_value (hstep : skipStep .value opened t = .ok (expect', opened')) :
    expect'.Fits opened' ∧
      ∀ ts, Completes opened' ts expect' → Completes opened (t :: ts) .value := by
  cases t with
  | word =>
    cases hstep
    exact ⟨trivial, fun ts h => ⟨.word, ts, rfl, h⟩⟩
  | number bytes =>
    cases hstep
    exact ⟨trivial, fun ts h => ⟨.number bytes, ts, rfl, h⟩⟩
  | text bytes =>
    cases hstep
    exact ⟨trivial, fun ts h => ⟨.text bytes, ts, rfl, h⟩⟩
  | openBracket =>
    cases hstep
    refine ⟨⟨opened, rfl⟩, ?_⟩
    rintro ts ⟨outer, items, rest, houter, rfl, h⟩
    cases houter
    exact ⟨.array items, rest, rfl, h⟩
  | openBrace =>
    cases hstep
    refine ⟨⟨opened, rfl⟩, ?_⟩
    rintro ts ⟨outer, members, rest, houter, rfl, h⟩
    cases houter
    exact ⟨.object members, rest, rfl, h⟩
  | _ => cases hstep

theorem completes_of_key {key : List UInt8} (h : Completes opened ts .colon) :
    Completes opened (.text key :: ts) .key := by
  obtain ⟨v, rest, rfl, hrest⟩ := h
  exact ⟨key, v, rest, rfl, hrest⟩

/-- A value and what ends the array after it are items. -/
theorem closes_items (first : Bool) (h : Completes (.array :: outer) ts .value) :
    ∃ items rest, Value.separator first ++ ts = Value.tokensOfItems first items ++ rest ∧
      Closes outer rest := by
  obtain ⟨v, rest, rfl, items, rest', rfl, houter⟩ := h
  exact ⟨v :: items, rest', by simp only [Value.tokensOfItems, List.append_assoc], houter⟩

theorem closes_members (first : Bool) (h : Completes (.object :: outer) ts .key) :
    ∃ members rest, Value.separator first ++ ts = Value.tokensOfMembers first members ++ rest ∧
      Closes outer rest := by
  obtain ⟨key, v, rest, rfl, members, rest', rfl, houter⟩ := h
  refine ⟨(key, v) :: members, rest', ?_, houter⟩
  simp only [Value.tokensOfMembers, List.append_assoc, List.cons_append]

theorem completes_of_next (hstep : skipStep .next opened t = .ok (expect', opened')) :
    expect'.Fits opened' ∧
      ∀ ts, Completes opened' ts expect' → Completes opened (t :: ts) .next := by
  cases t with
  | comma =>
    match opened with
    | [] => cases hstep
    | .array :: outer =>
      cases hstep
      exact ⟨trivial, fun ts h => closes_items false h⟩
    | .object :: outer =>
      cases hstep
      exact ⟨⟨outer, rfl⟩, fun ts h => closes_members false h⟩
  | closeBracket =>
    match opened with
    | [] => cases hstep
    | .array :: outer =>
      cases hstep
      exact ⟨trivial, fun ts h => ⟨[], ts, rfl, h⟩⟩
    | .object :: outer => cases hstep
  | closeBrace =>
    match opened with
    | [] => cases hstep
    | .array :: outer => cases hstep
    | .object :: outer =>
      cases hstep
      exact ⟨trivial, fun ts h => ⟨[], ts, rfl, h⟩⟩
  | _ => cases hstep

/-- What completes the rest after a token completes all of it with the token. -/
theorem completes_of_step (hstep : skipStep expect opened t = .ok (expect', opened'))
    (hfits : expect.Fits opened) :
    expect'.Fits opened' ∧
      ∀ ts, Completes opened' ts expect' → Completes opened (t :: ts) expect := by
  cases expect with
  | value => exact completes_of_value hstep
  | itemOrClose =>
    obtain ⟨outer, rfl⟩ := hfits
    by_cases hstarts : t.startsValue = true
    · rw [skipStep_itemOrClose hstarts] at hstep
      obtain ⟨hfits', hvalue⟩ := completes_of_value hstep
      refine ⟨hfits', fun ts h => ?_⟩
      obtain ⟨items, rest, hitems, houter⟩ := closes_items true (hvalue ts h)
      exact ⟨outer, items, rest, rfl, hitems, houter⟩
    · cases t with
      | closeBracket =>
        cases hstep
        exact ⟨trivial, fun ts h => ⟨outer, [], ts, rfl, rfl, h⟩⟩
      | _ => first | exact absurd rfl hstarts | cases hstep
  | keyOrClose =>
    obtain ⟨outer, rfl⟩ := hfits
    cases t with
    | closeBrace =>
      cases hstep
      exact ⟨trivial, fun ts h => ⟨outer, [], ts, rfl, rfl, h⟩⟩
    | text key =>
      cases hstep
      refine ⟨⟨outer, rfl⟩, fun ts h => ?_⟩
      obtain ⟨members, rest, hmembers, houter⟩ := closes_members true (completes_of_key h)
      exact ⟨outer, members, rest, rfl, hmembers, houter⟩
    | _ => cases hstep
  | key =>
    cases t with
    | text key =>
      cases hstep
      exact ⟨hfits, fun ts h => completes_of_key h⟩
    | _ => cases hstep
  | colon =>
    cases t with
    | colon =>
      cases hstep
      refine ⟨trivial, ?_⟩
      rintro ts ⟨v, rest, rfl, h⟩
      exact ⟨v, rest, rfl, h⟩
    | _ => cases hstep
  | next => exact completes_of_next hstep

theorem completes_of_skip (hfits : expect.Fits opened) {rest : List Token}
    (h : skip expect opened ts = .ok rest) :
    ∃ passed, ts = passed ++ rest ∧ Completes opened passed expect := by
  have hnothing (hend : expect = .next ∧ opened = []) : Completes opened [] expect := by
    obtain ⟨rfl, rfl⟩ := hend
    rfl
  induction ts generalizing expect opened with
  | nil =>
    rw [skip] at h
    split at h
    · cases h
      exact ⟨[], rfl, hnothing ‹_›⟩
    · cases h
  | cons t ts ih =>
    rw [skip] at h
    split at h
    · cases h
      exact ⟨[], rfl, hnothing ‹_›⟩
    · split at h
      · cases h
      · rename_i expect' opened' hstep
        obtain ⟨hfits', hcompletes⟩ := completes_of_step hstep hfits
        obtain ⟨passed, rfl, hpassed⟩ := ih hfits' h (by rintro ⟨rfl, rfl⟩; rfl)
        exact ⟨t :: passed, rfl, hcompletes passed hpassed⟩

/-- Whatever is passed over is a value. -/
theorem exists_value_of_skipValue {rest : List Token} (h : skipValue ts = .ok rest) :
    ∃ v : Value, ts = v.tokens ++ rest := by
  have hfits : Expect.Fits [] .value := trivial
  obtain ⟨passed, rfl, v, after, rfl, rfl⟩ := completes_of_skip hfits h
  exact ⟨v, by rw [List.append_nil]⟩

end Passed
end PeerHealth.Json
