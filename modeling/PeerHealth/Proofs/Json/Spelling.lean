import PeerHealth.Json.Text

/-! Bytes that spell tokens, and what the scanner makes of them when they are cut off. Main
statements: spellings may be put one after the other, and what is left of one that is cut off is
the beginning of its tokens with at most one text broken off at the end. -/

namespace PeerHealth.Json

/-- What the scanner completes on the way through bytes, and what it is inside of after them. -/
def Scan.run : Scan → List UInt8 → List Token × Scan
  | scan, [] => ([], scan)
  | scan, b :: bytes =>
    ((scan.step b).1 ++ ((scan.step b).2.run bytes).1, ((scan.step b).2.run bytes).2)

@[simp] theorem Scan.run_nil (scan : Scan) : scan.run [] = ([], scan) := by rw [run]

theorem Scan.run_append (scan : Scan) (front back : List UInt8) :
    scan.run (front ++ back) =
      ((scan.run front).1 ++ ((scan.run front).2.run back).1, ((scan.run front).2.run back).2) := by
  induction front generalizing scan with
  | nil => rfl
  | cons b front ih => simp only [List.cons_append, run, ih, List.append_assoc]

theorem tokensFrom_eq (before : List Token) (scan : Scan) (bytes : List UInt8) :
    tokensFrom before scan bytes =
      before.reverse ++ ((scan.run bytes).1 ++ (scan.run bytes).2.finish) := by
  induction bytes generalizing before scan with
  | nil => rfl
  | cons b bytes ih =>
    rw [tokensFrom, ih, Scan.run]
    simp only [List.reverse_append, List.reverse_reverse, List.append_assoc]

theorem tokens_eq (bytes : List UInt8) :
    tokens bytes = (Scan.between.run bytes).1 ++ (Scan.between.run bytes).2.finish :=
  tokensFrom_eq [] .between bytes

/-- What the scanner makes of bytes for `ts` that end too early: it comes to the end before it has
completed a token, or inside a text in which nothing is wrong so far. -/
inductive Cut : List Token → List Token → Prop
  | ended (t : Token) (ts : List Token) : Cut (t :: ts) []
  | broken (bytes held : List UInt8) (ts : List Token)
      (sane : brokenTextProblem held .truncated = .truncated) :
      Cut (.text bytes :: ts) [.brokenText held .truncated]
  | later (t : Token) {ts cut : List Token} (h : Cut ts cut) : Cut (t :: ts) (t :: cut)

namespace Cut

variable {ts us cut : List Token}

theorem append_right (h : Cut ts cut) (us : List Token) : Cut (ts ++ us) cut := by
  induction h with
  | ended t ts => exact .ended t (ts ++ us)
  | broken bytes held ts sane => exact .broken bytes held (ts ++ us) sane
  | later t _ ih => exact .later t ih

theorem append_left (h : Cut us cut) (ts : List Token) : Cut (ts ++ us) (ts ++ cut) := by
  induction ts with
  | nil => exact h
  | cons t ts ih => exact .later t ih

theorem append_cases (h : Cut (ts ++ us) cut) :
    Cut ts cut ∨ ∃ cut', cut = ts ++ cut' ∧ Cut us cut' := by
  induction ts generalizing cut with
  | nil => exact .inr ⟨cut, rfl, h⟩
  | cons t ts ih =>
    cases h with
    | ended => exact .inl (.ended t ts)
    | broken bytes held _ sane => exact .inl (.broken bytes held ts sane)
    | later _ h =>
      rcases ih h with hfirst | ⟨cut', rfl, hsecond⟩
      · exact .inl (.later t hfirst)
      · exact .inr ⟨cut', rfl, hsecond⟩

end Cut

/-- The bytes spell the tokens, with nothing that is not printed, and are cut off as these are. -/
structure Spells (bytes : List UInt8) (ts : List Token) : Prop where
  run : Scan.between.run bytes = (ts, .between)
  cut : ∀ front, front <+: bytes → front ≠ bytes → Cut ts (tokens front)
  plain : ∀ b ∈ bytes, 0x20 ≤ b

theorem prefix_append_cases {α : Type} {front bytes more : List α} (h : front <+: bytes ++ more) :
    front <+: bytes ∨ ∃ front', front = bytes ++ front' ∧ front' <+: more := by
  obtain ⟨rest, hrest⟩ := h
  rcases List.append_eq_append_iff.mp hrest with ⟨left, rfl, -⟩ | ⟨front', rfl, rfl⟩
  · exact .inl (List.prefix_append _ _)
  · exact .inr ⟨front', rfl, List.prefix_append _ _⟩

namespace Spells

variable {bytes more : List UInt8} {ts us : List Token}

theorem tokens_append (h : Spells bytes ts) (more : List UInt8) :
    tokens (bytes ++ more) = ts ++ tokens more := by
  rw [tokens_eq, tokens_eq, Scan.run_append, h.run, List.append_assoc]

theorem tokens_eq (h : Spells bytes ts) : tokens bytes = ts := by
  rw [Json.tokens_eq, h.run]
  exact List.append_nil ts

theorem append (h : Spells bytes ts) (h' : Spells more us) : Spells (bytes ++ more) (ts ++ us) := by
  refine ⟨?_, fun front hfront hne => ?_, fun b hb => ?_⟩
  · rw [Scan.run_append, h.run, h'.run]
  · rcases prefix_append_cases hfront with hfirst | ⟨front', rfl, hsecond⟩
    -- All of the first spelling is the second one cut off before its first token.
    · by_cases heq : front = bytes
      · rw [heq, ← List.append_nil bytes, h.tokens_append]
        refine (h'.cut [] List.nil_prefix ?_).append_left ts
        rintro rfl
        exact hne (by rw [heq, List.append_nil])
      · exact (h.cut front hfirst heq).append_right us
    · rw [h.tokens_append]
      exact (h'.cut front' hsecond fun heq => hne (by rw [heq])).append_left ts
  · rcases List.mem_append.mp hb with hb | hb
    · exact h.plain b hb
    · exact h'.plain b hb

theorem nil : Spells [] [] :=
  ⟨rfl, fun _ hfront hne => absurd (List.prefix_nil.mp hfront) hne,
    fun _ h => absurd h List.not_mem_nil⟩

/-- A byte that is a token. -/
theorem mark {b : UInt8} {t : Token} (h : Scan.start b = ([t], .between)) (hplain : 0x20 ≤ b) :
    Spells [b] [t] := by
  refine ⟨?_, fun front hfront hne => ?_, fun b' hb' => ?_⟩
  · simp only [Scan.run, Scan.step, h, List.append_nil]
  · rcases List.prefix_cons_iff.mp hfront with rfl | ⟨rest, rfl, hrest⟩
    · exact .ended t []
    · rw [List.prefix_nil.mp hrest] at hne
      exact absurd rfl hne
  · rw [List.mem_singleton.mp hb']
    exact hplain

end Spells
end PeerHealth.Json
