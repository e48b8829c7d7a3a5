import PeerHealth.Json.Record
import PeerHealth.Proofs.Json.Layout

/-! What a reader may and may not make of values. Main definitions: the shapes that readers want,
which values say the same to a reader of a shape, and which it never takes. Main statement: a reader
of texts bears this out. -/

namespace PeerHealth.Json

/-- A field as it is wanted: its name, whether it must be there, and the shape of what it holds. -/
structure Entry (σ : Type) where
  name : String
  required : Bool
  shape : σ

/-- What is wanted of a value: to be a text, or a record with some fields. -/
inductive Shape where
  | text
  | record (entries : List (Entry Shape))

/-- The default of an optional field: the empty text, or the record where everything is missing. -/
def Shape.blank : Shape → Value
  | .text => .text []
  | .record _ => .object []

/-- Values that say the same where a shape is wanted. Members may change places, those that are not
declared come and go, optional ones come with their default and go with it, and what a declared one
holds may be replaced by what says the same. A member is told of where it stands first, since by
changing places it stands anywhere. -/
inductive Alike : Shape → Value → Value → Prop
  | refl (shape : Shape) (v : Value) : Alike shape v v
  | symm {shape : Shape} {v v' : Value} (h : Alike shape v v') : Alike shape v' v
  | trans {shape : Shape} {v v' v'' : Value} (h : Alike shape v v') (h' : Alike shape v' v'') :
      Alike shape v v''
  | permuted {entries : List (Entry Shape)} {members members' : List (List UInt8 × Value)}
      (perm : members.Perm members') :
      Alike (.record entries) (.object members) (.object members')
  | undeclared {entries : List (Entry Shape)} {key : List UInt8} {name : String}
      (readable : readText key = .ok name) (unknown : ∀ e ∈ entries, e.name ≠ name) (v : Value)
      (members : List (List UInt8 × Value)) :
      Alike (.record entries) (.object ((key, v) :: members)) (.object members)
  | default {entries : List (Entry Shape)} {e : Entry Shape} {key : List UInt8}
      {members : List (List UInt8 × Value)} (declared : e ∈ entries)
      (optional : e.required = false) (readable : readText key = .ok e.name)
      (absent : ∀ m ∈ members, readText m.1 ≠ .ok e.name) :
      Alike (.record entries) (.object ((key, e.shape.blank) :: members)) (.object members)
  | within {entries : List (Entry Shape)} {e : Entry Shape} {key : List UInt8} {v v' : Value}
      (declared : e ∈ entries) (readable : readText key = .ok e.name) (h : Alike e.shape v v')
      (members : List (List UInt8 × Value)) :
      Alike (.record entries) (.object ((key, v) :: members)) (.object ((key, v') :: members))

/-- Values that are never taken where a shape is wanted: those of another kind, and records in which
a declared field is repeated or holds what it never takes. -/
inductive Refused : Shape → Value → Prop
  | notText {v : Value} (notText : ∀ bytes, v ≠ .text bytes) : Refused .text v
  | notRecord {entries : List (Entry Shape)} {v : Value}
      (notObject : ∀ members, v ≠ .object members) (notArray : ∀ items, v ≠ .array items) :
      Refused (.record entries) v
  | repeated {entries : List (Entry Shape)} {e : Entry Shape} {key key' : List UInt8}
      (declared : e ∈ entries) (readable : readText key = .ok e.name)
      (readable' : readText key' = .ok e.name) (v v' : Value)
      (front between back : List (List UInt8 × Value)) :
      Refused (.record entries)
        (.object (front ++ (key, v) :: (between ++ (key', v') :: back)))
  | member {entries : List (Entry Shape)} {e : Entry Shape} {key : List UInt8} {v : Value}
      {members : List (List UInt8 × Value)} (declared : e ∈ entries)
      (readable : readText key = .ok e.name) (holds : (key, v) ∈ members)
      (h : Refused e.shape v) : Refused (.record entries) (.object members)
  | item {entries : List (Entry Shape)} {e : Entry Shape} {i : Nat} {v : Value}
      {items : List Value} (declared : entries[i]? = some e) (holds : items[i]? = some v)
      (h : Refused e.shape v) : Refused (.record entries) (.array items)

section Readers

variable {α : Type} {read : List Token → Result α} {v v' : Value} {a : α} {shape : Shape}

/-- A reader takes a value, whatever follows it. -/
def Takes (read : List Token → Result α) (v : Value) (a : α) : Prop :=
  ∀ rest, read (v.tokens ++ rest) = .ok (a, rest)

/-- A reader does not take a value, whatever follows it. -/
def Rejects (read : List Token → Result α) (v : Value) : Prop :=
  ∀ rest, ∃ p, read (v.tokens ++ rest) = .error p

/-- A reader takes values only, and whether it takes one is up to the value alone. -/
structure Decides (read : List Token → Result α) : Prop where
  cases : ∀ v, (∃ a, Takes read v a) ∨ Rejects read v
  value : ∀ {ts rest a}, read ts = .ok (a, rest) → ∃ v : Value, ts = v.tokens ++ rest

/-- A reader makes the same of values that are alike where a shape is wanted, and takes none of
those that are refused there. -/
structure Tolerates (shape : Shape) (read : List Token → Result α) : Prop extends
    Decides read where
  alike : ∀ {v v'}, Alike shape v v' → ∀ {a}, Takes read v a → Takes read v' a
  refused : ∀ {v}, Refused shape v → Rejects read v

theorem Rejects.not_takes (h : Rejects read v) : ¬Takes read v a := by
  intro htakes
  obtain ⟨p, hp⟩ := h []
  cases (htakes []).symm.trans hp

theorem Decides.rejects (h : Decides read) (hnot : ∀ a, ¬Takes read v a) : Rejects read v :=
  (h.cases v).resolve_left fun ⟨a, ha⟩ => hnot a ha

theorem rejects_of_error {p : Problem} {t : Token} {ts : List Token} (htokens : v.tokens = t :: ts)
    (h : ∀ rest, read (t :: rest) = .error p) : Rejects read v := by
  intro rest
  rw [htokens]
  exact ⟨p, h _⟩

theorem decides_text : Decides text := by
  refine ⟨fun v => ?_, fun {ts rest a} h => ?_⟩
  · cases v with
    | text bytes =>
      cases hread : readText bytes with
      | ok s =>
        refine .inl ⟨s, fun rest => ?_⟩
        show (readText bytes).map (·, rest) = _
        rw [hread]
        rfl
      | error p =>
        refine .inr fun rest => ⟨p, ?_⟩
        show (readText bytes).map (·, rest) = _
        rw [hread]
        rfl
    | _ => exact .inr (rejects_of_error rfl fun _ => rfl)
  · unfold text at h
    split at h
    · cases h
    · rename_i bytes ts
      cases hread : readText bytes with
      | ok s =>
        rw [hread] at h
        cases h
        exact ⟨.text bytes, rfl⟩
      | error p =>
        rw [hread] at h
        cases h
    · cases h

theorem Alike.eq_of_text (h : Alike shape v v') (hshape : shape = .text) : v = v' := by
  induction h with
  | refl => rfl
  | symm _ ih => exact (ih hshape).symm
  | trans _ _ ih ih' => exact (ih hshape).trans (ih' hshape)
  | _ => cases hshape

/-- A text is taken as it is, and nothing else is taken for one. -/
theorem tolerates_text : Tolerates .text text := by
  refine ⟨decides_text, fun h _ htakes => h.eq_of_text rfl ▸ htakes, fun {v} h => ?_⟩
  cases h with
  | notText notText =>
    cases v with
    | text bytes => exact absurd rfl (notText bytes)
    | _ => exact rejects_of_error rfl fun _ => rfl

end Readers
end PeerHealth.Json
