import Mathlib.Data.List.Forall2
import PeerHealth.Proofs.Json.Shapes

/-! The members of an object as a record reads them. Main statements: what they come to does not
depend on their order, and reading them reads members of an object and nothing more. -/

namespace PeerHealth.Json

section Fields

variable {δ α : Type}

/-- A field takes a value, and `set` is what becomes of the draft. -/
def Field.Sets (f : Field δ) (v : Value) (set : δ → δ) : Prop :=
  ∀ draft rest, f.read draft (v.tokens ++ rest) = .ok (set draft, rest)

/-- A field does not take a value. -/
def Field.Rejects (f : Field δ) (v : Value) : Prop := ∀ draft, Json.Rejects (f.read draft) v

/-- A field reads what an entry wants: it is of the entry's name, it takes the values that the entry
wants and it then counts as filled; the default of an optional one leaves the record as it is. -/
structure Field.Suits (f : Field δ) (finish : δ → Option α) (e : Entry Shape) : Prop where
  name : f.name = e.name
  cases : ∀ v, (∃ set, f.Sets v set) ∨ f.Rejects v
  value : ∀ {draft ts draft' rest}, f.read draft ts = .ok (draft', rest) →
    ∃ v : Value, ts = v.tokens ++ rest
  alike : ∀ {v v'}, Alike e.shape v v' → ∀ {set}, f.Sets v set → f.Sets v' set
  refused : ∀ {v}, Refused e.shape v → f.Rejects v
  fills : ∀ {v set}, f.Sets v set → ∀ draft, f.filled (set draft) = true
  blank : e.required = false → ∃ set, f.Sets e.shape.blank set ∧
    ∀ draft, f.filled draft = false → finish (set draft) = finish draft

/-- Two fields that are set each on its own. -/
structure Field.Apart (f g : Field δ) : Prop where
  name : f.name ≠ g.name
  keeps : ∀ {v set}, f.Sets v set → ∀ draft, g.filled (set draft) = g.filled draft
  keeps' : ∀ {v set}, g.Sets v set → ∀ draft, f.filled (set draft) = f.filled draft
  commutes : ∀ {v v' set set'}, f.Sets v set → g.Sets v' set' →
    ∀ draft, set' (set draft) = set (set' draft)

theorem Field.Apart.symm {f g : Field δ} (h : f.Apart g) : g.Apart f :=
  ⟨h.name.symm, h.keeps', h.keeps, fun hg hf draft => (h.commutes hf hg draft).symm⟩

/-- A record of the shape that some entries make, with fields that are set each on its own. -/
structure Record.Suits (record : Record δ α) (entries : List (Entry Shape)) : Prop where
  fields : List.Forall₂ (fun f e => f.Suits record.finish e) record.fields entries
  apart : record.fields.Pairwise Field.Apart
  blank : ∀ f ∈ record.fields, f.filled record.blank = false

variable {record : Record δ α} {entries : List (Entry Shape)} {f g : Field δ} {v : Value}

theorem Field.Rejects.not_sets {set : δ → δ} (h : f.Rejects v) (draft : δ) : ¬f.Sets v set :=
  fun hsets => (h draft).not_takes fun rest => hsets draft rest

theorem Field.Sets.eq {set set' : δ → δ} (h : f.Sets v set) (h' : f.Sets v set') : set = set' := by
  funext draft
  have heq := (h draft []).symm.trans (h' draft [])
  exact (Prod.mk.inj (Except.ok.inj heq)).1

/-- A field that reads a value on its own and puts it into the draft. -/
structure Field.Puts {β : Type} (f : Field δ) (read : List Token → Result β) (put : δ → β → δ) :
    Prop where
  read : ∀ draft ts, f.read draft ts = (read ts).map fun p => (put draft p.1, p.2)
  fills : ∀ draft b, f.filled (put draft b) = true

theorem puts_textField {name : String} {required : Bool} {get : δ → Option String}
    {put : δ → String → δ} (h : ∀ draft s, get (put draft s) = some s) :
    (textField name required get put).Puts text put :=
  ⟨fun _ _ => rfl, fun draft s => congrArg Option.isSome (h draft s)⟩

namespace Field.Puts

variable {β γ : Type} {read : List Token → Result β} {put : δ → β → δ}
  {read' : List Token → Result γ} {put' : δ → γ → δ}

theorem sets (h : f.Puts read put) {b : β} (htakes : Takes read v b) : f.Sets v (put · b) := by
  intro draft rest
  rw [h.read, htakes rest]
  rfl

theorem rejects (h : f.Puts read put) (hrejects : Json.Rejects read v) : f.Rejects v := by
  intro draft rest
  obtain ⟨p, hp⟩ := hrejects rest
  refine ⟨p, ?_⟩
  rw [h.read, hp]
  rfl

theorem exists_takes (h : f.Puts read put) (hread : Decides read) {set : δ → δ}
    (hsets : f.Sets v set) (draft : δ) : ∃ b, Takes read v b ∧ set = (put · b) := by
  rcases hread.cases v with ⟨b, hb⟩ | hrejects
  · exact ⟨b, hb, hsets.eq (h.sets hb)⟩
  · exact absurd hsets ((h.rejects hrejects).not_sets draft)

theorem exists_value (h : f.Puts read put) (hread : Decides read) {draft draft' : δ}
    {ts rest : List Token} (hset : f.read draft ts = .ok (draft', rest)) :
    ∃ v : Value, ts = v.tokens ++ rest := by
  rw [h.read] at hset
  cases hb : read ts with
  | error p =>
    rw [hb] at hset
    cases hset
  | ok taken =>
    rw [hb] at hset
    cases hset
    exact hread.value hb

/-- A field suits what its reader tolerates. -/
theorem suits {e : Entry Shape} {finish : δ → Option α} (h : f.Puts read put)
    (hread : Tolerates e.shape read) (hname : f.name = e.name)
    (hblank : e.required = false → ∃ b, Takes read e.shape.blank b ∧
      ∀ draft, f.filled draft = false → finish (put draft b) = finish draft) :
    f.Suits finish e where
  name := hname
  cases v := (hread.cases v).imp (fun ⟨b, hb⟩ => ⟨_, h.sets hb⟩) h.rejects
  value := h.exists_value hread.toDecides
  alike {_ _} halike {set} hsets draft rest := by
    obtain ⟨b, hb, rfl⟩ := h.exists_takes hread.toDecides hsets draft
    exact h.sets (hread.alike halike hb) draft rest
  refused hrefused := h.rejects (hread.refused hrefused)
  fills {v set} hsets draft := by
    obtain ⟨b, -, rfl⟩ := h.exists_takes hread.toDecides hsets draft
    exact h.fills draft b
  blank hoptional := by
    obtain ⟨b, hb, hfinish⟩ := hblank hoptional
    exact ⟨_, h.sets hb, hfinish⟩

/-- Fields are set each on its own where neither fills the other and their parts of the draft may be
put in either order. -/
theorem apart (h : f.Puts read put) (h' : g.Puts read' put') (hread : Decides read)
    (hread' : Decides read') (hname : f.name ≠ g.name)
    (hkeeps : ∀ draft b, g.filled (put draft b) = g.filled draft)
    (hkeeps' : ∀ draft c, f.filled (put' draft c) = f.filled draft)
    (hcommutes : ∀ draft b c, put' (put draft b) c = put (put' draft c) b) : f.Apart g where
  name := hname
  keeps {v set} hsets draft := by
    obtain ⟨b, -, rfl⟩ := h.exists_takes hread hsets draft
    exact hkeeps draft b
  keeps' {v set} hsets draft := by
    obtain ⟨c, -, rfl⟩ := h'.exists_takes hread' hsets draft
    exact hkeeps' draft c
  commutes {v v' set set'} hsets hsets' draft := by
    obtain ⟨b, -, rfl⟩ := h.exists_takes hread hsets draft
    obtain ⟨c, -, rfl⟩ := h'.exists_takes hread' hsets' draft
    exact hcommutes draft b c

end Field.Puts

theorem exists_of_forall₂_left {β γ : Type} {R : β → γ → Prop} {xs : List β} {ys : List γ}
    (h : List.Forall₂ R xs ys) {x : β} (hx : x ∈ xs) : ∃ y ∈ ys, R x y := by
  induction h with
  | nil => cases hx
  | cons hhead _ ih =>
    rcases List.mem_cons.mp hx with rfl | hx
    · exact ⟨_, List.mem_cons_self, hhead⟩
    · obtain ⟨y, hy, hR⟩ := ih hx
      exact ⟨y, List.mem_cons_of_mem _ hy, hR⟩

namespace Record.Suits

theorem exists_entry (h : record.Suits entries) (hf : f ∈ record.fields) :
    ∃ e ∈ entries, f.Suits record.finish e :=
  exists_of_forall₂_left h.fields hf

theorem apart_or_eq (h : record.Suits entries) (hf : f ∈ record.fields)
    (hg : g ∈ record.fields) : f = g ∨ f.Apart g := by
  refine List.Pairwise.forall_of_forall_of_flip (R := fun f g => f = g ∨ f.Apart g)
    (fun _ _ => .inl rfl) ?_ ?_ hf hg
  · exact h.apart.imp .inr
  · exact h.apart.imp fun hapart => .inr hapart.symm

/-- The field that is found by the name of an entry is the one that reads what the entry wants. -/
theorem exists_found (h : record.Suits entries) {e : Entry Shape} (he : e ∈ entries) :
    ∃ f ∈ record.fields, f.Suits record.finish e ∧
      record.fields.find? (·.name = e.name) = some f := by
  obtain ⟨f, hf, hsuits⟩ := exists_of_forall₂_left h.fields.flip he
  cases hfind : record.fields.find? (·.name = e.name) with
  | none => exact absurd (List.find?_eq_none.mp hfind f hf) (by simp [hsuits.name])
  | some g =>
    have hname : g.name = e.name := by simpa using List.find?_some hfind
    rcases h.apart_or_eq hf (List.mem_of_find?_eq_some hfind) with rfl | hapart
    · exact ⟨f, hf, hsuits, rfl⟩
    · exact absurd (hsuits.name.trans hname.symm) hapart.name

theorem find?_eq_none (h : record.Suits entries) {name : String}
    (hname : ∀ e ∈ entries, e.name ≠ name) : record.fields.find? (·.name = name) = none := by
  refine List.find?_eq_none.mpr fun f hf => ?_
  obtain ⟨e, he, hsuits⟩ := h.exists_entry hf
  simpa [hsuits.name] using hname e he

end Record.Suits
end Fields

/-! ### Members -/

section Members

variable {δ α : Type} {record : Record δ α} {entries : List (Entry Shape)} {fields : List (Field δ)}
  {draft draft' last : δ} {m : List UInt8 × Value} {ms ms' : List (List UInt8 × Value)}

/-- What one member makes of the draft: a declared one that has not come yet sets its field, one
that is not declared does nothing. -/
inductive Adds (fields : List (Field δ)) (draft : δ) : List UInt8 × Value → δ → Prop
  | field {f : Field δ} {set : δ → δ} {key : List UInt8} {name : String} {v : Value}
      (readable : readText key = .ok name) (found : fields.find? (·.name = name) = some f)
      (fresh : f.filled draft = false) (sets : f.Sets v set) :
      Adds fields draft (key, v) (set draft)
  | other {key : List UInt8} {name : String} (readable : readText key = .ok name)
      (missing : fields.find? (·.name = name) = none) (v : Value) :
      Adds fields draft (key, v) draft

/-- What members make of the draft one after the other. -/
inductive Gathers (fields : List (Field δ)) : δ → List (List UInt8 × Value) → δ → Prop
  | nil (draft : δ) : Gathers fields draft [] draft
  | cons {draft next last : δ} {m : List UInt8 × Value} {ms : List (List UInt8 × Value)}
      (first : Adds fields draft m next) (others : Gathers fields next ms last) :
      Gathers fields draft (m :: ms) last

theorem tokensOfMembers_cons (first : Bool) (key : List UInt8) (v : Value)
    (ms : List (List UInt8 × Value)) (rest : List Token) :
    Value.tokensOfMembers first ((key, v) :: ms) ++ rest = Value.separator first ++
      .text key :: .colon :: (v.tokens ++ (Value.tokensOfMembers false ms ++ rest)) := by
  simp only [Value.tokensOfMembers, List.append_assoc, List.cons_append]

theorem nextKey_member (first : Bool) (key : List UInt8) (rest : List Token) :
    nextKey first (Value.separator first ++ .text key :: rest) =
      (readText key).map (some ·, rest) := by
  cases first <;> rfl

theorem Adds.members (h : Adds fields draft m draft') (fuel : Nat) (first : Bool)
    (ms : List (List UInt8 × Value)) (rest : List Token) :
    members fields (fuel + 1) first draft (Value.tokensOfMembers first (m :: ms) ++ rest) =
      members fields fuel false draft' (Value.tokensOfMembers false ms ++ rest) := by
  cases h with
  | field readable found fresh sets =>
    rw [tokensOfMembers_cons, Json.members, nextKey_member, readable]
    simp only [Except.map, found, fresh, afterColon, sets _ _]
    rfl
  | other readable missing v =>
    rw [tokensOfMembers_cons, Json.members, nextKey_member, readable]
    simp only [Except.map, missing, afterColon, skipValue_tokens]

theorem Gathers.members (h : Gathers fields draft ms last) {fuel : Nat} (hfuel : ms.length < fuel)
    (first : Bool) (rest : List Token) :
    members fields fuel first draft (Value.tokensOfMembers first ms ++ rest) =
      .ok (last, rest) := by
  induction h generalizing fuel first with
  | nil draft =>
    cases fuel with
    | zero => cases hfuel
    | succ fuel => cases first <;> rfl
  | cons hfirst _ ih =>
    cases fuel with
    | zero => cases hfuel
    | succ fuel =>
      rw [hfirst.members]
      exact ih (Nat.lt_of_succ_lt_succ hfuel) false

/-- A member does something to the draft, or it is an error. -/
theorem adds_cases (hcases : ∀ f ∈ fields, ∀ v, (∃ set, f.Sets v set) ∨ f.Rejects v) (draft : δ)
    (m : List UInt8 × Value) :
    (∃ draft', Adds fields draft m draft') ∨
      ∀ (fuel : Nat) (first : Bool) (ms : List (List UInt8 × Value)) (rest : List Token),
        ∃ p, members fields (fuel + 1) first draft
          (Value.tokensOfMembers first (m :: ms) ++ rest) = .error p := by
  obtain ⟨key, v⟩ := m
  cases hkey : readText key with
  | error p =>
    refine .inr fun fuel first ms rest => ⟨p, ?_⟩
    rw [tokensOfMembers_cons, Json.members, nextKey_member, hkey]
    rfl
  | ok name =>
    cases hfind : fields.find? (·.name = name) with
    | none => exact .inl ⟨draft, .other hkey hfind v⟩
    | some f =>
      by_cases hfilled : f.filled draft = true
      · refine .inr fun fuel first ms rest => ⟨.mismatched, ?_⟩
        rw [tokensOfMembers_cons, Json.members, nextKey_member, hkey]
        simp only [Except.map, hfind, hfilled, if_true]
      · rcases hcases f (List.mem_of_find?_eq_some hfind) v with ⟨set, hsets⟩ | hrejects
        · exact .inl ⟨set draft, .field hkey hfind (Bool.eq_false_iff.mpr hfilled) hsets⟩
        · refine .inr fun fuel first ms rest => ?_
          obtain ⟨p, hp⟩ := hrejects draft (Value.tokensOfMembers false ms ++ rest)
          refine ⟨p, ?_⟩
          rw [tokensOfMembers_cons, Json.members, nextKey_member, hkey]
          simp only [Except.map, hfind, hfilled, afterColon, hp]
          rfl

theorem gathers_cases (hcases : ∀ f ∈ fields, ∀ v, (∃ set, f.Sets v set) ∨ f.Rejects v)
    (draft : δ) (ms : List (List UInt8 × Value)) :
    (∃ last, Gathers fields draft ms last) ∨
      ∀ (fuel : Nat) (first : Bool) (rest : List Token), ms.length < fuel →
        ∃ p, members fields fuel first draft (Value.tokensOfMembers first ms ++ rest) =
          .error p := by
  induction ms generalizing draft with
  | nil => exact .inl ⟨draft, .nil draft⟩
  | cons m ms ih =>
    rcases adds_cases hcases draft m with ⟨next, hadds⟩ | herror
    · rcases ih next with ⟨last, hothers⟩ | herror
      · exact .inl ⟨last, .cons hadds hothers⟩
      · refine .inr fun fuel first rest hfuel => ?_
        cases fuel with
        | zero => cases hfuel
        | succ fuel =>
          rw [hadds.members]
          exact herror fuel false rest (Nat.lt_of_succ_lt_succ hfuel)
    · refine .inr fun fuel first rest hfuel => ?_
      cases fuel with
      | zero => cases hfuel
      | succ fuel => exact herror fuel first ms rest

theorem length_tokensOfMembers (first : Bool) (ms : List (List UInt8 × Value)) :
    ms.length < (Value.tokensOfMembers first ms).length := by
  induction ms generalizing first with
  | nil => exact Nat.zero_lt_one
  | cons m ms ih =>
    obtain ⟨key, v⟩ := m
    have hothers := ih false
    simp only [Value.tokensOfMembers, List.length_append, List.length_cons]
    omega

theorem gathers_append {ms' : List (List UInt8 × Value)} :
    Gathers fields draft (ms ++ ms') last ↔
      ∃ next, Gathers fields draft ms next ∧ Gathers fields next ms' last := by
  constructor
  · intro h
    induction ms generalizing draft with
    | nil => exact ⟨draft, .nil draft, h⟩
    | cons m ms ih =>
      cases h with
      | cons hfirst hothers =>
        obtain ⟨next, hms, hms'⟩ := ih hothers
        exact ⟨next, .cons hfirst hms, hms'⟩
  · rintro ⟨next, hms, hms'⟩
    induction hms with
    | nil => exact hms'
    | cons hfirst _ ih => exact .cons hfirst (ih hms')

/-! ### What is read is members -/

theorem eq_of_nextKey {first : Bool} {ts rest : List Token} {name : Option String}
    (h : nextKey first ts = .ok (name, rest)) :
    (name = none ∧ ts = .closeBrace :: rest) ∨
      ∃ s key, name = some s ∧ readText key = .ok s ∧
        ts = Value.separator first ++ .text key :: rest := by
  have hkey {bytes : List UInt8} {more : List Token}
      (h : (readText bytes).map (fun s => (some s, more)) = .ok (name, rest)) :
      ∃ s, name = some s ∧ readText bytes = .ok s ∧ more = rest := by
    cases hread : readText bytes with
    | error p =>
      rw [hread] at h
      cases h
    | ok s =>
      rw [hread] at h
      cases h
      exact ⟨s, rfl, rfl, rfl⟩
  unfold nextKey at h
  simp only at h
  split at h
  · cases h
    exact .inl ⟨rfl, rfl⟩
  · split at h
    · cases h
    · rename_i hfirst
      split at h
      · cases h
      · obtain ⟨s, rfl, hread, rfl⟩ := hkey h
        rw [Bool.eq_false_iff.mpr hfirst]
        exact .inr ⟨s, _, rfl, hread, rfl⟩
      · cases h
      · cases h
  · split at h
    · rename_i hfirst
      split at h
      · cases h
      · obtain ⟨s, rfl, hread, rfl⟩ := hkey h
        rw [List.isEmpty_cons, Bool.or_false] at hfirst
        rw [hfirst]
        exact .inr ⟨s, _, rfl, hread, rfl⟩
      · cases h
      · cases h
    · cases h

theorem eq_of_afterColon {ts rest : List Token} (h : afterColon ts = .ok rest) :
    ts = .colon :: rest := by
  unfold afterColon at h
  split at h
  · cases h
    rfl
  · cases h
  · cases h

/-- What is read up to a closing brace is members. -/
theorem exists_members (hvalue : ∀ f ∈ fields, ∀ {draft ts draft' rest},
      f.read draft ts = .ok (draft', rest) → ∃ v : Value, ts = v.tokens ++ rest)
    {fuel : Nat} {first : Bool} {ts rest : List Token}
    (h : members fields fuel first draft ts = .ok (last, rest)) :
    ∃ ms, ts = Value.tokensOfMembers first ms ++ rest := by
  induction fuel generalizing first draft ts with
  | zero => cases h
  | succ fuel ih =>
    rw [Json.members] at h
    cases hkey : nextKey first ts with
    | error p =>
      rw [hkey] at h
      cases h
    | ok next =>
      obtain ⟨name, rest'⟩ := next
      rw [hkey] at h
      obtain ⟨rfl, rfl⟩ | ⟨s, key, rfl, hread, rfl⟩ := eq_of_nextKey hkey
      · cases h
        exact ⟨[], rfl⟩
      have hmember {v : Value} {ms : List (List UInt8 × Value)}
          (hrest : rest' = .colon :: (v.tokens ++ (Value.tokensOfMembers false ms ++ rest))) :
          ∃ ms, Value.separator first ++ .text key :: rest' =
            Value.tokensOfMembers first ms ++ rest := by
        exact ⟨(key, v) :: ms, by rw [hrest, tokensOfMembers_cons]⟩
      simp only at h
      split at h
      · rename_i f hfind
        split at h
        · cases h
        split at h
        · cases h
        rename_i value hcolon
        split at h
        · cases h
        rename_i draft' rest'' hset
        obtain ⟨v, rfl⟩ := hvalue f (List.mem_of_find?_eq_some hfind) hset
        obtain ⟨ms, rfl⟩ := ih h
        exact hmember (eq_of_afterColon hcolon)
      · split at h
        · cases h
        rename_i value hcolon
        split at h
        · cases h
        rename_i rest'' hskip
        obtain ⟨v, rfl⟩ := exists_value_of_skipValue hskip
        obtain ⟨ms, rfl⟩ := ih h
        exact hmember (eq_of_afterColon hcolon)

/-! ### The order of members -/

section Suited

variable (hsuits : record.Suits entries)
include hsuits

/-- Members that come one after the other may change places. -/
theorem Adds.swap {m' : List UInt8 × Value} {next : δ} (h : Adds record.fields draft m next)
    (h' : Adds record.fields next m' last) :
    ∃ next', Adds record.fields draft m' next' ∧ Adds record.fields next' m last := by
  cases h with
  | other readable missing v =>
    exact ⟨last, h', .other readable missing v⟩
  | field readable found fresh sets =>
    cases h' with
    | other readable' missing' v' =>
      exact ⟨draft, .other readable' missing' v', .field readable found fresh sets⟩
    | field readable' found' fresh' sets' =>
      have hf := List.mem_of_find?_eq_some found
      rcases hsuits.apart_or_eq hf (List.mem_of_find?_eq_some found') with rfl | hapart
      · obtain ⟨e, -, he⟩ := hsuits.exists_entry hf
        rw [he.fills sets] at fresh'
        cases fresh'
      · refine ⟨_, .field readable' found' (hapart.keeps sets draft ▸ fresh') sets', ?_⟩
        rw [hapart.commutes sets sets']
        exact .field readable found ((hapart.keeps' sets' draft).trans fresh) sets

theorem Gathers.perm (h : Gathers record.fields draft ms last) (hperm : ms.Perm ms') :
    Gathers record.fields draft ms' last := by
  induction hperm generalizing draft with
  | nil => exact h
  | cons m _ ih =>
    cases h with
    | cons hfirst hothers => exact .cons hfirst (ih hothers)
  | swap m m' ms =>
    cases h with
    | cons hfirst hothers =>
      cases hothers with
      | cons hsecond hothers =>
        obtain ⟨next, hsecond', hfirst'⟩ := hfirst.swap hsuits hsecond
        exact .cons hsecond' (.cons hfirst' hothers)
  | trans _ _ ih ih' => exact ih' (ih h)

/-- A field that is filled stays so, and one that is not needs a member of its name. -/
theorem Adds.filled (h : Adds record.fields draft m draft') {f : Field δ}
    (hf : f ∈ record.fields) (hname : readText m.1 ≠ .ok f.name ∨ f.filled draft = true) :
    f.filled draft' = f.filled draft := by
  cases h with
  | other => rfl
  | field readable found fresh sets =>
    have hfound := List.find?_some found
    simp only [decide_eq_true_eq] at hfound
    rcases hsuits.apart_or_eq (List.mem_of_find?_eq_some found) hf with rfl | hapart
    · rw [hfound, fresh] at hname
      exact absurd readable (hname.resolve_right (by decide))
    · exact hapart.keeps sets draft

theorem Gathers.filled (h : Gathers record.fields draft ms last) {f : Field δ}
    (hf : f ∈ record.fields)
    (hname : (∀ m ∈ ms, readText m.1 ≠ .ok f.name) ∨ f.filled draft = true) :
    f.filled last = f.filled draft := by
  induction h with
  | nil => rfl
  | cons hfirst _ ih =>
    have hnext := hfirst.filled hsuits hf (hname.imp_left fun h => h _ List.mem_cons_self)
    rw [← hnext]
    refine ih (hname.imp (fun h m hm => h m (List.mem_cons_of_mem _ hm)) fun h => ?_)
    rw [hnext, h]

end Suited
end Members
end PeerHealth.Json
