import PeerHealth.Proofs.Json.Members

/-! Records that are read whatever else stands in them. Main statement: a record whose fields are
set each on its own is read alike from values that are alike, and from none that is refused, however
the values are laid out. -/

namespace PeerHealth.Json

/-! ### Items -/

section Items

variable {δ : Type} {fields : List (Field δ)} {draft last : δ} {vs : List Value}

/-- What items make of the draft, each set in the field whose turn it is. Fields that are left over
are optional. -/
inductive Enumerates : List (Field δ) → δ → List Value → δ → Prop
  | done {fields : List (Field δ)} {draft : δ} (optional : fields.any (·.required) = false) :
      Enumerates fields draft [] draft
  | item {f : Field δ} {fields : List (Field δ)} {set : δ → δ} {draft last : δ} {v : Value}
      {vs : List Value} (sets : f.Sets v set) (others : Enumerates fields (set draft) vs last) :
      Enumerates (f :: fields) draft (v :: vs) last

theorem nextItem_value (first : Bool) {t : Token} (ht : t.startsValue = true) (ts : List Token) :
    nextItem first (Value.separator first ++ t :: ts) = .ok (some (t :: ts)) := by
  cases first <;> cases t <;> first | rfl | cases ht

theorem nextItem_items (first : Bool) (v : Value) (vs : List Value) (rest : List Token) :
    nextItem first (Value.tokensOfItems first (v :: vs) ++ rest) =
      .ok (some (v.tokens ++ (Value.tokensOfItems false vs ++ rest))) := by
  obtain ⟨t, ts, htokens, hstarts⟩ := v.tokens_eq_cons
  rw [Value.tokensOfItems, htokens, List.append_assoc, List.cons_append, List.cons_append,
    nextItem_value first hstarts, List.append_assoc]
  rfl

theorem Enumerates.items (h : Enumerates fields draft vs last) (first : Bool) (rest : List Token) :
    items fields first draft (Value.tokensOfItems first vs ++ rest) = .ok (last, rest) := by
  induction h generalizing first with
  | done optional =>
    rename_i fields draft
    cases fields with
    | nil => rfl
    | cons f fields =>
      have hend : nextItem first (Value.tokensOfItems first [] ++ rest) = .ok none := by
        cases first <;> rfl
      rw [Json.items, hend]
      simp only [optional]
      rfl
  | item sets _ ih =>
    rw [Json.items, nextItem_items]
    simp only [sets _ _]
    exact ih false

theorem enumerates_cases (hcases : ∀ f ∈ fields, ∀ v, (∃ set, f.Sets v set) ∨ f.Rejects v)
    (draft : δ) (vs : List Value) :
    (∃ last, Enumerates fields draft vs last) ∨
      ∀ (first : Bool) (rest : List Token),
        ∃ p, items fields first draft (Value.tokensOfItems first vs ++ rest) = .error p := by
  induction fields generalizing draft vs with
  | nil =>
    cases vs with
    | nil => exact .inl ⟨draft, .done rfl⟩
    | cons v vs =>
      obtain ⟨t, ts, htokens, hstarts⟩ := v.tokens_eq_cons
      refine .inr fun first rest => ⟨.malformed, ?_⟩
      rw [Value.tokensOfItems, htokens]
      cases first <;> cases t <;> first | rfl | cases hstarts
  | cons f fields ih =>
    cases vs with
    | nil =>
      cases hany : (f :: fields).any (·.required) with
      | false => exact .inl ⟨draft, .done hany⟩
      | true =>
        refine .inr fun first rest => ⟨.mismatched, ?_⟩
        have hend : nextItem first (Value.tokensOfItems first [] ++ rest) = .ok none := by
          cases first <;> rfl
        rw [Json.items, hend]
        simp only [hany, if_true]
    | cons v vs =>
      rcases hcases f List.mem_cons_self v with ⟨set, hsets⟩ | hrejects
      · rcases ih (fun g hg => hcases g (List.mem_cons_of_mem f hg)) (set draft) vs with
          ⟨last, hothers⟩ | herror
        · exact .inl ⟨last, .item hsets hothers⟩
        · refine .inr fun first rest => ?_
          rw [Json.items, nextItem_items]
          simp only [hsets _ _]
          exact herror false rest
      · refine .inr fun first rest => ?_
        obtain ⟨p, hp⟩ := hrejects draft (Value.tokensOfItems false vs ++ rest)
        refine ⟨p, ?_⟩
        rw [Json.items, nextItem_items]
        simp only [hp]

theorem eq_of_closeArray {ts rest : List Token} (h : closeArray ts = .ok rest) :
    ts = .closeBracket :: rest := by
  unfold closeArray at h
  split at h
  · cases h
    rfl
  · cases h
  · cases h

theorem eq_of_nextItem {first : Bool} {ts value : List Token}
    (h : nextItem first ts = .ok (some value)) : ts = Value.separator first ++ value := by
  unfold nextItem at h
  split at h
  · cases h
  · cases h
  · split at h
    · rename_i hfirst
      cases h
      rw [hfirst]
      rfl
    · rename_i hfirst
      rw [Bool.eq_false_iff.mpr hfirst]
      split at h
      · cases h
      · cases h
      · cases h
        rfl
  · split at h
    · rename_i hfirst
      cases h
      rw [hfirst]
      rfl
    · cases h

theorem closeArray_of_map {ts rest : List Token}
    (h : (closeArray ts).map (fun ts => (draft, ts)) = .ok (last, rest)) :
    ts = .closeBracket :: rest := by
  cases hclose : closeArray ts with
  | error p =>
    rw [hclose] at h
    cases h
  | ok ts' =>
    rw [hclose] at h
    cases h
    exact eq_of_closeArray hclose

/-- What is read up to a closing bracket is items. -/
theorem exists_items (hvalue : ∀ f ∈ fields, ∀ {draft ts draft' rest},
      f.read draft ts = .ok (draft', rest) → ∃ v : Value, ts = v.tokens ++ rest)
    {first : Bool} {ts rest : List Token}
    (h : items fields first draft ts = .ok (last, rest)) :
    ∃ vs, ts = Value.tokensOfItems first vs ++ rest := by
  induction fields generalizing first draft ts with
  | nil => exact ⟨[], closeArray_of_map h⟩
  | cons f fields ih =>
    rw [Json.items] at h
    split at h
    · cases h
    · split at h
      · cases h
      · exact ⟨[], closeArray_of_map h⟩
    · rename_i value hnext
      split at h
      · cases h
      rename_i draft' rest' hset
      obtain ⟨v, rfl⟩ := hvalue f List.mem_cons_self hset
      obtain ⟨vs, rfl⟩ := ih (fun g hg => hvalue g (List.mem_cons_of_mem f hg)) h
      refine ⟨v :: vs, ?_⟩
      rw [eq_of_nextItem hnext, Value.tokensOfItems, List.append_assoc, List.append_assoc]

theorem Enumerates.exists_sets (h : Enumerates fields draft vs last) {i : Nat} {v : Value}
    (hv : vs[i]? = some v) : ∃ f set, fields[i]? = some f ∧ f.Sets v set := by
  induction h generalizing i with
  | done => cases hv
  | item sets _ ih =>
    cases i with
    | zero =>
      cases hv
      exact ⟨_, _, rfl, sets⟩
    | succ i => exact ih hv

end Items

/-! ### Records -/

section Records

variable {δ α : Type} {record : Record δ α} {entries : List (Entry Shape)} {v : Value} {a : α}

/-- The record that a draft makes, once it has been read. -/
def Record.conclude (record : Record δ α) (last : δ) (rest : List Token) : Result α :=
  match record.finish last with
  | some a => .ok (a, rest)
  | none => .error .mismatched

/-- Reading a value comes to a draft that `P` holds of, whatever follows it, or to nothing. -/
structure Drafts (record : Record δ α) (v : Value) (P : δ → Prop) : Prop where
  reads : ∀ {last}, P last → ∀ rest, record.read (v.tokens ++ rest) = record.conclude last rest
  cases : (∃ last, P last) ∨ Rejects record.read v

theorem Drafts.takes_iff {P : δ → Prop} (h : Drafts record v P) :
    Takes record.read v a ↔ ∃ last, P last ∧ record.finish last = some a := by
  constructor
  · intro htakes
    rcases h.cases with ⟨last, hlast⟩ | hrejects
    · refine ⟨last, hlast, ?_⟩
      have heq := (h.reads hlast []).symm.trans (htakes [])
      unfold Record.conclude at heq
      cases hfinish : record.finish last with
      | some a' =>
        rw [hfinish] at heq
        cases heq
        rfl
      | none =>
        rw [hfinish] at heq
        cases heq
    · exact absurd htakes hrejects.not_takes
  · rintro ⟨last, hlast, hfinish⟩ rest
    rw [h.reads hlast, Record.conclude, hfinish]

theorem Drafts.takes_or_rejects {P : δ → Prop} (h : Drafts record v P) :
    (∃ a, Takes record.read v a) ∨ Rejects record.read v := by
  rcases h.cases with ⟨last, hlast⟩ | hrejects
  · cases hfinish : record.finish last with
    | some a => exact .inl ⟨a, h.takes_iff.mpr ⟨last, hlast, hfinish⟩⟩
    | none =>
      refine .inr fun rest => ⟨.mismatched, ?_⟩
      rw [h.reads hlast, Record.conclude, hfinish]
  · exact .inr hrejects

namespace Record.Suits

section Taking

variable (h : record.Suits entries)
include h

theorem field_cases : ∀ f ∈ record.fields, ∀ v, (∃ set, f.Sets v set) ∨ f.Rejects v := by
  intro f hf v
  obtain ⟨e, -, hsuits⟩ := h.exists_entry hf
  exact hsuits.cases v

theorem field_value : ∀ f ∈ record.fields, ∀ {draft ts draft' rest},
    f.read draft ts = .ok (draft', rest) → ∃ v : Value, ts = v.tokens ++ rest := by
  intro f hf draft ts draft' rest hread
  obtain ⟨e, -, hsuits⟩ := h.exists_entry hf
  exact hsuits.value hread

theorem drafts_object (ms : List (List UInt8 × Value)) :
    Drafts record (.object ms) (Gathers record.fields record.blank ms) := by
  have hlength := length_tokensOfMembers true ms
  have hfuel (rest : List Token) :
      ms.length < (Value.tokensOfMembers true ms ++ rest).length + 1 := by
    rw [List.length_append]
    omega
  have htokens (rest : List Token) : (Value.object ms).tokens ++ rest =
      .openBrace :: (Value.tokensOfMembers true ms ++ rest) := rfl
  refine ⟨fun {last} hlast rest => ?_, ?_⟩
  · rw [htokens]
    simp only [Record.read, hlast.members (hfuel rest) true rest]
    rfl
  · refine (gathers_cases h.field_cases record.blank ms).imp_right fun herror rest => ?_
    obtain ⟨p, hp⟩ := herror _ true rest (hfuel rest)
    refine ⟨p, ?_⟩
    rw [htokens]
    simp only [Record.read, hp]

theorem drafts_array (vs : List Value) :
    Drafts record (.array vs) (Enumerates record.fields record.blank vs) := by
  have htokens (rest : List Token) : (Value.array vs).tokens ++ rest =
      .openBracket :: (Value.tokensOfItems true vs ++ rest) := rfl
  refine ⟨fun {last} hlast rest => ?_, ?_⟩
  · rw [htokens]
    simp only [Record.read, hlast.items true rest]
    rfl
  · refine (enumerates_cases h.field_cases record.blank vs).imp_right fun herror rest => ?_
    obtain ⟨p, hp⟩ := herror true rest
    refine ⟨p, ?_⟩
    rw [htokens]
    simp only [Record.read, hp]

theorem takes_object {ms : List (List UInt8 × Value)} :
    Takes record.read (.object ms) a ↔
      ∃ last, Gathers record.fields record.blank ms last ∧ record.finish last = some a :=
  (h.drafts_object ms).takes_iff

theorem decides : Decides record.read := by
  refine ⟨fun v => ?_, fun {ts rest a} hread => ?_⟩
  · cases v with
    | word => exact .inr (rejects_of_error rfl fun _ => rfl)
    | number bytes => exact .inr (rejects_of_error rfl fun _ => rfl)
    | text bytes => exact .inr (rejects_of_error rfl fun _ => rfl)
    | array vs => exact (h.drafts_array vs).takes_or_rejects
    | object ms => exact (h.drafts_object ms).takes_or_rejects
  · cases ts with
    | nil => cases hread
    | cons t ts =>
      cases t with
      | openBrace =>
        cases hmembers : members record.fields (ts.length + 1) true record.blank ts with
        | error p =>
          simp only [Record.read, hmembers] at hread
          cases hread
        | ok drafted =>
          obtain ⟨last, rest'⟩ := drafted
          simp only [Record.read, hmembers] at hread
          split at hread
          · cases hread
            obtain ⟨ms, rfl⟩ := exists_members h.field_value hmembers
            exact ⟨.object ms, rfl⟩
          · cases hread
      | openBracket =>
        cases hitems : items record.fields true record.blank ts with
        | error p =>
          simp only [Record.read, hitems] at hread
          cases hread
        | ok drafted =>
          obtain ⟨last, rest'⟩ := drafted
          simp only [Record.read, hitems] at hread
          split at hread
          · cases hread
            obtain ⟨vs, rfl⟩ := exists_items h.field_value hitems
            exact ⟨.array vs, rfl⟩
          · cases hread
      | _ => cases hread

end Taking

section Alike

variable (h : record.Suits entries)
include h

theorem gathers_perm {ms ms' : List (List UInt8 × Value)} (hperm : ms.Perm ms')
    (htakes : Takes record.read (.object ms) a) : Takes record.read (.object ms') a := by
  obtain ⟨last, hlast, hfinish⟩ := h.takes_object.mp htakes
  exact h.takes_object.mpr ⟨last, hlast.perm h hperm, hfinish⟩

theorem takes_undeclared {key : List UInt8} {name : String} (readable : readText key = .ok name)
    (unknown : ∀ e ∈ entries, e.name ≠ name) (v : Value) (ms : List (List UInt8 × Value)) :
    Takes record.read (.object ((key, v) :: ms)) a ↔ Takes record.read (.object ms) a := by
  have hmissing := h.find?_eq_none unknown
  rw [h.takes_object, h.takes_object]
  refine exists_congr fun last => and_congr_left fun _ => ⟨fun hlast => ?_, fun hlast => ?_⟩
  · cases hlast with
    | cons hfirst hothers =>
      cases hfirst with
      | other => exact hothers
      | field readable' found =>
        cases readable.symm.trans readable'
        cases hmissing.symm.trans found
  · exact .cons (.other readable hmissing v) hlast

/-- The default of a field that is missing changes nothing. It is added where the others have been
read, and from there may go to any place. -/
theorem takes_default {e : Entry Shape} {key : List UInt8} {ms : List (List UInt8 × Value)}
    (declared : e ∈ entries) (optional : e.required = false)
    (readable : readText key = .ok e.name) (absent : ∀ m ∈ ms, readText m.1 ≠ .ok e.name) :
    Takes record.read (.object ((key, e.shape.blank) :: ms)) a ↔
      Takes record.read (.object ms) a := by
  obtain ⟨f, hf, hsuits, hfound⟩ := h.exists_found declared
  obtain ⟨set, hset, hfinish⟩ := hsuits.blank optional
  have hperm : ((key, e.shape.blank) :: ms).Perm (ms ++ [(key, e.shape.blank)]) :=
    (List.perm_append_singleton _ ms).symm
  rw [h.takes_object, h.takes_object]
  constructor
  · rintro ⟨last, hlast, ha⟩
    obtain ⟨mid, hmid, hend⟩ := gathers_append.mp (hlast.perm h hperm)
    cases hend with
    | cons hadds hnil =>
      cases hnil
      cases hadds with
      | other readable' missing =>
        cases readable.symm.trans readable'
        cases hfound.symm.trans missing
      | field readable' found fresh sets =>
        cases readable.symm.trans readable'
        cases hfound.symm.trans found
        rw [sets.eq hset, hfinish mid fresh] at ha
        exact ⟨mid, hmid, ha⟩
  · rintro ⟨mid, hmid, ha⟩
    have hfresh : f.filled mid = false := by
      rw [hmid.filled h hf (.inl (hsuits.name ▸ absent))]
      exact h.blank f hf
    refine ⟨set mid, Gathers.perm h (gathers_append.mpr ⟨mid, hmid, ?_⟩) hperm.symm,
      (hfinish mid hfresh).trans ha⟩
    exact .cons (.field readable hfound hfresh hset) (.nil _)

theorem takes_within {e : Entry Shape} {key : List UInt8} {v v' : Value}
    {ms : List (List UInt8 × Value)} (declared : e ∈ entries)
    (readable : readText key = .ok e.name) (halike : Alike e.shape v v')
    (htakes : Takes record.read (.object ((key, v) :: ms)) a) :
    Takes record.read (.object ((key, v') :: ms)) a := by
  obtain ⟨f, hf, hsuits, hfound⟩ := h.exists_found declared
  obtain ⟨last, hlast, ha⟩ := h.takes_object.mp htakes
  cases hlast with
  | cons hadds hothers =>
    refine h.takes_object.mpr ⟨last, .cons ?_ hothers, ha⟩
    cases hadds with
    | other readable' missing =>
      cases readable.symm.trans readable'
      cases hfound.symm.trans missing
    | field readable' found fresh sets =>
      cases readable.symm.trans readable'
      cases hfound.symm.trans found
      exact .field readable hfound fresh (hsuits.alike halike sets)

theorem takes_alike {shape : Shape} {v v' : Value} (halike : Alike shape v v')
    (hshape : shape = .record entries) :
    Takes record.read v a ↔ Takes record.read v' a := by
  induction halike with
  | refl => exact Iff.rfl
  | symm _ ih => exact (ih hshape).symm
  | trans _ _ ih ih' => exact (ih hshape).trans (ih' hshape)
  | permuted perm =>
    cases hshape
    exact ⟨h.gathers_perm perm, h.gathers_perm perm.symm⟩
  | undeclared readable unknown v members =>
    cases hshape
    exact h.takes_undeclared readable unknown v members
  | default declared optional readable absent =>
    cases hshape
    exact h.takes_default declared optional readable absent
  | within declared readable halike members =>
    cases hshape
    exact ⟨h.takes_within declared readable halike, h.takes_within declared readable halike.symm⟩

end Alike

section Refused

variable (h : record.Suits entries)
include h

/-- A member of the name of an entry sets the field of that name. -/
theorem exists_sets {e : Entry Shape} {key : List UInt8} {draft draft' : δ}
    (declared : e ∈ entries) (readable : readText key = .ok e.name)
    (hadds : Adds record.fields draft (key, v) draft') :
    ∃ f ∈ record.fields, f.Suits record.finish e ∧ f.filled draft = false ∧
      f.filled draft' = true ∧ ∃ set, f.Sets v set := by
  obtain ⟨f, hf, hsuits, hfound⟩ := h.exists_found declared
  cases hadds with
  | other readable' missing =>
    cases readable.symm.trans readable'
    cases hfound.symm.trans missing
  | field readable' found fresh sets =>
    cases readable.symm.trans readable'
    cases hfound.symm.trans found
    exact ⟨f, hf, hsuits, fresh, hsuits.fills sets draft, _, sets⟩

theorem not_gathers_repeated {e : Entry Shape} {key key' : List UInt8} (declared : e ∈ entries)
    (readable : readText key = .ok e.name) (readable' : readText key' = .ok e.name)
    (v v' : Value) (front between back : List (List UInt8 × Value)) (draft last : δ) :
    ¬Gathers record.fields draft (front ++ (key, v) :: (between ++ (key', v') :: back)) last := by
  intro hlast
  obtain ⟨d₁, -, hlast⟩ := gathers_append.mp hlast
  cases hlast with
  | cons hfirst hlast =>
    obtain ⟨d₂, hbetween, hlast⟩ := gathers_append.mp hlast
    cases hlast with
    | cons hsecond _ =>
      obtain ⟨f, hf, hsuits, -, hfilled, -⟩ := h.exists_sets declared readable hfirst
      obtain ⟨g, hg, hsuits', hfresh, -⟩ := h.exists_sets declared readable' hsecond
      rcases h.apart_or_eq hf hg with rfl | hapart
      · rw [hbetween.filled h hf (.inr hfilled), hfilled] at hfresh
        cases hfresh
      · exact hapart.name (hsuits.name.trans hsuits'.name.symm)

theorem rejects_refused {v : Value} (hrefused : Refused (.record entries) v) :
    Rejects record.read v := by
  cases hrefused with
  | notRecord notObject notArray =>
    cases v with
    | array vs => exact absurd rfl (notArray vs)
    | object ms => exact absurd rfl (notObject ms)
    | _ => exact rejects_of_error rfl fun _ => rfl
  | repeated declared readable readable' v v' front between back =>
    refine h.decides.rejects fun a htakes => ?_
    obtain ⟨last, hlast, -⟩ := h.takes_object.mp htakes
    exact h.not_gathers_repeated declared readable readable' v v' front between back _ _ hlast
  | member declared readable holds hrefused =>
    refine h.decides.rejects fun a htakes => ?_
    obtain ⟨last, hlast, -⟩ := h.takes_object.mp htakes
    obtain ⟨front, back, rfl⟩ := List.append_of_mem holds
    obtain ⟨mid, -, hlast⟩ := gathers_append.mp hlast
    cases hlast with
    | cons hadds _ =>
      obtain ⟨f, -, hsuits, -, -, set, hsets⟩ := h.exists_sets declared readable hadds
      exact (hsuits.refused hrefused).not_sets mid hsets
  | item declared holds hrefused =>
    refine h.decides.rejects fun a htakes => ?_
    obtain ⟨last, hlast, -⟩ := (h.drafts_array _).takes_iff.mp htakes
    obtain ⟨f, set, hf, hsets⟩ := hlast.exists_sets holds
    obtain ⟨hi, rfl⟩ := List.getElem?_eq_some_iff.mp hf
    obtain ⟨hi', rfl⟩ := List.getElem?_eq_some_iff.mp declared
    exact ((h.fields.get hi hi').refused hrefused).not_sets record.blank hsets

end Refused

/-- A record of a shape tolerates all that the shape allows. -/
theorem tolerates (h : record.Suits entries) : Tolerates (.record entries) record.read :=
  ⟨h.decides, fun halike _ htakes => (h.takes_alike halike rfl).mp htakes, h.rejects_refused⟩

end Record.Suits
end Records

/-! ### Whole texts -/

section Texts

variable {α : Type} {read : List Token → Result α} {v : Value} {bytes : List UInt8} {a : α}

/-- Whole texts read as a shape is wanted. What is written is read; each text that is read is a
value laid out; values that are alike read alike, however they are laid out; and one that is refused
is an error. -/
structure Compatible (shape : Shape) (write : α → List UInt8)
    (read : List UInt8 → Except Problem α) : Prop where
  written : ∀ a, read (write a) = .ok a
  value : ∀ {bytes a}, read bytes = .ok a → ∃ v : Value, LaidOut v.tokens bytes
  alike : ∀ {v v' bytes bytes'}, Alike shape v v' → LaidOut v.tokens bytes →
    LaidOut v'.tokens bytes' → ∀ a, read bytes = .ok a ↔ read bytes' = .ok a
  refused : ∀ {v bytes}, Refused shape v → LaidOut v.tokens bytes → ∃ p, read bytes = .error p

theorem whole_eq_error (hlaid : LaidOut v.tokens bytes) (h : Rejects read v) :
    ∃ p, whole read bytes = .error p := by
  obtain ⟨p, hp⟩ := h []
  rw [List.append_nil] at hp
  refine ⟨p, ?_⟩
  rw [whole, tokens_of_laidOut hlaid, hp]

theorem Takes.whole_eq (hlaid : LaidOut v.tokens bytes) (h : Takes read v a) :
    whole read bytes = .ok a := by
  have hread := h []
  rw [List.append_nil] at hread
  rw [whole, tokens_of_laidOut hlaid, hread]

theorem Decides.whole_eq_ok (h : Decides read) (hlaid : LaidOut v.tokens bytes) :
    whole read bytes = .ok a ↔ Takes read v a := by
  refine ⟨fun hwhole => ?_, Takes.whole_eq hlaid⟩
  rcases h.cases v with ⟨a', ha'⟩ | hrejects
  · cases (ha'.whole_eq hlaid).symm.trans hwhole
    exact ha'
  · obtain ⟨p, hp⟩ := whole_eq_error hlaid hrejects
    cases hp.symm.trans hwhole

theorem Decides.exists_laidOut (h : Decides read) (hwhole : whole read bytes = .ok a) :
    ∃ v : Value, LaidOut v.tokens bytes := by
  unfold whole at hwhole
  split at hwhole
  · cases hwhole
  · rename_i hread
    obtain ⟨v, hv⟩ := h.value hread
    exact ⟨v, laidOut_of_tokens (hv.trans (List.append_nil _))⟩
  · cases hwhole

/-- A reader that tolerates what a shape allows does so in whole texts. -/
theorem Tolerates.compatible {shape : Shape} {write : α → List UInt8} (h : Tolerates shape read)
    (hwritten : ∀ a, whole read (write a) = .ok a) : Compatible shape write (whole read) where
  written := hwritten
  value := h.exists_laidOut
  alike {_ _ _ _} halike hlaid hlaid' a := by
    rw [h.whole_eq_ok hlaid, h.whole_eq_ok hlaid']
    exact ⟨h.alike halike, h.alike halike.symm⟩
  refused hrefused hlaid := whole_eq_error hlaid (h.refused hrefused)

end Texts
end PeerHealth.Json
