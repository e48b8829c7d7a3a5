import PeerHealth.Json.Record
import PeerHealth.Proofs.Json.Quoting

/-! Records written and read. Main statements: a record whose members are written in the order of
its fields reads back, alone or in a list, and a text that is cut off is read as one that ends too
early. -/

namespace PeerHealth.Json

/-- JSON text with the tokens that it spells. -/
structure Spelled where
  chars : List Char
  tokens : List Token
  spells : Spells (bytesOf chars) tokens

namespace Spelled

def text (s : String) : Spelled := ⟨writeText s, [.text (held s)], spells_writeText s⟩

def append (front back : Spelled) : Spelled where
  chars := front.chars ++ back.chars
  tokens := front.tokens ++ back.tokens
  spells := by
    rw [bytesOf_append]
    exact front.spells.append back.spells

def openBrace : Spelled := ⟨['\x7b'], [.openBrace], .mark rfl (by decide)⟩

def closeBrace : Spelled := ⟨['\x7d'], [.closeBrace], .mark rfl (by decide)⟩

def openBracket : Spelled := ⟨['['], [.openBracket], .mark rfl (by decide)⟩

def closeBracket : Spelled := ⟨[']'], [.closeBracket], .mark rfl (by decide)⟩

def colon : Spelled := ⟨[':'], [.colon], .mark rfl (by decide)⟩

/-- What stands before a member or an item: nothing before the first one, a comma before others. -/
def separator : Bool → Spelled
  | true => ⟨[], [], .nil⟩
  | false => ⟨[','], [.comma], .mark rfl (by decide)⟩

/-- The members of an object, up to its closing brace. -/
def members (first : Bool) : List (String × Spelled) → Spelled
  | [] => closeBrace
  | (name, value) :: entries =>
    ((separator first).append (text name)).append
      (colon.append (value.append (members false entries)))

def object (entries : List (String × Spelled)) : Spelled := openBrace.append (members true entries)

/-- The items of an array, up to its closing bracket. -/
def items (first : Bool) : List Spelled → Spelled
  | [] => closeBracket
  | item :: more => (separator first).append (item.append (items false more))

def array (values : List Spelled) : Spelled := openBracket.append (items true values)

end Spelled

theorem commaSeparated_cons (item : List Char) (items : List (List Char)) :
    commaSeparated (item :: items) = item ++ items.flatMap (',' :: ·) := by
  induction items generalizing item with
  | nil => simp [commaSeparated]
  | cons next items ih =>
    rw [commaSeparated, ih, List.flatMap_cons, List.cons_append]
    exact List.cons_ne_nil next items

namespace Spelled

def member (entry : String × Spelled) : List Char := writeText entry.1 ++ ':' :: entry.2.chars

theorem chars_members_false (entries : List (String × Spelled)) :
    (members false entries).chars = (entries.map member).flatMap (',' :: ·) ++ ['\x7d'] := by
  induction entries with
  | nil => rfl
  | cons entry entries ih =>
    simp only [members, append, ih, separator, text, colon, member, List.map_cons,
      List.flatMap_cons, List.append_assoc, List.cons_append, List.nil_append]

theorem chars_object (entries : List (String × Spelled)) :
    (object entries).chars = writeObject (entries.map fun entry => (entry.1, entry.2.chars)) := by
  cases entries with
  | nil => rfl
  | cons entry entries =>
    simp only [object, members, append, chars_members_false, separator, text, colon, openBrace,
      writeObject, List.map_cons, commaSeparated_cons, List.map_map, List.append_assoc,
      List.cons_append, List.nil_append]
    rfl

theorem chars_items_false (values : List Spelled) :
    (items false values).chars = (values.map chars).flatMap (',' :: ·) ++ [']'] := by
  induction values with
  | nil => rfl
  | cons value values ih =>
    simp only [items, append, ih, separator, List.map_cons, List.flatMap_cons, List.append_assoc,
      List.cons_append, List.nil_append]

theorem chars_array (values : List Spelled) :
    (array values).chars = writeArray (values.map chars) := by
  cases values with
  | nil => rfl
  | cons value values =>
    simp only [array, items, append, chars_items_false, separator, openBracket, writeArray,
      List.map_cons, commaSeparated_cons, List.append_assoc, List.cons_append, List.nil_append]

end Spelled

/-- A reader reads a value from tokens, whatever follows them, and when they are cut off it tells
that they end too early. -/
structure Reads {α : Type} (read : List Token → Result α) (ts : List Token) (a : α) : Prop where
  reads : ∀ rest, read (ts ++ rest) = .ok (a, rest)
  cut : ∀ cut, Cut ts cut → read cut = .error .truncated

theorem reads_text (s : String) : Reads text (Spelled.text s).tokens s := by
  refine ⟨fun rest => ?_, fun cut hcut => ?_⟩
  · show (readText (held s)).map (·, rest) = _
    rw [readText_held]
    rfl
  · cases hcut with
    | ended => rfl
    | broken bytes held ts sane => exact congrArg Except.error sane
    | later t h => cases h

theorem Reads.map {α β : Type} {read : List Token → Result α} {ts : List Token} {a : α}
    (h : Reads read ts a) (f : α → β) :
    Reads (fun ts => (read ts).map fun (a, rest) => (f a, rest)) ts (f a) := by
  refine ⟨fun rest => ?_, fun cut hcut => ?_⟩
  · rw [h.reads]
    rfl
  · rw [h.cut cut hcut]
    rfl

/-- A field of a record that is read into a draft when the member comes. -/
inductive Fills {δ : Type} (fields : List (Field δ)) : δ → List (String × Spelled) → δ → Prop
  | nil (draft : δ) : Fills fields draft [] draft
  | cons {field : Field δ} {draft next last : δ} {name : String} {value : Spelled}
      {entries : List (String × Spelled)}
      (found : fields.find? (·.name = name) = some field) (fresh : field.filled draft = false)
      (reads : Reads (field.read draft) value.tokens next) (rest : Fills fields next entries last) :
      Fills fields draft ((name, value) :: entries) last

section Members

variable {δ : Type} {fields : List (Field δ)}

theorem nextKey_text (first : Bool) (name : String) (rest : List Token) :
    nextKey first (((Spelled.separator first).append (Spelled.text name)).tokens ++ rest) =
      .ok (some name, rest) := by
  cases first <;> simp [nextKey, Spelled.separator, Spelled.append, Spelled.text, readText_held,
    Except.map]

theorem nextKey_cut {first : Bool} {name : String} {cut : List Token}
    (h : Cut ((Spelled.separator first).append (Spelled.text name)).tokens cut) :
    nextKey first cut = .error .truncated := by
  cases first with
  | true =>
    change Cut [.text (held name)] cut at h
    cases h with
    | ended => rfl
    | broken bytes held ts sane => exact congrArg Except.error sane
    | later t h => cases h
  | false =>
    change Cut [.comma, .text (held name)] cut at h
    cases h with
    | ended => rfl
    | later t h =>
      cases h with
      | ended => rfl
      | broken bytes held ts sane => exact congrArg Except.error sane
      | later t h => cases h

theorem members_of_nextKey {field : Field δ} {draft : δ} {name : String} {ts rest : List Token}
    {first : Bool} (fuel : Nat) (hkey : nextKey first ts = .ok (some name, rest))
    (found : fields.find? (·.name = name) = some field) (fresh : field.filled draft = false) :
    members fields (fuel + 1) first draft ts =
      match afterColon rest with
      | .error p => .error p
      | .ok value =>
        match field.read draft value with
        | .error p => .error p
        | .ok (draft, rest) => members fields fuel false draft rest := by
  rw [members]
  simp only [hkey, found, fresh]
  rfl

theorem Fills.members {draft last : δ} {entries : List (String × Spelled)}
    (h : Fills fields draft entries last) {fuel : Nat} (hfuel : entries.length < fuel)
    (first : Bool) (rest : List Token) :
    Json.members fields fuel first draft ((Spelled.members first entries).tokens ++ rest) =
      .ok (last, rest) := by
  induction h generalizing fuel first with
  | nil draft =>
    cases fuel with
    | zero => cases hfuel
    | succ fuel => rfl
  | cons found fresh reads more ih =>
    rename_i field draft next last name value entries
    cases fuel with
    | zero => cases hfuel
    | succ fuel => ?_
    have hkey := nextKey_text first name
      ((Spelled.colon.append (value.append (Spelled.members false entries))).tokens ++ rest)
    rw [← List.append_assoc] at hkey
    refine (members_of_nextKey fuel hkey found fresh).trans ?_
    simp only [Spelled.append, Spelled.colon, List.cons_append, List.nil_append,
      List.append_assoc, afterColon, reads.reads]
    exact ih (Nat.lt_of_succ_lt_succ hfuel) false

theorem Fills.members_cut {draft last : δ} {entries : List (String × Spelled)}
    (h : Fills fields draft entries last) (fuel : Nat) (first : Bool) {cut : List Token}
    (hcut : Cut (Spelled.members first entries).tokens cut) :
    Json.members fields fuel first draft cut = .error .truncated := by
  induction h generalizing fuel first cut with
  | nil draft =>
    cases fuel with
    | zero => rfl
    | succ fuel =>
      change Cut [.closeBrace] cut at hcut
      cases hcut with
      | ended => cases first <;> rfl
      | later t h => cases h
  | cons found fresh reads more ih =>
    rename_i field draft next last name value entries
    cases fuel with
    | zero => rfl
    | succ fuel =>
      -- The cut is in the key, before the colon, in the value, or in the members after it.
      rcases hcut.append_cases with hkey | ⟨cut₁, rfl, hcut₁⟩
      · rw [Json.members, nextKey_cut hkey]
      rw [members_of_nextKey fuel (nextKey_text first name cut₁) found fresh]
      rcases hcut₁.append_cases with hcolon | ⟨cut₂, rfl, hcut₂⟩
      · cases hcolon with
        | ended => rfl
        | later t h => cases h
      simp only [Spelled.colon, List.cons_append, List.nil_append, afterColon]
      rcases hcut₂.append_cases with hvalue | ⟨cut₃, rfl, hcut₃⟩
      · rw [reads.cut cut₂ hvalue]
      · rw [reads.reads]
        exact ih fuel false hcut₃

end Members

theorem Spelled.length_members (first : Bool) (entries : List (String × Spelled)) :
    entries.length < (Spelled.members first entries).tokens.length := by
  induction entries generalizing first with
  | nil => exact Nat.zero_lt_one
  | cons entry entries ih =>
    have hmore := ih false
    simp only [Spelled.members, Spelled.append, Spelled.text, Spelled.colon, List.length_append,
      List.length_cons]
    omega

/-- A record whose members are written in the order in which they fill the draft. -/
theorem Fills.reads {δ α : Type} {record : Record δ α} {last : δ}
    {entries : List (String × Spelled)} {a : α}
    (h : Fills record.fields record.blank entries last) (hfinish : record.finish last = some a) :
    Reads record.read (Spelled.object entries).tokens a := by
  refine ⟨fun rest => ?_, fun cut hcut => ?_⟩
  · have hlength := Spelled.length_members true entries
    have hfuel : entries.length <
        ((Spelled.members true entries).tokens ++ rest).length + 1 := by
      rw [List.length_append]
      omega
    have hmembers := h.members hfuel true rest
    change record.read (.openBrace :: ((Spelled.members true entries).tokens ++ rest)) = _
    simp only [Record.read, hmembers, hfinish]
  · change Cut (.openBrace :: (Spelled.members true entries).tokens) cut at hcut
    cases hcut with
    | ended => rfl
    | later t hcut =>
      rename_i cut
      simp only [Record.read, h.members_cut (cut.length + 1) true hcut]

section Items

variable {δ α : Type} {record : Record δ α} {write : α → Spelled}

/-- A value is written as an object from which the record is read. -/
structure Record.Writes (record : Record δ α) (write : α → Spelled) (a : α) : Prop where
  reads : Reads record.read (write a).tokens a
  isObject : ∃ ts, (write a).tokens = .openBrace :: ts

theorem nextItem_object (first : Bool) (ts : List Token) :
    nextItem first ((Spelled.separator first).tokens ++ .openBrace :: ts) =
      .ok (some (.openBrace :: ts)) := by
  cases first <;> rfl

theorem nextItem_separator (first : Bool) :
    nextItem first ((Spelled.separator first).tokens ++ []) = .error .truncated := by
  cases first <;> rfl

theorem readItems_of_ok {ts rest : List Token} {a : α}
    (h : record.read (.openBrace :: ts) = .ok (a, rest)) (fuel : Nat) (first : Bool)
    (before : List α) :
    record.readItems (fuel + 1) first before
        ((Spelled.separator first).tokens ++ .openBrace :: ts) =
      record.readItems fuel false (a :: before) rest := by
  rw [Record.readItems]
  simp only [nextItem_object, h]

theorem readItems_of_error {ts : List Token} {p : Problem}
    (h : record.read (.openBrace :: ts) = .error p) (fuel : Nat) (first : Bool)
    (before : List α) :
    record.readItems (fuel + 1) first before
        ((Spelled.separator first).tokens ++ .openBrace :: ts) = .error p := by
  rw [Record.readItems]
  simp only [nextItem_object, h]

theorem readItems_items {as : List α} (h : ∀ a ∈ as, record.Writes write a) {fuel : Nat}
    (hfuel : as.length < fuel) (first : Bool) (before : List α) (rest : List Token) :
    record.readItems fuel first before ((Spelled.items first (as.map write)).tokens ++ rest) =
      .ok (before.reverse ++ as, rest) := by
  induction as generalizing fuel first before with
  | nil =>
    cases fuel with
    | zero => cases hfuel
    | succ fuel =>
      rw [List.append_nil]
      rfl
  | cons a as ih =>
    obtain ⟨hreads, ts, hts⟩ := h a List.mem_cons_self
    cases fuel with
    | zero => cases hfuel
    | succ fuel =>
      have hread := hreads.reads ((Spelled.items false (as.map write)).tokens ++ rest)
      rw [hts, List.cons_append] at hread
      simp only [List.map_cons, Spelled.items, Spelled.append, List.append_assoc, hts,
        List.cons_append]
      rw [readItems_of_ok hread, ih (fun b hb => h b (List.mem_cons_of_mem a hb))
        (Nat.lt_of_succ_lt_succ hfuel), List.reverse_cons, List.append_assoc]
      rfl

theorem readItems_cut {as : List α} (h : ∀ a ∈ as, record.Writes write a) (fuel : Nat)
    (first : Bool) (before : List α) {cut : List Token}
    (hcut : Cut (Spelled.items first (as.map write)).tokens cut) :
    record.readItems fuel first before cut = .error .truncated := by
  induction as generalizing fuel first before cut with
  | nil =>
    cases fuel with
    | zero => rfl
    | succ fuel =>
      change Cut [.closeBracket] cut at hcut
      cases hcut with
      | ended => rfl
      | later t h => cases h
  | cons a as ih =>
    obtain ⟨hreads, ts, hts⟩ := h a List.mem_cons_self
    cases fuel with
    | zero => rfl
    | succ fuel =>
      -- The cut is in place of the comma, before the item, in it, or in the items after it.
      rcases hcut.append_cases with hcomma | ⟨cut₁, rfl, hcut₁⟩
      · cases first with
        | true => cases hcomma
        | false =>
          cases hcomma with
          | ended => rfl
          | later t h => cases h
      rcases hcut₁.append_cases with hitem | ⟨cut₂, rfl, hcut₂⟩
      · have hread := hreads.cut cut₁ hitem
        rw [hts] at hitem
        cases hitem with
        | ended => rw [Record.readItems, nextItem_separator]
        | later t hitem => exact readItems_of_error hread fuel first before
      · have hread := hreads.reads cut₂
        rw [hts, List.cons_append] at hread ⊢
        rw [readItems_of_ok hread]
        exact ih (fun b hb => h b (List.mem_cons_of_mem a hb)) fuel false (a :: before) hcut₂

theorem length_items {as : List α} (h : ∀ a ∈ as, record.Writes write a) (first : Bool) :
    as.length < (Spelled.items first (as.map write)).tokens.length := by
  induction as generalizing first with
  | nil => exact Nat.zero_lt_one
  | cons a as ih =>
    obtain ⟨-, ts, hts⟩ := h a List.mem_cons_self
    have hmore := ih (fun b hb => h b (List.mem_cons_of_mem a hb)) false
    simp only [List.map_cons, Spelled.items, Spelled.append, hts, List.length_append,
      List.length_cons]
    omega

theorem reads_array {as : List α} (h : ∀ a ∈ as, record.Writes write a) :
    Reads record.readList (Spelled.array (as.map write)).tokens as := by
  refine ⟨fun rest => ?_, fun cut hcut => ?_⟩
  · have hlength := length_items h true
    have hfuel : as.length <
        ((Spelled.items true (as.map write)).tokens ++ rest).length + 1 := by
      rw [List.length_append]
      omega
    exact readItems_items h hfuel true [] rest
  · change Cut (.openBracket :: (Spelled.items true (as.map write)).tokens) cut at hcut
    cases hcut with
    | ended => rfl
    | later t hcut => exact readItems_cut h _ true [] hcut

end Items

/-- Bytes that read as a value, with no control character among them, and that end too early when
they are cut off. -/
structure Codes {α : Type} (read : List UInt8 → Except Problem α) (bytes : List UInt8) (a : α) :
    Prop where
  reads : read bytes = .ok a
  plain : ∀ b ∈ bytes, 0x20 ≤ b
  cut : ∀ front, front <+: bytes → front ≠ bytes → read front = .error .truncated

theorem Reads.codes {α : Type} {read : List Token → Result α} {s : Spelled} {a : α}
    (h : Reads read s.tokens a) : Codes (whole read) (bytesOf s.chars) a := by
  refine ⟨?_, s.spells.plain, fun front hfront hne => ?_⟩
  · have hread := h.reads []
    rw [List.append_nil] at hread
    rw [whole, s.spells.tokens_eq, hread]
  · rw [whole, h.cut _ (s.spells.cut front hfront hne)]

end PeerHealth.Json
