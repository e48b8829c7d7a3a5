import PeerHealth.Probe.Line
import PeerHealth.Proofs.Json.Reading
import PeerHealth.Proofs.Text.Trim
import PeerHealth.Proofs.Text.Utf8
import PeerHealth.Wire.Identity
import PeerHealth.Wire.Refusal

/-! What nodes send each other. Main statement: every document, list of documents, reply and refusal
reads back from its JSON, and JSON that is cut off is never taken for one, neither by its reader nor
by the probe that waits for a line. -/

namespace PeerHealth.Wire

open Json (Codes Fills Reads Spelled encode_ofList)

theorem reads_textField {δ : Type} (name : String) (required : Bool) (get : δ → Option String)
    (put : δ → String → δ) (draft : δ) (s : String) :
    Reads ((Json.textField name required get put).read draft) (Spelled.text s).tokens
      (put draft s) :=
  (Json.reads_text s).map (put draft)

def Addresses.spelled (a : Addresses) : Spelled :=
  .object [("internal", .text a.internal), ("public", .text a.external)]

def Document.spelled (d : Document) : Spelled :=
  .object [("hostname", .text d.hostname), ("addresses", d.addresses.spelled)]

def Reply.spelled (r : Reply) : Spelled :=
  .object
    [("status", .text r.status), ("receivedInput", .text r.received), ("error", .text r.error)]

def Refusal.spelled (r : Refusal) : Spelled :=
  .object [("type", .text r.kind), ("message", .text r.message)]

theorem Addresses.reads (a : Addresses) : Reads addressesRecord.read a.spelled.tokens a := by
  refine Fills.reads (?_ : Fills _ _ _ ⟨some a.internal, some a.external⟩) rfl
  refine .cons rfl rfl (reads_textField _ _ _ _ _ _) ?_
  exact .cons rfl rfl (reads_textField _ _ _ _ _ _) (.nil _)

theorem Document.reads (d : Document) : Reads documentRecord.read d.spelled.tokens d := by
  refine Fills.reads (?_ : Fills _ _ _ ⟨some d.hostname, some d.addresses⟩) rfl
  refine .cons rfl rfl (reads_textField _ _ _ _ _ _) ?_
  exact .cons rfl rfl
    (d.addresses.reads.map fun a => (⟨some d.hostname, some a⟩ : DocumentDraft)) (.nil _)

theorem Reply.reads (r : Reply) : Reads replyRecord.read r.spelled.tokens r := by
  refine Fills.reads (?_ : Fills _ _ _ ⟨some r.status, some r.received, some r.error⟩) rfl
  refine .cons rfl rfl (reads_textField _ _ _ _ _ _) ?_
  refine .cons rfl rfl (reads_textField _ _ _ _ _ _) ?_
  exact .cons rfl rfl (reads_textField _ _ _ _ _ _) (.nil _)

theorem Refusal.reads (r : Refusal) : Reads refusalRecord.read r.spelled.tokens r := by
  refine Fills.reads (?_ : Fills _ _ _ ⟨some r.kind, some r.message⟩) rfl
  refine .cons rfl rfl (reads_textField _ _ _ _ _ _) ?_
  exact .cons rfl rfl (reads_textField _ _ _ _ _ _) (.nil _)

theorem Document.chars_spelled (d : Document) : d.spelled.chars = d.write := by
  rw [spelled, Spelled.chars_object, write]
  simp only [List.map_cons, List.map_nil, Addresses.spelled, Spelled.chars_object]
  rfl

theorem Reply.chars_spelled (r : Reply) : r.spelled.chars = r.write :=
  Spelled.chars_object _

def Reply.json (r : Reply) : List UInt8 := Text.Utf8.encode (String.ofList r.write)

theorem Document.codes (d : Document) : Codes ofBytes? (Text.Utf8.encode d.toJson) d := by
  rw [toJson, encode_ofList, ← d.chars_spelled]
  exact d.reads.codes

theorem Document.codes_list (ds : List Document) :
    Codes listOfBytes? (Text.Utf8.encode (listToJson ds)) ds := by
  have hwrites : ∀ d ∈ ds, documentRecord.Writes spelled d := fun d _ => ⟨d.reads, _, rfl⟩
  have hchars : Json.writeArray (ds.map write) = (Spelled.array (ds.map spelled)).chars := by
    rw [Spelled.chars_array, List.map_map]
    exact congrArg _ (List.map_congr_left fun d _ => d.chars_spelled.symm)
  rw [listToJson, encode_ofList, hchars]
  exact (Json.reads_array hwrites).codes

theorem Reply.codes (r : Reply) : Codes ofBytes? r.json r := by
  rw [json, encode_ofList, ← r.chars_spelled]
  exact r.reads.codes

theorem Refusal.codes (r : Refusal) : Codes ofBytes? (Text.Utf8.encode r.toJson) r := by
  have hchars : r.spelled.chars = Json.writeObject
      [("type", Json.writeText r.kind), ("message", Json.writeText r.message)] :=
    Spelled.chars_object _
  rw [toJson, encode_ofList, ← hchars]
  exact r.reads.codes

/-- A line is the JSON of the reply and a newline, the only one in it. -/
theorem Reply.encode_toLine (r : Reply) :
    Text.Utf8.encode r.toLine = r.json ++ [Probe.Line.newline] ∧
      Probe.Line.newline ∉ r.json := by
  refine ⟨?_, fun hmem => absurd (r.codes.plain _ hmem) (by decide)⟩
  rw [toLine, json, encode_ofList, encode_ofList, Json.bytesOf_append]
  rfl

/-! ### A reply that is cut off on its way to the probe -/

theorem firstLine?_eq_none {bytes : List UInt8} (h : Probe.Line.newline ∉ bytes) :
    Probe.Line.firstLine? bytes = none := by
  induction bytes with
  | nil => rfl
  | cons b bytes ih =>
    rw [List.mem_cons, not_or] at h
    rw [Probe.Line.firstLine?, if_neg (Ne.symm h.1), ih h.2]
    rfl

theorem encode_trimEnd_prefix (s : String) :
    Text.Utf8.encode (Text.trimEnd s) <+: Text.Utf8.encode s := by
  rw [Text.trimEnd, encode_ofList]
  exact Json.bytesOf_prefix (Text.dropEndWhile_prefix _ _)

/-- Without its white space at the end, JSON that is cut off is still cut off. -/
theorem Reply.judge_cut (r : Reply) {front : List UInt8} (hfront : front <+: r.json)
    (hne : front ≠ r.json) : ∃ fault, Probe.Line.judge front = .error fault := by
  rw [Probe.Line.judge]
  split
  · exact ⟨_, rfl⟩
  split
  · exact ⟨_, rfl⟩
  rename_i s hs
  have htrimmed : Text.Utf8.encode (Text.trimEnd s) <+: front :=
    Text.Utf8.encode_of_decode hs ▸ encode_trimEnd_prefix s
  have hcut : Reply.ofBytes? (Text.Utf8.encode (Text.trimEnd s)) = .error .truncated := by
    refine r.codes.cut _ (htrimmed.trans hfront) fun heq => hne ?_
    exact hfront.eq_of_length_le (heq ▸ htrimmed.length_le)
  simp only [hcut]
  exact ⟨_, rfl⟩

theorem Reply.run_cut (r : Reply) (timeout : Duration) (closes : Bool) {front : List UInt8}
    (hfront : front <+: r.json) (hne : front ≠ r.json) :
    ∃ fault, Probe.Line.run timeout (.sent front closes) = .error fault := by
  have hline : Probe.Line.firstLine? front = none :=
    firstLine?_eq_none fun hmem => r.encode_toLine.2 (hfront.subset hmem)
  obtain ⟨fault, hjudge⟩ := r.judge_cut hfront hne
  rw [Probe.Line.run, Probe.Line.readLine, hline]
  cases closes with
  | false => exact ⟨_, rfl⟩
  | true => exact ⟨fault, hjudge⟩

/-- Whatever texts they hold, documents, lists of documents, refusals and replies read back from
their JSON, which holds no control character and which, cut off anywhere, is told to end too early.
A reply's line is its JSON and a newline, and a probe does not take a reply that is cut off. -/
theorem messages_read_back :
    (∀ d : Document, Codes Document.ofBytes? (Text.Utf8.encode d.toJson) d) ∧
      (∀ ds : List Document,
        Codes Document.listOfBytes? (Text.Utf8.encode (Document.listToJson ds)) ds) ∧
      (∀ r : Refusal, Codes Refusal.ofBytes? (Text.Utf8.encode r.toJson) r) ∧
      ∀ r : Reply, Codes Reply.ofBytes? r.json r ∧
        Text.Utf8.encode r.toLine = r.json ++ [Probe.Line.newline] ∧
        Probe.Line.newline ∉ r.json ∧
        ∀ (timeout : Duration) (front : List UInt8) (closes : Bool),
          front <+: r.json → front ≠ r.json →
            ∃ fault, Probe.Line.run timeout (.sent front closes) = .error fault :=
  ⟨Document.codes, Document.codes_list, Refusal.codes, fun r =>
    ⟨r.codes, r.encode_toLine.1, r.encode_toLine.2,
      fun timeout _ closes hfront hne => r.run_cut timeout closes hfront hne⟩⟩

/-- A success for a line of characters that JSON escapes and one of four bytes. -/
def Reply.awkward : Reply := .success "\"\\\n\x01😀"

/-- An awkward reply, and what becomes of it when it is cut off inside its longest character. -/
theorem messages_read_back_of_awkward :
    Reply.awkward.toLine =
        "\x7b\"status\":\"success\",\"receivedInput\":\"\\\"\\\\\\n\\u0001😀\"," ++
          "\"error\":\"\"\x7d\n" ∧
      Reply.ofBytes? Reply.awkward.json = .ok Reply.awkward ∧
      Reply.ofBytes? (Reply.awkward.json.take 51) = .error .truncated ∧
      ∃ fault, Probe.Line.run ⟨1⟩ (.sent (Reply.awkward.json.take 51) true) = .error fault := by
  obtain ⟨hcodes, -, -, hrun⟩ := messages_read_back.2.2.2 .awkward
  have hfront : Reply.awkward.json.take 51 <+: Reply.awkward.json := List.take_prefix 51 _
  have hne : Reply.awkward.json.take 51 ≠ Reply.awkward.json := by decide +kernel
  exact ⟨by decide +kernel, hcodes.reads, hcodes.cut _ hfront hne, hrun ⟨1⟩ _ true hfront hne⟩

end PeerHealth.Wire
