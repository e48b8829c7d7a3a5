import PeerHealth.Proofs.Json.Tolerance
import PeerHealth.Proofs.Wire.Codec
import PeerHealth.Wire.Reply

/-! What nodes send each other, as nodes that say more or say it in another way may send it. Main
statement: documents, replies and refusals are read for what they declare, whatever else they hold
and however they are laid out. -/

namespace PeerHealth.Wire

open Json (Alike Compatible Entry Field Shape Value held laidOut_of_tokens readText_held tokens)

def addressesEntries : List (Entry Shape) := [⟨"internal", false, .text⟩, ⟨"public", false, .text⟩]

def documentEntries : List (Entry Shape) :=
  [⟨"hostname", true, .text⟩, ⟨"addresses", false, .record addressesEntries⟩]

def replyEntries : List (Entry Shape) :=
  [⟨"status", true, .text⟩, ⟨"receivedInput", false, .text⟩, ⟨"error", false, .text⟩]

def refusalEntries : List (Entry Shape) := [⟨"type", true, .text⟩, ⟨"message", true, .text⟩]

section Texts

variable {δ α : Type} {name name' : String} {required required' : Bool}
  {get get' : δ → Option String} {put put' : δ → String → δ}

theorem suits_textField {finish : δ → Option α} (hput : ∀ draft s, get (put draft s) = some s)
    (hblank : required = false → ∀ draft, get draft = none → finish (put draft "") = finish draft) :
    (Json.textField name required get put).Suits finish ⟨name, required, .text⟩ := by
  refine (Json.puts_textField hput).suits Json.tolerates_text rfl fun hoptional => ?_
  refine ⟨"", (Json.reads_text "").reads, fun draft hfilled => hblank hoptional draft ?_⟩
  exact Option.not_isSome_iff_eq_none.mp (Bool.eq_false_iff.mp hfilled)

theorem apart_textField (hname : name ≠ name') (hput : ∀ draft s, get (put draft s) = some s)
    (hput' : ∀ draft s, get' (put' draft s) = some s)
    (hkeeps : ∀ draft s, get' (put draft s) = get' draft)
    (hkeeps' : ∀ draft s, get (put' draft s) = get draft)
    (hcommutes : ∀ draft s s', put' (put draft s) s' = put (put' draft s') s) :
    (Json.textField name required get put).Apart (Json.textField name' required' get' put') :=
  (Json.puts_textField hput).apart (Json.puts_textField hput') Json.decides_text Json.decides_text
    hname (fun draft s => congrArg Option.isSome (hkeeps draft s))
    (fun draft s => congrArg Option.isSome (hkeeps' draft s)) hcommutes

end Texts

theorem addressesRecord_suits : addressesRecord.Suits addressesEntries where
  fields := by
    refine .cons (suits_textField (fun _ _ => rfl) fun _ draft h => ?_)
      (.cons (suits_textField (fun _ _ => rfl) fun _ draft h => ?_) .nil)
    · simp [addressesRecord, h]
    · simp [addressesRecord, h]
  apart := by
    refine List.pairwise_pair.mpr (apart_textField (by decide) ?_ ?_ ?_ ?_ ?_)
    all_goals intros; rfl
  blank := by decide

theorem puts_hostname : Field.Puts (δ := DocumentDraft) documentRecord.fields[0] Json.text
    (fun draft s => { draft with hostname := some s }) :=
  ⟨fun _ _ => rfl, fun _ _ => rfl⟩

theorem puts_addresses : Field.Puts (δ := DocumentDraft) documentRecord.fields[1]
    addressesRecord.read (fun draft a => { draft with addresses := some a }) :=
  ⟨fun _ _ => rfl, fun _ _ => rfl⟩

theorem documentRecord_suits : documentRecord.Suits documentEntries where
  fields := by
    refine .cons (suits_textField (fun _ _ => rfl) nofun) (.cons ?_ .nil)
    refine puts_addresses.suits addressesRecord_suits.tolerates rfl fun _ => ?_
    refine ⟨{}, fun _ => rfl, fun draft hfilled => ?_⟩
    have hnone : draft.addresses = none :=
      Option.not_isSome_iff_eq_none.mp (Bool.eq_false_iff.mp hfilled)
    simp [documentRecord, hnone]
  apart := by
    refine List.pairwise_pair.mpr (puts_hostname.apart puts_addresses
      Json.decides_text addressesRecord_suits.decides ?_ ?_ ?_ ?_)
    · decide
    all_goals intros; rfl
  blank := by decide

theorem replyRecord_suits : replyRecord.Suits replyEntries where
  fields := by
    refine .cons (suits_textField (fun _ _ => rfl) nofun)
      (.cons (suits_textField (fun _ _ => rfl) fun _ draft h => ?_)
        (.cons (suits_textField (fun _ _ => rfl) fun _ draft h => ?_) .nil))
    · simp [replyRecord, h]
    · simp [replyRecord, h]
  apart := by
    refine .cons (List.forall_mem_cons.mpr ⟨?_, List.forall_mem_singleton.mpr ?_⟩)
      (List.pairwise_pair.mpr ?_)
    all_goals refine apart_textField (by decide) ?_ ?_ ?_ ?_ ?_
    all_goals intros; rfl
  blank := by decide

theorem refusalRecord_suits : refusalRecord.Suits refusalEntries where
  fields := .cons (suits_textField (fun _ _ => rfl) nofun)
    (.cons (suits_textField (fun _ _ => rfl) nofun) .nil)
  apart := by
    refine List.pairwise_pair.mpr (apart_textField (by decide) ?_ ?_ ?_ ?_ ?_)
    all_goals intros; rfl
  blank := by decide

/-- Documents, replies and refusals are read for what they declare. The order of members, those that
are not declared, white space and optional ones that hold their default make no difference; one that
comes twice, or that holds what is not wanted of it, is an error. -/
theorem messages_compatible :
    Compatible (.record documentEntries) (fun d => Text.Utf8.encode d.toJson) Document.ofBytes? ∧
      Compatible (.record replyEntries) Reply.json Reply.ofBytes? ∧
      Compatible (.record refusalEntries) (fun r => Text.Utf8.encode r.toJson)
        Refusal.ofBytes? :=
  ⟨documentRecord_suits.tolerates.compatible fun d => d.codes.reads,
    replyRecord_suits.tolerates.compatible fun r => r.codes.reads,
    refusalRecord_suits.tolerates.compatible fun r => r.codes.reads⟩

/-- A document with a member of another version before the hostname and no addresses is the one that
is written with empty addresses; one with a null hostname is an error. -/
theorem document_compatible :
    Document.ofBytes? (Text.Utf8.encode "\x7b \"x\" : [\x7b\x7d, 1],\n\"hostname\": \"a\"\x7d") =
        .ok { hostname := "a" } ∧
      ∃ p, Document.ofBytes? (Text.Utf8.encode "\x7b\"hostname\":null\x7d") = .error p := by
  have hlater : tokens (Text.Utf8.encode "\x7b \"x\" : [\x7b\x7d, 1],\n\"hostname\": \"a\"\x7d") =
      (Value.object [(held "x", .array [.object [], .number [0x31]]),
        (held "hostname", .text (held "a"))]).tokens := by rfl
  have hwritten : tokens (Text.Utf8.encode (Document.toJson { hostname := "a" })) =
      (Value.object [(held "hostname", .text (held "a")), (held "addresses", .object
        [(held "internal", .text []), (held "public", .text [])])]).tokens := by rfl
  have hnull : tokens (Text.Utf8.encode "\x7b\"hostname\":null\x7d") =
      (Value.object [(held "hostname", .word)]).tokens := by rfl
  have hempty : Alike (.record addressesEntries) (.object
      [(held "internal", .text []), (held "public", .text [])]) (.object []) := by
    refine .trans (.default List.mem_cons_self rfl (readText_held _) ?_)
      (.default (List.mem_cons_of_mem _ List.mem_cons_self) rfl (readText_held _) nofun)
    simp [readText_held]
  have halike : Alike (.record documentEntries) (.object [(held "hostname", .text (held "a")),
        (held "addresses", .object [(held "internal", .text []), (held "public", .text [])])])
      (.object [(held "x", .array [.object [], .number [0x31]]),
        (held "hostname", .text (held "a"))]) := by
    have haddresses := List.mem_cons_of_mem (⟨"hostname", true, .text⟩ : Entry Shape)
      (List.mem_singleton_self ⟨"addresses", false, .record addressesEntries⟩)
    refine .trans (.permuted (.swap _ _ _)) ?_
    refine .trans (.within haddresses (readText_held _) hempty _) ?_
    refine .trans (.default haddresses rfl (readText_held _) (by simp [readText_held])) ?_
    exact (Alike.undeclared (readText_held "x") (by decide) _ _).symm
  refine ⟨(messages_compatible.1.alike halike (laidOut_of_tokens hwritten)
    (laidOut_of_tokens hlater) _).mp ?_, ?_⟩
  · exact messages_compatible.1.written { hostname := "a" }
  · refine messages_compatible.1.refused ?_ (laidOut_of_tokens hnull)
    exact .member List.mem_cons_self (readText_held _) List.mem_cons_self (.notText nofun)

end PeerHealth.Wire
