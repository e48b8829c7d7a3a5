import PeerHealth.Proofs.Settings.Read
import PeerHealth.Proofs.Text.Lines
import PeerHealth.Proofs.Text.Utf8

/-! The list of hosts to look for. Main statement: whatever blank items and comments stand between
the hosts of a list, and whether it stands in the setting or in a file, what is read of it are these
hosts in order; and only where no host is listed are peers looked for by name. -/

namespace PeerHealth.Settings

/-- A text that can stand for a host in a list. -/
structure IsName (name : String) : Prop where
  trimmed : Text.trim name = name
  ne_empty : name ≠ ""
  oneLine : '\n' ∉ name.toList
  unmarked : name.toList.head? ≠ some '#'

/-- Items that list these hosts, in order: hosts with white space around them, and between them
white space and comments of one line. -/
inductive Lists : List String → List String → Prop
  | nil : Lists [] []
  | host {before name after : String} {items names : List String} :
      Text.isBlank before = true → Text.isBlank after = true → IsName name → Lists items names →
      Lists ((before ++ name ++ after) :: items) (name :: names)
  | blank {item : String} {items names : List String} :
      Text.isBlank item = true → Lists items names → Lists (item :: items) names
  | comment {before comment : String} {items names : List String} :
      Text.isBlank before = true → '\n' ∉ comment.toList → Lists items names →
      Lists ((before ++ "#" ++ comment) :: items) names

/-- A text of these lines, each with a newline or a carriage return and a newline after it. The last
one needs none. -/
inductive HasLines : String → List String → Prop
  | nil : HasLines "" []
  | last (line : String) : HasLines line [line]
  | newline {line text : String} {lines : List String} :
      HasLines text lines → HasLines (line ++ "\n" ++ text) (line :: lines)
  | returnNewline {line text : String} {lines : List String} :
      HasLines text lines → HasLines (line ++ "\r\n" ++ text) (line :: lines)

/-! ### The hosts in a text -/

/-- The host that a line stands for, if any. -/
def entryOf (line : List Char) : List String :=
  let host := Text.trim (String.ofList line)
  if isHostEntry host then [host] else []

/-- The hosts that the lines of a text stand for. -/
def entries (cs : List Char) : List String := (Text.splitOnChar '\n' cs).flatMap entryOf

section Entries

variable {c : Char} {as bs : List Char}

theorem entryOf_cons_blank (h : Text.isBlankChar c = true) : entryOf (c :: as) = entryOf as := by
  rw [entryOf, Text.trim_cons_blank h, entryOf]

theorem entryOf_concat_blank (h : Text.isBlankChar c = true) :
    entryOf (as ++ [c]) = entryOf as := by
  rw [entryOf, Text.trim_concat_blank h, entryOf]

theorem entryOf_dropReturn (line : List Char) : entryOf (Text.dropReturn line) = entryOf line := by
  unfold Text.dropReturn
  split
  · rename_i hlast
    obtain ⟨start, rfl⟩ := List.getLast?_eq_some_iff.mp hlast
    rw [List.dropLast_concat, entryOf_concat_blank (by decide)]
  · rfl

theorem hostEntries_eq (lines : List (List Char)) :
    ((lines.map String.ofList).map Text.trim).filter isHostEntry = lines.flatMap entryOf := by
  induction lines with
  | nil => rfl
  | cons line lines ih =>
    rw [List.map_cons, List.map_cons, List.filter_cons, List.flatMap_cons, entryOf, ih]
    split <;> rfl

/-- How a line ends does not matter to the host that it stands for. -/
theorem hostLines_eq (s : String) : hostLines s = entries s.toList := by
  have hspace : ' ' ≠ '\n' := by decide
  obtain ⟨pieces, last, hpieces, -⟩ := Text.exists_splitOnChar_concat hspace s.toList
  have hended : (pieces.map Text.dropReturn).flatMap entryOf = pieces.flatMap entryOf := by
    simp only [List.flatMap_map, entryOf_dropReturn]
  rw [entries, hpieces, List.flatMap_append, List.flatMap_singleton, ← hended]
  simp only [hostLines, Text.lines, hpieces, List.dropLast_concat, List.getLast?_concat,
    hostEntries_eq, List.flatMap_append]
  cases last with
  | nil => rfl
  | cons c cs => rw [List.flatMap_singleton]

@[simp] theorem entries_nil : entries [] = [] := by decide

theorem entries_of_line (h : '\n' ∉ as) : entries as = entryOf as := by
  rw [entries, Text.splitOnChar_of_not_mem h, List.flatMap_singleton]

theorem entries_newline (as bs : List Char) :
    entries (as ++ '\n' :: bs) = entries as ++ entries bs := by
  rw [entries, Text.splitOnChar_append, List.flatMap_append, entries, entries]

theorem entries_cons_blank (h : Text.isBlankChar c = true) : entries (c :: as) = entries as := by
  -- A newline is white space too, but it ends a piece and what it ends here is nothing.
  by_cases hc : c = '\n'
  · rw [hc, ← List.nil_append ('\n' :: as), entries_newline, entries_nil, List.nil_append]
  · have hne : Text.splitOnChar '\n' as ≠ [] := Text.splitOnChar_ne_nil as
    obtain ⟨piece, pieces, hpieces⟩ := List.exists_cons_of_ne_nil hne
    rw [entries, entries, Text.splitOnChar, if_neg hc, hpieces]
    simp only [List.flatMap_cons, entryOf_cons_blank h]

theorem entries_concat_blank (h : Text.isBlankChar c = true) :
    entries (as ++ [c]) = entries as := by
  by_cases hc : c = '\n'
  · rw [hc, entries_newline, entries_nil, List.append_nil]
  · obtain ⟨pieces, last, hpieces, hconcat⟩ := Text.exists_splitOnChar_concat hc as
    rw [entries, entries, hpieces, hconcat, List.flatMap_append, List.flatMap_append,
      List.flatMap_singleton, List.flatMap_singleton, entryOf_concat_blank h]

theorem entries_blank_append (h : as.all Text.isBlankChar = true) :
    entries (as ++ bs) = entries bs := by
  induction as with
  | nil => rfl
  | cons c as ih =>
    rw [List.all_cons, Bool.and_eq_true] at h
    rw [List.cons_append, entries_cons_blank h.1, ih h.2]

theorem entries_append_blank (h : bs.all Text.isBlankChar = true) :
    entries (as ++ bs) = entries as := by
  induction bs generalizing as with
  | nil => rw [List.append_nil]
  | cons c bs ih =>
    rw [List.all_cons, Bool.and_eq_true] at h
    rw [List.append_cons, ih h.2, entries_concat_blank h.1]

theorem entries_blank {item : String} (h : Text.isBlank item = true) :
    entries item.toList = [] := by
  rw [← List.append_nil item.toList, entries_blank_append h, entries_nil]

theorem entries_host {before name after : String} (hbefore : Text.isBlank before = true)
    (hafter : Text.isBlank after = true) (h : IsName name) :
    entries (before ++ name ++ after).toList = [name] := by
  have hentry : isHostEntry name = true := by simp [isHostEntry, h.ne_empty, h.unmarked]
  rw [String.toList_append, String.toList_append, entries_append_blank hafter,
    entries_blank_append hbefore, entries_of_line h.oneLine, entryOf, String.ofList_toList,
    h.trimmed, if_pos hentry]

theorem entries_comment {before comment : String} (hbefore : Text.isBlank before = true)
    (h : '\n' ∉ comment.toList) : entries (before ++ "#" ++ comment).toList = [] := by
  have hline : '\n' ∉ '#' :: comment.toList := by simp [h]
  obtain ⟨ds, hds⟩ := Text.exists_trim_cons (c := '#') (by decide) comment.toList
  have hentry : isHostEntry (Text.trim (String.ofList ('#' :: comment.toList))) = false := by
    rw [isHostEntry, hds]
    simp
  have hchars : (before ++ "#" ++ comment).toList = before.toList ++ '#' :: comment.toList := by
    simp
  rw [hchars, entries_blank_append hbefore, entries_of_line hline, entryOf, hentry]
  rfl

end Entries

section Listed

variable {items names : List String}

/-- What items stand for, one by one, are the hosts that they list. -/
theorem Lists.entries (h : Lists items names) :
    (items.map String.toList).flatMap Settings.entries = names := by
  induction h with
  | nil => rfl
  | host hbefore hafter hname _ ih =>
    rw [List.map_cons, List.flatMap_cons, entries_host hbefore hafter hname, ih]
    rfl
  | blank hitem _ ih =>
    rw [List.map_cons, List.flatMap_cons, entries_blank hitem, ih]
    rfl
  | comment hbefore hcomment _ ih =>
    rw [List.map_cons, List.flatMap_cons, entries_comment hbefore hcomment, ih]
    rfl

theorem HasLines.entries {text : String} (h : HasLines text items) :
    Settings.entries text.toList = (items.map String.toList).flatMap Settings.entries := by
  induction h with
  | nil => exact entries_nil
  | last line => simp
  | @newline line text lines _ ih =>
    have hchars : (line ++ "\n" ++ text).toList = line.toList ++ '\n' :: text.toList := by simp
    rw [hchars, entries_newline, ih, List.map_cons, List.flatMap_cons]
  | @returnNewline line text lines _ ih =>
    have hchars : (line ++ "\r\n" ++ text).toList =
        (line.toList ++ ['\r']) ++ '\n' :: text.toList := by simp
    rw [hchars, entries_newline, entries_concat_blank (by decide), ih, List.map_cons,
      List.flatMap_cons]

theorem entries_intercalate (lines : List (List Char)) :
    Settings.entries (['\n'].intercalate lines) = lines.flatMap Settings.entries := by
  induction lines with
  | nil => exact entries_nil
  | cons line lines ih =>
    cases lines with
    | nil => simp
    | cons next lines =>
      rw [List.intercalate_cons_cons, List.append_assoc, List.singleton_append, entries_newline,
        ih]
      rfl

theorem commasToLines_intercalate (h : ∀ item ∈ items, ',' ∉ item.toList) :
    (commasToLines (",".intercalate items)).toList =
      ['\n'].intercalate (items.map String.toList) := by
  have hkept {cs : List Char} (hcs : ',' ∉ cs) :
      (cs.map fun c => if c = ',' then '\n' else c) = cs := by
    refine (List.map_congr_left fun c hc => if_neg ?_).trans (List.map_id cs)
    rintro rfl
    exact hcs hc
  rw [commasToLines, String.toList_ofList, String.toList_intercalate]
  induction items with
  | nil => rfl
  | cons item items ih =>
    have hitem := hkept (h item List.mem_cons_self)
    have hitems := ih fun other hother => h other (List.mem_cons_of_mem item hother)
    cases items with
    | nil => simpa using hitem
    | cons next items =>
      simp only [List.map_cons] at hitems ⊢
      rw [List.intercalate_cons_cons, List.intercalate_cons_cons, List.map_append, List.map_append,
        hitem, hitems]
      rfl

end Listed

/-! ### The hosts that are looked for -/

/-- The environment lists these hosts: the variable holds items with commas between them and is not
the name of a file, or it names a file whose lines list them. -/
inductive Environment.ListsHosts (files : Files) (env : Environment) (listed : List String) : Prop
  | inline {items : List String} :
      env "MESHWATCH_HOSTS" = some (",".intercalate items) →
      files (",".intercalate items) = none → (∀ item ∈ items, ',' ∉ item.toList) →
      Lists items listed → Environment.ListsHosts files env listed
  | file {path text : String} {lines : List String} :
      env "MESHWATCH_HOSTS" = some path → Text.isBlank path = false →
      files path = some (Text.Utf8.encode text) → HasLines text lines →
      Lists lines listed → Environment.ListsHosts files env listed

section Source

variable {files : Files} {env : Environment} {listed : List String} {source : Source}

theorem entries_commasToLines_of_blank {v : String} (h : Text.isBlank v = true) :
    entries (commasToLines v).toList = [] := by
  refine entries_blank (List.all_eq_true.mpr fun c hc => ?_)
  rw [commasToLines, String.toList_ofList, List.mem_map] at hc
  obtain ⟨d, hd, rfl⟩ := hc
  split
  · decide
  · exact List.all_eq_true.mp h d hd

theorem value?_of_blank {key v : String} (hv : env key = some v) (h : Text.isBlank v = true) :
    env.value? key = none := by
  simp [Environment.value?, hv, h]

theorem value?_of_not_blank {key v : String} (hv : env key = some v)
    (h : Text.isBlank v = false) : env.value? key = some v := by
  simp [Environment.value?, hv, h]

theorem value?_eq_none_iff {key : String} :
    env.value? key = none ↔ ∀ v, env key = some v → Text.isBlank v = true := by
  simp [Environment.value?, Option.filter_eq_none_iff]

/-- Hosts that the environment lists are the ones that are read. -/
theorem Environment.ListsHosts.listedHosts (h : env.ListsHosts files listed) :
    Settings.listedHosts files env = .ok listed := by
  cases h with
  | @inline items hvalue hnone hcommas hlists =>
    have hread : entries (commasToLines (",".intercalate items)).toList = listed := by
      rw [commasToLines_intercalate hcommas, entries_intercalate, hlists.entries]
    unfold Settings.listedHosts
    cases hblank : Text.isBlank (",".intercalate items) with
    | true =>
      rw [value?_of_blank hvalue hblank, ← hread, entries_commasToLines_of_blank hblank]
    | false =>
      rw [value?_of_not_blank hvalue hblank]
      simp only [hosts, hnone, hostLines_eq, hread]
  | file hvalue hblank hfile hlines hlists =>
    rw [Settings.listedHosts, value?_of_not_blank hvalue hblank]
    simp only [hosts, hfile, Text.Utf8.decode_encode, hostLines_eq, hlines.entries,
      hlists.entries]

/-- Whatever is listed is the hosts in some text. -/
theorem exists_entries_of_listedHosts (h : listedHosts files env = .ok listed) :
    ∃ cs, listed = entries cs := by
  rw [listedHosts] at h
  split at h
  · rename_i v hv
    rw [hosts] at h
    split at h
    · exact ⟨_, (Except.ok.inj h).symm.trans (hostLines_eq _)⟩
    · split at h
      · exact ⟨_, (Except.ok.inj h).symm.trans (hostLines_eq _)⟩
      · cases h
  · exact ⟨[], (Except.ok.inj h).symm⟩

theorem isName_of_mem_entries {cs : List Char} {name : String} (h : name ∈ entries cs) :
    IsName name := by
  obtain ⟨line, hline, hname⟩ := List.mem_flatMap.mp h
  have hnewline := Text.not_mem_of_mem_splitOnChar hline
  rw [entryOf] at hname
  split at hname
  · rename_i hentry
    cases List.mem_singleton.mp hname
    rw [isHostEntry, Bool.and_eq_true, decide_eq_true_iff, decide_eq_true_iff] at hentry
    refine ⟨Text.trim_trim _, hentry.1, fun hmem => hnewline ?_, hentry.2⟩
    rw [Text.toList_trim, String.toList_ofList] at hmem
    exact (List.dropWhile_sublist _).mem ((Text.dropEndWhile_prefix _ _).sublist.mem hmem)
  · cases hname

theorem exists_read_of_readSource (hnumbers : env.NumbersSuit)
    (h : readSource files env = .ok source) :
    ∃ s, read files env = .ok s ∧ s.source = source := by
  obtain ⟨own, hown⟩ := exists_readOwn.mpr hnumbers
  refine ⟨{ own with source }, ?_, rfl⟩
  rw [read_eq, hown, h]
  rfl

theorem readSource_of_read {s : Settings} (h : read files env = .ok s) :
    readSource files env = .ok s.source := by
  rw [read_eq] at h
  obtain ⟨own, -, h⟩ := bind_eq_ok_iff.mp h
  obtain ⟨source, hsource, h⟩ := bind_eq_ok_iff.mp h
  cases h
  exact hsource

theorem read_eq_error_iff {fault : Fault} (hnumbers : env.NumbersSuit) :
    read files env = .error fault ↔ readSource files env = .error fault := by
  obtain ⟨own, hown⟩ := exists_readOwn.mpr hnumbers
  rw [read_eq, hown]
  cases readSource files env with
  | ok source => simp [bind, Except.bind, pure, Except.pure]
  | error other => simp [bind, Except.bind]

theorem listedHosts_of_fixed (h : readSource files env = .ok (.fixed listed)) :
    listed ≠ [] ∧ listedHosts files env = .ok listed := by
  rw [readSource_eq] at h
  obtain ⟨hosts, hhosts, h⟩ := bind_eq_ok_iff.mp h
  split at h
  · rename_i hne
    cases h
    exact ⟨hne, hhosts⟩
  · unfold namedSource at h
    repeat' split at h
    all_goals cases h

theorem namedSource_eq_nowhere_iff :
    namedSource env = .error .nowhere ↔ env.value? "MESHWATCH_DISCOVERY_NAME" = none := by
  rw [namedSource]
  cases env.value? "MESHWATCH_DISCOVERY_NAME" with
  | none => simp
  | some name =>
    dsimp only
    repeat' split
    all_goals simp

theorem readSource_eq_nowhere_iff :
    readSource files env = .error .nowhere ↔
      listedHosts files env = .ok [] ∧ env.value? "MESHWATCH_DISCOVERY_NAME" = none := by
  rw [readSource_eq, bind_eq_error_iff, ← namedSource_eq_nowhere_iff]
  constructor
  · rintro (hlisted | ⟨listed, hlisted, h⟩)
    · obtain ⟨reason, hreason⟩ := exists_of_listedHosts_error hlisted
      cases hreason
    · split at h
      · cases h
      · rename_i hnil
        rw [Decidable.not_not] at hnil
        exact ⟨hnil ▸ hlisted, h⟩
  · rintro ⟨hlisted, hnamed⟩
    exact .inr ⟨[], hlisted, by rw [if_neg (fun h => h rfl), hnamed]⟩

/-- When what is to be a number is one, hosts that the environment lists are looked for, in order,
whatever name and mode it gives. Whatever hosts are looked for, there are some, and each is trimmed,
not empty, of one line and does not start with a number sign. Only where neither a host nor a name
is given is there nowhere to look. -/
theorem listed_hosts_come_first (files : Files) (env : Environment) :
    (∀ listed, env.NumbersSuit → env.ListsHosts files listed → listed ≠ [] →
      ∃ s, read files env = .ok s ∧ s.source = .fixed listed) ∧
    (∀ s listed, read files env = .ok s → s.source = .fixed listed →
      listed ≠ [] ∧ ∀ name ∈ listed, IsName name) ∧
    (env.NumbersSuit →
      (read files env = .error .nowhere ↔ listedHosts files env = .ok [] ∧
        ∀ name, env "MESHWATCH_DISCOVERY_NAME" = some name → Text.isBlank name = true)) := by
  refine ⟨fun listed hnumbers hlists hne => ?_, fun s listed hread hsource => ?_,
    fun hnumbers => ?_⟩
  · refine exists_read_of_readSource hnumbers ?_
    rw [readSource_eq, hlists.listedHosts]
    exact if_pos hne
  · obtain ⟨hne, hlisted⟩ := listedHosts_of_fixed (hsource ▸ readSource_of_read hread)
    obtain ⟨cs, rfl⟩ := exists_entries_of_listedHosts hlisted
    exact ⟨hne, fun name => isName_of_mem_entries⟩
  · rw [read_eq_error_iff hnumbers, readSource_eq_nowhere_iff, value?_eq_none_iff]

end Source

/-- Two hosts with a blank item and a comment between them, besides a name and a mode that is
none. -/
def mixedEnvironment : Environment :=
  environmentOf [("MESHWATCH_HOSTS", " a ,\n,# x,b c"), ("MESHWATCH_DISCOVERY_NAME", "peers"),
    ("MESHWATCH_DISCOVERY_MODE", "mx")]

/-- A file of this name that holds this text. -/
def fileOf (name text : String) : Files :=
  fun path => if path = name then some (Text.Utf8.encode text) else none

theorem listed_hosts_come_first_of_two :
    mixedEnvironment.NumbersSuit ∧ mixedEnvironment.ListsHosts (fun _ => none) ["a", "b c"] ∧
    (∃ s, read (fun _ => none) mixedEnvironment = .ok s ∧ s.source = .fixed ["a", "b c"]) ∧
    (∃ s, read (fileOf "hosts" "# x\r\na\n\r\nb c") (environmentOf [("MESHWATCH_HOSTS", "hosts")]) =
      .ok s ∧ s.source = .fixed ["a", "b c"]) ∧
    read (fun _ => none) (environmentOf [("MESHWATCH_HOSTS", "#a, ,")]) = .error .nowhere := by
  have ha : IsName "a" := ⟨by decide, by decide, by decide, by decide⟩
  have hb : IsName "b c" := ⟨by decide, by decide, by decide, by decide⟩
  have hmixed : Lists [" " ++ "a" ++ " ", "\n", "" ++ "#" ++ " x", "" ++ "b c" ++ ""]
      ["a", "b c"] :=
    .host (by decide) (by decide) ha (.blank (by decide)
      (.comment (by decide) (by decide) (.host (by decide) (by decide) hb .nil)))
  have hlines : Lists ["" ++ "#" ++ " x", "" ++ "a" ++ "", "", "" ++ "b c" ++ ""] ["a", "b c"] :=
    .comment (by decide) (by decide) (.host (by decide) (by decide) ha
      (.blank (by decide) (.host (by decide) (by decide) hb .nil)))
  have htext : HasLines ("# x" ++ "\r\n" ++ ("a" ++ "\n" ++ ("" ++ "\r\n" ++ "b c")))
      ["# x", "a", "", "b c"] := .returnNewline (.newline (.returnNewline (.last "b c")))
  have hmixedNumbers : mixedEnvironment.NumbersSuit :=
    exists_readOwn.mp ⟨{}, rfl⟩
  have hmixedLists : mixedEnvironment.ListsHosts (fun _ => none) ["a", "b c"] :=
    .inline rfl rfl (by decide) hmixed
  have hfileNumbers : (environmentOf [("MESHWATCH_HOSTS", "hosts")]).NumbersSuit :=
    exists_readOwn.mp ⟨{}, rfl⟩
  have hfileLists : (environmentOf [("MESHWATCH_HOSTS", "hosts")]).ListsHosts
      (fileOf "hosts" "# x\r\na\n\r\nb c") ["a", "b c"] :=
    .file rfl (by decide) rfl htext hlines
  have hbareNumbers : (environmentOf [("MESHWATCH_HOSTS", "#a, ,")]).NumbersSuit :=
    exists_readOwn.mp ⟨{}, rfl⟩
  refine ⟨hmixedNumbers, hmixedLists,
    (listed_hosts_come_first _ _).1 _ hmixedNumbers hmixedLists (by simp),
    (listed_hosts_come_first _ _).1 _ hfileNumbers hfileLists (by simp),
    ((listed_hosts_come_first _ _).2.2 hbareNumbers).mpr ⟨rfl, ?_⟩⟩
  intro name hname
  cases hname

/-- A blank value names no file, even if there is one of that name; and a comment in the variable
ends where a line does, not at the next comma. -/
theorem listed_hosts_are_missed :
    (Lists ["10.0.0.1"] ["10.0.0.1"] ∧ HasLines "10.0.0.1\n" ["10.0.0.1"] ∧
      read (fileOf " " "10.0.0.1\n") (environmentOf [("MESHWATCH_HOSTS", " ")]) =
        .error .nowhere) ∧
    (IsName "c" ∧
      read (fun _ => none) (environmentOf [("MESHWATCH_HOSTS", ",".intercalate ["#a\nb", "c"])]) =
        .ok { source := .fixed ["b", "c"] }) := by
  have hname : IsName "10.0.0.1" := ⟨by decide, by decide, by decide, by decide⟩
  have hlists : Lists ["" ++ "10.0.0.1" ++ ""] ["10.0.0.1"] :=
    .host (by decide) (by decide) hname .nil
  have hlines : HasLines ("10.0.0.1" ++ "\n" ++ "") ["10.0.0.1"] := .newline .nil
  exact ⟨⟨hlists, hlines, rfl⟩, ⟨by decide, by decide, by decide, by decide⟩, rfl⟩

end PeerHealth.Settings
