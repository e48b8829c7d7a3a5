import PeerHealth.Proofs.Except
import PeerHealth.Settings.Read

/-! How settings are read: first the variables that stand for themselves, then where peers are
looked for. Main statements: what is read of each variable, when all of them read, and which of
them can ask for more time than can be held. -/

namespace PeerHealth.Settings

/-- An environment of these variables and values. -/
def environmentOf (entries : List (String × String)) : Environment :=
  fun key => entries.lookup key

section Variables

variable {α : Type} {env : Environment} {key : String}
  {parse : String → String → Except Fault α} {default a : α}

/-- The variable is unset, or its value reads. -/
def Environment.Suits (env : Environment) (key : String)
    (parse : String → String → Except Fault α) : Prop :=
  ∀ v, env.value? key = some v → ∃ a, parse key v = .ok a

theorem get_of_unset (h : env.value? key = none) : env.get key parse default = .ok default := by
  rw [Environment.get, h]

theorem get_of_set {v : String} (h : env.value? key = some v) :
    env.get key parse default = parse key v := by
  rw [Environment.get, h]

theorem exists_get : (∃ a, env.get key parse default = .ok a) ↔ env.Suits key parse := by
  cases hvalue : env.value? key with
  | none =>
    refine ⟨fun _ v hv => ?_, fun _ => ⟨default, get_of_unset hvalue⟩⟩
    rw [hvalue] at hv
    cases hv
  | some v =>
    rw [get_of_set hvalue]
    refine ⟨fun h v' hv' => ?_, fun h => h v hvalue⟩
    rw [hvalue] at hv'
    exact Option.some.inj hv' ▸ h

/-- Nothing that is read in this way is ever too long. -/
def NeverTooLong (parse : String → String → Except Fault α) : Prop :=
  ∀ key v k, parse key v ≠ .error (.tooLong k)

theorem get_ne_tooLong (h : NeverTooLong parse) (k : String) :
    env.get key parse default ≠ .error (.tooLong k) := by
  cases hvalue : env.value? key with
  | none =>
    rw [get_of_unset hvalue]
    exact fun h => (nomatch h)
  | some v =>
    rw [get_of_set hvalue]
    exact h key v k

theorem exists_of_get_tooLong {k : String}
    (h : env.get key parse default = .error (.tooLong k)) :
    ∃ v, env.value? key = some v ∧ parse key v = .error (.tooLong k) := by
  cases hvalue : env.value? key with
  | none =>
    rw [get_of_unset hvalue] at h
    cases h
  | some v =>
    rw [get_of_set hvalue] at h
    exact ⟨v, rfl, h⟩

end Variables

theorem natural_ne_tooLong (limit : Nat) : NeverTooLong (natural limit) := by
  intro key v k
  unfold natural
  split
  · split <;> simp
  · simp

theorem port_ne_tooLong : NeverTooLong port := by
  intro key v k h
  have hnatural := natural_ne_tooLong 65536 key v k
  unfold port at h
  cases hread : natural 65536 key v with
  | ok n =>
    rw [hread] at h
    cases h
  | error fault =>
    rw [hread] at h
    cases h
    exact hnatural hread

theorem workerCount_ne_tooLong : NeverTooLong workerCount := by
  intro key v k h
  rcases bind_eq_error_iff.mp h with hsize | ⟨n, -, hn⟩
  · exact natural_ne_tooLong _ key v k hsize
  · split at hn <;> cases hn

theorem verbatim_ne_tooLong : NeverTooLong verbatim := fun _ _ _ h => (nomatch h)

/-! ### The variables that stand for themselves -/

/-- All settings but where peers are looked for. -/
def readOwn (env : Environment) : Except Fault Settings := do
  let defaults : Settings := {}
  let webPort ← env.get "MESHWATCH_WEB_PORT" port defaults.webPort
  let servicePort ← env.get "MESHWATCH_SERVICE_PORT" port defaults.servicePort
  let databasePath ← env.get "MESHWATCH_DB_PATH" verbatim defaults.databasePath
  let interval ← env.get "MESHWATCH_CHECK_INTERVAL" seconds defaults.interval
  let workers ← env.get "MESHWATCH_PARALLEL_CHECKS" workerCount defaults.workers
  let timeout ← env.get "MESHWATCH_CHECK_TIMEOUT" seconds defaults.timeout
  let historyLimit ← env.get "MESHWATCH_HISTORY_LIMIT" size defaults.historyLimit
  let internalName ← env.get "MESHWATCH_INTERNAL_METADATA_NAME" verbatim defaults.internalName
  let publicName ← env.get "MESHWATCH_PUBLIC_METADATA_NAME" verbatim defaults.publicName
  return { webPort, servicePort, databasePath, interval, workers, timeout, historyLimit,
           internalName, publicName }

/-- The variables that are to be numbers are numbers, or unset. -/
structure Environment.NumbersSuit (env : Environment) : Prop where
  webPort : env.Suits "MESHWATCH_WEB_PORT" port
  servicePort : env.Suits "MESHWATCH_SERVICE_PORT" port
  interval : env.Suits "MESHWATCH_CHECK_INTERVAL" seconds
  workers : env.Suits "MESHWATCH_PARALLEL_CHECKS" workerCount
  timeout : env.Suits "MESHWATCH_CHECK_TIMEOUT" seconds
  historyLimit : env.Suits "MESHWATCH_HISTORY_LIMIT" size

/-- The variables that say how long things take. -/
def durationKeys : List String := ["MESHWATCH_CHECK_INTERVAL", "MESHWATCH_CHECK_TIMEOUT"]

section Own

variable {files : Files} {env : Environment} {own s : Settings} {fault : Fault}

theorem read_eq (files : Files) (env : Environment) :
    read files env = do
      let own ← readOwn env
      let source ← readSource files env
      return { own with source } := by
  simp only [read, readOwn, bind_assoc, pure_bind]

/-- What is read of the variables that are counted or measured. -/
structure OwnRead (env : Environment) (own : Settings) : Prop where
  interval : env.get "MESHWATCH_CHECK_INTERVAL" seconds (.ofSeconds 10) = .ok own.interval
  workers : env.get "MESHWATCH_PARALLEL_CHECKS" workerCount 20 = .ok own.workers
  timeout : env.get "MESHWATCH_CHECK_TIMEOUT" seconds (.ofSeconds 3) = .ok own.timeout

theorem ownRead_of_readOwn (h : readOwn env = .ok own) : OwnRead env own := by
  simp only [readOwn, bind_eq_ok_iff] at h
  obtain ⟨_, -, _, -, _, -, _, hinterval, _, hworkers, _, htimeout, _, -, _, -, _, -, h⟩ := h
  cases h
  exact ⟨hinterval, hworkers, htimeout⟩

theorem exists_readOwn : (∃ own, readOwn env = .ok own) ↔ env.NumbersSuit := by
  have hverbatim (key default : String) : ∃ a, env.get key verbatim default = .ok a :=
    exists_get.mpr fun v _ => ⟨v, rfl⟩
  constructor
  · rintro ⟨own, h⟩
    simp only [readOwn, bind_eq_ok_iff] at h
    obtain ⟨_, hweb, _, hservice, _, -, _, hinterval, _, hworkers, _, htimeout, _, hlimit, -⟩ := h
    exact ⟨exists_get.mp ⟨_, hweb⟩, exists_get.mp ⟨_, hservice⟩, exists_get.mp ⟨_, hinterval⟩,
      exists_get.mp ⟨_, hworkers⟩, exists_get.mp ⟨_, htimeout⟩, exists_get.mp ⟨_, hlimit⟩⟩
  · intro h
    obtain ⟨_, hweb⟩ := exists_get.mpr h.webPort
    obtain ⟨_, hservice⟩ := exists_get.mpr h.servicePort
    obtain ⟨_, hpath⟩ := hverbatim "MESHWATCH_DB_PATH" _
    obtain ⟨_, hinterval⟩ := exists_get.mpr h.interval
    obtain ⟨_, hworkers⟩ := exists_get.mpr h.workers
    obtain ⟨_, htimeout⟩ := exists_get.mpr h.timeout
    obtain ⟨_, hlimit⟩ := exists_get.mpr h.historyLimit
    obtain ⟨_, hinternal⟩ := hverbatim "MESHWATCH_INTERNAL_METADATA_NAME" _
    obtain ⟨_, hpublic⟩ := hverbatim "MESHWATCH_PUBLIC_METADATA_NAME" _
    simp only [readOwn, bind_eq_ok_iff]
    exact ⟨_, _, hweb, _, hservice, _, hpath, _, hinterval, _, hworkers, _, htimeout, _, hlimit, _,
      hinternal, _, hpublic, rfl⟩

/-- Only a length of time can be too long. -/
theorem exists_of_readOwn_tooLong {k : String} (h : readOwn env = .error (.tooLong k)) :
    ∃ key ∈ durationKeys, ∃ v, env.value? key = some v ∧
      seconds key v = .error (.tooLong k) := by
  simp only [readOwn, bind_eq_error_iff] at h
  rcases h with h | ⟨_, -, h | ⟨_, -, h | ⟨_, -, h | ⟨_, -, h | ⟨_, -, h | ⟨_, -, h⟩⟩⟩⟩⟩⟩
  · exact absurd h (get_ne_tooLong port_ne_tooLong k)
  · exact absurd h (get_ne_tooLong port_ne_tooLong k)
  · exact absurd h (get_ne_tooLong verbatim_ne_tooLong k)
  · exact ⟨_, by simp [durationKeys], exists_of_get_tooLong h⟩
  · exact absurd h (get_ne_tooLong workerCount_ne_tooLong k)
  · exact ⟨_, by simp [durationKeys], exists_of_get_tooLong h⟩
  rcases h with h | ⟨_, -, h | ⟨_, -, h | ⟨_, -, h⟩⟩⟩
  · exact absurd h (get_ne_tooLong (natural_ne_tooLong _) k)
  · exact absurd h (get_ne_tooLong verbatim_ne_tooLong k)
  · exact absurd h (get_ne_tooLong verbatim_ne_tooLong k)
  · cases h

end Own

/-! ### Where peers are looked for -/

/-- The hosts that are listed, if any. -/
def listedHosts (files : Files) (env : Environment) : Except Fault (List String) :=
  match env.value? "MESHWATCH_HOSTS" with
  | some v => hosts files v
  | none => .ok []

/-- Where peers are looked for by name. -/
def namedSource (env : Environment) : Except Fault Source :=
  match env.value? "MESHWATCH_DISCOVERY_NAME" with
  | none => .error .nowhere
  | some name =>
    match env.value? "MESHWATCH_DISCOVERY_MODE" with
    | none => .ok (.addresses name)
    | some mode =>
      if mode = "a" ∨ mode = "A" then .ok (.addresses name)
      else if mode = "srv" ∨ mode = "SRV" then .ok (.services name)
      else .error (.invalid "MESHWATCH_DISCOVERY_MODE" mode)

section Source

variable {files : Files} {env : Environment}

/-- Hosts that are listed come before a name. -/
theorem readSource_eq (files : Files) (env : Environment) :
    readSource files env = listedHosts files env >>= fun listed =>
      if listed ≠ [] then .ok (.fixed listed) else namedSource env := by
  unfold readSource listedHosts
  cases env.value? "MESHWATCH_HOSTS" <;> rfl

/-- Of a list of hosts only its file can be at fault. -/
theorem exists_of_listedHosts_error {fault : Fault} (h : listedHosts files env = .error fault) :
    ∃ reason, fault = .hostsFile reason := by
  unfold listedHosts hosts at h
  split at h
  · split at h
    · cases h
    split at h
    · cases h
    · cases h
      exact ⟨_, rfl⟩
  · cases h

theorem namedSource_error {fault : Fault} (h : namedSource env = .error fault) :
    fault = .nowhere ∨ ∃ mode, fault = .invalid "MESHWATCH_DISCOVERY_MODE" mode := by
  unfold namedSource at h
  split at h
  · exact .inl (Except.error.inj h).symm
  split at h
  · cases h
  split at h
  · cases h
  split at h
  · cases h
  · exact .inr ⟨_, (Except.error.inj h).symm⟩

theorem readSource_ne_tooLong (k : String) : readSource files env ≠ .error (.tooLong k) := by
  rw [readSource_eq]
  intro h
  rcases bind_eq_error_iff.mp h with hlisted | ⟨listed, -, h⟩
  · obtain ⟨reason, hreason⟩ := exists_of_listedHosts_error hlisted
    cases hreason
  · split at h
    · cases h
    · rcases namedSource_error h with hnowhere | ⟨mode, hmode⟩
      · cases hnowhere
      · cases hmode

end Source
end PeerHealth.Settings
