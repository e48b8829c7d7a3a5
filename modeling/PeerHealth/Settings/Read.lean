import PeerHealth.Settings.Hosts

/-! The settings of a node, read from an environment. -/

namespace PeerHealth

/-- Where peers are looked for. -/
inductive Settings.Source where
  | fixed (hosts : List String)
  /-- The addresses behind a name. -/
  | addresses (name : String)
  /-- The targets of a service name, and the addresses behind them. -/
  | services (name : String)
deriving DecidableEq, Repr

structure Settings where
  webPort : UInt16 := 80
  servicePort : UInt16 := 5500
  databasePath : String := "meshwatch.db"
  source : Settings.Source := .fixed []
  /-- The time from tick to tick. -/
  interval : Duration := .ofSeconds 10
  /-- How many hosts are checked at a time. -/
  workers : Nat := 20
  /-- The time each check may take. -/
  timeout : Duration := .ofSeconds 3
  historyLimit : Nat := 100
  /-- The names behind which the node's own addresses stand. -/
  internalName : String := "self.metadata.edgeengine.internal"
  publicName : String := "self.metadata.compute.edgeengine.io"
deriving DecidableEq, Repr

namespace Settings

/-- The variables of an environment. -/
abbrev Environment := String → Option String

/-- The value of a variable; a blank one counts as unset. -/
def Environment.value? (env : Environment) (key : String) : Option String :=
  (env key).filter fun v => !Text.isBlank v

/-- The value of a variable as `read` reads it, or `default` if it is unset. -/
def Environment.get {α : Type} (env : Environment) (key : String)
    (read : String → String → Except Fault α) (default : α) : Except Fault α :=
  match env.value? key with
  | some v => read key v
  | none => .ok default

/-- A number of workers, at least one. -/
def workerCount (key value : String) : Except Fault Nat := do
  let n ← size key value
  if n = 0 then .error (.invalid key value) else .ok n

def verbatim (_ value : String) : Except Fault String := .ok value

/-- Where peers are looked for: at the hosts listed, if there are any, otherwise by name. -/
def readSource (files : Files) (env : Environment) : Except Fault Source := do
  let listed ← match env.value? "MESHWATCH_HOSTS" with
    | some v => hosts files v
    | none => .ok []
  if listed ≠ [] then .ok (.fixed listed)
  else
    match env.value? "MESHWATCH_DISCOVERY_NAME" with
    | none => .error .nowhere
    | some name =>
      match env.value? "MESHWATCH_DISCOVERY_MODE" with
      | none => .ok (.addresses name)
      | some mode =>
        if mode = "a" ∨ mode = "A" then .ok (.addresses name)
        else if mode = "srv" ∨ mode = "SRV" then .ok (.services name)
        else .error (.invalid "MESHWATCH_DISCOVERY_MODE" mode)

/-- Reads the settings. Of several faults the first in this order is reported. -/
def read (files : Files) (env : Environment) : Except Fault Settings := do
  let defaults : Settings := {}
  let webPort ← env.get "MESHWATCH_WEB_PORT" port defaults.webPort
  let servicePort ← env.get "MESHWATCH_SERVICE_PORT" port defaults.servicePort
  let databasePath ← env.get "MESHWATCH_DB_PATH" verbatim defaults.databasePath
  let interval ← env.get "MESHWATCH_CHECK_INTERVAL" seconds defaults.interval
  let workers ← env.get "MESHWATCH_PARALLEL_CHECKS" workerCount defaults.workers
  let timeout ← env.get "MESHWATCH_CHECK_TIMEOUT" seconds defaults.timeout
  let historyLimit ← env.get "MESHWATCH_HISTORY_LIMIT" size defaults.historyLimit
  let internalName ← env.get "MESHWATCH_INTERNAL_METADATA_NAME" verbatim defaults.internalName
  let publicName ← env.get "MESHWATCH_PUBLIC_METADATA_NAME" verbatim defaults.publicName
  let source ← readSource files env
  return { webPort, servicePort, databasePath, source, interval, workers, timeout, historyLimit,
           internalName, publicName }

end Settings
end PeerHealth
