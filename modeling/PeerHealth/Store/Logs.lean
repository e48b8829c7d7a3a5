import PeerHealth.Store.Hosts

/-! Log lines in the store. -/

namespace PeerHealth.Store

def Statements.insertLog (entry : Journal.Entry) : Statements Unit := do
  let db ← get
  let id ← newId db.lastLog (db.logs.map (·.id))
  let row : LogRow :=
    { id, level := entry.level, target := entry.target, message := entry.message
      createdAt := Time.storedText entry.createdAt }
  modify fun db => { db with logs := db.logs ++ [row], lastLog := id }

def addLogs (store : Store) (entries : List Journal.Entry) : Except Fault Unit × Store :=
  store.transact (entries.forM Statements.insertLog)

/-- The newest lines, at most `limit`, newest first. -/
def logs (store : Store) (limit : Nat) : Except Fault (List Journal.Entry) :=
  readAll LogRow.read
    (upTo limit (inOrder (fun r s : LogRow => s.id ≤ r.id) store.database.logs))

end PeerHealth.Store
