import PeerHealth.Registry.Kinds

/-! Why the store does not do what it is asked, with the wording of each reason. -/

namespace PeerHealth.Store

/-- What the tables stand in the way with. Columns of an answer are counted from zero. -/
inductive TableFault where
  /-- A text that is no time. -/
  | badTime (column : Nat) (text : String)
  /-- A text that is none of the names wanted. -/
  | badName (column : Nat) (name : String)
  /-- A whole number past those that the column may hold. -/
  | outOfRange (column : Nat) (value : Int)
  /-- A value of another kind than the column's. -/
  | wrongKind (column : Nat) (name : String) (kind : String)
  | missingRow
  /-- A value that another row has already and that only one may have. -/
  | taken (columns : String)
  /-- A column or a value that the table cannot take. -/
  | refused (reason : String)
deriving DecidableEq, Repr

def TableFault.message : TableFault → String
  | .badTime column text =>
    s!"Conversion error from type Text at index: {column}, bad timestamp " ++ Text.quoted text
  | .badName column name =>
    s!"Conversion error from type Text at index: {column}, " ++ unknownNameMessage name
  | .outOfRange column value => s!"Integer {value} out of range at index {column}"
  | .wrongKind column name kind => s!"Invalid column type {kind} at index: {column}, name: {name}"
  | .missingRow => "Query returned no rows"
  | .taken columns => "UNIQUE constraint failed: " ++ columns
  | .refused reason => reason

inductive Fault where
  | table (fault : TableFault)
  | migration (reason : String)
  | notFound
  | conflict (reason : String)
  | invalid (reason : String)
deriving DecidableEq, Repr

def Fault.message : Fault → String
  | .table fault => "SQLite error: " ++ fault.message
  | .migration reason => "Migration error: " ++ reason
  | .notFound => "Not found"
  | .conflict reason => "Conflict: " ++ reason
  | .invalid reason => "Invalid identity: " ++ reason

end PeerHealth.Store
