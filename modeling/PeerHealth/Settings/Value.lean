import PeerHealth.Number.Power
import PeerHealth.Number.Reading
import PeerHealth.Text.Blank
import PeerHealth.Text.Quoted
import PeerHealth.Time.Duration

/-! Values of settings: how each kind of value is read, and why settings are refused. -/

namespace PeerHealth.Settings

inductive Fault where
  | invalid (key value : String)
  /-- Nothing says where to look for peers. -/
  | nowhere
  /-- The hosts file cannot be read. -/
  | hostsFile (reason : String)
  /-- A number of seconds that no length of time can hold. -/
  | tooLong (key : String)
deriving DecidableEq, Repr

def Fault.message : Fault → String
  | .invalid key value => "invalid value for " ++ key ++ ": " ++ Text.quoted value
  | .nowhere => "no discovery configured: set MESHWATCH_HOSTS or MESHWATCH_DISCOVERY_NAME"
  | .hostsFile reason => "failed to read hosts file: " ++ reason
  | .tooLong _ => "cannot convert float seconds to Duration: value is either too big or NaN"

/-- A whole number below `limit`, with white space around it. -/
def natural (limit : Nat) (key value : String) : Except Fault Nat :=
  match Number.natural? (Text.trim value).toList with
  | some n => if n < limit then .ok n else .error (.invalid key value)
  | none => .error (.invalid key value)

def port (key value : String) : Except Fault UInt16 := (natural 65536 key value).map UInt16.ofNat

def size (key value : String) : Except Fault Nat := natural Number.limit64 key value

/-- The whole number of nanoseconds nearest to `x` seconds; a half goes to the even neighbour. -/
def nanosecondsOf (x : Number.Binary64) : Nat :=
  let (num, den) := x.toRatio
  Number.roundDiv (num * Duration.second) den

/-- A positive number of seconds, with white space around it. The number is rounded to binary first
and then to nanoseconds, so that one below half a nanosecond comes to nothing. -/
def seconds (key value : String) : Except Fault Duration :=
  match Number.reading? (Text.trim value).toList with
  | some (.finite negative x) =>
    if negative ∨ x.mantissa = 0 then .error (.invalid key value)
    else if Number.limit64 * Duration.second ≤ nanosecondsOf x then .error (.tooLong key)
    else .ok ⟨nanosecondsOf x⟩
  | _ => .error (.invalid key value)

end PeerHealth.Settings
