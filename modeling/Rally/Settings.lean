import Rally.Address
import Rally.Match.Rules
import Rally.Text.Blank
import Rally.Text.Quoted

/-!
The settings of a server, which it reads from named values.
-/

namespace Rally

/-- Why settings cannot be read. -/
inductive BadSetting where
  | value (key text : String)
  | address
deriving DecidableEq

/-- The wording of a fault in the settings. -/
def BadSetting.message : BadSetting → String
  | .value key text =>
    "Invalid value for " ++ key ++ ": " ++ String.ofList (Text.Quoted.write text.toList)
  | .address => "Invalid server address format"

structure Settings where
  address : Address
  logLevel : String
  /-- The origins that may send requests. Without them any may. -/
  origins : Option String
  /-- Milliseconds between two ticks. -/
  tick : Nat
  /-- Seconds after which a match ends in any case. -/
  limit : Nat
  /-- Seconds in which both sides have to be ready at first. -/
  startGrace : Nat
  /-- Seconds in which a side has to be back. -/
  reconnectGrace : Nat
  allowance : Nat
  winScore : Nat
deriving DecidableEq

namespace Settings

/-- The value of a key, if it is set. -/
abbrev Lookup := String → Option String

/-- The text of the address. A port is one on every host. -/
def addressText (lookup : Lookup) : String :=
  match lookup "PORT" with
  | some port => "0.0.0.0:" ++ port
  | none => (lookup "SERVER_ADDR").getD "0.0.0.0:8080"

/-- A number of at most `bits` bits, with white space around it. -/
def number (lookup : Lookup) (key : String) (bits default : Nat) : Except BadSetting Nat :=
  match lookup key with
  | none => .ok default
  | some value =>
    match Text.natural? bits (Text.trim value.toList) with
    | some n => .ok n
    | none => .error (.value key value)

/-- Reads the settings. The first fault in the order of the fields counts, and a number that must
not be zero is looked at last. -/
def read (lookup : Lookup) : Except BadSetting Settings := do
  let some address := Address.parse? (addressText lookup).toList
    | throw .address
  let settings : Settings :=
    { address
      logLevel := (lookup "LOG_LEVEL").getD "info"
      origins := (lookup "CLIENT_ORIGIN").filter (· ≠ "")
      tick := ← number lookup "TICK_MS" 64 33
      limit := ← number lookup "MATCH_MAX_DURATION_SECS" 64 300
      startGrace := ← number lookup "START_GRACE_SECS" 64 20
      reconnectGrace := ← number lookup "RECONNECT_GRACE_SECS" 64 10
      allowance := ← number lookup "RECONNECT_ALLOWANCE" 32 3
      winScore := ← number lookup "WIN_SCORE" 8 5 }
  if settings.tick = 0 then throw (.value "TICK_MS" "0")
  if settings.winScore = 0 then throw (.value "WIN_SCORE" "0")
  return settings

/-- The rules of every match on the server. The time limit in milliseconds has 64 bits. -/
def rules (s : Settings) : Rules :=
  { startGrace := 1000 * s.startGrace
    reconnectGrace := 1000 * s.reconnectGrace
    allowance := s.allowance
    winScore := s.winScore
    pace := { tick := s.tick, limit := 1000 * s.limit % UInt64.size } }

end Settings
end Rally
