import PeerBeacon.Json.Bare
import PeerBeacon.Notice

/-!
# Requests from the console

A request is one line: a JSON object whose member `cmd` names a command.  Two commands take an
argument, which stands in a member of its own, `min_rssi` or `enabled`.  Either of these may be
there without being needed, but it has to have the right form all the same, and none of the three
may come twice.  All other members are skipped.

What a line comes to is decided in two steps: `Request.ofMembers?` finds the three members, and
`Request.command` reads the command off them.
-/

namespace PeerBeacon

/-- What the console can ask for. -/
inductive Command where
  /-- Let the slot schedule run. -/
  | start
  /-- Stop the slot schedule; the radio stays off. -/
  | stop
  /-- Report the status. -/
  | status
  /-- Move the signal threshold. -/
  | setRssi (minRssi : Int16)
  /-- Switch the buzzer on or off. -/
  | setBuzzer (enabled : Bool)
  deriving DecidableEq, Repr

/-- Why a line asks for nothing. -/
inductive RequestFault where
  /-- The line is no object of the required form. -/
  | malformed
  /-- The command lacks its argument. -/
  | incomplete
  /-- There is no command of this name. -/
  | unknown (name : String)
  deriving DecidableEq, Repr

/-- What the operator is told about a fault: only a wrong name is worth a notice. -/
def RequestFault.notices : RequestFault → List Notice
  | malformed | incomplete => []
  | unknown name => [.unknownCommand name]

/-- The members of a request that matter. -/
structure Request where
  name : String
  minRssi : Option Int16 := none
  enabled : Option Bool := none
  deriving DecidableEq, Repr

namespace Request

open Json

/-- The number of bytes that the name of a command can have. -/
def maxNameBytes : Nat := 16

/-- The values of all members of one name. -/
def valuesOf (name : String) (members : List Member) : List Value :=
  members.filterMap fun m => if m.name = name then some m.value else none

/-- The name of the command: a single string that is not too long. -/
def name? (members : List Member) : Option String :=
  match valuesOf "cmd" members with
  | [.text raw] => if raw.utf8ByteSize ≤ maxNameBytes then some raw else none
  | _ => none

/-- An argument: at most one value, of the right form. -/
def argument? {α : Type u} (read : List UInt8 → Option α) (name : String)
    (members : List Member) : Option (Option α) :=
  match valuesOf name members with
  | [] => some none
  | [v] => optional? read v
  | _ => none

/-- The request that the members of an object make. -/
def ofMembers? (members : List Member) : Option Request := do
  let name ← name? members
  let minRssi ← argument? int16? "min_rssi" members
  let enabled ← argument? bool? "enabled" members
  some { name, minRssi, enabled }

/-- The request on a line. -/
def ofLine? (line : List UInt8) : Option Request :=
  (readDocument line).bind ofMembers?

/-- The command that a request names. -/
def command (r : Request) : Except RequestFault Command :=
  if r.name = "start" then .ok .start
  else if r.name = "stop" then .ok .stop
  else if r.name = "status" then .ok .status
  else if r.name = "set_rssi" then
    match r.minRssi with
    | none => .error .incomplete
    | some minRssi => .ok (.setRssi minRssi)
  else if r.name = "set_buzzer" then
    match r.enabled with
    | none => .error .incomplete
    | some enabled => .ok (.setBuzzer enabled)
  else .error (.unknown r.name)

end Request

namespace Command

/-- The command on a line. -/
def ofLine (line : List UInt8) : Except RequestFault Command :=
  match Request.ofLine? line with
  | none => .error .malformed
  | some r => r.command

/-- A line either gives a command or the notices of its fault. -/
def read (line : List UInt8) : Option Command × List Notice :=
  match ofLine line with
  | .ok c => (some c, [])
  | .error fault => (none, fault.notices)

end Command

end PeerBeacon
