import PeerBeacon.Announcement

/-!
# Notices and outcomes

A node tells its operator what it does in one-line notices.  A notice is a value that names its
cause; the line is made from it in one place, `Notice.line`.

Operations that change something are functions from a state to an `Outcome`: the state they leave,
the answer they give and the notices they raise, in order.
-/

namespace PeerBeacon

/-- How much a notice matters. -/
inductive Notice.Level where
  | debug
  | info
  | warning
  deriving DecidableEq, Repr

/-- The word that opens a line of this level. -/
def Notice.Level.label : Notice.Level → String
  | .debug => "DEBUG"
  | .info => "INFO"
  | .warning => "WARN"

/-- Something worth telling the operator. -/
inductive Notice where
  /-- A new peer was turned away while `tracked` peers were known. -/
  | rosterFull (tracked : Nat) (id : NodeId)
  /-- A new peer was heard for the first time. -/
  | nearing (id : NodeId) (heard : Tick)
  /-- A peer became present after an unbroken run that began at `since`. -/
  | detected (id : NodeId) (since : Tick)
  /-- A leaving peer was heard again. -/
  | returned (id : NodeId) (heard : Tick)
  /-- A nearing peer fell silent before it became present. -/
  | faded (id : NodeId)
  /-- A present peer, last heard at `since`, has gone quiet. -/
  | leaving (id : NodeId) (since : Tick)
  /-- A peer, last heard at `since`, is gone. -/
  | absent (id : NodeId) (since : Tick)
  /-- The signal strength that counts as nearby was changed. -/
  | thresholdSet (minRssi : Int16)
  /-- The slot schedule was started from the console. -/
  | started
  /-- The slot schedule was stopped from the console. -/
  | stopped
  /-- The buzzer was switched from the console. -/
  | buzzer (enabled : Bool)
  /-- The console asked for something that does not exist. -/
  | unknownCommand (name : String)
  deriving DecidableEq, Repr

namespace Notice

/-- The level of a notice. -/
def level : Notice → Level
  | rosterFull .. | unknownCommand .. => .warning
  | nearing .. | returned .. | faded .. => .debug
  | detected .. | leaving .. | absent .. | thresholdSet .. | started | stopped | buzzer .. => .info

/-- The wording of a notice. -/
def text : Notice → String
  | rosterFull tracked id =>
    "Neighbor table full (" ++ toString tracked ++ " tracked), dropping node " ++ toString id
  | nearing id heard => "Node " ++ toString id ++ " nearing at " ++ toString heard
  | detected id since => toString since ++ " DETECT " ++ toString id
  | returned id heard => "Node " ++ toString id ++ " back in range at " ++ toString heard
  | faded id => "Node " ++ toString id ++ " faded before detection"
  | leaving id since => toString since ++ " LEAVE " ++ toString id
  | absent id since => toString since ++ " ABSENT " ++ toString id
  | thresholdSet minRssi => "RSSI threshold set to " ++ toString minRssi.toInt ++ " dBm"
  | started => "Schedule started by host command"
  | stopped => "Schedule stopped by host command"
  | buzzer true => "Buzzer enabled"
  | buzzer false => "Buzzer disabled"
  | unknownCommand name => "Unknown host command: " ++ name

/-- The line that the operator reads. -/
def line (n : Notice) : String :=
  n.level.label ++ " " ++ n.text

end Notice

/-- What an operation on a state `σ` comes to. -/
structure Outcome (σ : Type u) (α : Type v) where
  /-- The state that the operation leaves. -/
  state : σ
  /-- Its answer. -/
  answer : α
  /-- The notices that it raised, in order. -/
  notices : List Notice := []
  deriving Repr

end PeerBeacon
