import PeerBeacon.Console.LineBuffer
import PeerBeacon.Console.Request
import PeerBeacon.Node.Basic

/-!
# A node at its console

A station is a node together with the switch that lets its schedule run and the console that its
operator types on.  The console changes three things: the switch, the signal threshold, and, through
the answer of `Station.perform`, the buzzer, which is no part of the station.
-/

namespace PeerBeacon

/-- A node at its console. -/
structure Station (buckets records : Nat) where
  node : Node buckets records
  /-- The slot schedule is running. -/
  running : Bool := true
  console : LineBuffer := {}
  deriving DecidableEq, Repr

/-- What became of one line from the console. -/
structure Reply where
  /-- The command on the line, if there is one. -/
  command : Option Command
  /-- The new setting of the buzzer, if the command gives one. -/
  buzzer : Option Bool
  deriving DecidableEq, Repr

namespace Station

variable {buckets records : Nat}

/-- Carries a command out and answers with the new setting of the buzzer, if it gives one.  A status
report is the business of whoever knows the uptime and the free memory, and after `stop` the radio
has to be switched off. -/
def perform (s : Station buckets records) : Command →
    Outcome (Station buckets records) (Option Bool)
  | .start =>
    { state := { s with running := true }
      answer := none
      notices := [.started] }
  | .stop =>
    { state := { s with running := false, node := s.node.stop }
      answer := none
      notices := [.stopped] }
  | .status =>
    { state := s
      answer := none }
  | .setRssi minRssi =>
    let outcome := s.node.setMinRssi minRssi
    { state := { s with node := outcome.state }
      answer := none
      notices := outcome.notices }
  | .setBuzzer enabled =>
    { state := s
      answer := some enabled
      notices := [.buzzer enabled] }

/-- Carries out what a line asks for. -/
def obey (s : Station buckets records) (line : List UInt8) :
    Outcome (Station buckets records) Reply :=
  match Command.read line with
  | (none, notices) =>
    { state := s
      answer := { command := none, buzzer := none }
      notices := notices }
  | (some command, notices) =>
    let outcome := s.perform command
    { state := outcome.state
      answer := { command := some command, buzzer := outcome.answer }
      notices := notices ++ outcome.notices }

/-- Takes the next byte from the console, and answers the line that it completes. -/
def feed (s : Station buckets records) (c : UInt8) :
    Outcome (Station buckets records) (Option Reply) :=
  match s.console.feed c with
  | (none, console) =>
    { state := { s with console }
      answer := none }
  | (some line, console) =>
    let outcome := obey { s with console } line
    { outcome with answer := some outcome.answer }

/-- Takes bytes from the console, and answers the lines that they complete, in order. -/
def feedAll (s : Station buckets records) : List UInt8 →
    Outcome (Station buckets records) (List Reply)
  | [] =>
    { state := s
      answer := [] }
  | c :: rest =>
    let first := s.feed c
    let others := first.state.feedAll rest
    { state := others.state
      answer := first.answer.toList ++ others.answer
      notices := first.notices ++ others.notices }

end Station

end PeerBeacon
