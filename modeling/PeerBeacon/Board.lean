/-!
# Boards

The boards that a node is built for, and what is attached to them.
-/

namespace PeerBeacon

/-- A small color screen on a serial bus. -/
structure Display where
  width : UInt16
  height : UInt16
  busMegahertz : UInt32
  deriving DecidableEq, Repr

/-- A buzzer. -/
structure Buzzer where
  pin : UInt8
  hertz : UInt32
  /-- The length of one beep in milliseconds. -/
  beepMillis : UInt64
  deriving DecidableEq, Repr

/-- A board. -/
structure Board where
  name : String
  display : Option Display := none
  buzzer : Option Buzzer := none
  deriving DecidableEq, Repr

namespace Board

/-- The radio channel of every node; nodes on different channels do not hear each other. -/
def radioChannel : UInt8 := 1

/-- A board about which nothing is known. -/
def unknown : Board where
  name := "unknown"

/-- A bare board. -/
def xiao : Board where
  name := "xiao_esp32s3"

/-- A board with a screen and a buzzer. -/
def m5stick : Board where
  name := "m5stickc_plus2"
  display := some { width := 135, height := 240, busMegahertz := 40 }
  buzzer := some { pin := 2, hertz := 4000, beepMillis := 80 }

end Board

end PeerBeacon
