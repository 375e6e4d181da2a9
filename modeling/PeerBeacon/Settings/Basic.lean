import PeerBeacon.Slot.Scheme

/-!
# Settings of a node

What a node is told when it starts: how it slots its time and when it takes a peer to be near, gone
quiet or absent.  The defaults stand beside the fields.  Of all settings only the signal threshold
changes later, by a command from the console.
-/

namespace PeerBeacon

/-- When a peer counts as nearby, quiet and absent; spans are in seconds. -/
structure Thresholds where
  /-- The unbroken hearing after which a peer is present. -/
  detectAfter : UInt32 := 15
  /-- The silence after which a present peer is absent. -/
  absentAfter : UInt32 := 30
  /-- The silence after which a peer that is not yet present is forgotten. -/
  shortTimeout : UInt32 := 3
  /-- The silence after which a present peer is leaving. -/
  leaveGrace : UInt32 := 4
  /-- The weakest signal, in dBm, that counts as nearby. -/
  minRssi : Int16 := -65
  deriving DecidableEq, Repr

/-- Whether a reception of this strength counts. -/
def Thresholds.qualifies (t : Thresholds) (rssi : Int16) : Bool :=
  decide (t.minRssi ≤ rssi)

/-- How a node slots its time. -/
structure Schedule where
  /-- The length of a slot in microseconds. -/
  slotMicros : UInt32 := 12500
  /-- The number of announcements sent in an active slot. -/
  burst : UInt8 := 2
  /-- The active slots. -/
  scheme : SlotScheme := .coprime 11 13
  deriving DecidableEq, Repr

namespace Schedule

/-- The largest burst that is accepted. -/
def maxBurst : UInt8 := 8

/-- The usual dimension of a grid scheme. -/
def gridDim : UInt16 := 8

end Schedule

/-- All settings of a node. -/
structure Settings where
  schedule : Schedule := {}
  thresholds : Thresholds := {}
  deriving DecidableEq, Repr

end PeerBeacon
