import PeerBeacon.Console.Station
import PeerBeacon.Proofs.Slot.Rendezvous

/-!
# What typing at the console comes to

The console takes bytes one at a time, but what it does with them can be said of the input as a
whole.  The lines are the pieces between terminators that are neither empty nor too long
(`LineBuffer.lines_empty`); a piece that is too long is no line, and neither is what has not been
terminated yet.  The commands are those on the lines (`typedCommands`), and they have few effects:
the last start or stop decides whether the schedule runs, the last new signal threshold is in force,
and after a stop the radio is no longer held (`Station.performAll_eq`).  Nothing else about the node
changes.

The main statement is `Station.feedAll_controls`.
-/

namespace PeerBeacon

/-! ## Lines -/

namespace LineBuffer

/-- A piece of the input that is a line: it is neither empty nor too long. -/
def isLine (piece : List UInt8) : Bool :=
  decide (piece ≠ [] ∧ piece.length ≤ limit)

/-- The buffer that has taken the bytes of a piece that is not terminated yet. -/
def holding (piece : List UInt8) : LineBuffer :=
  if piece.length ≤ limit then { pending := piece } else { overflowed := true }

theorem feed_holding_of_terminator (piece : List UInt8) {c : UInt8} (h : isTerminator c) :
    (holding piece).feed c = (if isLine piece then some piece else none, {}) := by
  rw [feed, if_pos h, holding, isLine]
  by_cases hlength : piece.length ≤ limit
  · by_cases hpiece : piece = []
    · simp [hpiece]
    · simp [hpiece, hlength]
  · simp [hlength]

theorem feed_holding (piece : List UInt8) {c : UInt8} (h : ¬isTerminator c) :
    (holding piece).feed c = (none, holding (piece ++ [c])) := by
  rw [feed, if_neg h, holding, holding, List.length_append, List.length_singleton]
  by_cases hlength : piece.length ≤ limit
  · rw [if_pos hlength]
    dsimp only
    rw [if_neg Bool.false_ne_true]
    by_cases hroom : piece.length < limit
    · rw [if_pos hroom, if_pos (Nat.succ_le_of_lt hroom)]
    · rw [if_neg hroom, if_neg fun hle => hroom (Nat.lt_of_succ_le hle)]
  · rw [if_neg hlength, if_neg fun hle => hlength (Nat.le_of_succ_le hle)]
    rfl

theorem modifyHead_nil_append (pieces : List (List UInt8)) :
    pieces.modifyHead ([] ++ ·) = pieces := by
  cases pieces <;> rfl

/-- The lines that some input completes, after a piece that is not terminated yet. -/
theorem lines_holding (input : List UInt8) :
    ∀ piece, (holding piece).lines input =
      ((input.splitOnP isTerminator).modifyHead (piece ++ ·)).dropLast.filter isLine := by
  induction input with
  | nil =>
    intro piece
    rw [List.splitOnP_nil]
    rfl
  | cons c input ih =>
    intro piece
    rw [lines, List.splitOnP_cons_eq_if_modifyHead]
    by_cases hc : isTerminator c
    · have hrest : lines {} input = (input.splitOnP isTerminator).dropLast.filter isLine :=
        (ih []).trans (by rw [modifyHead_nil_append])
      rw [feed_holding_of_terminator piece hc, if_pos hc, hrest, List.modifyHead_cons,
        List.append_nil, List.dropLast_cons_of_ne_nil (List.splitOnP_ne_nil _ _), List.filter_cons]
      split <;> rfl
    · have happend : (piece ++ ·) ∘ List.cons c = (piece ++ [c] ++ ·) :=
        funext fun rest => List.append_cons piece c rest
      rw [feed_holding piece hc, if_neg hc, List.modifyHead_modifyHead, happend]
      exact ih (piece ++ [c])

/-- **The lines are the terminated pieces that fit.**  From an empty buffer on, the lines are the
pieces between terminators, the last one apart, that are neither empty nor too long. -/
theorem lines_empty (input : List UInt8) :
    lines {} input = (input.splitOnP isTerminator).dropLast.filter isLine :=
  (lines_holding input []).trans (by rw [modifyHead_nil_append])

end LineBuffer

/-! ## Commands -/

namespace Command

/-- Whether the schedule is to run, if the command says so. -/
def running? : Command → Option Bool
  | start => some true
  | stop => some false
  | status | setRssi _ | setBuzzer _ => none

/-- The new signal threshold, if the command gives one. -/
def minRssi? : Command → Option Int16
  | setRssi minRssi => some minRssi
  | start | stop | status | setBuzzer _ => none

/-- The new setting of the buzzer, if the command gives one. -/
def buzzer? : Command → Option Bool
  | setBuzzer enabled => some enabled
  | start | stop | status | setRssi _ => none

end Command

/-- The commands in some input: each stands on a terminated piece that is neither empty nor too
long. -/
def typedCommands (input : List UInt8) : List Command :=
  ((input.splitOnP LineBuffer.isTerminator).dropLast.filter LineBuffer.isLine).filterMap
    fun line => (Command.read line).1

namespace Station

variable {buckets records : Nat}

/-- Carries commands out, one after the other. -/
def performAll (s : Station buckets records) (commands : List Command) : Station buckets records :=
  commands.foldl (fun s command => (s.perform command).state) s

/-- What a command answers. -/
theorem answer_perform (s : Station buckets records) (command : Command) :
    (s.perform command).answer = command.buzzer? := by
  cases command <;> rfl

theorem perform_console (s : Station buckets records) (console : LineBuffer) (command : Command) :
    (perform { s with console } command).state = { (s.perform command).state with console } := by
  cases command <;> rfl

theorem performAll_console (commands : List Command) (console : LineBuffer) :
    ∀ s : Station buckets records,
      performAll { s with console } commands = { s.performAll commands with console } := by
  induction commands with
  | nil => exact fun s => rfl
  | cons command commands ih =>
    intro s
    rw [performAll, List.foldl_cons, perform_console]
    exact ih (s.perform command).state

/-- Commands that are carried out set the switch, the signal threshold and the hold on the radio,
and nothing else. -/
theorem performAll_eq (commands : List Command) :
    ∀ s : Station buckets records,
      s.performAll commands =
        { s with
          running := (commands.filterMap Command.running?).getLast?.getD s.running
          node.scheduler.radioHeld := s.node.scheduler.radioHeld && !commands.contains .stop
          node.tracker.thresholds.minRssi :=
            (commands.filterMap Command.minRssi?).getLast?.getD
              s.node.tracker.thresholds.minRssi } := by
  induction commands with
  | nil =>
    intro s
    simp [performAll]
  | cons command commands ih =>
    intro s
    rw [performAll, List.foldl_cons]
    refine (ih (s.perform command).state).trans ?_
    cases command with
    | start => simp [perform, Command.running?, Command.minRssi?, List.getLast?_cons]
    | stop =>
      simp [perform, Command.running?, Command.minRssi?, List.getLast?_cons, Node.stop,
        Scheduler.releaseRadio]
    | status => simp [perform, Command.running?, Command.minRssi?]
    | setRssi minRssi =>
      simp [perform, Command.running?, Command.minRssi?, List.getLast?_cons, Node.setMinRssi,
        Tracker.setMinRssi]
    | setBuzzer enabled => simp [perform, Command.running?, Command.minRssi?]

/-! ### Lines that are obeyed -/

/-- The commands on some lines. -/
def commandsOn (lines : List (List UInt8)) : List Command :=
  lines.filterMap fun line => (Command.read line).1

theorem commandsOn_append (lines later : List (List UInt8)) :
    commandsOn (lines ++ later) = commandsOn lines ++ commandsOn later :=
  List.filterMap_append

/-- The reply to a line. -/
def replyTo (line : List UInt8) : Reply where
  command := (Command.read line).1
  buzzer := (Command.read line).1.bind Command.buzzer?

theorem performAll_append (s : Station buckets records) (commands later : List Command) :
    s.performAll (commands ++ later) = (s.performAll commands).performAll later :=
  List.foldl_append

theorem obey_eq (s : Station buckets records) (line : List UInt8) :
    (s.obey line).state = s.performAll (commandsOn [line]) ∧
      (s.obey line).answer = replyTo line := by
  rw [obey, commandsOn, replyTo, List.filterMap_cons]
  rcases Command.read line with ⟨command?, notices⟩
  cases command? with
  | none => exact ⟨rfl, rfl⟩
  | some command => exact ⟨rfl, congrArg _ (s.answer_perform command)⟩

/-- A byte completes a line, which is obeyed, or it does not. -/
theorem feed_eq (s : Station buckets records) (c : UInt8) :
    (s.feed c).state =
        { s.performAll (commandsOn (s.console.feed c).1.toList) with
          console := (s.console.feed c).2 } ∧
      (s.feed c).answer.toList = (s.console.feed c).1.toList.map replyTo := by
  rw [feed]
  rcases s.console.feed c with ⟨line?, console⟩
  cases line? with
  | none => exact ⟨rfl, rfl⟩
  | some line =>
    obtain ⟨hstate, hanswer⟩ := obey_eq { s with console } line
    refine ⟨hstate.trans (performAll_console _ _ s), ?_⟩
    exact congrArg (fun reply => [reply]) hanswer

/-- Some input makes the station carry out the commands on the lines that it completes. -/
theorem feedAll_eq (input : List UInt8) :
    ∀ s : Station buckets records,
      (s.feedAll input).state =
          { s.performAll (commandsOn (s.console.lines input)) with
            console := s.console.afterInput input } ∧
        (s.feedAll input).answer = (s.console.lines input).map replyTo := by
  induction input with
  | nil => exact fun s => ⟨rfl, rfl⟩
  | cons c input ih =>
    intro s
    obtain ⟨hfeed, hreply⟩ := s.feed_eq c
    obtain ⟨hstate, hanswer⟩ := ih (s.feed c).state
    have hconsole : (s.feed c).state.console = (s.console.feed c).2 := by rw [hfeed]
    rw [hconsole] at hstate hanswer
    rw [LineBuffer.lines, LineBuffer.afterInput]
    constructor
    · refine hstate.trans ?_
      rw [hfeed, performAll_console, commandsOn_append, performAll_append]
    · rw [List.map_append, ← hreply, ← hanswer]
      rfl

end Station

/-! ## The radio -/

namespace Scheduler

variable (s : Scheduler) {powerOn : Bool}

/-- The next active slot asks for the radio to be switched on if `powerOn`. -/
def PowersNext (powerOn : Bool) : Prop :=
  ∃ k, (∀ j < k, (s.after j).action.isActive = false) ∧
    ∃ frames keepRadioOn, (s.after k).action = .transmit frames powerOn keepRadioOn

/-- A radio that is not held is switched on in the next active slot. -/
theorem PowersNext.eq_true {s : Scheduler} (h : s.PowersNext powerOn)
    (released : s.radioHeld = false) : powerOn = true := by
  obtain ⟨k, hidle, frames, keepRadioOn, hk⟩ := h
  have hheld : (s.after k).radioHeld = false := by
    cases k with
    | zero => exact released
    | succ k =>
      have hbefore := hidle k (Nat.lt_succ_self k)
      rw [isActive_action] at hbefore
      rw [after_succ, radioHeld_step, hbefore, Bool.false_and]
  rw [action, hheld] at hk
  split at hk
  · exact (SlotAction.transmit.inj hk).2.1.symm
  · cases hk

/-- Whether there is a next active slot is a matter of the scheme. -/
theorem exists_powersNext_iff :
    (∃ powerOn, s.PowersNext powerOn) ↔
      ∃ k, (∀ j < k, s.scheme.isActive (s.slot + j) = false) ∧
        s.scheme.isActive (s.slot + k) = true := by
  constructor
  · rintro ⟨powerOn, k, hidle, frames, keepRadioOn, hk⟩
    refine ⟨k, fun j hj => ?_, ?_⟩
    · rw [← isActive_action_after]
      exact hidle j hj
    · rw [← isActive_action_after, hk]
      rfl
  · rintro ⟨k, hidle, hactive⟩
    rw [← isActive_action_after] at hactive
    cases hk : (s.after k).action with
    | idle =>
      rw [hk] at hactive
      cases hactive
    | transmit frames powerOn keepRadioOn =>
      refine ⟨powerOn, k, fun j hj => ?_, frames, keepRadioOn, hk⟩
      rw [isActive_action_after]
      exact hidle j hj

/-- The next active slot switches the radio on after it was released, and otherwise does as
before. -/
theorem powersNext_release_iff (released : Bool) :
    PowersNext { s with radioHeld := s.radioHeld && !released } powerOn ↔
      ∃ before, s.PowersNext before ∧ powerOn = (released || before) := by
  cases released with
  | false => simp
  | true =>
    have hnext := (exists_powersNext_iff { s with radioHeld := s.radioHeld && !true }).trans
      s.exists_powersNext_iff.symm
    constructor
    · intro h
      obtain ⟨before, hbefore⟩ := hnext.mp ⟨powerOn, h⟩
      exact ⟨before, hbefore, h.eq_true (Bool.and_false _)⟩
    · rintro ⟨before, hbefore, rfl⟩
      obtain ⟨powerOn, h⟩ := hnext.mpr ⟨before, hbefore⟩
      obtain rfl := h.eq_true (Bool.and_false _)
      exact h

end Scheduler

/-! ## The console as a whole -/

namespace Station

variable {buckets records : Nat}

/-- **What is typed decides what changes.**  Let any bytes be typed at a console on which nothing
has been typed before, with the node in any state.  The commands that are answered are those on the
terminated pieces that fit.  The last start or stop decides whether the schedule runs, the last new
threshold is in force, and each new setting of the buzzer is answered.  The next active slot
switches the radio on if there was a stop, and otherwise does as it would have done.  Nothing else
about the node changes. -/
theorem feedAll_controls (node : Node buckets records) (running : Bool) (input : List UInt8) :
    let outcome := feedAll { node, running } input
    let commands := typedCommands input
    outcome.answer.filterMap Reply.command = commands ∧
      outcome.state.running = (commands.filterMap Command.running?).getLast?.getD running ∧
      outcome.state.node.tracker.thresholds.minRssi =
        (commands.filterMap Command.minRssi?).getLast?.getD node.tracker.thresholds.minRssi ∧
      outcome.answer.filterMap Reply.buzzer = commands.filterMap Command.buzzer? ∧
      (∀ powerOn, outcome.state.node.scheduler.PowersNext powerOn ↔
        ∃ before, node.scheduler.PowersNext before ∧
          powerOn = (commands.contains .stop || before)) ∧
      ∃ radioHeld minRssi, outcome.state.node =
        { node with
          scheduler.radioHeld := radioHeld
          tracker.thresholds.minRssi := minRssi } := by
  intro outcome commands
  obtain ⟨hstate, hanswer⟩ := feedAll_eq input { node, running }
  have hcommands : commandsOn (LineBuffer.lines {} input) = commands :=
    congrArg commandsOn (LineBuffer.lines_empty input)
  rw [hcommands, performAll_eq] at hstate
  replace hanswer : outcome.answer = (LineBuffer.lines {} input).map replyTo := hanswer
  replace hstate : outcome.state = _ := hstate
  refine ⟨?_, ?_, ?_, ?_, ?_, ?_⟩
  · rw [hanswer, List.filterMap_map]
    exact hcommands
  · rw [hstate]
  · rw [hstate]
  · rw [hanswer, List.filterMap_map, ← hcommands, commandsOn, List.filterMap_filterMap]
    rfl
  · intro powerOn
    rw [hstate]
    exact node.scheduler.powersNext_release_iff _
  · exact ⟨_, _, congrArg Station.node hstate⟩

end Station

end PeerBeacon
