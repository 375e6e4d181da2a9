import Mathlib.Data.List.Forall2
import PeerBeacon.Console.Request
import PeerBeacon.Proofs.Json.Reading

/-!
# How a request may be worded

A request is an object with up to three members that matter.  Whoever writes it is free in all else:
the order of the members, the white space between the tokens, and what further members there are,
with values of any kind and depth.  None of this makes a difference.  The command is a function of
the three values (`Command.asked`), which are found among the members by their names as they are
written.

An object that has one of the three members twice asks for nothing, even if the values agree.

The main statement is `Command.read_document`.
-/

namespace PeerBeacon

open Json

/-! ## The members that matter -/

/-- An argument, if there is one: the member is missing, or it is `null`, or it is given. -/
inductive Json.Argument {α : Type} (Writes : Tree → α → Prop) : List Tree → Option α → Prop where
  | missing : Argument Writes [] none
  | null : Argument Writes [.null] none
  | given {v : Tree} {a : α} (h : Writes v a) : Argument Writes [v] (some a)

/-- The integer `n`, of any number of digits, without fraction and exponent. -/
def Json.Tree.IsInteger (v : Tree) (n : Int) : Prop :=
  ∃ negative whole, v = .number { negative, whole } ∧ n = signed negative whole

/-- The truth value `b`. -/
def Json.Tree.IsFlag (v : Tree) (b : Bool) : Prop :=
  v = .flag b

/-- What an object asks for: its only member `cmd` is a string of at most 16 bytes, and each of the
arguments is there at most once and has the right form.  Nothing is said of the other members. -/
structure Json.Document.Asks (d : Document) (name : String) (minRssi : Option Int)
    (enabled : Option Bool) : Prop where
  cmd : ∃ t : Text, d.members.named "cmd" = [.text t] ∧ String.ofList t.raw = name
  short : name.utf8ByteSize ≤ 16
  minRssi : Argument Tree.IsInteger (d.members.named "min_rssi") minRssi
  enabled : Argument Tree.IsFlag (d.members.named "enabled") enabled

namespace Command

/-- The command of a given name with given arguments.  A threshold beyond 16 bits spoils any
command, and an argument that is not needed is ignored. -/
def asked (name : String) (minRssi : Option Int) (enabled : Option Bool) : Option Command :=
  if ∀ n ∈ minRssi, -32768 ≤ n ∧ n ≤ 32767 then
    if name = "start" then some .start
    else if name = "stop" then some .stop
    else if name = "status" then some .status
    else if name = "set_rssi" then minRssi.map fun n => .setRssi (Int16.ofInt n)
    else if name = "set_buzzer" then enabled.map .setBuzzer
    else none
  else none

end Command

namespace Request

/-- The values that are found under a name are those that the members of that name keep. -/
theorem valuesOf_kept (name : String) : (ms : Members) →
    List.Forall₂ (fun value v => ∃ after, value = Tree.kept after v)
      (valuesOf name ms.kept) (ms.named name)
  | .nil => .nil
  | .cons _ name' _ _ v after others => by
    have ih := valuesOf_kept name others
    rw [Members.kept, Members.named, valuesOf, List.filterMap_cons]
    dsimp only
    split_ifs
    · exact .cons ⟨after, rfl⟩ ih
    · exact ih

theorem length_valuesOf_kept (name : String) (ms : Members) :
    (valuesOf name ms.kept).length = (ms.named name).length :=
  (valuesOf_kept name ms).length_eq

theorem valuesOf_kept_singleton {name : String} {ms : Members} {v : Tree}
    (h : ms.named name = [v]) : ∃ after, valuesOf name ms.kept = [v.kept after] := by
  have hvalues := valuesOf_kept name ms
  rw [h] at hvalues
  obtain ⟨_, _, ⟨after, rfl⟩, hnil, heq⟩ := List.forall₂_cons_right_iff.mp hvalues
  rw [List.forall₂_nil_right_iff.mp hnil] at heq
  exact ⟨after, heq⟩

theorem name?_kept {ms : Members} {t : Text} (h : ms.named "cmd" = [.text t])
    (hshort : (String.ofList t.raw).utf8ByteSize ≤ 16) :
    name? ms.kept = some (String.ofList t.raw) := by
  obtain ⟨after, hvalues⟩ := valuesOf_kept_singleton h
  rw [name?, hvalues, Tree.kept]
  exact if_pos hshort

/-- An argument comes to what its value is read as. -/
theorem argument?_kept {α β : Type} {Writes : Tree → α → Prop} {read : List UInt8 → Option β}
    (result : α → Option β)
    (hread : ∀ {v a}, Writes v a → ∀ after, optional? read (v.kept after) = (result a).map some)
    {name : String} {ms : Members} {a? : Option α} (h : Argument Writes (ms.named name) a?) :
    argument? read name ms.kept = a?.elim (some none) fun a => (result a).map some := by
  generalize hnamed : ms.named name = values at h
  cases h with
  | missing =>
    have hvalues : valuesOf name ms.kept = [] := by
      rw [← List.length_eq_zero_iff, length_valuesOf_kept, hnamed, List.length_nil]
    rw [argument?, hvalues]
    rfl
  | null =>
    obtain ⟨after, hvalues⟩ := valuesOf_kept_singleton hnamed
    rw [argument?, hvalues]
    exact optional?_kept_null read after
  | given hwrites =>
    obtain ⟨after, hvalues⟩ := valuesOf_kept_singleton hnamed
    rw [argument?, hvalues]
    exact hread hwrites after

/-- A threshold comes to nothing if 16 bits do not hold it. -/
theorem minRssi?_kept {ms : Members} {minRssi : Option Int}
    (h : Argument Tree.IsInteger (ms.named "min_rssi") minRssi) :
    argument? int16? "min_rssi" ms.kept =
      if ∀ n ∈ minRssi, -32768 ≤ n ∧ n ≤ 32767 then some (minRssi.map Int16.ofInt) else none := by
  rw [argument?_kept (fun n => if -32768 ≤ n ∧ n ≤ 32767 then some (Int16.ofInt n) else none)
    (fun hv after => ?_) h]
  · cases minRssi with
    | none => simp
    | some n => by_cases hn : -32768 ≤ n ∧ n ≤ 32767 <;> simp [hn]
  · obtain ⟨negative, whole, rfl, rfl⟩ := hv
    rw [optional?_int16?_kept]
    split <;> rfl

theorem enabled?_kept {ms : Members} {enabled : Option Bool}
    (h : Argument Tree.IsFlag (ms.named "enabled") enabled) :
    argument? bool? "enabled" ms.kept = some enabled := by
  rw [argument?_kept some (fun hv after => ?_) h]
  · cases enabled <;> rfl
  · rw [hv]
    exact optional?_bool?_kept _ after

theorem name?_of_repeated {members : List Member} (h : 2 ≤ (valuesOf "cmd" members).length) :
    name? members = none := by
  unfold name?
  split
  case _ hvalues =>
    rw [hvalues, List.length_singleton] at h
    omega
  case _ => rfl

theorem argument?_of_repeated {α : Type} (read : List UInt8 → Option α) {name : String}
    {members : List Member} (h : 2 ≤ (valuesOf name members).length) :
    argument? read name members = none := by
  unfold argument?
  split
  case _ hvalues =>
    rw [hvalues, List.length_nil] at h
    omega
  case _ hvalues =>
    rw [hvalues, List.length_singleton] at h
    omega
  case _ => rfl

theorem ofMembers?_eq (members : List Member) :
    ofMembers? members =
      (name? members).bind fun name =>
        (argument? int16? "min_rssi" members).bind fun minRssi =>
          (argument? bool? "enabled" members).map fun enabled => { name, minRssi, enabled } := by
  rw [ofMembers?]
  cases argument? bool? "enabled" members <;> rfl

/-- What is there twice is not accepted. -/
theorem ofMembers?_of_repeated {members : List Member} {name : String}
    (hname : name ∈ ["cmd", "min_rssi", "enabled"]) (h : 2 ≤ (valuesOf name members).length) :
    ofMembers? members = none := by
  rw [ofMembers?_eq]
  simp only [List.mem_cons, List.not_mem_nil, or_false] at hname
  rcases hname with rfl | rfl | rfl
  · rw [name?_of_repeated h, Option.bind_none]
  · rw [argument?_of_repeated int16? h]
    exact Option.bind_fun_none _
  · rw [argument?_of_repeated bool? h]
    simp

/-- What is asked for is decided by the three values. -/
theorem ofMembers?_kept {d : Document} {name : String} {minRssi : Option Int}
    {enabled : Option Bool} (h : d.Asks name minRssi enabled) :
    ofMembers? d.members.kept =
      if ∀ n ∈ minRssi, -32768 ≤ n ∧ n ≤ 32767 then
        some { name, minRssi := minRssi.map Int16.ofInt, enabled }
      else none := by
  obtain ⟨⟨t, hcmd, rfl⟩, hshort, hminRssi, henabled⟩ := h
  rw [ofMembers?_eq, name?_kept hcmd hshort, minRssi?_kept hminRssi, enabled?_kept henabled]
  split <;> rfl

end Request

namespace Command

theorem fst_read (line : List UInt8) :
    (read line).1 = (Request.ofLine? line).bind fun r => r.command.toOption := by
  rw [read, ofLine]
  cases Request.ofLine? line with
  | none => rfl
  | some r =>
    rw [Option.bind_some]
    dsimp only
    cases r.command <;> rfl

theorem fst_read_document (d : Document) :
    (read d.bytes).1 = (Request.ofMembers? d.members.kept).bind fun r => r.command.toOption := by
  rw [fst_read, Request.ofLine?, readDocument_bytes, Option.bind_some]

/-- The array `[{"]\"}": -1.5e+3}, null]`. -/
def oddNote : Tree :=
  .array []
    (.cons []
      (.object []
        (.cons []
          (Text.plain "]" (by decide) ++
            Piece.short '"' (by decide) :: Text.plain "\x7d" (by decide))
          [] [.space]
          (.number
            { negative := true
              whole := 1
              fraction := [5]
              exponent := some { upper := false, sign := some false, first := 3, more := [] } })
          [] .nil))
      [] (.cons [.space] .null [] .nil))

/-- The object `{"note": [{"]\"}": -1.5e+3}, null] ,"min_rssi":-70,"cmd" : "set_rssi"}`, with a line
end after it. -/
def scatteredRequest : Document where
  lead := []
  inner := []
  members :=
    .cons [] (Text.plain "note" (by decide)) [] [.space] oddNote [.space]
      (.cons [] (Text.plain "min_rssi" (by decide)) [] []
        (.number { negative := true, whole := 70 }) []
        (.cons [] (Text.plain "cmd" (by decide)) [.space] [.space]
          (.text (Text.plain "set_rssi" (by decide))) [] .nil))
  trail := [.carriageReturn, .lineFeed]

example : scatteredRequest.bytes = ascii (
    "\x7b\"note\": [\x7b\"]\\\"\x7d\": -1.5e+3\x7d, null] ," ++
    "\"min_rssi\":-70,\"cmd\" : \"set_rssi\"\x7d\r\n") := by
  decide +kernel

/-- The object `{"cmd":"start","enabled":null,"enabled":null}`. -/
def repeatedArgument : Document where
  lead := []
  inner := []
  members :=
    .cons [] (Text.plain "cmd" (by decide)) [] [] (.text (Text.plain "start" (by decide))) []
      (.cons [] (Text.plain "enabled" (by decide)) [] [] .null []
        (.cons [] (Text.plain "enabled" (by decide)) [] [] .null [] .nil))
  trail := []

end Command

end PeerBeacon
