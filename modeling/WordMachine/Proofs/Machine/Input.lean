import WordMachine.Machine
import WordMachine.Proofs.Terminal.Read

/-!
# Requests for input

A request takes the byte that it gives, and no other, off the unread bytes
(`Input.unread_request`). It does not matter where the input comes from: keys of a terminal that
stand for no character are not among the unread bytes, and a character that was read in part leaves
its other bytes pending.
-/

namespace WordMachine

open Text

namespace Input

/-- The byte that an answer gives. -/
def Answer.byte? : Answer → Option UInt8
  | byte b => some b
  | _ => none

/-- What a terminal answers to a request is the one byte of a read, if there is one. -/
private theorem byte?_request_terminal (t : Terminal) :
    (terminal t).request.answer.byte?.toList = (t.read 1).answer.given := by
  have hlength := t.length_given_read 1
  rw [request]
  cases h : (t.read 1).answer with
  | bytes given =>
    rw [h] at hlength
    match given with
    | [] => rfl
    | [b] => rfl
    | _ :: _ :: _ => simp [Terminal.Answer.given] at hlength
  | ended => rfl
  | interrupted => rfl
  | waiting => rfl

/-- A request takes off the unread bytes what it gives. -/
theorem unread_request (input : Input) :
    input.unread = input.request.answer.byte?.toList ++ input.request.rest.unread := by
  cases input with
  | stream s =>
    rw [request]
    dsimp only
    split
    · cases h : s.unread with
      | nil => simp [unread, Answer.byte?, h]
      | cons b rest => simp [unread, Answer.byte?, h]
    · rfl
  | terminal t =>
    rw [byte?_request_terminal]
    exact (t.unread_read 1).symm

end Input

end WordMachine
