import WordMachine.Machine.Journal

/-!
# Output and trace on one stream

When the trace goes where the output goes, its lines do not wait but the bytes of the output do.
They are **held** until their line is complete, until a flush, or until there is no more room for
them. `Machine.shared` is what such a stream gets in a run.

Holding bytes back loses none of them: `LineStream.contents_put`.
-/

namespace WordMachine

open Text

/-- A stream that gets bytes line by line. -/
structure LineStream where
  /-- The bytes that the stream has got. -/
  sent : Array UInt8 := #[]
  /-- The bytes held back. -/
  held : Array UInt8 := #[]

namespace LineStream

/-- How many bytes can be held back. -/
def room : Nat := 1024

/-- All bytes, sent or held. -/
def contents (stream : LineStream) : List UInt8 := stream.sent.toList ++ stream.held.toList

/-- Sends what is held. -/
def flush (stream : LineStream) : LineStream := ⟨stream.sent ++ stream.held, #[]⟩

/-- Holds a byte, and sends what can wait no longer. -/
def put (stream : LineStream) (b : UInt8) : LineStream :=
  if b = 10 then flush { stream with held := stream.held.push b }
  else if stream.held.size < room then { stream with held := stream.held.push b }
  else { stream.flush with held := #[b] }

@[simp] theorem contents_flush (stream : LineStream) : stream.flush.contents = stream.contents := by
  simp [flush, contents]

@[simp] theorem contents_put (stream : LineStream) (b : UInt8) :
    (stream.put b).contents = stream.contents ++ [b] := by
  simp only [put]
  split
  · rw [contents_flush]
    simp [contents]
  · split <;> simp [contents, flush]

/-- Takes what an event adds to the stream. -/
def take (stream : LineStream) : Event → LineStream
  | .wrote b => stream.put b
  | .flushed _ => stream.flush
  | .traced line => { stream with sent := stream.sent ++ (utf8 (line ++ "\n")).toArray }
  | .pressed key => ((Event.pressed key).shown.foldl put stream).flush
  | .requested | .received _ => stream

end LineStream

/-- The bytes on a stream that gets the output, the echo of the keys and the trace alike. -/
def Machine.shared (m : Machine) : List UInt8 := (m.journal.foldl LineStream.take {}).contents

end WordMachine
