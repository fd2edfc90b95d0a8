import WordMachine.Text.Column
import WordMachine.Text.Utf8

/-!
# Status output

Status messages have a coloured word at the right end of a column and a text behind it. Trace text
is blue. When output is **minimal** there are no messages, and trace text is stripped of every
stretch from an escape character through the next `m`.
-/

namespace WordMachine

open Text

namespace Status

/-- The colours in use. -/
inductive Colour
  | red
  | green
  | blue
  | cyan
  deriving DecidableEq, Repr

/-- How status output looks. -/
structure Style where
  /-- Whether colours are written. -/
  coloured : Bool := false
  /-- Whether there is only the bare text of traces. -/
  minimal : Bool := false
  deriving DecidableEq, Repr

/-! ### Colour -/

/-- The sequence that selects a colour. -/
def Colour.sequence : Colour → List Char
  | red => ['\x1b', '[', '3', '1', 'm']
  | green => ['\x1b', '[', '3', '2', 'm']
  | blue => ['\x1b', '[', '3', '4', 'm']
  | cyan => ['\x1b', '[', '3', '6', 'm']

/-- The sequence that ends all colours. -/
def reset : List Char := ['\x1b', '[', '0', 'm']

/-- Selects a colour again wherever the text itself ends all colours, as the `colored` library does
in the texts that it shows. -/
def reselect (colour : Colour) : List Char → List Char
  | '\x1b' :: '[' :: '0' :: 'm' :: rest => reset ++ colour.sequence ++ reselect colour rest
  | c :: rest => c :: reselect colour rest
  | [] => []

/-- A text in a colour, in a column of at least the given width. This follows the `colored` library:
the width is that of the text between the sequences, and nothing is written but the column where
there are no colours. -/
def paint (coloured : Bool) (colour : Colour) (width : Nat) (text : String) : String :=
  if coloured then
    String.ofList colour.sequence ++
      alignRight width (String.ofList (reselect colour text.toList)) ++ String.ofList reset
  else alignRight width text

/-- Removes stretches from an escape character through the next `m`. `inside` tells whether such a
stretch has begun before the text. -/
def stripFrom (inside : Bool) : List Char → List Char
  | [] => []
  | c :: rest =>
    if inside then stripFrom (c != 'm') rest
    else if c = '\x1b' then stripFrom true rest
    else c :: stripFrom false rest

/-- The text without the stretches from an escape character through the next `m`. -/
def strip (text : List Char) : List Char := stripFrom false text

/-! ### Output -/

/-- The width of the column of the coloured word. -/
def messageWidth : Nat := 12

/-- A status message. -/
def message (style : Style) (colour : Colour) (word text : String) : String :=
  if style.minimal then ""
  else paint style.coloured colour messageWidth word ++ " " ++ text ++ "\n"

/-- A status message about a file. -/
def fileMessage (style : Style) (colour : Colour) (word path : String) : String :=
  message style colour word ("target " ++ path)

/-- The message that tracing was switched on or off. -/
def tracingMessage (style : Style) (tracing : Bool) : String :=
  message style .cyan "Tracing" (if tracing then "on" else "off")

/-- Trace text as it is shown. -/
def traceText (style : Style) (text : List Char) : String :=
  if style.minimal then String.ofList (strip text)
  else paint style.coloured .blue 0 (String.ofList text)

/-- Trace text from bytes, with U+FFFD for what is not UTF-8. -/
def traceBytes (style : Style) (bytes : List UInt8) : String := traceText style (lossyText bytes)

end Status

end WordMachine
