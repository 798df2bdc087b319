import AxisLang.Text.Basic
import AxisLang.Text.Columns
import AxisLang.Text.Quoted

/-! The excerpt shown with an error: the line around a place in a text, and below it a caret under
that place. -/
namespace AxisLang

def excerptSpan : Int := 40

def excerpt (text : Text) (place span : Int) : String :=
  let before := lastLine (clip text.chars (max (place - span) 0) place)
  let after := firstLine (clip text.chars place (place + span))
  let shown := before ++ after ++ '\n' :: List.replicate (expandedLength before) ' ' ++ ['^', '\n']
  String.ofList (if text.bytes then asciiOfBytes shown else shown)

/-- The character at a place, as an error shows it. Bytes show nothing past the end, text has no
answer there. -/
def offendingChar (text : Text) (place : Int) : Option String :=
  if text.bytes then
    some (String.ofList (asciiOfBytes (clip text.chars place (place + 1))))
  else (itemAt? text.chars place).map String.singleton

end AxisLang
