import AxisLang.Expression.Grammar
import AxisLang.Parser.Examples

/-! Sample texts with faults, and what the library says about them. -/
namespace AxisLang.Workload

inductive ErrorNote where
  | text (message : Option String)
  | kind (e : Error)
  | label (d : Datum)
deriving Inhabited

def unclosed (i : Nat) : String := "A" ++ toString i ++ "[x, y"

def strayed (i : Nat) : String := "A" ++ toString i ++ "[x, #] -> "

def unclosedExamples : List (Datum × ExampleTexts) :=
  [(.str "missing_bracket", .many ["A[x, y"])]

def failure? (p : Parser) (s : String) : Option Error :=
  match p.parse s with
  | .ok _ => none
  | .error e => some e

def errorPos : Error → Int
  | .unexpectedToken r => r.offender.start.getD 0
  | .unexpectedChars r => r.pos
  | _ => 0

/-- Notes on a text that ends too early: its message, its excerpt with the usual width and with a
width of its own length, its label by example, and its label without examples. -/
def unclosedNotes (p : Parser) (i : Nat) : Except Error (List ErrorNote) := do
  let s := unclosed i
  match failure? p s with
  | none => return []
  | some e =>
    let text := Text.ofString s
    return [
      .text e.message?,
      .text (some (excerpt text (errorPos e) excerptSpan)),
      .text (some (excerpt text (errorPos e) s.length)),
      .label (← p.matchExamples e false unclosedExamples),
      .label (← p.matchExamples e false [])]

def strayedNotes (p : Parser) (i : Nat) : Except Error (List ErrorNote) := do
  match failure? p (strayed i) with
  | some (.unexpectedChars r) =>
    return [
      .text { r with terminals := [] }.message?,
      .label (← p.matchExamples (.unexpectedChars r) false [])]
  | _ => return []

def madeNotes (p : Parser) : List ErrorNote :=
  let seen : Token := { kind := "T", text := Text.ofString "t", line := some 1, column := some 1 }
  let chars : CharReport := {
    char := "#"
    line := 1
    column := 4
    pos := 3
    expected := ["KW"]
    history := some [some seen]
    context := excerpt (Text.ofString "abc#def") 3 excerptSpan }
  let token : TokenReport := {
    offender := .token seen
    expected := ["KW"]
    history := some [some seen] }
  [.text chars.message?, .text token.message?, .text (Error.configuration "cfg").message?,
    .text (p.table.starts.head?.map (·.1))]

def errorNotes (n : Nat) : Except Error (List ErrorNote) := do
  let p ← Expression.parser
  let early ← (List.range n).mapM (unclosedNotes p)
  let kinds := (List.range n).filterMap fun i => (failure? p (unclosed i)).map ErrorNote.kind
  let stray ← (List.range n).mapM (strayedNotes p)
  return early.flatten ++ kinds ++ stray.flatten ++ madeNotes p

end AxisLang.Workload
