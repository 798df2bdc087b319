import AxisLang.Parser.Basic

/-! Telling errors apart by examples: texts with known faults are parsed, and the one that fails in
the same way as a given text names its fault. -/
namespace AxisLang

/-- Labelled texts. A label may by mistake come with one text in place of a list. -/
inductive ExampleTexts where
  | many (texts : List String)
  | bare (text : String)
deriving Repr, Inhabited

structure Candidate where
  label : Datum := .null
  byKind : Bool := false
deriving Repr, Inhabited

def Error.place? : Error → Option ParserPlace
  | .unexpectedToken r => r.place
  | .unexpectedChars r => r.place
  | _ => none

def Error.token? : Error → Option Token
  | .unexpectedToken { offender := .token t, .. } => some t
  | _ => none

namespace Parser

/-- What one example contributes: a label that fits exactly, or a candidate. `fallback` lets examples
with the same kind of token count as better than others. -/
def weigh (e : Error) (fallback : Bool) (label : Datum) (c : Candidate) (found : Error) :
    Datum ⊕ Candidate :=
  if found.place? != e.place? then .inr c
  else
    match e.token?, found.token? with
    | some t, some u =>
      if u.same t then .inl label
      else
        let c := if fallback && u.kind == t.kind && !c.byKind then ⟨label, true⟩ else c
        .inr (match c.label with
          | .null => ⟨label, false⟩
          | _ => c)
    | _, _ =>
      .inr (match c.label with
        | .null => ⟨label, false⟩
        | _ => c)

def weighTexts (p : Parser) (e : Error) (fallback : Bool) (label : Datum) (c : Candidate) :
    List String → Except Error (Datum ⊕ Candidate)
  | [] => .ok (.inr c)
  | s :: ss =>
    match p.parse s with
    | .ok _ => p.weighTexts e fallback label c ss
    | .error found =>
      if isReport found then
        match weigh e fallback label c found with
        | .inl l => .ok (.inl l)
        | .inr c => p.weighTexts e fallback label c ss
      else .error found

def matchExamplesFrom (p : Parser) (e : Error) (fallback : Bool) (c : Candidate) :
    List (Datum × ExampleTexts) → Except Error Datum
  | [] => .ok c.label
  | (_, .bare _) :: _ => .error (.fault .assertion "")
  | (label, .many texts) :: more => do
    match ← p.weighTexts e fallback label c texts with
    | .inl l => return l
    | .inr c => p.matchExamplesFrom e fallback c more

def matchExamples (p : Parser) (e : Error) (fallback : Bool)
    (examples : List (Datum × ExampleTexts)) : Except Error Datum :=
  p.matchExamplesFrom e fallback {} examples

end Parser

end AxisLang
