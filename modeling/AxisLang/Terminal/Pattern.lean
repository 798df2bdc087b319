import AxisLang.Regex.Reader
import AxisLang.Text.Quoted

/-! Patterns of terminals: a fixed text or a regular expression, with flags. -/
namespace AxisLang

/-- What is known of the way a pattern was spelled in its grammar: nothing is on record, or the
record holds the spelling, if there was one. -/
inductive Spelling where
  | unrecorded
  | recorded (s : Option String)
deriving DecidableEq, Repr, Inhabited

inductive PatternKind where
  | literal
  | regex
deriving DecidableEq, Repr, Inhabited

structure Pattern where
  kind : PatternKind
  value : String
  flags : List String := []
  spelling : Spelling := .recorded none
  knownWidth : Option (Nat × Nat) := none
deriving DecidableEq, Repr, Inhabited

inductive WidthFault where
  | invalid
  | needsCategories
deriving DecidableEq, Repr

namespace Pattern

def isSpecial (c : Char) : Bool :=
  "()[]\x7b\x7d?*+-|^$\\.&~# \t\n\r".toList.contains c || c.toNat = 11 || c.toNat = 12

def escaped (s : String) : String :=
  String.ofList (s.toList.flatMap fun c => if isSpecial c then ['\\', c] else [c])

/-- An expression inside one group for each flag. -/
def withFlags (flags : List String) (s : String) : String :=
  flags.foldl (fun s f => "(?" ++ f ++ ":" ++ s ++ ")") s

def regexText (p : Pattern) : String :=
  withFlags p.flags (match p.kind with
    | .literal => escaped p.value
    | .regex => p.value)

def written (p : Pattern) : String :=
  quote p.regexText

def sameFlags (a b : List String) : Bool :=
  a.all b.contains && b.all a.contains

def same (a b : Pattern) : Bool :=
  a.kind == b.kind && a.value == b.value && sameFlags a.flags b.flags

def compile (f : RegexFlags) (p : Pattern) : Except RegexFault Regex :=
  Regex.read f p.regexText.toList

/-- Whether a text mentions a character category by name, as in `\p` with a name in braces. -/
def namesCategory : List Char → Bool
  | [] => false
  | c :: cs =>
    (match c, cs with
      | '\\', 'p' :: '\x7b' :: rest =>
        let name := rest.takeWhile fun d => d.isAlpha || d = '_'
        !name.isEmpty && (rest.drop name.length).head? = some '\x7d'
      | _, _ => false) || namesCategory cs

def width (p : Pattern) : Except WidthFault (Nat × Nat) :=
  match p.kind with
  | .literal => .ok (p.value.length, p.value.length)
  | .regex =>
    match p.knownWidth with
    | some w => .ok w
    | none =>
      if namesCategory p.regexText.toList then .error .needsCategories
      else
        match p.compile {} with
        | .ok r => .ok r.width
        | .error _ => .error .invalid

def isLatin (p : Pattern) : Bool :=
  p.regexText.toList.all fun c => c.toNat < 256

/-- Whether an expression has a meaning for texts only, not for bytes: it writes a character by its number
among all characters, or turns on the classes of all characters. -/
def needsText : List Char → Bool
  | '\\' :: c :: cs => c = 'u' || c = 'U' || needsText cs
  | '(' :: '?' :: cs => (cs.takeWhile Char.isAlpha).contains 'u' || needsText cs
  | _ :: cs => needsText cs
  | [] => false

def occursIn (part : List Char) : List Char → Bool
  | [] => part.isEmpty
  | c :: cs => part.isPrefixOf (c :: cs) || occursIn part cs

/-- Whether a match may hold a line feed, judged by the text of the expression: it mentions one, or
white space, or a negated class, or lets the dot match everything. -/
def mayHoldNewline (p : Pattern) : Bool :=
  let s := p.regexText.toList
  occursIn ['\n'] s || occursIn ['\\', 'n'] s || occursIn ['\\', 's'] s || occursIn ['[', '^'] s
    || (occursIn ['(', '?', 's'] s && occursIn ['.'] s)

end Pattern

end AxisLang
