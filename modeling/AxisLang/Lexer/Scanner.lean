import AxisLang.Error

/-! Scanners: which terminal matches at the front of a text. A literal that a regular terminal of the
same priority matches as a whole is a keyword of that terminal: it is found by looking again at the
text the regular terminal matched. -/
namespace AxisLang

structure Matcher where
  kind : String
  regex : Regex
deriving DecidableEq, Repr, Inhabited

structure Scanner where
  matchers : List Matcher
  keywords : List (String × List Matcher)
  multiline : Bool := false
deriving DecidableEq, Repr, Inhabited

namespace Scanner

def firstMatch? : List Matcher → List Char → Option (String × Nat)
  | [], _ => none
  | m :: ms, s =>
    match m.regex.matchLength? s with
    | some n => some (m.kind, n)
    | none => firstMatch? ms s

def scan (sc : Scanner) (s : List Char) : Option (String × Nat) :=
  firstMatch? sc.matchers s

/-- Whether a text may end before `rest`: nothing is left, or only the line feed that ends it. -/
def endsBefore (multiline : Bool) (rest : List Char) : Bool :=
  rest.isEmpty || rest == ['\n'] || (multiline && rest.head? == some '\n')

def Matcher.wholly (multiline : Bool) (s : List Char) (m : Matcher) : Bool :=
  match m.regex.run s 0 fun rest n => if endsBefore multiline rest then some n else none with
  | some _ => true
  | none => false

def keyword? (sc : Scanner) (kind : String) (s : List Char) : Option String :=
  match sc.keywords.lookup kind with
  | some ms => (ms.find? (Matcher.wholly sc.multiline s)).map (·.kind)
  | none => none

def ready (f : RegexFlags) (t : Terminal) : Except Error Matcher :=
  match t.pattern.compile f with
  | .ok r => .ok ⟨t.name, r⟩
  | .error _ => .error (.fault .badPattern "")

/-- The literals among `literals` that are keywords of the regular terminal `t`. -/
def keywordsOf (f : RegexFlags) (literals : List Terminal) (t : Terminal) :
    Except Error (List Terminal) :=
  if literals.any (fun l => l.priority == t.priority) then do
    let m ← ready f t
    return literals.filter fun l =>
      l.priority == t.priority && m.regex.matchLength? l.pattern.value.toList
        == some l.pattern.value.length
  else .ok []

def flagsUpTo : List String → List String → Bool
  | [], _ => true
  | _ :: _, [] => false
  | a :: as, b :: bs => a < b || (a == b && flagsUpTo as bs)

/-- Whether a keyword of `t` needs no matcher of its own, because it has no flag that `t` lacks.
Flags of stored patterns are lists, and compare in the order of words. -/
def isCovered (l t : Terminal) : Bool :=
  if l.pattern.spelling == .unrecorded then flagsUpTo l.pattern.flags t.pattern.flags
  else l.pattern.flags.all t.pattern.flags.contains

def groupable (bytes : Bool) (ts : List Terminal) : Bool :=
  (ts.map (·.name)).Nodup && ts.all fun t =>
    isIdentifier t.name.toList && !(bytes && Pattern.needsText t.pattern.regexText.toList)

/-- The flags under which terminals are tried: on bytes, classes and letter case know ASCII only. -/
def ownFlags (f : RegexFlags) (bytes : Bool) : RegexFlags :=
  if bytes then { f with ascii := true } else f

/-- The terminals made ready to be tried one after the other, as groups of one expression under their names.
With `bytes` set, that expression is one on bytes. -/
def alternatives (f : RegexFlags) (bytes : Bool) (ts : List Terminal) : Except Error (List Matcher) :=
  if bytes && !ts.all Terminal.isLatin then .error (.fault .encoding "")
  else if !groupable bytes ts then .error (.fault .badPattern "")
  else ts.mapM (ready (ownFlags f bytes))

def build (f : RegexFlags) (bytes : Bool) (ts : List Terminal) : Except Error Scanner := do
  let regular := ts.filter fun t => t.pattern.kind == .regex
  let literals := ts.filter fun t => t.pattern.kind == .literal
  let families ← regular.mapM fun t => return (t, ← keywordsOf f literals t)
  let covered := families.flatMap fun (t, ls) => ls.filter fun l => isCovered l t
  let keywords ← (families.filter fun fam => !fam.2.isEmpty).mapM fun (t, ls) =>
    return (t.name, ← alternatives f bytes ls)
  let matchers ← alternatives f bytes (ts.filter fun t => !covered.contains t)
  return { matchers, keywords, multiline := f.multiline }

end Scanner

end AxisLang
