import AxisLang.Regex.Basic

/-! Reading regular expressions from text. A text is a choice of sequences; an item of a sequence is
a character, an escape, a class in brackets, a dot or a group, and may be followed by a repetition
mark. Groups may set flags for their inside. -/
namespace AxisLang

inductive RegexFault where
  | unbalanced
  | nothingToRepeat
  | multipleRepeat
  | badRepeat
  | badEscape
  | badRange
  | badFlags
  | unterminated
  | unsupported
  | tooDeep
deriving DecidableEq, Repr

structure RegexFlags where
  caseless : Bool := false
  multiline : Bool := false
  dotAll : Bool := false
  verbose : Bool := false
  ascii : Bool := false
deriving DecidableEq, Repr, Inhabited

namespace RegexFlags

def set (f : RegexFlags) (on : Bool) : Char → Option RegexFlags
  | 'i' => some { f with caseless := on }
  | 'm' => some { f with multiline := on }
  | 's' => some { f with dotAll := on }
  | 'x' => some { f with verbose := on }
  | 'a' => if on then some { f with ascii := true } else none
  | 'u' => if on then some { f with ascii := false } else none
  | _ => none

def ofBits (n : Nat) : RegexFlags where
  caseless := n.testBit 1
  multiline := n.testBit 3
  dotAll := n.testBit 4
  verbose := n.testBit 6
  ascii := n.testBit 8

end RegexFlags

namespace Regex

def hexValue? (c : Char) : Option Nat :=
  if c.isDigit then some (c.toNat - 48)
  else if 'a' ≤ c && c ≤ 'f' then some (c.toNat - 87)
  else if 'A' ≤ c && c ≤ 'F' then some (c.toNat - 55)
  else none

def isOctal (c : Char) : Bool :=
  '0' ≤ c && c ≤ '7'

/-- A character written with exactly `count` hexadecimal digits. No text holds a surrogate, so none can be
written. -/
def readHex (count : Nat) (s : List Char) : Except RegexFault (Char × List Char) :=
  match (s.take count).mapM hexValue? with
  | some ds =>
    let n := ds.foldl (fun a d => 16 * a + d) 0
    if ds.length ≠ count ∨ 0x110000 ≤ n then .error .badEscape
    else if n.isValidChar then .ok (Char.ofNat n, s.drop count)
    else .error .unsupported
  | none => .error .badEscape

def readOctal (count : Nat) (s : List Char) : Except RegexFault (Char × List Char) :=
  let ds := (s.take count).takeWhile isOctal
  let n := ds.foldl (fun a d => 8 * a + (d.toNat - 48)) 0
  if n ≤ 255 then .ok (Char.ofNat n, s.drop ds.length) else .error .badEscape

/-- An escape that stands for one character, alike inside and outside of brackets; `s` follows the
backslash. -/
def readCharEscape (s : List Char) : Except RegexFault (Char × List Char) :=
  match s with
  | [] => .error .badEscape
  | 'a' :: s => .ok (Char.ofNat 7, s)
  | 'f' :: s => .ok (Char.ofNat 12, s)
  | 'n' :: s => .ok ('\n', s)
  | 'r' :: s => .ok ('\r', s)
  | 't' :: s => .ok ('\t', s)
  | 'v' :: s => .ok (Char.ofNat 11, s)
  | 'x' :: s => readHex 2 s
  | 'u' :: s => readHex 4 s
  | 'U' :: s => readHex 8 s
  | c :: s => if c.isAlphanum then .error .badEscape else .ok (c, s)

def readClassEscape : List Char → Option (ClassItem × List Char)
  | 'd' :: s => some (.digit false, s)
  | 'D' :: s => some (.digit true, s)
  | 's' :: s => some (.space false, s)
  | 'S' :: s => some (.space true, s)
  | 'w' :: s => some (.word false, s)
  | 'W' :: s => some (.word true, s)
  | _ => none

def readBracketItem (s : List Char) : Except RegexFault (ClassItem × List Char) :=
  match s with
  | [] => .error .unterminated
  | '\\' :: s =>
    match readClassEscape s with
    | some r => .ok r
    | none =>
      match s with
      | 'b' :: s => .ok (.char (Char.ofNat 8), s)
      | c :: _ =>
        if isOctal c then do
          let (d, s) ← readOctal 3 s
          return (.char d, s)
        else do
          let (d, s) ← readCharEscape s
          return (.char d, s)
      | [] => .error .badEscape
  | c :: s => .ok (.char c, s)

/-- The items of a bracket class up to its closing bracket; `first` is set before the first item,
where a closing bracket stands for itself. -/
def readBracket : Nat → Bool → List Char → Except RegexFault (List ClassItem × List Char)
  | 0, _, _ => .error .tooDeep
  | fuel + 1, first, s => do
    if !first && s.head? = some ']' then return ([], s.drop 1)
    let (item, rest) ← readBracketItem s
    match rest with
    | '-' :: ']' :: rest => return ([item, .char '-'], rest)
    | '-' :: rest =>
      if rest.isEmpty then throw .unterminated
      let (last, rest) ← readBracketItem rest
      match item, last with
      | .char lo, .char hi =>
        if hi < lo then throw .badRange
        let (items, rest) ← readBracket fuel false rest
        return (.range lo hi :: items, rest)
      | _, _ => throw .badRange
    | rest =>
      let (items, rest) ← readBracket fuel false rest
      return (item :: items, rest)

def readCharClass (f : RegexFlags) (s : List Char) : Except RegexFault (Regex × List Char) := do
  let negated := s.head? = some '^'
  let s := if negated then s.drop 1 else s
  let (items, rest) ← readBracket (s.length + 1) true s
  return (.one ⟨items, negated, f.caseless, f.ascii⟩, rest)

def readNumber (s : List Char) : Option Nat × List Char :=
  let ds := s.takeWhile Char.isDigit
  (if ds.isEmpty then none else some (ds.foldl (fun a d => 10 * a + (d.toNat - 48)) 0),
    s.drop ds.length)

/-- A repetition mark at the front of a text: its bounds and what follows it. A brace that opens no
bounds is no mark. -/
def readBounds (s : List Char) : Option ((Nat × Option Nat) × List Char) :=
  match s with
  | '?' :: s => some ((0, some 1), s)
  | '*' :: s => some ((0, none), s)
  | '+' :: s => some ((1, none), s)
  | '\x7b' :: s =>
    if s.head? = some '\x7d' then none
    else
      let (low, s) := readNumber s
      match s with
      | ',' :: s =>
        let (high, s) := readNumber s
        match s with
        | '\x7d' :: s => some ((low.getD 0, high), s)
        | _ => none
      | '\x7d' :: s => low.map fun n => ((n, some n), s)
      | _ => none
  | _ => none

def readFlags (on : Bool) (f : RegexFlags) : List Char → Except RegexFault (RegexFlags × List Char)
  | [] => .error .badFlags
  | ':' :: s => .ok (f, s)
  | '-' :: s => if on && s.head? ≠ some ':' then readFlags false f s else .error .badFlags
  | c :: s =>
    match f.set on c with
    | some f => readFlags on f s
    | none => .error .badFlags

/-- What a group's opening says, after the parenthesis: the flags for its inside and the rest. Groups in an
expression have no names: in a scanner each name is that of a terminal. -/
def readOpening (f : RegexFlags) (s : List Char) : Except RegexFault (RegexFlags × List Char) :=
  match s with
  | '?' :: ':' :: s => .ok (f, s)
  | '?' :: c :: s =>
    if c = '=' || c = '!' || c = '<' || c = '>' || c = '(' || c = '#' || c = 'P' then
      .error .unsupported
    else readFlags true f (c :: s)
  | '?' :: [] => .error .unterminated
  | s => .ok (f, s)

def anyChar (f : RegexFlags) : Regex :=
  .one ⟨if f.dotAll then [] else [.char '\n'], true, false, false⟩

def literal (f : RegexFlags) (c : Char) : Regex :=
  .one ⟨[.char c], false, f.caseless, f.ascii⟩

def readEscape (f : RegexFlags) (s : List Char) : Except RegexFault (Regex × List Char) :=
  match readClassEscape s with
  | some (item, s) => .ok (.one ⟨[item], false, f.caseless, f.ascii⟩, s)
  | none =>
    match s with
    | '0' :: s => do
      let (c, s) ← readOctal 2 s
      return (literal f c, s)
    | a :: b :: c :: rest =>
      if isOctal a && isOctal b && isOctal c then do
        let (d, s) ← readOctal 3 (a :: b :: c :: rest)
        return (literal f d, s)
      else do
        let (d, s) ← readCharEscape s
        return (literal f d, s)
    | s => do
      let (d, s) ← readCharEscape s
      return (literal f d, s)

structure Piece where
  regex : Regex
  repeated : Bool := false

def joinPieces (ps : List Piece) : Regex :=
  concat (ps.reverse.map (·.regex))

mutual

def readChoice : Nat → RegexFlags → List Char → Except RegexFault (Regex × List Char)
  | 0, _, _ => .error .tooDeep
  | fuel + 1, f, s => do
    let (a, rest) ← readSequence fuel f [] s
    match rest with
    | '|' :: rest =>
      let (b, rest) ← readChoice fuel f rest
      return (.alt a b, rest)
    | rest => return (a, rest)

/-- The pieces of a sequence; `done` holds those already read, last first. -/
def readSequence :
    Nat → RegexFlags → List Piece → List Char → Except RegexFault (Regex × List Char)
  | 0, _, _, _ => .error .tooDeep
  | fuel + 1, f, done, s =>
    match s with
    | [] => .ok (joinPieces done, [])
    | '|' :: s => .ok (joinPieces done, '|' :: s)
    | ')' :: s => .ok (joinPieces done, ')' :: s)
    | c :: rest =>
      if f.verbose && isAsciiSpace c then readSequence fuel f done rest
      else if f.verbose && c = '#' then
        readSequence fuel f done ((rest.dropWhile (· ≠ '\n')).drop 1)
      else
        match readBounds s with
        | some ((least, most), rest) =>
          match done with
          | [] => .error .nothingToRepeat
          | p :: done =>
            if p.repeated then .error .multipleRepeat
            else if most.any (· < least) then .error .badRepeat
            else
              let lazy := rest.head? = some '?'
              let rest := if lazy then rest.drop 1 else rest
              readSequence fuel f (⟨.rep p.regex least most !lazy, true⟩ :: done) rest
        | none =>
          match c with
          | '\\' => do
            let (r, rest) ← readEscape f rest
            readSequence fuel f (⟨r, false⟩ :: done) rest
          | '[' => do
            let (r, rest) ← readCharClass f rest
            readSequence fuel f (⟨r, false⟩ :: done) rest
          | '.' => readSequence fuel f (⟨anyChar f, false⟩ :: done) rest
          | '(' => do
            let (inside, rest) ← readOpening f rest
            let (r, rest) ← readChoice fuel inside rest
            match rest with
            | ')' :: rest => readSequence fuel f (⟨r, false⟩ :: done) rest
            | _ => .error .unterminated
          | c =>
            if c = '^' || c = '$' then .error .unsupported
            else readSequence fuel f (⟨literal f c, false⟩ :: done) rest

end

def read (f : RegexFlags) (s : List Char) : Except RegexFault Regex := do
  let (r, rest) ← readChoice (4 * s.length + 4) f s
  if rest.isEmpty then return r else throw .unbalanced

end Regex

end AxisLang
