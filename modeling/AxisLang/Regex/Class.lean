import AxisLang.Text.Case
import AxisLang.Text.Class

/-! Tests on one character: single characters, ranges and named classes, with or without regard to
case. -/
namespace AxisLang

inductive ClassItem where
  | char (c : Char)
  | range (first last : Char)
  | space (negated : Bool)
  | digit (negated : Bool)
  | word (negated : Bool)
deriving DecidableEq, Repr, Inhabited

/-- A character class: the characters that some item covers, or with `negated` all others. With
`caseless` letters compare without case; with `ascii` the named classes and letter case know the
first 128 code points only. -/
structure CharClass where
  items : List ClassItem
  negated : Bool := false
  caseless : Bool := false
  ascii : Bool := false
deriving DecidableEq, Repr, Inhabited

namespace ClassItem

def covers (ascii : Bool) (c : Char) : ClassItem → Bool
  | .char d => c = d
  | .range first last => first ≤ c && c ≤ last
  | .space negated => (if ascii then isAsciiSpace c else isSpace c) != negated
  | .digit negated => (if ascii then c.isDigit else isDecimal c) != negated
  | .word negated => (if ascii then isAsciiWord c else isWord c) != negated

end ClassItem

namespace CharClass

/-- The characters that compare equal to `c` without case. -/
def caseVariants (ascii : Bool) (c : Char) : List Char :=
  if ascii then [c.toLower, c.toLower.toUpper] else unfolded (foldClass (foldChar c))

/-- The lower-case form under which the named classes see a character without case. -/
def lowered (ascii : Bool) (c : Char) : Char :=
  if ascii then c.toLower else foldChar c

def hit (k : CharClass) (c : Char) : Bool :=
  if k.caseless then
    k.items.any fun item =>
      match item with
      | .char _ | .range _ _ => (caseVariants k.ascii c).any fun d => item.covers k.ascii d
      | item => item.covers k.ascii (lowered k.ascii c)
  else k.items.any (ClassItem.covers k.ascii c)

def test (k : CharClass) (c : Char) : Bool :=
  k.hit c != k.negated

end CharClass

end AxisLang
