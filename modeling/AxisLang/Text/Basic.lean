/-! Text that a lexer reads: characters, or bytes written as characters below 256. -/
namespace AxisLang

/-- A run of text. With `bytes` set, every character stands for the byte of that number. -/
structure Text where
  chars : List Char
  bytes : Bool := false
deriving DecidableEq, Repr, Inhabited

namespace Text

def ofString (s : String) : Text := ⟨s.toList, false⟩

def length (t : Text) : Nat := t.chars.length

def extract (t : Text) (start count : Nat) : Text :=
  { t with chars := (t.chars.drop start).take count }

theorem extract_chars (t : Text) (start count : Nat) :
    (t.extract start count).chars = (t.chars.drop start).take count := rfl

end Text

/-- Where a signed index points in a sequence of the given length: a negative one counts from the
end, and both ends are clamped. -/
def clipIndex (length : Nat) (i : Int) : Nat :=
  if i < 0 then (length + i).toNat else min i.toNat length

def clip {α : Type} (xs : List α) (start stop : Int) : List α :=
  let lo := clipIndex xs.length start
  let hi := clipIndex xs.length stop
  (xs.drop lo).take (hi - lo)

/-- The item at a signed index, a negative one counted from the end. -/
def itemAt? {α : Type} (xs : List α) (i : Int) : Option α :=
  if 0 ≤ i then xs[i.toNat]?
  else if 0 ≤ (xs.length : Int) + i then xs[(xs.length + i).toNat]?
  else none

end AxisLang
