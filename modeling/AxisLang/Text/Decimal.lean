/-! Decimal numbers as doubles, numbers with 53 binary digits: the double nearest to a decimal, and the
shortest decimal that a double is the nearest one to. -/
namespace AxisLang

structure Decimal where
  digits : Nat
  places : Nat
deriving DecidableEq, Repr, Inhabited

namespace Decimal

/-- The whole number nearest to a fraction; of two the even one. -/
def nearest (num den : Nat) : Nat :=
  let rest := 2 * (num % den)
  if rest < den || (rest == den && num / den % 2 == 0) then num / den else num / den + 1

def multiple (base : Nat) (e : Int) (d : Decimal) : Nat :=
  match e with
  | .ofNat k => nearest d.digits (Nat.pow 10 d.places * Nat.pow base k)
  | .negSucc k => nearest (d.digits * Nat.pow base (k + 1)) (Nat.pow 10 d.places)

/-- The exponent of the last binary digit that a double near the number has. -/
def lastBit (d : Decimal) : Int :=
  let e := (d.digits.log2 : Int) - (Nat.pow 10 d.places).log2 - 52
  let e := if d.multiple 2 (e - 1) < Nat.pow 2 53 then e - 1 else e
  max e (-1074)

def ofBinary (m : Nat) (e : Int) : Decimal :=
  match e with
  | .ofNat k => ⟨m * Nat.pow 2 k, 0⟩
  | .negSucc k =>
    -- no more places than there are binary ones
    let common := (Nat.gcd m (Nat.pow 2 (k + 1))).log2
    ⟨m / Nat.pow 2 common * Nat.pow 5 (k + 1 - common), k + 1 - common⟩

def toDouble (d : Decimal) : Decimal :=
  ofBinary (d.multiple 2 d.lastBit) d.lastBit

def leading (n : Nat) (d : Decimal) : Nat × Int :=
  let e := ((Nat.toDigits 10 d.digits).length : Int) - d.places - n
  (d.multiple 10 e, e)

def ofScientific (m : Nat) (e : Int) : Decimal :=
  match e with
  | .ofNat k => ⟨m * Nat.pow 10 k, 0⟩
  | .negSucc k => ⟨m, k + 1⟩

/-- The shortest digits that tell a double from all others, and the exponent of the last of them; seventeen
digits always do. -/
def shortest (d : Decimal) : Nat × Int :=
  let short := ((List.range 17).map fun n => d.leading (n + 1)).find? fun p =>
    (ofScientific p.1 p.2).toDouble == d.toDouble
  short.getD (d.leading 17)

def written (d : Decimal) : String :=
  if d.digits = 0 then "0.0"
  else
    let (m, e) := d.shortest
    let all := Nat.toDigits 10 m
    let point : Int := all.length + e
    let digits := (all.reverse.dropWhile (· = '0')).reverse
    if point ≤ -4 || 16 < point then
      let part := if digits.length = 1 then [] else '.' :: digits.drop 1
      let power := (point - 1).natAbs
      String.ofList (digits.take 1 ++ part) ++ (if point < 1 then "e-" else "e+")
        ++ (if power < 10 then "0" else "") ++ toString power
    else if point ≤ 0 then
      String.ofList ("0.".toList ++ List.replicate point.natAbs '0' ++ digits)
    else
      let whole := digits.take point.toNat ++ List.replicate (point.toNat - digits.length) '0'
      let part := digits.drop point.toNat
      String.ofList (whole ++ '.' :: (if part.isEmpty then ['0'] else part))

end Decimal

end AxisLang
