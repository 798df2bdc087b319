import AxisLang.Text.Decimal
import AxisLang.Text.Quoted

/-! Plain data: what options, serialized grammars and cache keys are made of. -/
namespace AxisLang

/-- A plain datum. A decimal is `mantissa / 10 ^ places`, which every double is; the fields of a record keep
their order. -/
inductive Datum where
  | null
  | bool (b : Bool)
  | int (n : Int)
  | decimal (mantissa : Int) (places : Nat)
  | str (s : String)
  | list (items : List Datum)
  | record (fields : List (String × Datum))
deriving Repr, Inhabited, BEq

namespace Datum

/-- Whether a condition takes the datum for true: everything but null, false, zero and what is
empty. -/
def truthy : Datum → Bool
  | null => false
  | bool b => b
  | int n => n ≠ 0
  | decimal m _ => m ≠ 0
  | str s => s ≠ ""
  | list items => !items.isEmpty
  | record fields => !fields.isEmpty

/-- The number a datum stands for, as mantissa and decimal places; the truth values count as one and
zero. -/
def number? : Datum → Option (Int × Nat)
  | bool b => some (if b then 1 else 0, 0)
  | int n => some (n, 0)
  | decimal m p => some (m, p)
  | _ => none

def isKey : Datum → Bool
  | list _ => false
  | record _ => false
  | _ => true

/-- Equality of keys. Numbers are equal when their values are, whatever their form. -/
def sameKey (a b : Datum) : Bool :=
  match a.number?, b.number? with
  | some (m, p), some (n, q) => m * Int.pow 10 q == n * Int.pow 10 p
  | none, none =>
    match a, b with
    | null, null => true
    | str s, str t => s == t
    | _, _ => false
  | _, _ => false

def field? (d : Datum) (name : String) : Option Datum :=
  match d with
  | record fields => fields.lookup name
  | _ => none

def double (mantissa : Int) (places : Nat) : Datum :=
  let d := (Decimal.mk mantissa.natAbs places).toDouble
  decimal (if mantissa < 0 then -d.digits else d.digits) d.places

def decimalText (mantissa : Int) (places : Nat) : String :=
  (if mantissa < 0 then "-" else "") ++ (Decimal.mk mantissa.natAbs places).written

mutual

def written : Datum → String
  | null => "None"
  | bool true => "True"
  | bool false => "False"
  | int n => toString n
  | decimal m p => decimalText m p
  | str s => quote s
  | list items => bracketed (writtenItems items)
  | record fields => "\x7b" ++ ", ".intercalate (writtenFields fields) ++ "\x7d"

def writtenItems : List Datum → List String
  | [] => []
  | d :: ds => written d :: writtenItems ds

def writtenFields : List (String × Datum) → List String
  | [] => []
  | (k, d) :: ds => (quote k ++ ": " ++ written d) :: writtenFields ds

end

def plain : Datum → String
  | str s => s
  | d => d.written

/-- The items that a loop over the datum meets: those of a list, the characters of a text, the
names of a record. -/
def items : Datum → List Datum
  | list ds => ds
  | str s => s.toList.map fun c => str (String.singleton c)
  | record fields => fields.map fun f => str f.1
  | _ => []

end Datum

end AxisLang
