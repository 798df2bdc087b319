import AxisLang.Datum

/-! Generated files: when one has to be made anew. -/
namespace AxisLang

namespace Package

inductive PathStatus where
  | missing
  | directory
  | file (time : Datum)
deriving Repr, Inhabited

def isBefore (a b : Datum) : Bool :=
  match a.number?, b.number? with
  | some (m, p), some (n, q) => m * Int.pow 10 q < n * Int.pow 10 p
  | _, _ => false

/-- Whether an artifact has to be made anew: it is no file, or older than what it is made from. There
is no answer if that does not exist. -/
def isOutdated? (artifact origin : PathStatus) : Option Bool :=
  match artifact, origin with
  | .file a, .file b => some (isBefore a b)
  | .file _, .directory => some true
  | .file _, .missing => none
  | _, _ => some true

end Package

end AxisLang
