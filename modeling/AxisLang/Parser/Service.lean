import AxisLang.Datum
import AxisLang.Error

/-! Services around a parser that this library does not provide, and how a request for one ends. -/
namespace AxisLang

inductive Service where
  | save
  | openFile
  | openBundled
  | serializeTable
  | lexAlone
  | endReport
deriving DecidableEq, Repr, Inhabited

namespace Service

def refusal : Service → Error
  | .endReport => .fault .missingModule ""
  | _ => .fault .undefinedName ""

/-- How it ends to put a parser together from parts: the start rules come as a list and the method is
the one of the tables, and then there is nothing to put together. -/
def assembly (starts : Datum) (method : String) : Error :=
  match starts with
  | .list _ => if method = "lalr" then .fault .undefinedName "" else .fault .assertion ""
  | _ => .fault .assertion ""

end Service

end AxisLang
