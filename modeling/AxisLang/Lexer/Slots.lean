import AxisLang.Lexer.Basic

/-! Several readings side by side: each slot holds how far a text has been read, and slots can be
copied and compared. -/
namespace AxisLang

inductive SlotStep where
  | open (text : Text)
  | copy (slot : Nat)
  | next (slot : Nat)
  | compare (a b : Nat)
deriving DecidableEq, Repr, Inhabited

inductive SlotResult where
  | slot (n : Nat)
  | scan (s : Scan)
  | compared (state cursor : Bool)
  | missing
deriving Repr, Inhabited

namespace LexState

def sameLast : Option Token → Option Token → Bool
  | none, none => true
  | some a, some b => a.same b
  | _, _ => false

/-- Whether two states have read equally far in the same text, and found the same token last. -/
def same (a b : LexState) : Bool :=
  a.text == b.text && a.cursor.pos == b.cursor.pos && sameLast a.last b.last

end LexState

def SlotStep.run (lx : Lexer) (slots : List LexState) : SlotStep → SlotResult × List LexState
  | .open text => (.slot slots.length, slots ++ [{ text }])
  | .copy i =>
    match slots[i]? with
    | some st => (.slot slots.length, slots ++ [st])
    | none => (.missing, slots)
  | .next i =>
    match slots[i]? with
    | some st =>
      let (scan, st) := lx.next none st
      (.scan scan, slots.set i st)
    | none => (.missing, slots)
  | .compare i j =>
    match slots[i]?, slots[j]? with
    | some a, some b => (.compared (a.same b) (a.cursor.pos == b.cursor.pos), slots)
    | _, _ => (.missing, slots)

def runSlots (lx : Lexer) (slots : List LexState) : List SlotStep → List SlotResult × List LexState
  | [] => ([], slots)
  | s :: ss =>
    let (r, slots) := s.run lx slots
    let (rs, slots) := runSlots lx slots ss
    (r :: rs, slots)

end AxisLang
