import AxisLang.Grammar.Table
import AxisLang.Lexer.Basic

/-! The table-driven machine. It keeps a stack of states and a stack of values. A token is shifted
onto the stacks, after all the reductions that it calls for. -/
namespace AxisLang

/-- The stacks of the machine, the top first. There is one state more than there are values. -/
structure Stack (α : Type) where
  states : List Nat
  values : List α
deriving Repr, Inhabited

structure Semantics (α : Type) where
  onToken : Token → Except Error α
  onRule : Rule → List α → Except Error α

inductive Fed (α : Type) where
  | shifted (stack : Stack α)
  | accepted (value : α) (stack : Stack α)
  | failed (e : Error) (stack : Stack α)
deriving Repr

/-- One step: the token is dealt with, or a reduction was made and the token is still to come. -/
inductive Move (α : Type) where
  | done (result : Fed α)
  | again (stack : Stack α)
deriving Repr

namespace Stack

def place? {α : Type} (s : Stack α) : Option ParserPlace :=
  s.states.head?.map fun state => ⟨s.states.length, state⟩

def place {α : Type} (s : Stack α) : ParserPlace :=
  ⟨s.states.length, s.states.headD 0⟩

def push {α : Type} (s : Stack α) (state : Nat) (v : α) : Stack α :=
  ⟨state :: s.states, v :: s.values⟩

def pop {α : Type} (s : Stack α) (n : Nat) : Stack α :=
  ⟨s.states.drop n, s.values.drop n⟩

def top {α : Type} (s : Stack α) (n : Nat) : List α :=
  (s.values.take n).reverse

end Stack

namespace Machine

variable {α : Type}

def refused (t : Token) (row : Row) (s : Stack α) : Error :=
  .unexpectedToken {
    offender := .token t
    expected := sortedNames ((row.map (·.1)).filter isCapital)
    place := s.place? }

def goto (table : Table) (r : Rule) (s : Stack α) : Except Error Nat :=
  match s.states with
  | [] => .error (.fault .index "")
  | state :: _ =>
    match table.row? state with
    | none => .error (.fault .key "")
    | some row =>
      match row.lookup r.origin.name with
      | none => .error (.fault .key "")
      | some (.reduce _) => .error (.fault .assertion "")
      | some (.shift n) => .ok n

def step (table : Table) (sem : Semantics α) (final : Nat) (isEnd : Bool) (t : Token)
    (s : Stack α) : Move α :=
  match s.states with
  | [] => .done (.failed (.fault .index "") s)
  | state :: _ =>
    match table.row? state with
    | none => .done (.failed (.fault .key "") s)
    | some row =>
      match row.lookup t.kind with
      | none => .done (.failed (refused t row s) s)
      | some (.shift n) =>
        if n = final || isEnd then .done (.failed (.fault .assertion "") s)
        else
          match sem.onToken t with
          | .error e => .done (.failed e ⟨n :: s.states, s.values⟩)
          | .ok v => .done (.shifted (s.push n v))
      | some (.reduce r) =>
        let below := s.pop r.expansion.length
        match sem.onRule r (s.top r.expansion.length) with
        | .error e => .done (.failed e below)
        | .ok v =>
          match goto table r below with
          | .error e => .done (.failed e below)
          | .ok n =>
            if isEnd && n = final then .done (.accepted v (below.push n v))
            else .again (below.push n v)

/-- Steps until the token is dealt with; `fuel` bounds the reductions. -/
def feedWith (table : Table) (sem : Semantics α) (final : Nat) (isEnd : Bool) (t : Token) :
    Nat → Stack α → Fed α
  | 0, s => .failed (.fault .endless "") s
  | fuel + 1, s =>
    match step table sem final isEnd t s with
    | .done r => r
    | .again s => feedWith table sem final isEnd t fuel s

/-- A bound on the reductions before a token is shifted: each level of the stack sees every state at
most once. -/
def feedBound (table : Table) (s : Stack α) : Nat :=
  (s.states.length + table.rows.length + 1) * (table.rows.length + 1)

def feed (table : Table) (sem : Semantics α) (final : Nat) (isEnd : Bool) (t : Token)
    (s : Stack α) : Fed α :=
  feedWith table sem final isEnd t (feedBound table s) s

end Machine

end AxisLang
