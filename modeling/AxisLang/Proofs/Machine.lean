import AxisLang.Proofs.Derivation
import Mathlib.Tactic.Ring

/-! Safety and soundness of the table-driven machine, for every table that passes a finite check.
The states on the stack follow the shift edges of the table, and the values beside them stand for
derivations of the tokens read so far. The check looks, for each reduction, at all ways to walk back
from its state: the symbols passed are those of the rule, and the state uncovered has a goto for the
rule's origin. A weight for each state bounds the reductions before a token is shifted. -/
namespace AxisLang

def Table.action? (t : Table) (state : Nat) (symbol : String) : Option Action :=
  (t.row? state).bind fun row => row.lookup symbol

def Table.edges (t : Table) : List (Nat × String × Nat) :=
  t.rows.flatMap fun (p, row) => row.filterMap fun (X, a) =>
    match a with
    | .shift q => some (p, X, q)
    | .reduce _ => none

namespace Table

variable {t : Table} {p q : Nat} {X : String} {a : Action}

theorem entry_of_action (h : t.action? p X = some a) : ∃ row, (p, row) ∈ t.rows ∧ (X, a) ∈ row := by
  obtain ⟨row, found, entry⟩ := Option.bind_eq_some_iff.mp h
  obtain ⟨_, _, rows, _⟩ := List.lookup_eq_some_iff.mp found
  obtain ⟨_, _, entries, _⟩ := List.lookup_eq_some_iff.mp entry
  exact ⟨row, by simp [rows], by simp [entries]⟩

theorem edge_of_action (h : t.action? p X = some (.shift q)) : (p, X, q) ∈ t.edges := by
  obtain ⟨row, hrow, hentry⟩ := entry_of_action h
  refine List.mem_flatMap.mpr ⟨(p, row), hrow, ?_⟩
  exact List.mem_filterMap.mpr ⟨(X, .shift q), hentry, rfl⟩

/-- Whether every walk back from a state along the given symbols, the last one first, meets just
these symbols and ends in a state that passes the test. -/
def walksBack (edges : List (Nat × String × Nat)) (first : Nat) (test : Nat → Bool) :
    List String → Nat → Bool
  | [], q => test q
  | X :: Xs, q => q != first && edges.all fun e =>
      e.2.2 != q || (e.2.1 == X && walksBack edges first test Xs e.1)

structure Frame where
  rules : List Rule
  first : Nat
  final : Nat
  start : String
  weight : Nat → Nat

def Frame.symbols (f : Frame) : List String :=
  f.start :: f.rules.map fun r => r.origin.name

def level (t : Table) : Nat := t.rows.length + 1

/-- Whether a state can be uncovered by a reduction of the rule in state `q`: it has a goto for the
rule's origin, and the reduction lowers the weight of the stack. -/
def uncovers (t : Table) (f : Frame) (r : Rule) (q p : Nat) : Bool :=
  match t.action? p r.origin.name with
  | some (.shift n) =>
    decide (t.level + f.weight n < t.level * r.expansion.length + f.weight q)
  | _ => false

def isSafe (t : Table) (f : Frame) (edges : List (Nat × String × Nat)) (q : Nat) :
    String × Action → Bool
  | (X, .shift n) =>
    n != f.first && (t.row? n).isSome && X != Token.endKind &&
      (n != f.final || (X == f.start && q == f.first))
  | (_, .reduce r) =>
    f.rules.contains r &&
      walksBack edges f.first (t.uncovers f r q) (r.expansion.map Symbol.name).reverse q

def isSound (t : Table) (f : Frame) : Bool :=
  (t.row? f.first).isSome && t.rows.all fun (q, row) =>
    decide (f.weight q < t.level * t.level) && row.all (t.isSafe f t.edges q)

theorem isSafe_of_action {f : Frame} (sound : t.isSound f = true) (h : t.action? p X = some a) :
    t.isSafe f t.edges p (X, a) = true := by
  obtain ⟨row, hrow, hentry⟩ := entry_of_action h
  simp only [isSound, Bool.and_eq_true, List.all_eq_true] at sound
  exact (sound.2 _ hrow).2 _ hentry

theorem weight_lt {f : Frame} (sound : t.isSound f = true) (h : (t.row? p).isSome = true) :
    f.weight p < t.level * t.level := by
  obtain ⟨row, found⟩ := Option.isSome_iff_exists.mp h
  obtain ⟨_, _, rows, _⟩ := List.lookup_eq_some_iff.mp found
  simp only [isSound, Bool.and_eq_true, List.all_eq_true, decide_eq_true_eq] at sound
  exact (sound.2 (p, row) (by simp [rows])).1

theorem shift_safe {f : Frame} (sound : t.isSound f = true)
    (h : t.action? p X = some (.shift q)) :
    q ≠ f.first ∧ (t.row? q).isSome = true ∧ X ≠ Token.endKind ∧
      (q = f.final → X = f.start ∧ p = f.first) := by
  have safe := isSafe_of_action sound h
  simp only [isSafe, Bool.and_eq_true, bne_iff_ne, Bool.or_eq_true, beq_iff_eq] at safe
  obtain ⟨⟨⟨notFirst, row⟩, notEnd⟩, final⟩ := safe
  exact ⟨notFirst, row, notEnd, fun same => final.resolve_left (not_not.mpr same)⟩

theorem reduce_safe {f : Frame} {r : Rule} (sound : t.isSound f = true)
    (h : t.action? p X = some (.reduce r)) :
    r ∈ f.rules ∧ walksBack t.edges f.first (t.uncovers f r p)
      (r.expansion.map Symbol.name).reverse p = true := by
  have safe := isSafe_of_action sound h
  simpa only [isSafe, Bool.and_eq_true, List.contains_iff_mem] using safe

end Table

namespace Machine

variable {α : Type} {t : Table} {f : Table.Frame} {sem : Semantics α} {s s' : Stack α}
  {w : List Token}

/-- The stacks that stand for the tokens read so far: each state above the first follows an edge of
the table, and its value is that of a derivation from the symbol of the edge. -/
inductive Reached (t : Table) (f : Table.Frame) (sem : Semantics α) :
    Stack α → List Token → Prop
  | start : Reached t f sem ⟨[f.first], []⟩ []
  | push {s w p q X u v} (below : Reached t f sem s w) (top : s.states.head? = some p)
      (edge : t.action? p X = some (.shift q)) (value : Derives f.rules sem [X] u [v]) :
      Reached t f sem (s.push q v) (w ++ u)

theorem Reached.top (h : Reached t f sem s w) : ∃ q, s.states.head? = some q := by
  cases h with
  | start => exact ⟨_, rfl⟩
  | push => exact ⟨_, rfl⟩

theorem Reached.row (sound : t.isSound f = true) (h : Reached t f sem s w) {q : Nat}
    (top : s.states.head? = some q) : (t.row? q).isSome = true := by
  cases h with
  | start =>
    simp only [List.head?_cons, Option.some.injEq] at top
    simp only [Table.isSound, Bool.and_eq_true] at sound
    exact top ▸ sound.1
  | push _ _ edge _ =>
    simp only [Stack.push, List.head?_cons, Option.some.injEq] at top
    exact top ▸ (Table.shift_safe sound edge).2.1

theorem Reached.bottom (sound : t.isSound f = true) (h : Reached t f sem s w)
    (top : s.states.head? = some f.first) : s = ⟨[f.first], []⟩ ∧ w = [] := by
  cases h with
  | start => exact ⟨rfl, rfl⟩
  | push _ _ edge _ =>
    simp only [Stack.push, List.head?_cons, Option.some.injEq] at top
    exact absurd top (Table.shift_safe sound edge).1

theorem Reached.walk {test : Nat → Bool} {Ys : List String} {q : Nat} (h : Reached t f sem s w)
    (top : s.states.head? = some q) (walks : Table.walksBack t.edges f.first test Ys q = true) :
    ∃ w₀ u p, w = w₀ ++ u ∧ Reached t f sem (s.pop Ys.length) w₀ ∧
      Derives f.rules sem Ys.reverse u (s.top Ys.length) ∧
      (s.pop Ys.length).states.head? = some p ∧ test p = true := by
  induction Ys generalizing s w q with
  | nil => exact ⟨w, [], q, (List.append_nil w).symm, h, .nil, top, walks⟩
  | cons Y Ys ih =>
    simp only [Table.walksBack, Bool.and_eq_true, bne_iff_ne, List.all_eq_true, Bool.or_eq_true,
      beq_iff_eq] at walks
    cases h with
    | start => exact absurd (Option.some.inj top).symm walks.1
    | @push s w p q' X u v below low edge value =>
      obtain rfl : q' = q := Option.some.inj top
      obtain ⟨rfl, back⟩ := (walks.2 _ (Table.edge_of_action edge)).resolve_left (not_not.mpr rfl)
      obtain ⟨w₀, u₀, p₀, rfl, reached, derives, topmost, tested⟩ := ih below low back
      refine ⟨w₀, u₀ ++ u, p₀, List.append_assoc .., reached, ?_, topmost, tested⟩
      have values : (s.push q' v).top (Ys.length + 1) = s.top Ys.length ++ [v] := by
        simp [Stack.top, Stack.push]
      rw [List.length_cons, values, List.reverse_cons]
      exact derives.append value

theorem Reached.reduction {q : Nat} {X : String} {r : Rule} (sound : t.isSound f = true)
    (h : Reached t f sem s w) (top : s.states.head? = some q)
    (act : t.action? q X = some (.reduce r)) :
    r ∈ f.rules ∧ ∃ w₀ u p n, w = w₀ ++ u ∧ Reached t f sem (s.pop r.expansion.length) w₀ ∧
      Derives f.rules sem (r.expansion.map Symbol.name) u (s.top r.expansion.length) ∧
      (s.pop r.expansion.length).states.head? = some p ∧
      t.action? p r.origin.name = some (.shift n) ∧
      t.level + f.weight n < t.level * r.expansion.length + f.weight q := by
  obtain ⟨mem, walks⟩ := Table.reduce_safe sound act
  obtain ⟨w₀, u, p, rfl, reached, derives, uncovered, tested⟩ := h.walk top walks
  simp only [List.length_reverse, List.length_map, List.reverse_reverse] at *
  rw [Table.uncovers] at tested
  split at tested
  · rename_i n onto
    exact ⟨mem, w₀, u, p, n, rfl, reached, derives, uncovered, onto, of_decide_eq_true tested⟩
  · exact absurd tested Bool.false_ne_true

/-- What the stack costs: a fixed price for each level, and the weight of the state on top. -/
def cost (t : Table) (f : Table.Frame) (s : Stack α) : Nat :=
  t.level * s.states.length + f.weight (s.states.headD 0)

theorem cost_lt_feedBound (sound : t.isSound f = true) (h : Reached t f sem s w) :
    cost t f s < feedBound t s := by
  obtain ⟨q, top⟩ := h.top
  have light := Table.weight_lt sound (h.row sound top)
  have bound : feedBound t s = t.level * s.states.length + t.level * t.level := by
    simp only [feedBound, Table.level]
    ring
  rw [bound, cost, List.headD_eq_head?_getD, top]
  exact Nat.add_lt_add_left light _

/-- Why a token can fail: no action of the state fits it and it is reported, or the meaning of the
token or of a rule has a failure of its own. -/
def Explained (f : Table.Frame) (sem : Semantics α) (x : Token) (e : Error) : Prop :=
  (∃ report, report.offender = .token x ∧ e = .unexpectedToken report) ∨ sem.onToken x = .error e ∨
    ∃ r ∈ f.rules, ∃ u vs, Derives f.rules sem (r.expansion.map Symbol.name) u vs ∧
      sem.onRule r vs = .error e

/-- What one step on the token `x` leads to, after the tokens `w` were read. -/
def After (t : Table) (f : Table.Frame) (sem : Semantics α) (isEnd : Bool) (x : Token)
    (s : Stack α) (w : List Token) : Move α → Prop
  | .again s' => Reached t f sem s' w ∧ cost t f s' < cost t f s
  | .done (.shifted s') => isEnd = false ∧ Reached t f sem s' (w ++ [x])
  | .done (.accepted v _) => isEnd = true ∧ Derives f.rules sem [f.start] w [v]
  | .done (.failed e _) => Explained f sem x e

section Step

variable {q p n final : Nat} {isEnd : Bool} {x : Token} {r : Rule}

theorem step_refused {row : Row} (top : s.states.head? = some q) (found : t.row? q = some row)
    (act : row.lookup x.kind = none) :
    step t sem final isEnd x s = .done (.failed (refused x row s) s) := by
  obtain ⟨rest, states⟩ := List.head?_eq_some_iff.mp top
  rw [step, states]
  simp only [found, act]

theorem step_none (top : s.states.head? = some q) (row : (t.row? q).isSome = true)
    (act : t.action? q x.kind = none) :
    ∃ report, step t sem final isEnd x s = .done (.failed (.unexpectedToken report) s) := by
  obtain ⟨row, found⟩ := Option.isSome_iff_exists.mp row
  rw [Table.action?, found, Option.bind_some] at act
  exact ⟨_, step_refused top found act⟩

theorem step_shift (top : s.states.head? = some q) (act : t.action? q x.kind = some (.shift n))
    (notFinal : n ≠ final) :
    step t sem final false x s =
      match sem.onToken x with
      | .error e => .done (.failed e ⟨n :: s.states, s.values⟩)
      | .ok v => .done (.shifted (s.push n v)) := by
  obtain ⟨rest, states⟩ := List.head?_eq_some_iff.mp top
  obtain ⟨row, found, entry⟩ := Option.bind_eq_some_iff.mp act
  rw [step, states]
  cases sem.onToken x <;>
    simp only [found, entry, notFinal, decide_false, Bool.or_self, Bool.false_eq_true, ↓reduceIte]

theorem goto_eq (top : s.states.head? = some p)
    (act : t.action? p r.origin.name = some (.shift n)) : goto t r s = .ok n := by
  obtain ⟨rest, states⟩ := List.head?_eq_some_iff.mp top
  obtain ⟨row, found, entry⟩ := Option.bind_eq_some_iff.mp act
  rw [goto, states]
  simp [found, entry]

theorem step_reduce (top : s.states.head? = some q)
    (act : t.action? q x.kind = some (.reduce r))
    (uncovered : (s.pop r.expansion.length).states.head? = some p)
    (onto : t.action? p r.origin.name = some (.shift n)) :
    step t sem final isEnd x s =
      match sem.onRule r (s.top r.expansion.length) with
      | .error e => .done (.failed e (s.pop r.expansion.length))
      | .ok v =>
        if isEnd && n = final then .done (.accepted v ((s.pop r.expansion.length).push n v))
        else .again ((s.pop r.expansion.length).push n v) := by
  obtain ⟨rest, states⟩ := List.head?_eq_some_iff.mp top
  obtain ⟨row, found, entry⟩ := Option.bind_eq_some_iff.mp act
  rw [step, states]
  cases built : sem.onRule r (s.top r.expansion.length) <;>
    simp only [found, entry, goto_eq uncovered onto, built]

theorem cost_reduce_lt {v : α} {k : Nat} (top : s.states.head? = some q)
    (uncovered : (s.pop k).states.head? = some p)
    (lighter : t.level + f.weight n < t.level * k + f.weight q) :
    cost t f ((s.pop k).push n v) < cost t f s := by
  obtain ⟨rest, left⟩ := List.head?_eq_some_iff.mp uncovered
  have popped : s.states.length = (s.pop k).states.length + k := by
    have drop : (s.pop k).states.length = s.states.length - k := List.length_drop
    have more : 0 < (s.pop k).states.length := by simp [left]
    omega
  simp only [cost, Stack.push, List.length_cons, List.headD_eq_head?_getD, List.head?_cons, top,
    Option.getD_some, popped, Nat.mul_add, Nat.mul_one]
  omega

inductive Stepped (t : Table) (f : Table.Frame) (sem : Semantics α) (isEnd : Bool) (x : Token)
    (s : Stack α) (w : List Token) : Move α → Prop
  | refused {row : Row} : Stepped t f sem isEnd x s w (.done (.failed (refused x row s) s))
  | badToken {n : Nat} {e : Error} (value : sem.onToken x = .error e) :
      Stepped t f sem isEnd x s w (.done (.failed e ⟨n :: s.states, s.values⟩))
  | shifted {s' : Stack α} (more : isEnd = false) (reached : Reached t f sem s' (w ++ [x])) :
      Stepped t f sem isEnd x s w (.done (.shifted s'))
  | badRule {r : Rule} {u : List Token} {e : Error} (mem : r ∈ f.rules)
      (derives : Derives f.rules sem (r.expansion.map Symbol.name) u (s.top r.expansion.length))
      (value : sem.onRule r (s.top r.expansion.length) = .error e) :
      Stepped t f sem isEnd x s w (.done (.failed e (s.pop r.expansion.length)))
  | accepted {v : α} {s' : Stack α} (last : isEnd = true)
      (whole : Derives f.rules sem [f.start] w [v]) (reached : Reached t f sem s' w) :
      Stepped t f sem isEnd x s w (.done (.accepted v s'))
  | again {s' : Stack α} (reached : Reached t f sem s' w) (cheaper : cost t f s' < cost t f s) :
      Stepped t f sem isEnd x s w (.again s')

theorem Reached.stepped (sound : t.isSound f = true) (h : Reached t f sem s w)
    (kind : x.kind ∉ f.symbols) (ends : isEnd = true → x.kind = Token.endKind) :
    Stepped t f sem isEnd x s w (step t sem f.final isEnd x s) := by
  obtain ⟨q, top⟩ := h.top
  cases act : t.action? q x.kind with
  | none =>
    obtain ⟨row, found⟩ := Option.isSome_iff_exists.mp (h.row sound top)
    rw [Table.action?, found, Option.bind_some] at act
    rw [step_refused top found act]
    exact .refused
  | some a =>
    cases a with
    | shift n =>
      obtain ⟨_, _, notEnd, final⟩ := Table.shift_safe sound act
      obtain rfl : isEnd = false := by
        by_contra isEnd
        exact notEnd (ends (by simpa using isEnd))
      -- no token has the name of the start rule for its kind
      have notStart : x.kind ≠ f.start := fun same => kind (by simp [Table.Frame.symbols, same])
      rw [step_shift top act fun same => notStart (final same).1]
      cases value : sem.onToken x with
      | error e => exact .badToken value
      | ok v =>
        refine .shifted rfl (.push h top act (.token (fun r mem same => kind ?_) value .nil))
        exact List.mem_cons_of_mem _ (List.mem_map.mpr ⟨r, mem, same⟩)
    | reduce r =>
      obtain ⟨mem, w₀, u, p, n, rfl, reached, derives, uncovered, onto, lighter⟩ :=
        h.reduction sound top act
      rw [step_reduce top act uncovered onto]
      cases value : sem.onRule r (s.top r.expansion.length) with
      | error e => exact .badRule mem derives value
      | ok v =>
        have whole : Derives f.rules sem [r.origin.name] (u ++ []) [v] :=
          .rule mem derives value .nil
        rw [List.append_nil] at whole
        have onward := Reached.push reached uncovered onto whole
        dsimp only
        split
        · rename_i last
          simp only [Bool.and_eq_true, decide_eq_true_eq] at last
          obtain ⟨start, rfl⟩ := (Table.shift_safe sound onto).2.2.2 last.2
          obtain ⟨_, rfl⟩ := reached.bottom sound uncovered
          exact .accepted last.1 (start ▸ whole) onward
        · exact .again onward (cost_reduce_lt top uncovered lighter)

theorem Reached.step (sound : t.isSound f = true) (h : Reached t f sem s w)
    (kind : x.kind ∉ f.symbols) (ends : isEnd = true → x.kind = Token.endKind) :
    After t f sem isEnd x s w (step t sem f.final isEnd x s) := by
  have stepped := h.stepped sound kind ends
  generalize Machine.step t sem f.final isEnd x s = move at stepped
  cases stepped with
  | refused => exact .inl ⟨_, rfl, rfl⟩
  | badToken value => exact .inr (.inl value)
  | shifted more reached => exact ⟨more, reached⟩
  | badRule mem derives value => exact .inr (.inr ⟨_, mem, _, _, derives, value⟩)
  | accepted last whole reached => exact ⟨last, whole⟩
  | again reached cheaper => exact ⟨reached, cheaper⟩

def Outcome (t : Table) (f : Table.Frame) (sem : Semantics α) (isEnd : Bool) (x : Token)
    (w : List Token) : Fed α → Prop
  | .shifted s => isEnd = false ∧ Reached t f sem s (w ++ [x])
  | .accepted v _ => isEnd = true ∧ Derives f.rules sem [f.start] w [v]
  | .failed e _ => Explained f sem x e

theorem feedWith_outcome (sound : t.isSound f = true) (h : Reached t f sem s w)
    (kind : x.kind ∉ f.symbols) (ends : isEnd = true → x.kind = Token.endKind) {fuel : Nat}
    (enough : cost t f s < fuel) :
    Outcome t f sem isEnd x w (feedWith t sem f.final isEnd x fuel s) := by
  induction fuel generalizing s with
  | zero => omega
  | succ fuel ih =>
    have after := h.step sound kind ends
    rw [feedWith]
    cases eq : step t sem f.final isEnd x s with
    | done r =>
      rw [eq] at after
      cases r <;> exact after
    | again s' =>
      rw [eq] at after
      exact ih after.1 (by have := after.2; omega)

/-- The run lemma for one token: feeding it ends, and fails only for a reason that is explained. -/
theorem Reached.feed (sound : t.isSound f = true) (h : Reached t f sem s w) (isEnd : Bool)
    (x : Token) (kind : x.kind ∉ f.symbols) (ends : isEnd = true → x.kind = Token.endKind) :
    Outcome t f sem isEnd x w (feed t sem f.final isEnd x s) :=
  feedWith_outcome sound h kind ends (cost_lt_feedBound sound h)

theorem feedWith_eq (sound : t.isSound f = true) (h : Reached t f sem s w)
    (kind : x.kind ∉ f.symbols) (ends : isEnd = true → x.kind = Token.endKind) {m n : Nat}
    (hm : cost t f s < m) (hn : cost t f s < n) :
    feedWith t sem f.final isEnd x m s = feedWith t sem f.final isEnd x n s := by
  induction m generalizing s n with
  | zero => omega
  | succ m ih =>
    obtain ⟨n, rfl⟩ : ∃ k, n = k + 1 := ⟨n - 1, by omega⟩
    have after := h.step sound kind ends
    rw [feedWith, feedWith]
    cases eq : step t sem f.final isEnd x s with
    | done r => rfl
    | again s' =>
      -- a reduction lowers the cost, so there is fuel left on both sides
      rw [eq] at after
      have cheaper := after.2
      exact ih after.1 (by omega) (by omega)

theorem feed_again (sound : t.isSound f = true) (h : Reached t f sem s w)
    (kind : x.kind ∉ f.symbols) (ends : isEnd = true → x.kind = Token.endKind)
    (eq : step t sem f.final isEnd x s = .again s') :
    feed t sem f.final isEnd x s = feed t sem f.final isEnd x s' := by
  have after := h.step sound kind ends
  rw [eq] at after
  have bound := cost_lt_feedBound sound h
  obtain ⟨n, fuel⟩ : ∃ n, feedBound t s = n + 1 := ⟨feedBound t s - 1, by omega⟩
  have once : feedWith t sem f.final isEnd x (n + 1) s = feedWith t sem f.final isEnd x n s' := by
    rw [feedWith, eq]
  have cheaper := after.2
  rw [Machine.feed, fuel, once]
  exact feedWith_eq sound after.1 kind ends (by omega) (cost_lt_feedBound sound after.1)

theorem feed_done {r : Fed α} (eq : step t sem final isEnd x s = .done r) :
    feed t sem final isEnd x s = r := by
  obtain ⟨n, fuel⟩ : ∃ n, feedBound t s = n + 1 := by
    refine ⟨feedBound t s - 1, (Nat.sub_add_cancel ?_).symm⟩
    exact Nat.mul_pos (Nat.succ_pos _) (Nat.succ_pos _)
  rw [Machine.feed, fuel, feedWith, eq]

end Step

end Machine

end AxisLang
