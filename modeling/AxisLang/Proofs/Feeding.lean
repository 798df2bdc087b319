import AxisLang.Proofs.Acceptance

/-! Tokens fed one by one to the machine of expressions, in any order.
The machine is followed through all its single moves: reductions, shifts, the acceptance of the end
token, and tokens that are refused, after which the feeding may go on. At every moment the states are a
path in the table, each reduction finds the values of its rule and a goto, and each token is dealt with
after finitely many reductions. A token is refused with a report on it, and nothing else goes wrong. -/
namespace AxisLang

structure Stack.IsPath {α : Type} (s : Stack α) (t : Table) (first : Nat) : Prop where
  height : s.states.length = s.values.length + 1
  bottom : s.states.getLast? = some first
  edges : s.states.IsChain fun q p => ∃ X, t.action? p X = some (.shift q)

/-- How a token may end: it is shifted, or accepted if it is the end token, or reported. -/
def Fed.IsRegular {α : Type} (isEnd : Bool) : Fed α → Prop
  | .shifted _ => isEnd = false
  | .accepted _ _ => isEnd = true
  | .failed e _ => ∃ report, e = .unexpectedToken report

/-- The machine between two moves: its stacks, the tokens it has shifted and those still to come, of
which the last is the end token. -/
structure Feeding (α : Type) where
  stack : Stack α
  read : List Token
  rest : List Token

namespace Machine

variable {α : Type} {t : Table} {f : Table.Frame} {sem : Semantics α} {s s' : Stack α}
  {w : List Token} {isEnd : Bool} {x : Token}

theorem Reached.isPath (h : Reached t f sem s w) : s.IsPath t f.first := by
  induction h with
  | start => exact ⟨rfl, rfl, .singleton _⟩
  | @push s w p q X u v _ top edge _ ih =>
    obtain ⟨rest, states⟩ := List.head?_eq_some_iff.mp top
    refine ⟨congrArg Nat.succ ih.height, ?_, ?_⟩
    · simpa only [Stack.push, states, List.getLast?_cons_cons] using ih.bottom
    · have edges := ih.edges
      rw [states] at edges
      simp only [Stack.push, states]
      exact .cons_cons ⟨X, edge⟩ edges

def Settled (t : Table) (f : Table.Frame) (sem : Semantics α) (isEnd : Bool) (x : Token)
    (w : List Token) : Fed α → Prop
  | .shifted s => isEnd = false ∧ Reached t f sem s (w ++ [x])
  | .accepted v s => isEnd = true ∧ Reached t f sem s w ∧ Derives f.rules sem [f.start] w [v]
  | .failed e s => Reached t f sem s w ∧ ∃ row, e = refused x row s

theorem Settled.isRegular {r : Fed α} (h : Settled t f sem isEnd x w r) : r.IsRegular isEnd := by
  cases r with
  | shifted s => exact h.1
  | accepted v s => exact h.1
  | failed e s =>
    obtain ⟨_, row, rfl⟩ := h
    exact ⟨_, rfl⟩

theorem Reached.settled_of_done (total : sem.IsTotal f.rules) (sound : t.isSound f = true)
    (h : Reached t f sem s w) (kind : x.kind ∉ f.symbols)
    (ends : isEnd = true → x.kind = Token.endKind) {r : Fed α}
    (done : Machine.step t sem f.final isEnd x s = .done r) : Settled t f sem isEnd x w r := by
  have stepped := h.stepped sound kind ends
  rw [done] at stepped
  cases stepped with
  | refused => exact ⟨h, _, rfl⟩
  | badToken value =>
    obtain ⟨v, ok⟩ := total.token x
    rw [ok] at value
    exact absurd value (by simp)
  | shifted more reached => exact ⟨more, reached⟩
  | badRule mem derives value =>
    obtain ⟨v, ok⟩ := total.rule _ mem _ _ derives
    rw [ok] at value
    exact absurd value (by simp)
  | accepted last whole reached => exact ⟨last, reached, whole⟩

/-- Each token is dealt with after some reductions, which lower the cost of the stack. -/
theorem Reached.settles (total : sem.IsTotal f.rules) (sound : t.isSound f = true)
    (h : Reached t f sem s w) (kind : x.kind ∉ f.symbols)
    (ends : isEnd = true → x.kind = Token.endKind) :
    Settled t f sem isEnd x w (Machine.feed t sem f.final isEnd x s) ∧
      ∃ s', Relation.ReflTransGen
          (fun s₁ s₂ => Machine.step t sem f.final isEnd x s₁ = .again s₂) s s' ∧
        Machine.step t sem f.final isEnd x s' = .done (Machine.feed t sem f.final isEnd x s) := by
  induction price : cost t f s using Nat.strong_induction_on generalizing s with
  | _ m ih =>
    cases eq : Machine.step t sem f.final isEnd x s with
    | done r =>
      rw [feed_done eq]
      exact ⟨h.settled_of_done total sound kind ends eq, s, .refl, eq⟩
    | again s₁ =>
      have after := h.step sound kind ends
      rw [eq] at after
      obtain ⟨settled, s', steps, done⟩ := ih _ (price ▸ after.2) after.1 rfl
      rw [feed_again sound h kind ends eq]
      exact ⟨settled, s', .head eq steps, done⟩

inductive Moves (t : Table) (sem : Semantics α) (final : Nat) : Feeding α → Feeding α → Prop
  | reduce {s s' w x xs} (eq : step t sem final xs.isEmpty x s = .again s') :
      Moves t sem final ⟨s, w, x :: xs⟩ ⟨s', w, x :: xs⟩
  | shift {s s' w x xs} (eq : step t sem final xs.isEmpty x s = .done (.shifted s')) :
      Moves t sem final ⟨s, w, x :: xs⟩ ⟨s', w ++ [x], xs⟩
  | accept {s s' w x xs v} (eq : step t sem final xs.isEmpty x s = .done (.accepted v s')) :
      Moves t sem final ⟨s, w, x :: xs⟩ ⟨s', w, xs⟩
  | refuse {s s' w x xs e} (eq : step t sem final xs.isEmpty x s = .done (.failed e s')) :
      Moves t sem final ⟨s, w, x :: xs⟩ ⟨s', w, xs⟩

/-- The tokens to come: only the last is an end token. -/
def Awaits (f : Table.Frame) (xs : List Token) : Prop :=
  (∀ x ∈ xs, x.kind ∉ f.symbols) ∧ ∀ x ∈ xs.getLast?, x.kind = Token.endKind

theorem Awaits.head {xs : List Token} (h : Awaits f (x :: xs)) :
    x.kind ∉ f.symbols ∧ (xs.isEmpty = true → x.kind = Token.endKind) := by
  refine ⟨h.1 x (by simp), fun last => h.2 x ?_⟩
  rw [List.isEmpty_iff.mp last]
  rfl

theorem Awaits.tail {xs : List Token} (h : Awaits f (x :: xs)) : Awaits f xs := by
  refine ⟨fun y mem => h.1 y (by simp [mem]), fun y last => h.2 y ?_⟩
  rw [List.getLast?_cons, Option.mem_def.mp last]
  rfl

structure Kept (t : Table) (f : Table.Frame) (sem : Semantics α) (m : Feeding α) : Prop where
  reached : Reached t f sem m.stack m.read
  awaits : Awaits f m.rest

theorem Kept.moves {m m' : Feeding α} (total : sem.IsTotal f.rules) (sound : t.isSound f = true)
    (kept : Kept t f sem m) (move : Moves t sem f.final m m') : Kept t f sem m' := by
  obtain ⟨reached, awaits⟩ := kept
  cases move with
  | reduce eq =>
    have after := reached.step sound awaits.head.1 awaits.head.2
    rw [eq] at after
    exact ⟨after.1, awaits⟩
  | shift eq =>
    exact ⟨(reached.settled_of_done total sound awaits.head.1 awaits.head.2 eq).2, awaits.tail⟩
  | accept eq =>
    exact ⟨(reached.settled_of_done total sound awaits.head.1 awaits.head.2 eq).2.1, awaits.tail⟩
  | refuse eq =>
    exact ⟨(reached.settled_of_done total sound awaits.head.1 awaits.head.2 eq).1, awaits.tail⟩

theorem Kept.run {m m' : Feeding α} (total : sem.IsTotal f.rules) (sound : t.isSound f = true)
    (kept : Kept t f sem m) (run : Relation.ReflTransGen (Moves t sem f.final) m m') :
    Kept t f sem m' := by
  induction run with
  | refl => exact kept
  | tail _ move ih => exact ih.moves total sound move

structure Reduces (t : Table) (rules : List Rule) (sem : Semantics α) (m : Feeding α)
    (r : Rule) : Prop where
  mem : r ∈ rules
  enough : r.expansion.length ≤ m.stack.values.length
  values : ∃ w u, m.read = w ++ u ∧
    Derives rules sem (r.expansion.map Symbol.name) u (m.stack.top r.expansion.length)
  goto : ∃ n, Machine.goto t r (m.stack.pop r.expansion.length) = .ok n

theorem Kept.reduces {m : Feeding α} {q : Nat} {X : String} {r : Rule}
    (sound : t.isSound f = true) (kept : Kept t f sem m)
    (top : m.stack.states.head? = some q) (act : t.action? q X = some (.reduce r)) :
    Reduces t f.rules sem m r := by
  obtain ⟨mem, w, u, p, n, read, _, derives, uncovered, onto, _⟩ :=
    kept.reached.reduction sound top act
  refine ⟨mem, ?_, ⟨w, u, read, derives⟩, n, goto_eq uncovered onto⟩
  have found : (m.stack.top r.expansion.length).length = r.expansion.length := by
    rw [derives.length_eq, List.length_map]
  rw [Stack.top, List.length_reverse, List.length_take] at found
  omega

end Machine

namespace Expression

theorem mem_kinds : ∀ d ∈ terminals, d.name ∉ ignored → d.name ∈ kinds := by decide +kernel

/-- Tokens in any order, then the end token: at every moment the states are a path in the table, a
reduction that the next token calls for finds what it needs, and the next token is dealt with in
finitely many steps, of which only the last can fail, with a report on the token. -/
theorem feeding_is_safe {first final : Nat} (starts : table.starts.lookup "start" = some first)
    (ends : table.ends.lookup "start" = some final) {ts : List Token}
    (known : ∀ x ∈ ts, ∃ d ∈ terminals, d.name = x.kind ∧ d.name ∉ ignored) {e : Token}
    (last : e.kind = Token.endKind) {m : Feeding Value}
    (run : Relation.ReflTransGen (Machine.Moves table semantics final)
      ⟨⟨[first], []⟩, [], ts ++ [e]⟩ m) :
    m.stack.IsPath table first ∧
    ∀ x xs, m.rest = x :: xs →
      (∀ q r, m.stack.states.head? = some q → table.action? q x.kind = some (.reduce r) →
        Machine.Reduces table rules semantics m r) ∧
      (Machine.feed table semantics final xs.isEmpty x m.stack).IsRegular xs.isEmpty ∧
      ∃ s, Relation.ReflTransGen
          (fun s₁ s₂ => Machine.step table semantics final xs.isEmpty x s₁ = .again s₂) m.stack s ∧
        Machine.step table semantics final xs.isEmpty x s =
          .done (Machine.feed table semantics final xs.isEmpty x m.stack) := by
  obtain rfl : 27 = first := Option.some.inj starts
  obtain rfl : 0 = final := Option.some.inj ends
  have awaits : Machine.Awaits frame (ts ++ [e]) := by
    refine ⟨fun x mem => ?_, fun x mem => ?_⟩
    · obtain mem | mem := List.mem_append.mp mem
      · obtain ⟨d, among, same, read⟩ := known x mem
        exact kinds_notMem_symbols _ (same ▸ mem_kinds d among read)
      · rw [List.mem_singleton.mp mem, last]
        exact endKind_notMem_symbols
    · rw [List.getLast?_concat, Option.mem_some_iff] at mem
      rw [← mem, last]
  have kept : Machine.Kept table frame semantics m :=
    Machine.Kept.run semantics_isTotal table_isSound ⟨.start, awaits⟩ run
  refine ⟨kept.reached.isPath, fun x xs rest => ?_⟩
  have next := kept.awaits
  rw [rest] at next
  obtain ⟨settled, steps⟩ :=
    kept.reached.settles semantics_isTotal table_isSound next.head.1 next.head.2
  exact ⟨fun q r top act => kept.reduces table_isSound top act, settled.isRegular, steps⟩

theorem feeding_is_safe_misplaced :
    ∃ m : Feeding Value,
      Relation.ReflTransGen (Machine.Moves table semantics 0)
        ⟨⟨[27], []⟩, [], [tokenOf {} .name ['a'], tokenOf {} .closing [']']] ++
          [RunConf.endToken none]⟩ m ∧
      m.stack.states = [15, 27] ∧ m.stack.IsPath table 27 ∧
      Machine.Reduces table rules semantics m nameRule := by
  have known : ∀ x ∈ [tokenOf {} .name ['a'], tokenOf {} .closing [']']],
      ∃ d ∈ terminals, d.name = x.kind ∧ d.name ∉ ignored := by decide +kernel
  have shift : Machine.Moves table semantics 0
      ⟨⟨[27], []⟩, [], [tokenOf {} .name ['a'], tokenOf {} .closing [']']] ++
        [RunConf.endToken none]⟩
      ⟨⟨[15, 27], [.token (tokenOf {} .name ['a'])]⟩, [tokenOf {} .name ['a']],
        [tokenOf {} .closing [']'], RunConf.endToken none]⟩ := .shift rfl
  obtain ⟨path, next⟩ := feeding_is_safe rfl rfl known rfl (.single shift)
  exact ⟨_, .single shift, rfl, path, (next _ _ rfl).1 15 _ rfl rfl⟩

end Expression

end AxisLang
