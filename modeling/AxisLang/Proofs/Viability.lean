import AxisLang.Proofs.Items

/-! Viable prefixes: the tokens that the machine has read can always be continued to a sentence, also
after reductions that the next token turns out not to fit. Items are followed backwards here. An item
that has begun comes from the state below, by the symbol between the two states; a rule that opens in a
state is called for by another item of the state, or is a start rule in the first state. As all symbols
derive something, what an item still lacks can be supplied, and so can what comes after its rule. -/
namespace AxisLang

namespace Outlook

/-- Whether an item of the state that an edge leads to comes from the state `p` before the edge. -/
def stepsBack (o : Outlook) (p : Nat) (X : String) : Rule × Nat → Bool
  | (_, 0) => true
  | (r, d + 1) => (r.expansion.map Symbol.name)[d]? == some X && (o.items p).contains (r, d)

/-- Whether a rule that opens in a state is called for. Items that have not begun either must belong
to an earlier symbol, so that no two rules call for each other. -/
def isCalled (o : Outlook) (f : Table.Frame) (order : List String) (q : Nat) (r : Rule) : Bool :=
  (q == f.first && r.origin.name == f.start) || (o.items q).any fun item =>
    (item.1.expansion.map Symbol.name)[item.2]? == some r.origin.name &&
      (item.2 != 0 || decide (order.idxOf item.1.origin.name < order.idxOf r.origin.name))

/-- Whether a rule has only symbols without rules of their own and symbols later than its origin. -/
def isGrounded (f : Table.Frame) (order : List String) (r : Rule) : Bool :=
  (r.expansion.map Symbol.name).all fun X =>
    (f.rules.all fun r' => r'.origin.name != X) ||
      decide (order.idxOf r.origin.name < order.idxOf X)

def isRooted (o : Outlook) (t : Table) (f : Table.Frame) (order : List String) : Bool :=
  (t.edges.all fun (p, X, q) => (o.items q).all (o.stepsBack p X)) &&
    ((o.items f.first).all fun item => item.2 == 0) &&
    (o.states.all fun (q, items) => items.all fun item =>
      f.rules.contains item.1 && (item.2 != 0 || o.isCalled f order q item.1)) &&
    (t.rows.all fun (q, _) => q == f.final || !(o.items q).isEmpty) &&
    f.rules.all fun r => f.rules.any fun r' =>
      r'.origin.name == r.origin.name && isGrounded f order r'

section Rooted

variable {o : Outlook} {t : Table} {f : Table.Frame} {order : List String} {q p d : Nat} {r : Rule}
  {X : String}

theorem item_back (rooted : o.isRooted t f order = true) (edge : (p, X, q) ∈ t.edges)
    (mem : (r, d + 1) ∈ o.items q) :
    (r.expansion.map Symbol.name)[d]? = some X ∧ (r, d) ∈ o.items p := by
  simp only [isRooted, Bool.and_eq_true, List.all_eq_true] at rooted
  have back := rooted.1.1.1.1 _ edge _ mem
  simpa only [stepsBack, Bool.and_eq_true, beq_iff_eq, List.contains_iff_mem] using back

theorem item_first (rooted : o.isRooted t f order = true) (mem : (r, d) ∈ o.items f.first) :
    d = 0 := by
  simp only [isRooted, Bool.and_eq_true, List.all_eq_true, beq_iff_eq] at rooted
  exact rooted.1.1.1.2 _ mem

theorem item_checked (rooted : o.isRooted t f order = true) (mem : (r, d) ∈ o.items q) :
    r ∈ f.rules ∧ (d = 0 → o.isCalled f order q r = true) := by
  simp only [isRooted, Bool.and_eq_true, List.all_eq_true] at rooted
  unfold items at mem
  cases found : o.states.lookup q with
  | none => simp [found] at mem
  | some items =>
    obtain ⟨_, _, states, _⟩ := List.lookup_eq_some_iff.mp found
    rw [found, Option.getD_some] at mem
    have checked := rooted.1.1.2 (q, items) (by simp [states]) _ mem
    simp only [Bool.or_eq_true, bne_iff_ne, List.contains_iff_mem] at checked
    exact ⟨checked.1, fun opens => checked.2.resolve_left (not_not.mpr opens)⟩

theorem item_called (rooted : o.isRooted t f order = true) (mem : (r, 0) ∈ o.items q) :
    (q = f.first ∧ r.origin.name = f.start) ∨ ∃ r' d, (r', d) ∈ o.items q ∧
      (r'.expansion.map Symbol.name)[d]? = some r.origin.name ∧
      (d ≠ 0 ∨ order.idxOf r'.origin.name < order.idxOf r.origin.name) := by
  have called := (item_checked rooted mem).2 rfl
  simp only [isCalled, Bool.or_eq_true, Bool.and_eq_true, beq_iff_eq, List.any_eq_true,
    bne_iff_ne, decide_eq_true_eq] at called
  obtain first | ⟨⟨r', d⟩, among, next, earlier⟩ := called
  · exact .inl first
  · exact .inr ⟨r', d, among, next, earlier⟩

theorem exists_item (rooted : o.isRooted t f order = true) (row : (t.row? q).isSome = true)
    (notFinal : q ≠ f.final) : ∃ r d, (r, d) ∈ o.items q := by
  obtain ⟨row, found⟩ := Option.isSome_iff_exists.mp row
  obtain ⟨_, _, rows, _⟩ := List.lookup_eq_some_iff.mp found
  simp only [isRooted, Bool.and_eq_true, List.all_eq_true, Bool.or_eq_true, beq_iff_eq] at rooted
  have some := (rooted.1.2 (q, row) (by simp [rows])).resolve_left notFinal
  cases items : o.items q with
  | nil => simp [items] at some
  | cons item rest => exact ⟨item.1, item.2, by simp⟩

theorem exists_grounded (rooted : o.isRooted t f order = true) (mem : r ∈ f.rules) :
    ∃ r' ∈ f.rules, r'.origin.name = r.origin.name ∧ ∀ X ∈ r'.expansion.map Symbol.name,
      (∀ k ∈ f.rules, k.origin.name ≠ X) ∨ order.idxOf r.origin.name < order.idxOf X := by
  rw [isRooted, Bool.and_eq_true] at rooted
  obtain ⟨r', mem', both⟩ := List.any_eq_true.mp (List.all_eq_true.mp rooted.2 r mem)
  rw [Bool.and_eq_true, beq_iff_eq] at both
  obtain ⟨same, grounded⟩ := both
  refine ⟨r', mem', same, fun X among => ?_⟩
  have either := List.all_eq_true.mp grounded X among
  simpa only [Bool.or_eq_true, List.all_eq_true, bne_iff_ne, decide_eq_true_eq, same] using either

end Rooted

end Outlook

section Completion

variable {α : Type} {sem : Semantics α} {o : Outlook} {t : Table} {f : Table.Frame}
  {order : List String} {q d : Nat} {r : Rule} {w : List Token} {s : Stack α}

theorem Outlook.derives_symbol (rooted : o.isRooted t f order = true)
    (total : sem.IsTotal f.rules) (X : String) : ∃ u v, Derives f.rules sem [X] u [v] := by
  have terminal {Y : String} (none : ∀ k ∈ f.rules, k.origin.name ≠ Y) :
      ∃ u v, Derives f.rules sem [Y] u [v] := by
    obtain ⟨v, value⟩ := total.token { kind := Y, text := ⟨[], false⟩ }
    exact ⟨_, v, .token none value .nil⟩
  -- the induction is on the number of symbols that come later in the order
  induction later : order.length - order.idxOf X using Nat.strong_induction_on generalizing X with
  | _ m ih =>
    by_cases none : ∀ k ∈ f.rules, k.origin.name ≠ X
    · exact terminal none
    · obtain ⟨r, mem, rfl⟩ : ∃ r ∈ f.rules, r.origin.name = X := by simpa using none
      obtain ⟨r', mem', same, grounded⟩ := exists_grounded rooted mem
      obtain ⟨u, us, body⟩ := Derives.exists_of_forall fun Y among => by
        obtain none | after := grounded Y among
        · exact terminal none
        · have bound : order.idxOf Y ≤ order.length := List.idxOf_le_length
          exact ih _ (by omega) Y rfl
      obtain ⟨v, value⟩ := total.rule r' mem' u us body
      exact ⟨u ++ [], v, same ▸ .rule mem' body value .nil⟩

/-- Whatever the symbols derive, after the tokens `w` it can be continued to a sentence. -/
def Completes (f : Table.Frame) (sem : Semantics α) (w : List Token) (Xs : List String) : Prop :=
  ∀ u vs, Derives f.rules sem Xs u vs → ∃ z v, Derives f.rules sem [f.start] (w ++ u ++ z) [v]

theorem Completes.rule (rooted : o.isRooted t f order = true) (total : sem.IsTotal f.rules)
    (mem : r ∈ f.rules) {Xs : List String} (h : Completes f sem w (r.origin.name :: Xs)) :
    Completes f sem w (r.expansion.map Symbol.name) := by
  intro u vs body
  obtain ⟨v, value⟩ := total.rule r mem u vs body
  obtain ⟨u', us, after⟩ :=
    Derives.exists_of_forall fun X (_ : X ∈ Xs) => Outlook.derives_symbol rooted total X
  obtain ⟨z, v', sentence⟩ := h _ _ (.rule mem body value after)
  exact ⟨u' ++ z, v', by simpa only [List.append_assoc] using sentence⟩

theorem completes_opening (rooted : o.isRooted t f order = true) (total : sem.IsTotal f.rules)
    (bottom : q = f.first → w = [])
    (begun : ∀ r d, (r, d + 1) ∈ o.items q →
      Completes f sem w ((r.expansion.map Symbol.name).drop (d + 1)))
    (item : (r, 0) ∈ o.items q) : Completes f sem w (r.expansion.map Symbol.name) := by
  induction rank : order.idxOf r.origin.name using Nat.strong_induction_on generalizing r with
  | _ m ih =>
    have mem := (Outlook.item_checked rooted item).1
    obtain ⟨first, start⟩ | ⟨r', d, among, next, earlier⟩ := Outlook.item_called rooted item
    · intro u vs body
      obtain ⟨v, value⟩ := total.rule r mem u vs body
      rw [bottom first, ← start]
      exact ⟨[], v, .rule mem body value .nil⟩
    · have completes : Completes f sem w ((r'.expansion.map Symbol.name).drop d) := by
        cases d with
        | zero => exact ih _ (rank ▸ earlier.resolve_left (by simp)) among rfl
        | succ d => exact begun r' d among
      obtain ⟨bound, symbol⟩ := List.getElem?_eq_some_iff.mp next
      rw [List.drop_eq_getElem_cons bound, symbol] at completes
      exact completes.rule rooted total mem

namespace Machine

/-- What an item of the state on top still lacks completes to a sentence. The induction goes down the
stack: an item that has begun was an item of the state below. -/
theorem Reached.completes (sound : t.isSound f = true) (rooted : o.isRooted t f order = true)
    (total : sem.IsTotal f.rules) (h : Reached t f sem s w) (top : s.states.head? = some q)
    (item : (r, d) ∈ o.items q) :
    Completes f sem w ((r.expansion.map Symbol.name).drop d) := by
  induction h generalizing q r d with
  | start =>
    obtain rfl : f.first = q := Option.some.inj top
    obtain rfl := Outlook.item_first rooted item
    refine completes_opening rooted total (fun _ => rfl) (fun r d begun => ?_) item
    exact absurd (Outlook.item_first rooted begun) (by simp)
  | @push s w p q' X u v below low edge value ih =>
    obtain rfl : q' = q := Option.some.inj top
    have begun (r : Rule) (d : Nat) (among : (r, d + 1) ∈ o.items q') :
        Completes f sem (w ++ u) ((r.expansion.map Symbol.name).drop (d + 1)) := by
      obtain ⟨next, back⟩ := Outlook.item_back rooted (Table.edge_of_action edge) among
      obtain ⟨bound, symbol⟩ := List.getElem?_eq_some_iff.mp next
      have before := ih low back
      rw [List.drop_eq_getElem_cons bound, symbol] at before
      intro u' vs rest
      obtain ⟨z, v', sentence⟩ := before _ _ (value.append rest)
      exact ⟨z, v', by simpa only [List.append_assoc] using sentence⟩
    cases d with
    | zero =>
      refine completes_opening rooted total (fun first => ?_) begun item
      exact absurd first (Table.shift_safe sound edge).1
    | succ d => exact begun r d item

theorem Reached.viable (sound : t.isSound f = true) (rooted : o.isRooted t f order = true)
    (total : sem.IsTotal f.rules) (h : Reached t f sem s w) :
    ∃ z v, Derives f.rules sem [f.start] (w ++ z) [v] := by
  obtain ⟨q, top⟩ := h.top
  by_cases final : q = f.final
  · cases h with
    | start => exact Outlook.derives_symbol rooted total f.start
    | @push s w p q' X u v below low edge value =>
      obtain rfl : q' = q := Option.some.inj top
      obtain ⟨rfl, rfl⟩ := (Table.shift_safe sound edge).2.2.2 final
      obtain ⟨_, rfl⟩ := below.bottom sound low
      exact ⟨[], v, by simpa using value⟩
  · obtain ⟨r, d, item⟩ := Outlook.exists_item rooted (h.row sound top) final
    obtain ⟨u, vs, rest⟩ := Derives.exists_of_forall fun X
      (_ : X ∈ (r.expansion.map Symbol.name).drop d) => Outlook.derives_symbol rooted total X
    obtain ⟨z, v, sentence⟩ := h.completes sound rooted total top item u vs rest
    exact ⟨u ++ z, v, by rwa [← List.append_assoc]⟩

end Machine

end Completion

end AxisLang
