import AxisLang.Proofs.Machine

/-! Completeness of the table-driven machine, again for every table that passes a finite check.
Each state carries the items it may be in: a rule and the number of its symbols already read. The
kinds with which a symbol may open, and those that may follow it, tell which lookaheads a finished
rule meets. Then the machine reads whatever its rules derive. -/
namespace AxisLang

/-- What is known of the states and symbols of a table: the items of a state, the kinds with which a
symbol opens, the kinds that follow it, and whether it may derive nothing. -/
structure Outlook where
  states : List (Nat × List (Rule × Nat))
  opens : String → List String
  follows : String → List String
  skips : String → Bool

namespace Outlook

def items (o : Outlook) (q : Nat) : List (Rule × Nat) :=
  (o.states.lookup q).getD []

/-- The kinds that can come first where symbols are followed by one of the kinds `after`. -/
def heads (o : Outlook) (after : List String) : List String → List String
  | [] => after
  | X :: Xs => o.opens X ++ if o.skips X then o.heads after Xs else []

def followsAll (o : Outlook) (origins after : List String) : List String → Bool
  | [] => true
  | X :: Xs =>
    (!origins.contains X || (o.heads after Xs).all (o.follows X).contains) &&
      o.followsAll origins after Xs

/-- Whether what is on record for the origin of a rule agrees with the rule. -/
def agrees (o : Outlook) (origins : List String) (r : Rule) : Bool :=
  let names := r.expansion.map Symbol.name
  (o.heads [] names).all (o.opens r.origin.name).contains &&
    (!names.all o.skips || o.skips r.origin.name) &&
    o.followsAll origins (o.follows r.origin.name) names

def expands (o : Outlook) (rules : List Rule) (q : Nat) (X : String) : Bool :=
  rules.all fun r => r.origin.name != X || (o.items q).contains (r, 0)

/-- Whether a state deals with one of its items: a finished rule is reduced on all that follows it,
and otherwise the next symbol leads on and its rules are items too. -/
def advances (o : Outlook) (t : Table) (f : Table.Frame) (q : Nat) (item : Rule × Nat) : Bool :=
  match (item.1.expansion.map Symbol.name)[item.2]? with
  | none => (o.follows item.1.origin.name).all fun a => t.action? q a == some (.reduce item.1)
  | some X =>
    o.expands f.rules q X &&
      match t.action? q X with
      | some (.shift n) => n != f.final && (o.items n).contains (item.1, item.2 + 1)
      | _ => false

def isComplete (o : Outlook) (t : Table) (f : Table.Frame) (kinds : List String) : Bool :=
  (o.states.all fun (q, items) => items.all (o.advances t f q)) &&
    f.rules.all (o.agrees (f.rules.map (·.origin.name))) &&
    (kinds.all fun k => (o.opens k).contains k) &&
    o.expands f.rules f.first f.start &&
    (o.follows f.start).contains Token.endKind &&
    !kinds.contains f.start &&
    t.action? f.first f.start == some (.shift f.final)

section Checked

variable {α : Type} {sem : Semantics α} {o : Outlook} {t : Table} {f : Table.Frame}
  {kinds : List String} {Xs after : List String} {w : List Token} {vs : List α}

theorem item_advances (complete : o.isComplete t f kinds = true) {q : Nat} {item : Rule × Nat}
    (mem : item ∈ o.items q) : o.advances t f q item = true := by
  simp only [isComplete, Bool.and_eq_true, List.all_eq_true] at complete
  unfold items at mem
  cases found : o.states.lookup q with
  | none => simp [found] at mem
  | some items =>
    obtain ⟨_, _, states, _⟩ := List.lookup_eq_some_iff.mp found
    rw [found, Option.getD_some] at mem
    exact complete.1.1.1.1.1.1 (q, items) (by simp [states]) item mem

theorem rule_agrees (complete : o.isComplete t f kinds = true) {r : Rule} (mem : r ∈ f.rules) :
    (∀ k ∈ o.heads [] (r.expansion.map Symbol.name), k ∈ o.opens r.origin.name) ∧
    ((r.expansion.map Symbol.name).all o.skips = true → o.skips r.origin.name = true) ∧
    o.followsAll (f.rules.map (·.origin.name)) (o.follows r.origin.name)
      (r.expansion.map Symbol.name) = true := by
  rw [isComplete] at complete
  simp only [Bool.and_eq_true] at complete
  have agrees := List.all_eq_true.mp complete.1.1.1.1.1.2 r mem
  simp only [Outlook.agrees, Bool.and_eq_true, Bool.or_eq_true, Bool.not_eq_true'] at agrees
  obtain ⟨⟨opens, skips⟩, follows⟩ := agrees
  refine ⟨fun k hk => ?_, fun all => skips.resolve_left (by simp [all]), follows⟩
  exact List.contains_iff_mem.mp (List.all_eq_true.mp opens k hk)

theorem mem_opens (complete : o.isComplete t f kinds = true) {k : String} (mem : k ∈ kinds) :
    k ∈ o.opens k := by
  simp only [isComplete, Bool.and_eq_true, List.all_eq_true, List.contains_iff_mem] at complete
  exact complete.1.1.1.1.2 k mem

theorem mem_items_of_expands {rules : List Rule} {q : Nat} {X : String} {r : Rule}
    (expands : o.expands rules q X = true) (mem : r ∈ rules) (origin : r.origin.name = X) :
    (r, 0) ∈ o.items q := by
  simp only [Outlook.expands, List.all_eq_true, Bool.or_eq_true, bne_iff_ne,
    List.contains_iff_mem] at expands
  exact (expands r mem).resolve_left (not_not.mpr origin)

theorem mem_heads_of_mem {k : String} (h : k ∈ o.heads [] Xs) : k ∈ o.heads after Xs := by
  induction Xs with
  | nil => simp [heads] at h
  | cons X Xs ih =>
    simp only [heads, List.mem_append] at h ⊢
    refine h.imp_right fun later => ?_
    split at later
    · rename_i skips
      exact if_pos skips ▸ ih later
    · simp at later

theorem mem_heads_of_skips {k : String} (skips : Xs.all o.skips = true) (h : k ∈ after) :
    k ∈ o.heads after Xs := by
  induction Xs with
  | nil => exact h
  | cons X Xs ih =>
    simp only [List.all_cons, Bool.and_eq_true] at skips
    simp only [heads, skips.1, if_true, List.mem_append]
    exact .inr (ih skips.2)

theorem derives_opens (complete : o.isComplete t f kinds = true)
    (h : Derives f.rules sem Xs w vs) (known : ∀ x ∈ w, x.kind ∈ kinds) :
    (w = [] → Xs.all o.skips = true) ∧ ∀ x w', w = x :: w' → x.kind ∈ o.heads [] Xs := by
  induction h with
  | nil => exact ⟨fun _ => rfl, fun x w' eq => by simp at eq⟩
  | @token x v Xs w vs _ _ _ _ =>
    refine ⟨fun eq => by simp at eq, fun y w' eq => ?_⟩
    obtain ⟨rfl, rfl⟩ := List.cons.inj eq
    simp only [heads, List.mem_append]
    exact .inl (mem_opens complete (known x (by simp)))
  | @rule r v us u Xs w vs mem _ _ _ ihBody ihTail =>
    obtain ⟨opens, skips, _⟩ := rule_agrees complete mem
    obtain ⟨bodySkips, bodyOpens⟩ := ihBody fun x hx => known x (by simp [hx])
    obtain ⟨tailSkips, tailOpens⟩ := ihTail fun x hx => known x (by simp [hx])
    have originSkips : u = [] → o.skips r.origin.name = true := fun empty =>
      skips (bodySkips empty)
    constructor
    · intro empty
      obtain ⟨emptyBody, emptyTail⟩ := List.append_eq_nil_iff.mp empty
      rw [List.all_cons, originSkips emptyBody, tailSkips emptyTail, Bool.and_self]
    · intro x w' eq
      simp only [heads, List.mem_append]
      cases u with
      | nil =>
        -- an empty body leaves the first token to the symbols behind it
        rw [if_pos (originSkips rfl)]
        exact .inr (tailOpens x w' (by simpa using eq))
      | cons y u =>
        obtain ⟨rfl, _⟩ := List.cons.inj eq
        exact .inl (opens _ (bodyOpens _ _ rfl))

theorem head_mem_heads (complete : o.isComplete t f kinds = true)
    (h : Derives f.rules sem Xs w vs) (known : ∀ x ∈ w, x.kind ∈ kinds) {x : Token}
    (next : x.kind ∈ after) (rest : List Token) :
    ∃ y ys, w ++ x :: rest = y :: ys ∧ y.kind ∈ o.heads after Xs := by
  obtain ⟨skips, opens⟩ := derives_opens complete h known
  cases w with
  | nil => exact ⟨x, rest, rfl, mem_heads_of_skips (skips rfl) next⟩
  | cons y w => exact ⟨y, w ++ x :: rest, rfl, mem_heads_of_mem (opens y w rfl)⟩

theorem follows_of_drop {names origins : List String} {X : String} {d : Nat}
    (h : o.followsAll origins after names = true) (drop : names.drop d = X :: Xs)
    (mem : X ∈ origins) {k : String} (head : k ∈ o.heads after Xs) : k ∈ o.follows X := by
  induction names generalizing d with
  | nil => simp at drop
  | cons Y Ys ih =>
    simp only [followsAll, Bool.and_eq_true, Bool.or_eq_true, Bool.not_eq_true'] at h
    cases d with
    | zero =>
      obtain ⟨rfl, rfl⟩ := List.cons.inj drop
      have all := h.1.resolve_left (by simpa using mem)
      exact List.contains_iff_mem.mp (List.all_eq_true.mp all k head)
    | succ d => exact ih h.2 drop

theorem item_next (complete : o.isComplete t f kinds = true) {q d : Nat} {r : Rule} {X : String}
    (mem : (r, d) ∈ o.items q) (drop : (r.expansion.map Symbol.name).drop d = X :: Xs) :
    o.expands f.rules q X = true ∧
      ∃ n, t.action? q X = some (.shift n) ∧ n ≠ f.final ∧ (r, d + 1) ∈ o.items n := by
  have advances := item_advances complete mem
  have next : (r.expansion.map Symbol.name)[d]? = some X := by
    rw [← List.head?_drop, drop, List.head?_cons]
  simp only [Outlook.advances, next, Bool.and_eq_true] at advances
  obtain ⟨expands, onward⟩ := advances
  split at onward
  · rename_i n act
    simp only [Bool.and_eq_true, bne_iff_ne, List.contains_iff_mem] at onward
    exact ⟨expands, n, act, onward⟩
  · exact absurd onward Bool.false_ne_true

theorem item_done (complete : o.isComplete t f kinds = true) {q : Nat} {r : Rule} {k : String}
    (mem : (r, r.expansion.length) ∈ o.items q) (head : k ∈ o.follows r.origin.name) :
    t.action? q k = some (.reduce r) := by
  have advances := item_advances complete mem
  have done : (r.expansion.map Symbol.name)[r.expansion.length]? = none := by simp
  simp only [Outlook.advances, done, List.all_eq_true, beq_iff_eq] at advances
  exact advances k head

end Checked

end Outlook

namespace Stack

variable {α : Type} {s s₁ : Stack α} {q n : Nat} {v : α}

theorem pop_push_of_pop (h : s₁.pop n = s.push q v) : s₁.pop (n + 1) = s := by
  have states : s₁.states.drop n = q :: s.states := congrArg Stack.states h
  have values : s₁.values.drop n = v :: s.values := congrArg Stack.values h
  cases s with
  | mk states values =>
    simp only [pop, ← List.drop_drop, *, List.drop_succ_cons, List.drop_zero]

theorem top_succ_of_pop (h : s₁.pop n = s.push q v) : s₁.top (n + 1) = v :: s₁.top n := by
  have values : s₁.values.drop n = v :: s.values := congrArg Stack.values h
  simp only [top, List.take_add, values, List.take_succ_cons, List.take_zero, List.reverse_append,
    List.reverse_cons, List.reverse_nil, List.nil_append, List.singleton_append]

end Stack

namespace Machine

variable {α : Type} {sem : Semantics α} {o : Outlook} {t : Table} {f : Table.Frame}
  {kinds : List String}

inductive Next (t : Table) (sem : Semantics α) (final : Nat) :
    Stack α × List Token → Stack α × List Token → Prop
  | again {s s' x xs} (eq : step t sem final xs.isEmpty x s = .again s') :
      Next t sem final (s, x :: xs) (s', x :: xs)
  | shift {s s' x xs} (eq : step t sem final xs.isEmpty x s = .done (.shifted s')) :
      Next t sem final (s, x :: xs) (s', xs)

theorem Next.inv {final : Nat} {s : Stack α} {x : Token} {xs : List Token}
    {c : Stack α × List Token} (h : Next t sem final (s, x :: xs) c) :
    (∃ s', step t sem final xs.isEmpty x s = .again s' ∧ c = (s', x :: xs)) ∨
      ∃ s', step t sem final xs.isEmpty x s = .done (.shifted s') ∧ c = (s', xs) := by
  cases h with
  | again eq => exact .inl ⟨_, eq, rfl⟩
  | shift eq => exact .inr ⟨_, eq, rfl⟩

/-- The machine reads what the remaining symbols of an item derive. The induction is on the
derivation; a symbol that is not a token is read by way of the item that opens its rule. -/
theorem reads (complete : o.isComplete t f kinds = true) {Xs : List String} {w : List Token}
    {vs : List α} (h : Derives f.rules sem Xs w vs) {s : Stack α} {q d : Nat} {r : Rule}
    {x : Token} {l : List Token} (mem : r ∈ f.rules) (top : s.states.head? = some q)
    (item : (r, d) ∈ o.items q) (drop : (r.expansion.map Symbol.name).drop d = Xs)
    (known : ∀ y ∈ w, y.kind ∈ kinds) (next : x.kind ∈ o.follows r.origin.name) :
    ∃ s' q', Relation.ReflTransGen (Next t sem f.final) (s, w ++ x :: l) (s', x :: l) ∧
      s'.pop Xs.length = s ∧ s'.top Xs.length = vs ∧ s'.states.head? = some q' ∧
      (r, d + Xs.length) ∈ o.items q' := by
  induction h generalizing s q d r x l with
  | nil => exact ⟨s, q, .refl, rfl, rfl, top, item⟩
  | @token y v Xs w vs _ value tail ih =>
    obtain ⟨_, n, act, notFinal, onward⟩ := Outlook.item_next complete item drop
    have shift : Next t sem f.final (s, y :: (w ++ x :: l)) (s.push n v, w ++ x :: l) := by
      refine .shift ?_
      have more : (w ++ x :: l).isEmpty = false := by simp
      rw [more, step_shift top act notFinal, value]
    obtain ⟨s', q', steps, pop, tops, top', item'⟩ := ih (s := s.push n v) mem rfl onward
      (by rw [← List.drop_drop, drop, List.drop_one, List.tail_cons])
      (fun z hz => known z (by simp [hz])) next
    refine ⟨s', q', .head shift steps, Stack.pop_push_of_pop pop, ?_, top', ?_⟩
    · rw [List.length_cons, Stack.top_succ_of_pop pop, tops]
    · rwa [List.length_cons, Nat.add_comm Xs.length 1, ← Nat.add_assoc]
  | @rule k v us u Xs w vs kmem body value tail ihBody ihTail =>
    obtain ⟨expands, n, onto, notFinal, onward⟩ := Outlook.item_next complete item drop
    have knownTail : ∀ z ∈ w, z.kind ∈ kinds := fun z hz => known z (by simp [hz])
    obtain ⟨y, ys, input, head⟩ :=
      Outlook.head_mem_heads complete tail knownTail next l
    have follows : y.kind ∈ o.follows k.origin.name :=
      Outlook.follows_of_drop (Outlook.rule_agrees complete mem).2.2 drop
        (List.mem_map.mpr ⟨k, kmem, rfl⟩) head
    obtain ⟨s₁, q₁, bodySteps, bodyPop, bodyTops, top₁, item₁⟩ := ihBody (l := ys) kmem top
      (Outlook.mem_items_of_expands expands kmem rfl) List.drop_zero
      (fun z hz => known z (by simp [hz])) follows
    rw [List.length_map] at bodyPop bodyTops item₁
    rw [Nat.zero_add] at item₁
    have reduce : Next t sem f.final (s₁, y :: ys) (s.push n v, y :: ys) := by
      refine .again ?_
      rw [step_reduce top₁ (Outlook.item_done complete item₁ follows) (by rwa [bodyPop]) onto,
        bodyTops, value, bodyPop]
      simp [notFinal]
    obtain ⟨s', q', steps, pop, tops, top', item'⟩ := ihTail (s := s.push n v) mem rfl onward
      (by rw [← List.drop_drop, drop, List.drop_one, List.tail_cons]) knownTail next
    rw [input] at steps
    refine ⟨s', q', ?_, Stack.pop_push_of_pop pop, ?_, top', ?_⟩
    · rw [List.append_assoc, input]
      exact bodySteps.trans (.head reduce steps)
    · rw [List.length_cons, Stack.top_succ_of_pop pop, tops]
    · rwa [List.length_cons, Nat.add_comm Xs.length 1, ← Nat.add_assoc]

theorem reads_start (complete : o.isComplete t f kinds = true) {w : List Token} {v : α}
    (h : Derives f.rules sem [f.start] w [v]) (known : ∀ y ∈ w, y.kind ∈ kinds) {e : Token}
    (isEnd : e.kind = Token.endKind) :
    ∃ s, Relation.ReflTransGen (Next t sem f.final) (⟨[f.first], []⟩, w ++ [e]) (s, [e]) ∧
      ∃ s', step t sem f.final true e s = .done (.accepted v s') := by
  have checked := complete
  simp only [Outlook.isComplete, Bool.and_eq_true, Bool.not_eq_true', beq_iff_eq] at checked
  obtain ⟨⟨⟨⟨_, expands⟩, ends⟩, notKind⟩, onto⟩ := checked
  obtain ⟨x, u, kind, rfl, _⟩ | ⟨r, u, us, mem, origin, same, body, value⟩ := h.singleton_inv
  · have fromText := known x (by simp)
    rw [← kind, ← List.contains_iff_mem, notKind] at fromText
    exact absurd fromText Bool.false_ne_true
  · obtain rfl : v = u := by simpa using same
    have follows : e.kind ∈ o.follows r.origin.name := by
      rw [isEnd, ← origin]
      exact List.contains_iff_mem.mp ends
    obtain ⟨s, q, steps, pop, tops, top, item⟩ := reads (s := ⟨[f.first], []⟩) (l := []) complete
      body mem rfl (Outlook.mem_items_of_expands expands mem origin.symm) List.drop_zero known
      follows
    rw [List.length_map] at pop tops item
    rw [Nat.zero_add] at item
    refine ⟨s, steps, (s.pop r.expansion.length).push f.final v, ?_⟩
    rw [step_reduce top (Outlook.item_done complete item follows) (by rw [pop]; rfl)
      (origin ▸ onto), tops, value]
    simp

end Machine

end AxisLang
