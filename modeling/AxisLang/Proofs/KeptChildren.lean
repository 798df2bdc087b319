import AxisLang.Builder.Basic
import Mathlib.Data.List.Nodup

/-! Which children a tree keeps, read off the rule from left to right. A selection counts placeholders
ahead of the kept symbols and may build on a child's own list; what it gathers is what a walk over the
places of the rule gives, where each place is a placeholder or a symbol. -/
namespace AxisLang

namespace Selection

variable {ss : List Symbol} {s : Symbol} {cs front : List Value} {c : Value} {bs gaps : List Bool}
  {g : Gathered} {keepAll shares : Bool} {i waiting nulls : Nat}

/-- What the child of a symbol gives to the tree: nothing if the symbol is filtered and not all is kept,
its own children if the symbol is inlined, else itself. -/
def contribution (keepAll : Bool) (s : Symbol) (c : Value) : List Value :=
  if s.isFiltered && !keepAll then [] else if s.isInlined then c.children else [c]

/-- The children of the tree from left to right: null at each `true`, and at each `false` what the child
of the next symbol gives. -/
def kept (keepAll : Bool) : List Bool → List Symbol → List Value → List Value
  | true :: bs, ss, cs => .null :: kept keepAll bs ss cs
  | false :: bs, s :: ss, c :: cs => contribution keepAll s c ++ kept keepAll bs ss cs
  | _, _, _ => []

def placesOf (gaps : List Bool) (ss : List Symbol) : List Bool :=
  if gaps.isEmpty then ss.map fun _ => false else gaps

/-- Whether every inlined symbol has a tree for a child. -/
def spliceable (ss : List Symbol) (cs : List Value) : Bool :=
  (ss.zip cs).all fun p => !p.1.isInlined || p.2.isTree

def splicedIds (ss : List Symbol) (cs : List Value) : List Nat :=
  ((ss.zip cs).filter fun p => p.1.isInlined).filterMap fun p => p.2.id?

theorem isInlined_of_isFiltered (h : s.isFiltered = true) : s.isInlined = false := by
  cases s with
  | terminal => rfl
  | nonterminal => cases h

theorem isInlined_of_dropped (dropped : (keepAll || !s.isFiltered) = false) : s.isInlined = false :=
  isInlined_of_isFiltered (by simpa using (Bool.or_eq_false_iff.mp dropped).2)

theorem contribution_of_dropped (dropped : (keepAll || !s.isFiltered) = false) :
    contribution keepAll s c = [] := by
  obtain ⟨some, filtered⟩ : keepAll = false ∧ s.isFiltered = true := by simpa using dropped
  simp [contribution, some, filtered]

theorem contribution_of_stays (stays : (keepAll || !s.isFiltered) = true) :
    contribution keepAll s c = if s.isInlined then c.children else [c] := by
  cases keepAll with
  | true => simp [contribution]
  | false =>
    have plain : s.isFiltered = false := by simpa using stays
    simp [contribution, plain]

theorem spliceable_cons :
    spliceable (s :: ss) (c :: cs) = ((!s.isInlined || c.isTree) && spliceable ss cs) := by
  simp [spliceable]

theorem splicedIds_cons :
    splicedIds (s :: ss) (c :: cs) = (if s.isInlined then c.id?.toList else []) ++ splicedIds ss cs := by
  cases inlined : s.isInlined <;> cases id : c.id? <;> simp [splicedIds, inlined, id]

theorem splicedIds_sublist (one : cs.length = ss.length) :
    (splicedIds ss cs).Sublist (cs.filterMap Value.id?) := by
  have children : (ss.zip cs).map Prod.snd = cs := List.map_snd_zip (by omega)
  have ids : (ss.zip cs).filterMap (fun p => p.2.id?) = cs.filterMap Value.id? := by
    conv_rhs => rw [← children, List.filterMap_map]
    rfl
  rw [← ids]
  exact List.filter_sublist.filterMap _

theorem gapLengths_ne_nil (bs : List Bool) : gapLengths bs ≠ [] := by
  cases bs with
  | nil => simp [gapLengths]
  | cons b bs =>
    cases b with
    | false => simp [gapLengths]
    | true =>
      rw [gapLengths]
      split <;> simp

theorem plan_placeholder (keepAll : Bool) (i waiting : Nat) (bs : List Bool) (ss : List Symbol) :
    plan keepAll i waiting (gapLengths (true :: bs)) ss =
      plan keepAll i (waiting + 1) (gapLengths bs) ss := by
  obtain ⟨n, ns, lengths⟩ := List.exists_cons_of_ne_nil (gapLengths_ne_nil bs)
  have more : waiting + (n + 1) = waiting + 1 + n := by omega
  cases ss <;> simp [gapLengths, lengths, plan, more]

theorem plan_symbol (keepAll : Bool) (i waiting : Nat) (bs : List Bool) (s : Symbol) (ss : List Symbol) :
    plan keepAll i waiting (gapLengths (false :: bs)) (s :: ss) =
      if keepAll || !s.isFiltered then
        (⟨i, s.isInlined, waiting⟩ :: (plan keepAll (i + 1) 0 (gapLengths bs) ss).1,
          (plan keepAll (i + 1) 0 (gapLengths bs) ss).2)
      else plan keepAll (i + 1) waiting (gapLengths bs) ss := by
  simp [gapLengths, plan]

theorem plan_placesOf (keepAll : Bool) (gaps : List Bool) (ss : List Symbol) :
    plan keepAll i waiting (if gaps.isEmpty then [] else gapLengths gaps) ss =
      plan keepAll i waiting (gapLengths (placesOf gaps ss)) ss := by
  cases gaps with
  | cons b bs => rfl
  | nil =>
    have bare : plan keepAll i waiting [] ss =
        plan keepAll i waiting (gapLengths (ss.map fun _ => false)) ss := by
      induction ss generalizing i waiting with
      | nil => rfl
      | cons s ss ih =>
        rw [List.map_cons, plan_symbol, ← ih, ← ih]
        simp [plan]
    exact bare

/-- No list that a child still to come has for its own is the one that was gathered so far. -/
def Apart (g : Gathered) (ss : List Symbol) (cs : List Value) : Prop :=
  (g.owner.toList ++ splicedIds ss cs).Nodup

theorem Apart.skip (h : Apart g (s :: ss) (c :: cs)) : Apart g ss cs := by
  rw [Apart, splicedIds_cons] at h
  exact h.sublist ((List.sublist_append_right _ _).append_left _)

theorem Apart.owned (h : Apart g (s :: ss) (c :: cs)) (inlined : s.isInlined = true)
    (items : List Value) : Apart ⟨items, c.id?⟩ ss cs := by
  rw [Apart, splicedIds_cons, inlined] at h
  exact h.sublist (List.sublist_append_right _ _)

theorem Apart.not_owner (h : Apart g (s :: ss) (c :: cs)) (inlined : s.isInlined = true) :
    (c.id?.isSome && c.id? == g.owner) = false := by
  rw [Apart, splicedIds_cons, inlined] at h
  cases own : c.id? with
  | none => rfl
  | some i =>
    have absent : g.owner ≠ some i := by
      intro same
      rw [same, own] at h
      simp at h
    simpa using fun same => absent same.symm

theorem gatherOne_kept (shares : Bool) (front : List Value) (nulls : Nat)
    (fine : (!s.isInlined || c.isTree) = true) (apart : Apart g (s :: ss) (c :: cs)) :
    ∃ g', gatherOne shares (front ++ c :: cs) g ⟨front.length, s.isInlined, nulls⟩ = .ok g' ∧
      g'.items = g.items ++ List.replicate nulls .null ++ (if s.isInlined then c.children else [c]) ∧
      Apart g' ss cs := by
  have here : (front ++ c :: cs)[front.length]? = some c := by simp
  simp only [gatherOne, here]
  cases inlined : s.isInlined with
  | false => exact ⟨_, rfl, rfl, apart.skip⟩
  | true =>
    have other := apart.not_owner inlined
    have owned := apart.owned inlined
    cases c with
    | tree id l own sp =>
      simp only [Value.id?] at other owned
      simp only [if_true, other, Bool.false_eq_true, if_false, Value.children]
      split
      · rename_i first
        have nothing : g.items ++ List.replicate nulls Value.null = [] := by
          simpa using (Bool.and_eq_true_iff.mp first).2
        exact ⟨_, rfl, by rw [nothing, List.nil_append], owned _⟩
      · exact ⟨_, rfl, rfl, apart.skip⟩
    | _ => simp [inlined, Value.isTree] at fine

theorem gatherOne_refused (leaf : c.isTree = false) :
    gatherOne shares (front ++ c :: cs) g ⟨front.length, true, nulls⟩ = .error (.fault .attribute "") := by
  have here : (front ++ c :: cs)[front.length]? = some c := by simp
  simp only [gatherOne, here]
  cases c with
  | tree => cases leaf
  | _ => rfl

/-- What the plan of some places gathers from the children after `front`, with the placeholders at the end,
on top of what is there; `waiting` placeholders are still due. -/
def gatherFrom (keepAll shares : Bool) (front : List Value) (g : Gathered) (waiting : Nat) (bs : List Bool)
    (ss : List Symbol) (cs : List Value) : Except Error (List Value) := do
  let g' ← (plan keepAll front.length waiting (gapLengths bs) ss).1.foldlM (gatherOne shares (front ++ cs)) g
  return g'.items ++ List.replicate (plan keepAll front.length waiting (gapLengths bs) ss).2 .null

theorem gatherFrom_placeholder :
    gatherFrom keepAll shares front g waiting (true :: bs) ss cs =
      gatherFrom keepAll shares front g (waiting + 1) bs ss cs := by
  rw [gatherFrom, plan_placeholder, gatherFrom]

theorem gatherFrom_dropped (dropped : (keepAll || !s.isFiltered) = false) :
    gatherFrom keepAll shares front g waiting (false :: bs) (s :: ss) (c :: cs) =
      gatherFrom keepAll shares (front ++ [c]) g waiting bs ss cs := by
  simp only [gatherFrom, plan_symbol, dropped, Bool.false_eq_true, if_false, List.length_append,
    List.length_singleton, List.append_assoc, List.singleton_append]

theorem gatherFrom_stays (stays : (keepAll || !s.isFiltered) = true) :
    gatherFrom keepAll shares front g waiting (false :: bs) (s :: ss) (c :: cs) =
      gatherOne shares (front ++ c :: cs) g ⟨front.length, s.isInlined, waiting⟩ >>= fun g' =>
        gatherFrom keepAll shares (front ++ [c]) g' 0 bs ss cs := by
  simp only [gatherFrom, plan_symbol, stays, if_true, List.foldlM_cons, bind_assoc, List.length_append,
    List.length_singleton, List.append_assoc, List.singleton_append]

/-- The run lemma: the result is what is there, the placeholders that are due, and the walk over the
places; or the failure at an inlined symbol without a tree. -/
theorem gatherFrom_eq_walk (places : bs.count false = ss.length) (one : cs.length = ss.length)
    (apart : Apart g ss cs) :
    gatherFrom keepAll shares front g waiting bs ss cs =
      if spliceable ss cs then .ok (g.items ++ List.replicate waiting .null ++ kept keepAll bs ss cs)
      else .error (.fault .attribute "") := by
  induction bs generalizing ss cs front g waiting with
  | nil =>
    obtain rfl := List.eq_nil_of_length_eq_zero places.symm
    obtain rfl := List.eq_nil_of_length_eq_zero one
    simp only [gatherFrom, plan, gapLengths, List.foldlM_nil, pure_bind, kept, List.append_nil]
    rfl
  | cons b bs ih =>
    cases b with
    | true =>
      rw [gatherFrom_placeholder, ih (by simpa using places) one apart, kept, List.replicate_succ']
      simp only [List.append_assoc, List.singleton_append]
    | false =>
      cases ss with
      | nil => simp at places
      | cons s ss =>
        cases cs with
        | nil => simp at one
        | cons c cs =>
          have places' : bs.count false = ss.length := by simpa using places
          have one' : cs.length = ss.length := by simpa using one
          rw [spliceable_cons, kept]
          cases stays : keepAll || !s.isFiltered with
          | false =>
            rw [gatherFrom_dropped stays, ih places' one' apart.skip, contribution_of_dropped stays,
              isInlined_of_dropped stays]
            rfl
          | true =>
            rw [gatherFrom_stays stays, contribution_of_stays stays]
            cases fine : !s.isInlined || c.isTree with
            | false =>
              obtain ⟨inlined, leaf⟩ : s.isInlined = true ∧ c.isTree = false := by simpa using fine
              rw [inlined, gatherOne_refused leaf]
              rfl
            | true =>
              obtain ⟨g', taken, items, apart'⟩ := gatherOne_kept shares front waiting fine apart
              have later := @ih ss cs (front ++ [c]) g' 0 places' one' apart'
              rw [items, List.replicate_zero, List.append_nil, List.append_assoc] at later
              rw [taken, Bool.true_and]
              exact later

def planned (keepAll shares : Bool) (bs : List Bool) (ss : List Symbol) : Selection where
  picks := (plan keepAll 0 0 (gapLengths bs) ss).1
  nullsAfter := (plan keepAll 0 0 (gapLengths bs) ss).2
  shares := shares

theorem gather_planned (keepAll shares : Bool) (places : bs.count false = ss.length) (one : cs.length = ss.length)
    (distinct : (splicedIds ss cs).Nodup) :
    (planned keepAll shares bs ss).gather cs =
      if spliceable ss cs then .ok (kept keepAll bs ss cs) else .error (.fault .attribute "") :=
  @gatherFrom_eq_walk ss cs [] bs {} keepAll shares 0 places one distinct

theorem map_expand_plan (keepAll : Bool) (i waiting : Nat) (lengths : List Nat) (ss : List Symbol) :
    (plan keepAll i waiting lengths ss).1.map Pick.expand =
      (ss.filter fun s => keepAll || !s.isFiltered).map Symbol.isInlined := by
  induction ss generalizing i waiting lengths with
  | nil => rfl
  | cons s ss ih =>
    rw [plan, List.filter_cons]
    split
    · rw [List.map_cons, List.map_cons, ih]
    · exact ih _ _ _

theorem kept_eq_self (one : cs.length = ss.length)
    (whole : ∀ s ∈ ss, (keepAll || !s.isFiltered) = true ∧ s.isInlined = false) :
    kept keepAll (ss.map fun _ => false) ss cs = cs := by
  induction ss generalizing cs with
  | nil => exact (List.eq_nil_of_length_eq_zero one).symm
  | cons s ss ih =>
    cases cs with
    | nil => simp at one
    | cons c cs =>
      rw [List.forall_mem_cons] at whole
      have itself : contribution keepAll s c = [c] := by
        rw [contribution_of_stays whole.1.1, whole.1.2]
        rfl
      rw [List.map_cons, kept, itself, ih (by simpa using one) whole.2]
      rfl

theorem spliceable_of_whole (whole : ∀ s ∈ ss, s.isInlined = false) : spliceable ss cs = true := by
  rw [spliceable, List.all_eq_true]
  intro p mem
  rw [whole p.1 (List.of_mem_zip mem).1]
  rfl

theorem notMem_placesOf (none : true ∉ gaps) : true ∉ placesOf gaps ss := by
  cases gaps with
  | nil => simp [placesOf]
  | cons b bs => exact none

theorem count_placesOf (places : gaps = [] ∨ gaps.count false = ss.length) :
    (placesOf gaps ss).count false = ss.length := by
  cases gaps with
  | nil => simp [placesOf]
  | cons b bs => simpa [placesOf] using places

theorem ofRule?_cases (keepAll ambiguous : Bool) (places : gaps = [] ∨ gaps.count false = ss.length) :
    ofRule? ss keepAll ambiguous gaps = .ok (some (planned keepAll (!ambiguous) (placesOf gaps ss) ss)) ∨
      ofRule? ss keepAll ambiguous gaps = .ok none ∧ gaps = [] ∧
        ∀ s ∈ ss, (keepAll || !s.isFiltered) = true ∧ s.isInlined = false := by
  have fits : (!gaps.isEmpty && gaps.count false != ss.length) = false := by
    rcases places with rfl | places
    · rfl
    · simp [places]
  simp only [ofRule?, fits, Bool.false_eq_true, if_false, plan_placesOf]
  split
  · exact .inl rfl
  · rename_i whole
    simp only [Bool.or_eq_true, Bool.not_eq_true', decide_eq_true_eq, not_or, Nat.not_lt] at whole
    obtain ⟨⟨empty, long⟩, flat⟩ := whole
    have picks := map_expand_plan keepAll 0 0 (gapLengths (placesOf gaps ss)) ss
    have lengths := congrArg List.length picks
    rw [List.length_map, List.length_map] at lengths
    -- as many picks as symbols: none was filtered
    have stay := List.length_filter_eq_length_iff.mp
      (Nat.le_antisymm (List.length_filter_le _ _) (lengths ▸ long))
    rw [List.filter_eq_self.mpr stay] at picks
    refine .inr ⟨rfl, by simpa using empty, fun s mem => ⟨stay s mem, ?_⟩⟩
    obtain ⟨p, among, expand⟩ := List.mem_map.mp (picks ▸ List.mem_map_of_mem (f := Symbol.isInlined) mem)
    rw [← expand]
    simpa using fun inlined => flat (List.any_eq_true.mpr ⟨p, among, inlined⟩)

def copying (s : Selection) : Selection := { s with shares := false }

def sharing (s : Selection) : Selection := { s with shares := true }

def bare (s : Selection) : Selection where
  picks := s.picks.map fun p => { p with nulls := 0 }
  nullsAfter := 0
  shares := true

theorem bare_planned (places : bs.count false = ss.length) (none : true ∉ bs) :
    (planned keepAll shares bs ss).bare = (planned keepAll shares bs ss).sharing := by
  have plain : ∀ i, (plan keepAll i 0 (gapLengths bs) ss).1.map (fun p => { p with nulls := 0 }) =
      (plan keepAll i 0 (gapLengths bs) ss).1 ∧ (plan keepAll i 0 (gapLengths bs) ss).2 = 0 := by
    induction bs generalizing ss with
    | nil =>
      obtain rfl := List.eq_nil_of_length_eq_zero places.symm
      exact fun _ => ⟨rfl, rfl⟩
    | cons b bs ih =>
      cases b with
      | true => simp at none
      | false =>
        cases ss with
        | nil => simp at places
        | cons s ss =>
          intro i
          obtain ⟨picks, after⟩ := ih (by simpa using places) (by simpa using none) (i + 1)
          rw [plan_symbol]
          split
          · exact ⟨by rw [List.map_cons, picks], after⟩
          · exact ⟨picks, after⟩
  simp only [bare, sharing, planned, plain]

end Selection

def Builder.selecting (sel : Option Selection) (f : NodeBuilder) : NodeBuilder :=
  match sel with
  | some s => select s f
  | none => f

namespace Selection

/-- A tree keeps what the walk over the places of its rule gives. The rule's selection, or none, hands the
walk's children on to the builder behind it; it fails only at an inlined symbol whose child is no tree. The
three ways to gather give the same: with a list of its own, on the list of the first inlined child, and,
where no placeholder is due, without counting placeholders. -/
theorem selecting_eq_walk (ss : List Symbol) (keepAll ambiguous : Bool) (gaps : List Bool) (cs : List Value)
    (places : gaps = [] ∨ gaps.count false = ss.length) (one : cs.length = ss.length)
    (distinct : (cs.filterMap Value.id?).Nodup) :
    ∃ sel, ofRule? ss keepAll ambiguous gaps = .ok sel ∧
      (∀ f, Builder.selecting sel f cs =
        if spliceable ss cs then f (kept keepAll (placesOf gaps ss) ss cs)
        else .error (.fault .attribute "")) ∧
      ∀ s, sel = some s → s.shares = !ambiguous ∧ s.copying.gather cs = s.sharing.gather cs ∧
        (true ∉ gaps → s.bare.gather cs = s.sharing.gather cs) := by
  have places' := count_placesOf places
  have gathers (shares : Bool) := gather_planned keepAll shares places' one
    (distinct.sublist (splicedIds_sublist one))
  rcases ofRule?_cases keepAll ambiguous places with chosen | ⟨chosen, rfl, whole⟩
  · refine ⟨_, chosen, ?_, ?_⟩
    · intro f
      rw [Builder.selecting, Builder.select, gathers]
      cases spliceable ss cs <;> rfl
    · rintro s ⟨⟩
      refine ⟨rfl, (gathers false).trans (gathers true).symm, ?_⟩
      intro none
      rw [bare_planned places' (notMem_placesOf none)]
  · refine ⟨none, chosen, ?_, ?_⟩
    · intro f
      rw [spliceable_of_whole fun s mem => (whole s mem).2]
      exact congrArg f (kept_eq_self one whole).symm
    · intro s absent
      cases absent

def sampleSymbols : List Symbol :=
  [.nonterminal ⟨"_head", false⟩, .terminal "COMMA" true, .nonterminal ⟨"item", false⟩,
    .nonterminal ⟨"_tail", false⟩, .terminal "NAME" false]

def sampleChildren : List Value :=
  [.tree (some 0) ⟨"_head", false⟩ [.int 1] {}, .str ",", .tree (some 1) ⟨"item", false⟩ [.int 2] {},
    .tree (some 2) ⟨"_tail", false⟩ [.int 3, .int 4] {}, .str "x"]

theorem isInlined_sampleSymbols :
    sampleSymbols.map Symbol.isInlined = [true, false, false, true, false] := by
  decide +kernel

theorem selecting_eq_walk_sample :
    [false, true, false, false, true, true, false, false, true].count false = sampleSymbols.length ∧
      sampleChildren.length = sampleSymbols.length ∧ (sampleChildren.filterMap Value.id?).Nodup ∧
      ∃ sel, ofRule? sampleSymbols false false [false, true, false, false, true, true, false, false, true] =
          .ok sel ∧
        ∀ f, Builder.selecting sel f sampleChildren =
          f [.int 1, .null, .tree (some 1) ⟨"item", false⟩ [.int 2] {}, .null, .null, .int 3, .int 4, .str "x",
            .null] := by
  obtain ⟨sel, chosen, handed, _⟩ := selecting_eq_walk sampleSymbols false false
    [false, true, false, false, true, true, false, false, true] sampleChildren (.inr rfl) rfl (by decide)
  refine ⟨rfl, rfl, by decide, sel, chosen, ?_⟩
  intro f
  have inlined := isInlined_sampleSymbols
  simp only [sampleSymbols, List.map_cons, List.map_nil, List.cons.injEq, and_true] at inlined
  rw [handed f]
  simp [spliceable, kept, contribution, placesOf, sampleSymbols, sampleChildren, inlined, Symbol.isFiltered,
    Value.isTree, Value.children]

end Selection

end AxisLang
