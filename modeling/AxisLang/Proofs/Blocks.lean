import AxisLang.Lexer.Indentation

/-! Blocks by indentation are balanced, and no token is lost.
A line end outside of brackets either opens one block or closes some of them, and its marks say so: one
for the block that it opens, or one for each that it closes. So the marks before any place count the
blocks that are open there, and the end closes what is left. The indentations of the open blocks grow
from 0 at all times. -/
namespace AxisLang

structure IndentState.Sound (s : IndentState) : Prop where
  growing : s.levels.Pairwise (· > ·)
  bottom : s.levels.getLast? = some 0

namespace IndentRules

def nesting (r : IndentRules) (t : Token) : Int :=
  if r.opens.contains t.kind then 1 else if r.closes.contains t.kind then -1 else 0

/-- How many brackets are open after the tokens. -/
def depthAfter (r : IndentRules) : List Token → Int
  | [] => 0
  | t :: ts => r.nesting t + r.depthAfter ts

/-- The tokens without the line ends inside of brackets; `before` are the tokens before them. -/
def outside (r : IndentRules) (before : List Token) : List Token → List Token
  | [] => []
  | t :: ts =>
    if t.kind = r.newline ∧ 0 < r.depthAfter before then r.outside (before ++ [t]) ts
    else t :: r.outside (before ++ [t]) ts

def isIndent (r : IndentRules) (t : Token) : Bool := t.kind == r.indent

def isDedent (r : IndentRules) (t : Token) : Bool := t.kind == r.dedent

def isMark (r : IndentRules) (t : Token) : Bool := r.isIndent t || r.isDedent t

/-- How many of the blocks that tokens open they leave open. -/
def opened (r : IndentRules) (ts : List Token) : Int :=
  ts.countP r.isIndent - ts.countP r.isDedent

/-- The state in which the token after these is read, unless one of these is refused. -/
def stateAfter? (r : IndentRules) (s : IndentState) : List Token → Option IndentState
  | [] => some s
  | t :: ts =>
    if (r.step s t).error.isSome then none else r.stateAfter? (r.step s t).state ts

/-- What a line end does to the blocks: it opens one that is indented further, or closes some, but not
the outermost. The marks tell which. -/
inductive Shift (r : IndentRules) : List Int → List Token → List Int → Prop
  | deeper {column top : Int} {levels : List Int} {mark : Token} (further : top < column)
      (kind : mark.kind = r.indent) : Shift r (top :: levels) [mark] (column :: top :: levels)
  | closing {n : Nat} {levels : List Int} {mark : Token} (inner : n < levels.length)
      (kind : mark.kind = r.dedent) : Shift r levels (List.replicate n mark) (levels.drop n)

end IndentRules

namespace IndentState

variable {s : IndentState} {column : Int}

theorem sound_reset (s : IndentState) : s.reset.Sound :=
  ⟨List.pairwise_singleton _ _, rfl⟩

theorem Sound.drop (h : s.Sound) {n : Nat} (inner : n < s.levels.length) (depth : Int) :
    Sound ⟨depth, s.levels.drop n⟩ where
  growing := h.growing.drop
  bottom := by
    have open_ : ¬ s.levels.length ≤ n := by omega
    rw [List.getLast?_drop, if_neg open_, h.bottom]

theorem Sound.deeper {top : Int} {levels : List Int} (h : s.Sound) (eq : s.levels = top :: levels)
    (further : top < column) (depth : Int) : Sound ⟨depth, column :: top :: levels⟩ where
  growing := by
    have growing := h.growing
    rw [eq] at growing
    refine List.pairwise_cons.mpr ⟨?_, growing⟩
    intro level mem
    rcases List.mem_cons.mp mem with rfl | mem
    · exact further
    · have below := (List.pairwise_cons.mp growing).1 level mem
      omega
  bottom := by
    have bottom := h.bottom
    rw [eq] at bottom
    rw [List.getLast?_cons_cons, bottom]

theorem Sound.levels_ne_nil (h : s.Sound) : s.levels ≠ [] := by
  intro empty
  have bottom := h.bottom
  simp [empty] at bottom

theorem Sound.exists_kept (h : s.Sound) (nonneg : 0 ≤ column) :
    ∃ top rest, s.levels.dropWhile (column < ·) = top :: rest ∧
      (column = top ↔ column ∈ s.levels) := by
  have parts := List.takeWhile_append_dropWhile (p := (column < ·)) (l := s.levels)
  have closed : ∀ level ∈ s.levels.takeWhile (column < ·), column < level := by
    intro level mem
    simpa using List.all_eq_true.mp (List.all_takeWhile (p := (column < ·))) level mem
  cases kept : s.levels.dropWhile (column < ·) with
  | nil =>
    -- the outermost block is never closed, because its column is 0
    have zero : (0 : Int) ∈ s.levels := List.mem_of_getLast? h.bottom
    rw [kept, List.append_nil] at parts
    rw [← parts] at zero
    have above := closed 0 zero
    omega
  | cons top rest =>
    refine ⟨top, rest, rfl, ?_⟩
    rw [kept] at parts
    have stays : ¬ column < top := by
      have head := List.head?_dropWhile_not (column < ·) s.levels
      rw [kept] at head
      simpa using head
    have growing := h.growing
    rw [← parts, List.pairwise_append] at growing
    rw [← parts, List.mem_append, List.mem_cons]
    constructor
    · intro same
      exact .inr (.inl same)
    · rintro (mem | same | mem)
      · have above := closed column mem
        omega
      · exact same
      · have below := (List.pairwise_cons.mp growing.2.1).1 column mem
        omega

end IndentState

namespace IndentRules

variable {r : IndentRules} {s : IndentState} {t : Token} {a b : List Char}

theorem Shift.sound {marks : List Token} {levels : List Int} (h : r.Shift s.levels marks levels)
    (sound : s.Sound) (depth : Int) : IndentState.Sound ⟨depth, levels⟩ := by
  generalize before : s.levels = start at h
  cases h with
  | deeper further kind => exact sound.deeper before further depth
  | closing inner kind =>
    subst before
    exact sound.drop inner depth

theorem Shift.nothing (sound : s.Sound) : r.Shift s.levels [] s.levels := by
  have inner : 0 < s.levels.length := List.length_pos_iff.mpr sound.levels_ne_nil
  have kind : (Token.borrow r.dedent ⟨[], false⟩ default).kind = r.dedent := rfl
  exact .closing inner kind

theorem closeBlocks_eq (column : Int) (levels : List Int) :
    closeBlocks column levels =
      ((levels.takeWhile (column < ·)).length, levels.dropWhile (column < ·)) := by
  induction levels with
  | nil => rfl
  | cons level levels ih =>
    by_cases h : column < level
    · simp [closeBlocks, h, ih]
    · simp [closeBlocks, h]

theorem lastLine_eq (last : '\n' ∉ b) : lastLine (a ++ '\n' :: b) = b := by
  have back : (a ++ '\n' :: b).reverse = b.reverse ++ '\n' :: a.reverse := by simp
  have free : ∀ c ∈ b.reverse, decide (c ≠ '\n') = true := by
    intro c mem
    have other : c ≠ '\n' := by
      rintro rfl
      exact last (List.mem_reverse.mp mem)
    simpa using other
  rw [lastLine, back, List.takeWhile_append_of_pos free]
  simp

theorem columnOf_nonneg (width : 0 ≤ r.tabWidth) (cs : List Char) : 0 ≤ r.columnOf cs := by
  have tabs : 0 ≤ (cs.count '\t' : Int) * r.tabWidth := Int.mul_nonneg (by omega) width
  unfold columnOf
  omega

theorem atNewline_eq (width : 0 ≤ r.tabWidth) (sound : s.Sound) (free : s.depth ≤ 0)
    (content : t.content = a ++ '\n' :: b) (last : '\n' ∉ b) {top : Int} {levels : List Int}
    (stack : s.levels = top :: levels) :
    r.atNewline s t =
      if top < r.columnOf b then
        ⟨[t, Token.borrow r.indent ⟨b, false⟩ t], none, { s with levels := r.columnOf b :: s.levels }⟩
      else
        ⟨t :: List.replicate (s.levels.takeWhile (r.columnOf b < ·)).length
            (Token.borrow r.dedent ⟨b, false⟩ t),
          if r.columnOf b ∈ s.levels then none
          else some (.dedent (r.columnOf b) ((s.levels.dropWhile (r.columnOf b < ·)).headD 0)),
          { s with levels := s.levels.dropWhile (r.columnOf b < ·) }⟩ := by
  have outer : ¬ 0 < s.depth := by omega
  have broken : (a ++ '\n' :: b).contains '\n' = true := by simp
  obtain ⟨top', rest, kept, mem⟩ := sound.exists_kept (columnOf_nonneg width b)
  rw [stack] at kept mem
  unfold atNewline
  simp only [outer, if_false, content, broken, Bool.not_true, Bool.false_eq_true, lastLine_eq last,
    stack, closeBlocks_eq]
  by_cases further : top < r.columnOf b
  · simp only [further, if_true]
  · simp only [further, if_false, kept, mem, List.headD_cons]

theorem atNewline_cases (width : 0 ≤ r.tabWidth) (sound : s.Sound) (t : Token) :
    (0 < s.depth ∧ r.atNewline s t = ⟨[], none, s⟩) ∨
      (s.depth ≤ 0 ∧ ∃ marks levels, (r.atNewline s t).tokens = t :: marks ∧
        (r.atNewline s t).state = { s with levels } ∧ r.Shift s.levels marks levels) := by
  by_cases inside : 0 < s.depth
  · left
    simp [atNewline, inside]
  · right
    have free : s.depth ≤ 0 := by omega
    refine ⟨free, ?_⟩
    by_cases broken : '\n' ∈ t.content
    · obtain ⟨a, b, content, last⟩ := exists_last_newline broken
      obtain ⟨top, levels, stack⟩ := List.exists_cons_of_ne_nil sound.levels_ne_nil
      rw [atNewline_eq width sound free content last stack]
      by_cases further : top < r.columnOf b
      · rw [if_pos further]
        refine ⟨_, _, rfl, rfl, ?_⟩
        rw [stack]
        exact .deeper further rfl
      · rw [if_neg further]
        refine ⟨_, _, rfl, rfl, ?_⟩
        -- as many blocks are closed as are indented further, and one is left
        obtain ⟨top', rest, kept, _⟩ := sound.exists_kept (columnOf_nonneg width b)
        have parts := List.takeWhile_append_dropWhile (p := (r.columnOf b < ·)) (l := s.levels)
        have dropped := congrArg (List.drop (s.levels.takeWhile (r.columnOf b < ·)).length) parts
        rw [List.drop_left] at dropped
        have inner : (s.levels.takeWhile (r.columnOf b < ·)).length < s.levels.length := by
          have total := congrArg List.length parts
          rw [kept, List.length_append, List.length_cons] at total
          omega
        rw [dropped]
        exact .closing inner rfl
    · have unbroken : t.content.contains '\n' = false := by simpa using broken
      refine ⟨[], s.levels, ?_, ?_, Shift.nothing sound⟩
      · simp only [atNewline, inside, if_false, unbroken, Bool.not_false, if_true]
      · simp only [atNewline, inside, if_false, unbroken, Bool.not_false, if_true]

theorem atBracket_tokens (x : Indented) : (r.atBracket t x).tokens = x.tokens := by
  unfold atBracket
  repeat' split
  all_goals rfl

theorem atBracket_levels (x : Indented) : (r.atBracket t x).state.levels = x.state.levels := by
  unfold atBracket
  repeat' split
  all_goals rfl

theorem atBracket_depth {x : Indented} (h : (r.atBracket t x).error = none) :
    (r.atBracket t x).state.depth = x.state.depth + r.nesting t := by
  unfold atBracket at h ⊢
  unfold nesting
  by_cases refused : x.error.isSome = true
  · rw [if_pos refused] at h
    simp [h] at refused
  · by_cases opening : r.opens.contains t.kind = true
    · simp only [refused, opening, Bool.false_eq_true, if_true, if_false]
    · by_cases closing : r.closes.contains t.kind = true
      · simp only [refused, opening, closing, Bool.false_eq_true, if_true, if_false]
        omega
      · simp only [refused, opening, closing, Bool.false_eq_true, if_false]
        omega

/-- All that a token can do: a line end inside of brackets is dropped, every other token is passed on
before the marks of a shift of the blocks. -/
theorem step_cases (width : 0 ≤ r.tabWidth) (sound : s.Sound) (t : Token) :
    ((t.kind = r.newline ∧ 0 < s.depth) ∧ (r.step s t).tokens = [] ∧
        (r.step s t).state.levels = s.levels) ∨
      (¬ (t.kind = r.newline ∧ 0 < s.depth) ∧ ∃ marks, (r.step s t).tokens = t :: marks ∧
        r.Shift s.levels marks (r.step s t).state.levels) := by
  simp only [step, atBracket_tokens, atBracket_levels]
  by_cases newline : t.kind = r.newline
  · rw [if_pos newline]
    rcases atNewline_cases width sound t with ⟨inside, eq⟩ | ⟨free, marks, levels, tokens, state, shift⟩
    · left
      simp [newline, inside, eq]
    · right
      refine ⟨by omega, marks, tokens, ?_⟩
      rw [state]
      exact shift
  · right
    rw [if_neg newline]
    exact ⟨by simp [newline], [], rfl, Shift.nothing sound⟩

theorem step_depth (width : 0 ≤ r.tabWidth) (sound : s.Sound) (h : (r.step s t).error = none) :
    (r.step s t).state.depth = s.depth + r.nesting t := by
  unfold step at h ⊢
  rw [atBracket_depth h]
  by_cases newline : t.kind = r.newline
  · rw [if_pos newline]
    rcases atNewline_cases width sound t with ⟨_, eq⟩ | ⟨_, marks, levels, _, state, _⟩
    · rw [eq]
    · rw [state]
  · rw [if_neg newline]

theorem sound_step (width : 0 ≤ r.tabWidth) (sound : s.Sound) (t : Token) :
    (r.step s t).state.Sound := by
  rcases step_cases width sound t with ⟨_, _, same⟩ | ⟨_, marks, _, shift⟩
  · exact ⟨same ▸ sound.growing, same ▸ sound.bottom⟩
  · exact shift.sound sound _

theorem sound_stateAfter? (width : 0 ≤ r.tabWidth) (sound : s.Sound) {ts : List Token}
    {st : IndentState} (h : r.stateAfter? s ts = some st) : st.Sound := by
  induction ts generalizing s with
  | nil =>
    obtain rfl := Option.some.inj h
    exact sound
  | cons t ts ih =>
    unfold stateAfter? at h
    by_cases refused : (r.step s t).error.isSome = true
    · simp [refused] at h
    · rw [if_neg refused] at h
      exact ih (sound_step width sound t) h

theorem depth_stateAfter? (width : 0 ≤ r.tabWidth) (sound : s.Sound) {ts : List Token}
    {st : IndentState} (h : r.stateAfter? s ts = some st) : st.depth = s.depth + r.depthAfter ts := by
  induction ts generalizing s with
  | nil =>
    obtain rfl := Option.some.inj h
    simp [depthAfter]
  | cons t ts ih =>
    unfold stateAfter? at h
    by_cases refused : (r.step s t).error.isSome = true
    · simp [refused] at h
    · rw [if_neg refused] at h
      have passed : (r.step s t).error = none := by simpa using refused
      rw [ih (sound_step width sound t) h, step_depth width sound passed, depthAfter]
      omega

theorem finish_eq (sound : s.Sound) :
    r.finish s = ⟨List.replicate (s.levels.length - 1) { kind := r.dedent, text := ⟨[], false⟩ }, none,
      { s with levels := [0] }⟩ := by
  have some := List.length_pos_iff.mpr sound.levels_ne_nil
  have bottom : s.levels.drop (s.levels.length - 1) = [0] := by
    have last := (sound.drop (n := s.levels.length - 1) (by omega) s.depth).bottom
    have one : (s.levels.drop (s.levels.length - 1)).length = 1 := by
      rw [List.length_drop]
      omega
    obtain ⟨level, eq⟩ := List.length_eq_one_iff.mp one
    simp only [eq, List.getLast?_singleton] at last ⊢
    rw [Option.some.inj last]
  unfold finish
  simp only [bottom, if_true]

theorem finish_shift (sound : s.Sound) :
    r.Shift s.levels (r.finish s).tokens (r.finish s).state.levels := by
  have inner : s.levels.length - 1 < s.levels.length := by
    have some := List.length_pos_iff.mpr sound.levels_ne_nil
    omega
  exact .closing inner rfl

section Marks

variable {levels levels' : List Int} {marks ts us : List Token}

theorem opened_nil : r.opened [] = 0 := rfl

theorem opened_append (ts us : List Token) : r.opened (ts ++ us) = r.opened ts + r.opened us := by
  simp only [opened, List.countP_append]
  omega

theorem opened_cons (unmarked : r.isMark t = false) (ts : List Token) :
    r.opened (t :: ts) = r.opened ts := by
  unfold isMark at unmarked
  rw [Bool.or_eq_false_iff] at unmarked
  simp [opened, unmarked]

theorem opened_replicate (apart : r.indent ≠ r.dedent) {mark : Token} (kind : mark.kind = r.dedent)
    (n : Nat) : r.opened (List.replicate n mark) = -n := by
  have other : r.isIndent mark = false := by simp [isIndent, kind, Ne.symm apart]
  have dedent : r.isDedent mark = true := by simp [isDedent, kind]
  simp [opened, List.countP_replicate, other, dedent]

theorem opened_single (apart : r.indent ≠ r.dedent) {mark : Token} (kind : mark.kind = r.indent) :
    r.opened [mark] = 1 := by
  have indent : r.isIndent mark = true := by simp [isIndent, kind]
  have other : r.isDedent mark = false := by simp [isDedent, kind, apart]
  simp [opened, indent, other]

theorem Shift.height (h : r.Shift levels marks levels') (apart : r.indent ≠ r.dedent) :
    (levels.length : Int) + r.opened marks = levels'.length := by
  cases h with
  | deeper further kind =>
    rw [opened_single apart kind]
    simp
  | closing inner kind =>
    rw [opened_replicate apart kind, List.length_drop]
    omega

theorem Shift.positive (h : r.Shift levels marks levels') (apart : r.indent ≠ r.dedent) (k : Nat) :
    1 ≤ (levels.length : Int) + r.opened (marks.take k) := by
  cases h with
  | @deeper column top levels mark further kind =>
    have some : 1 ≤ ((top :: levels).length : Int) := by
      rw [List.length_cons]
      omega
    cases k with
    | zero =>
      rw [List.take_zero, opened_nil]
      omega
    | succ k =>
      rw [List.take_succ_cons, List.take_nil, opened_single apart kind]
      omega
  | @closing n levels mark inner kind =>
    rw [List.take_replicate, opened_replicate apart kind]
    omega

theorem Shift.isMark (h : r.Shift levels marks levels') : ∀ m ∈ marks, r.isMark m = true := by
  intro m mem
  cases h with
  | deeper further kind =>
    obtain rfl := List.mem_singleton.mp mem
    simp [IndentRules.isMark, isIndent, kind]
  | closing inner kind =>
    obtain rfl := List.eq_of_mem_replicate mem
    simp [IndentRules.isMark, isDedent, kind]

theorem step_height (apart : r.indent ≠ r.dedent) (width : 0 ≤ r.tabWidth) (sound : s.Sound)
    (unmarked : r.isMark t = false) :
    (s.levels.length : Int) + r.opened (r.step s t).tokens = (r.step s t).state.levels.length ∧
      ∀ k, 1 ≤ (s.levels.length : Int) + r.opened ((r.step s t).tokens.take k) := by
  have some : 1 ≤ (s.levels.length : Int) := by
    have pos := List.length_pos_iff.mpr sound.levels_ne_nil
    omega
  rcases step_cases width sound t with ⟨_, tokens, same⟩ | ⟨_, marks, tokens, shift⟩
  · rw [tokens, same]
    refine ⟨by simp [opened], ?_⟩
    intro k
    simpa [opened] using some
  · rw [tokens]
    constructor
    · rw [opened_cons unmarked]
      exact shift.height apart
    · intro k
      cases k with
      | zero =>
      rw [List.take_zero, opened_nil]
      omega
      | succ k =>
        rw [List.take_succ_cons, opened_cons unmarked]
        exact shift.positive apart k

theorem run_height (apart : r.indent ≠ r.dedent) (width : 0 ≤ r.tabWidth) (sound : s.Sound)
    (unmarked : ∀ t ∈ ts, r.isMark t = false) :
    (∀ k, 1 ≤ (s.levels.length : Int) + r.opened ((r.processFrom s ts).tokens.take k)) ∧
      ((r.processFrom s ts).error = none →
        (s.levels.length : Int) + r.opened (r.processFrom s ts).tokens = 1) := by
  induction ts generalizing s with
  | nil =>
    have shift := finish_shift (r := r) sound
    refine ⟨shift.positive apart, ?_⟩
    intro _
    rw [processFrom, shift.height apart, finish_eq sound]
    rfl
  | cons t ts ih =>
    rw [List.forall_mem_cons] at unmarked
    obtain ⟨total, positive⟩ := step_height apart width sound unmarked.1
    obtain ⟨later, atEnd⟩ := ih (sound_step width sound t) unmarked.2
    unfold processFrom
    by_cases refused : (r.step s t).error.isSome = true
    · simp only [refused, if_true]
      refine ⟨positive, ?_⟩
      intro passed
      simp [passed] at refused
    · simp only [refused, Bool.false_eq_true, if_false]
      constructor
      · intro k
        -- a place among the marks of the first token, or one after all of them
        rw [List.take_append, opened_append]
        by_cases among : k ≤ (r.step s t).tokens.length
        · have none : k - (r.step s t).tokens.length = 0 := by omega
          have here := positive k
          rw [none, List.take_zero]
          simp only [opened, List.countP_nil] at here ⊢
          omega
        · rw [List.take_of_length_le (by omega)]
          have there := later (k - (r.step s t).tokens.length)
          omega
      · intro passed
        have rest := atEnd passed
        rw [opened_append]
        omega

theorem depthAfter_append (ts us : List Token) :
    r.depthAfter (ts ++ us) = r.depthAfter ts + r.depthAfter us := by
  induction ts with
  | nil => simp [depthAfter]
  | cons t ts ih =>
    rw [List.cons_append, depthAfter, depthAfter, ih]
    omega

theorem run_unmarked (width : 0 ≤ r.tabWidth) (sound : s.Sound) {before : List Token}
    (depth : s.depth = r.depthAfter before) (unmarked : ∀ t ∈ ts, r.isMark t = false)
    (passed : (r.processFrom s ts).error = none) :
    (r.processFrom s ts).tokens.filter (fun t => !r.isMark t) = r.outside before ts := by
  induction ts generalizing s before with
  | nil =>
    have marks := (finish_shift (r := r) sound).isMark
    rw [processFrom, outside, List.filter_eq_nil_iff]
    intro m mem
    simp [marks m mem]
  | cons t ts ih =>
    rw [List.forall_mem_cons] at unmarked
    unfold processFrom at passed ⊢
    by_cases refused : (r.step s t).error.isSome = true
    · simp only [refused, if_true] at passed
      simp [passed] at refused
    · simp only [refused, Bool.false_eq_true, if_false] at passed ⊢
      have onward : (r.step s t).state.depth = r.depthAfter (before ++ [t]) := by
        have one : r.depthAfter [t] = r.nesting t + 0 := rfl
        rw [step_depth width sound (by simpa using refused), depthAfter_append, one]
        omega
      have later := ih (sound_step width sound t) onward unmarked.2 passed
      rw [List.filter_append, later, outside, ← depth]
      rcases step_cases width sound t with ⟨inside, tokens, _⟩ | ⟨free, marks, tokens, shift⟩
      · rw [if_pos inside, tokens]
        rfl
      · have none : marks.filter (fun t => !r.isMark t) = [] := by
          rw [List.filter_eq_nil_iff]
          intro m mem
          simp [shift.isMark m mem]
        rw [if_neg free, tokens]
        simp [unmarked.1, none]

end Marks

section Refusals

variable {ts us : List Token} {st : IndentState}

theorem stateAfter?_append (r : IndentRules) (s : IndentState) (ts us : List Token) :
    r.stateAfter? s (ts ++ us) = (r.stateAfter? s ts).bind fun st => r.stateAfter? st us := by
  induction ts generalizing s with
  | nil => rfl
  | cons t ts ih =>
    rw [List.cons_append, stateAfter?, stateAfter?]
    by_cases refused : (r.step s t).error.isSome = true
    · simp only [refused, if_true, Option.bind_none]
    · simp only [refused, Bool.false_eq_true, if_false]
      exact ih _

theorem error_append (h : r.stateAfter? s ts = some st) (us : List Token) :
    (r.processFrom s (ts ++ us)).error = (r.processFrom st us).error := by
  induction ts generalizing s with
  | nil =>
    obtain rfl := Option.some.inj h
    rfl
  | cons t ts ih =>
    unfold stateAfter? at h
    rw [List.cons_append, processFrom]
    by_cases refused : (r.step s t).error.isSome = true
    · simp [refused] at h
    · simp only [refused, Bool.false_eq_true, if_false] at h ⊢
      exact ih h

theorem error_of_refused (refused : (r.step s t).error.isSome = true) (ts : List Token) :
    (r.processFrom s (t :: ts)).error = (r.step s t).error := by
  simp only [processFrom, refused, if_true]

theorem error_eq_none (width : 0 ≤ r.tabWidth) (sound : s.Sound)
    (h : r.stateAfter? s ts = some st) : (r.processFrom s ts).error = none := by
  have ended := error_append h []
  rw [List.append_nil] at ended
  rw [ended, processFrom, finish_eq (sound_stateAfter? width sound h)]

theorem atBracket_dedent (x : Indented) (column expected : Int) :
    (r.atBracket t x).error = some (.dedent column expected) ↔
      x.error = some (.dedent column expected) := by
  unfold atBracket
  by_cases refused : x.error.isSome = true
  · rw [if_pos refused]
  · have none : x.error = none := by simpa using refused
    rw [if_neg refused]
    repeat' split
    all_goals simp_all

theorem step_dedent_iff (width : 0 ≤ r.tabWidth) (sound : s.Sound) (newline : t.kind = r.newline)
    (free : s.depth = 0) (content : t.content = a ++ '\n' :: b) (last : '\n' ∉ b) :
    (∃ column expected, (r.step s t).error = some (.dedent column expected)) ↔
      ∃ top, s.levels.head? = some top ∧ r.columnOf b < top ∧ r.columnOf b ∉ s.levels := by
  obtain ⟨top, levels, stack⟩ := List.exists_cons_of_ne_nil sound.levels_ne_nil
  have outer : s.depth ≤ 0 := by omega
  simp only [step, newline, if_true, atBracket_dedent,
    atNewline_eq width sound outer content last stack]
  have first : s.levels.head? = some top := by rw [stack]; rfl
  have own : top ∈ s.levels := by simp [stack]
  by_cases further : top < r.columnOf b
  · have not_below : ¬ r.columnOf b < top := by omega
    simp [further, first, not_below]
  · by_cases mem : r.columnOf b ∈ s.levels
    · simp [further, mem]
    · have other : r.columnOf b ≠ top := by
        rintro eq
        exact mem (eq ▸ own)
      have below : r.columnOf b < top := by omega
      simp [further, mem, first, below]

end Refusals

structure LineEnd (r : IndentRules) (s : IndentState) (before : List Token) (st : IndentState)
    (t : Token) (blanks : List Char) : Prop where
  reached : r.stateAfter? s before = some st
  kind : t.kind = r.newline
  free : r.depthAfter before = 0
  breaks : ∃ line, t.content = line ++ '\n' :: blanks
  last : '\n' ∉ blanks

/-- Blocks are balanced, no token is lost, and the indentations grow from 0 wherever a run comes to,
also while it closes blocks, so that a run whose tokens all pass ends without an error. A line end is
refused for its indentation just if it goes back to a column between those of open blocks. -/
theorem process_balances_blocks (s : IndentState) (ts : List Token) :
    (∀ before st, before <+: ts → standard.stateAfter? s.reset before = some st →
      (∀ k < st.levels.length, IndentState.Sound { st with levels := st.levels.drop k }) ∧
        (standard.processAfter s before).error = none) ∧
    ((∀ t ∈ ts, standard.isMark t = false) → (standard.processAfter s ts).error = none →
      (standard.processAfter s ts).tokens.filter (fun t => !standard.isMark t) =
          standard.outside [] ts ∧
        (∀ part, part <+: (standard.processAfter s ts).tokens →
          part.countP standard.isDedent ≤ part.countP standard.isIndent) ∧
        (standard.processAfter s ts).tokens.countP standard.isDedent =
          (standard.processAfter s ts).tokens.countP standard.isIndent) ∧
    ∀ before t after st blanks, ts = before ++ t :: after →
      standard.LineEnd s.reset before st t blanks →
        ((standard.stateAfter? s.reset (before ++ [t]) = none ∧
            ∃ column expected,
              (standard.processAfter s ts).error = some (.dedent column expected)) ↔
          ∃ top, st.levels.head? = some top ∧
            ((blanks.count ' ' + 8 * blanks.count '\t' : Nat) : Int) < top ∧
            ((blanks.count ' ' + 8 * blanks.count '\t' : Nat) : Int) ∉ st.levels) := by
  have width : 0 ≤ standard.tabWidth := by decide
  have apart : standard.indent ≠ standard.dedent := by decide
  have sound := s.sound_reset
  refine ⟨?_, ?_, ?_⟩
  · intro before st _ reached
    refine ⟨?_, error_eq_none width sound reached⟩
    intro k inner
    exact (sound_stateAfter? width sound reached).drop inner st.depth
  · intro unmarked passed
    obtain ⟨positive, total⟩ := run_height apart width sound unmarked
    have one : (s.reset.levels.length : Int) = 1 := rfl
    refine ⟨run_unmarked width sound rfl unmarked passed, ?_, ?_⟩
    · intro part front
      unfold processAfter at front
      have here := positive part.length
      rw [← List.prefix_iff_eq_take.mp front, one, opened] at here
      omega
    · have atEnd := total passed
      rw [one, opened] at atEnd
      unfold processAfter
      omega
  · rintro before t after st blanks rfl ⟨reached, kind, free, ⟨line, content⟩, last⟩
    have column : ((blanks.count ' ' + 8 * blanks.count '\t' : Nat) : Int) =
        standard.columnOf blanks := by
      have tab : standard.tabWidth = 8 := rfl
      rw [columnOf, tab]
      omega
    have depth : st.depth = 0 := by
      rw [depth_stateAfter? width sound reached, free]
      rfl
    have sound' := sound_stateAfter? width sound reached
    rw [column, ← step_dedent_iff width sound' kind depth content last, processAfter,
      error_append reached, stateAfter?_append, reached, Option.bind_some, stateAfter?]
    -- the run stops at this token just if the step refuses it, and then with the error of the step
    by_cases refused : (standard.step st t).error.isSome = true
    · rw [error_of_refused refused, if_pos refused]
      simp
    · have passed : (standard.step st t).error = none := by simpa using refused
      simp [passed, stateAfter?]

def sampleToken (kind text : String) : Token := { kind, text := Text.ofString text }

def nestedStream : List Token :=
  [sampleToken "NAME" "if", sampleToken "_NEWLINE" "\n  \t", sampleToken "LPAR" "(", sampleToken "_NEWLINE" "\n",
    sampleToken "RPAR" ")", sampleToken "_NEWLINE" "\n\n            ", sampleToken "NAME" "x",
    sampleToken "_NEWLINE" "\n", sampleToken "NAME" "y"]

def strayStream : List Token :=
  [sampleToken "_NEWLINE" "\n\t", sampleToken "NAME" "x", sampleToken "_NEWLINE" "\n   "]

theorem process_balances_blocks_nested :
    ((∀ t ∈ nestedStream, standard.isMark t = false) ∧
      (standard.processAfter ⟨3, [7]⟩ nestedStream).error = none ∧
      (standard.processAfter ⟨3, [7]⟩ nestedStream).tokens.filter (fun t => !standard.isMark t) =
        standard.outside [] nestedStream ∧
      (standard.processAfter ⟨3, [7]⟩ nestedStream).tokens.countP standard.isDedent =
        (standard.processAfter ⟨3, [7]⟩ nestedStream).tokens.countP standard.isIndent) ∧
    standard.LineEnd {} (strayStream.take 2) ⟨0, [8, 0]⟩ (sampleToken "_NEWLINE" "\n   ") [' ', ' ', ' '] ∧
    ∃ column expected,
      (standard.processAfter ⟨3, [7]⟩ strayStream).error = some (.dedent column expected) := by
  have unmarked : ∀ t ∈ nestedStream, standard.isMark t = false := by decide +kernel
  have passed : (standard.processAfter ⟨3, [7]⟩ nestedStream).error = none := by decide +kernel
  obtain ⟨kept, _, total⟩ := (process_balances_blocks ⟨3, [7]⟩ nestedStream).2.1 unmarked passed
  have lineEnd : standard.LineEnd {} (strayStream.take 2) ⟨0, [8, 0]⟩ (sampleToken "_NEWLINE" "\n   ")
      [' ', ' ', ' '] := by
    refine ⟨by decide +kernel, rfl, by decide +kernel, ⟨[], by decide +kernel⟩, by decide⟩
  have refused := (process_balances_blocks ⟨3, [7]⟩ strayStream).2.2 (strayStream.take 2)
    (sampleToken "_NEWLINE" "\n   ") [] ⟨0, [8, 0]⟩ [' ', ' ', ' '] rfl lineEnd
  exact ⟨⟨unmarked, passed, kept, total⟩, lineEnd, (refused.mpr ⟨8, rfl, by decide, by decide⟩).2⟩

end IndentRules

end AxisLang
