import AxisLang.Proofs.LexerSteps
import AxisLang.Proofs.Scanning
import AxisLang.Proofs.Machine

/-! Reading a text with a contextual lexer.
Each state of the machine has a lexer that knows only the terminals the state can act on, and layout.
What such a lexer does at any place is told by the lexeme at the front of the text. A run over the text
is then compared with a run over the tokens of its lexemes: both give the same result, or both
fail. -/
namespace AxisLang

namespace TokenKind

def all : List TokenKind :=
  [.name, .space, .comment, .dots, .arrow, .comma, .opening, .closing, .star]

theorem mem_all (k : TokenKind) : k ∈ all := by cases k <;> decide

end TokenKind

def Cursor.past (c : Cursor) (k : TokenKind) (u : List Char) : Cursor :=
  c.feed LexState.newline k.isLayout u

theorem Cursor.past_pos (c : Cursor) (k : TokenKind) (u : List Char) :
    (c.past k u).pos = c.pos + u.length := feed_pos ..

def Cursor.pastAll : Cursor → List (TokenKind × List Char) → Cursor
  | c, [] => c
  | c, (k, u) :: ls => (c.past k u).pastAll ls

theorem Cursor.pastAll_pos (c : Cursor) (ls : List (TokenKind × List Char)) :
    (c.pastAll ls).pos = c.pos + (ls.flatMap Prod.snd).length := by
  induction ls generalizing c with
  | nil => rfl
  | cons l ls ih =>
    rw [pastAll, ih, past_pos, List.flatMap_cons, List.length_append, Nat.add_assoc]

def tokenOf (c : Cursor) (k : TokenKind) (u : List Char) : Token :=
  Lexer.endedAt (Lexer.tokenAt k.terminal ⟨u, false⟩ c) (c.past k u)

/-- The tokens of lexemes that start at a cursor; layout has none. -/
def tokensOf : Cursor → List (TokenKind × List Char) → List Token
  | _, [] => []
  | c, (k, u) :: ls =>
    if k.isLayout then tokensOf (c.past k u) ls else tokenOf c k u :: tokensOf (c.past k u) ls

theorem tokensOf_append (c : Cursor) (ls ls' : List (TokenKind × List Char)) :
    tokensOf c (ls ++ ls') = tokensOf c ls ++ tokensOf (c.pastAll ls) ls' := by
  induction ls generalizing c with
  | nil => rfl
  | cons l ls ih =>
    obtain ⟨k, u⟩ := l
    rw [List.cons_append, tokensOf, tokensOf, ih, Cursor.pastAll]
    cases k.isLayout <;> rfl

namespace LexState

def past (st : LexState) (k : TokenKind) (u : List Char) : LexState :=
  { st with cursor := st.cursor.past k u }

theorem rest_past (st : LexState) (k : TokenKind) (u : List Char) :
    (st.past k u).rest = st.rest.drop u.length := by
  rw [rest, past, Cursor.past_pos, rest, List.drop_drop]

end LexState

theorem front?_length {s : List Char} {k : TokenKind} {n : Nat} (h : front? s = some (k, n)) :
    0 < n ∧ n ≤ s.length := by
  obtain ⟨⟨u, rest, rfl, rfl, spells⟩, _⟩ :=
    TokenKind.length?_eq_some (length?_eq_some_iff.mpr h)
  obtain ⟨c, u', rfl, _⟩ := spells.ofChar
  simp

namespace Lexer

/-- Whether a lexer reads lexemes of the given kinds, passes over layout, and leaves tokens as they
are. -/
def isReading (lx : Lexer) (ks : List TokenKind) : Bool :=
  lx.scanner.toOption == some ⟨ks.map TokenKind.matcher, [], false⟩ && lx.callbacks.isEmpty &&
    !lx.bytes && TokenKind.all.all fun k =>
      lx.ignore.contains k.terminal == k.isLayout && lx.newlineKinds.contains k.terminal == k.isLayout

structure Reads (lx : Lexer) (ks : List TokenKind) : Prop where
  scanner : lx.scanner = .ok ⟨ks.map TokenKind.matcher, [], false⟩
  callbacks : lx.callbacks = []
  bytes : lx.bytes = false
  ignore : ∀ k : TokenKind, lx.ignore.contains k.terminal = k.isLayout
  newline : ∀ k : TokenKind, lx.newlineKinds.contains k.terminal = k.isLayout

theorem reads_of_isReading {lx : Lexer} {ks : List TokenKind} (h : lx.isReading ks = true) :
    lx.Reads ks := by
  simp only [isReading, Bool.and_eq_true, beq_iff_eq, List.isEmpty_iff, List.all_eq_true,
    Bool.not_eq_true'] at h
  obtain ⟨⟨⟨scanner, callbacks⟩, bytes⟩, kinds⟩ := h
  refine ⟨?_, callbacks, bytes, fun k => (kinds k k.mem_all).1, fun k => (kinds k k.mem_all).2⟩
  cases eq : lx.scanner with
  | error e => rw [eq] at scanner; exact absurd scanner (by simp [Except.toOption])
  | ok sc => rw [eq] at scanner; rw [Option.some.inj scanner]

variable {lx : Lexer} {ks : List TokenKind} {st : LexState} {place : Option ParserPlace}
  {k : TokenKind} {n : Nat}

theorem Reads.next_eq (reads : lx.Reads ks) (plain : st.text.bytes = false)
    (more : st.rest ≠ []) :
    lx.next place st =
      match (front? st.rest).filter fun l => ks.contains l.1 with
      | none => (.failed (.unexpectedChars
          (lx.unmatched ⟨ks.map TokenKind.matcher, [], false⟩ place st)), st)
      | some (k, n) =>
        if k.isLayout then lx.next place (st.past k (st.rest.take n))
        else
          (.token (tokenOf st.cursor k (st.rest.take n)),
            { st.past k (st.rest.take n) with
              last := some (tokenOf st.cursor k (st.rest.take n)) }) := by
  have inside : st.cursor.pos < st.text.length := by
    have positive := List.length_pos_of_ne_nil more
    rw [LexState.length_rest, LexState.remaining] at positive
    omega
  have kept (t : Token) : lx.settle ⟨ks.map TokenKind.matcher, [], false⟩ t = .ok (.token t) := by
    rw [settle, reads.callbacks]
    rfl
  have lexeme (n : Nat) : st.text.extract st.cursor.pos n = ⟨st.rest.take n, false⟩ := by
    rw [← plain]
    rfl
  rw [next, dif_pos inside, reads.scanner]
  simp only [plain, reads.bytes, bne_self_eq_false, Bool.false_eq_true, if_false, Scanner.scan,
    TokenKind.firstMatch?_eq, kept, lexeme]
  cases found : (front? st.rest).filter fun l => ks.contains l.1 with
  | none =>
    rw [LexState.rest] at found
    rw [found]
    rfl
  | some l =>
    obtain ⟨k, n⟩ := l
    have some : 0 < (st.rest.take n).length := by
      have bounds := front?_length (Option.filter_eq_some_iff.mp found).1
      rw [List.length_take]
      omega
    rw [LexState.rest] at found
    rw [found]
    simp only [Option.map_some, reads.ignore, reads.newline, some, dif_pos]
    rfl

theorem next_finished (empty : st.rest = []) : lx.next place st = (.finished, st) := by
  have outside : ¬ st.cursor.pos < st.text.length := by
    have none := congrArg List.length empty
    rw [LexState.length_rest, LexState.remaining, List.length_nil] at none
    omega
  rw [next, dif_neg outside]

theorem remaining_past_lt (front : front? st.rest = some (k, n)) :
    (st.past k (st.rest.take n)).remaining < st.remaining := by
  have bounds := front?_length front
  rw [← LexState.length_rest, ← LexState.length_rest, LexState.rest_past, List.length_drop,
    List.length_take]
  omega

theorem rest_ne_nil (front : front? st.rest = some (k, n)) : st.rest ≠ [] := by
  intro empty
  rw [empty] at front
  exact absurd front (by simp [front?])

theorem Reads.next_layout (reads : lx.Reads ks) (plain : st.text.bytes = false)
    (front : front? st.rest = some (k, n)) (mem : k ∈ ks) (layout : k.isLayout = true) :
    lx.next place st = lx.next place (st.past k (st.rest.take n)) := by
  rw [reads.next_eq plain (rest_ne_nil front), front, Option.filter_some_pos (by simpa using mem)]
  simp only [layout, if_true]

theorem Reads.next_token (reads : lx.Reads ks) (plain : st.text.bytes = false)
    (front : front? st.rest = some (k, n)) (mem : k ∈ ks) (layout : k.isLayout = false) :
    lx.next place st = (.token (tokenOf st.cursor k (st.rest.take n)),
      { st.past k (st.rest.take n) with last := some (tokenOf st.cursor k (st.rest.take n)) }) := by
  rw [reads.next_eq plain (rest_ne_nil front), front, Option.filter_some_pos (by simpa using mem)]
  simp only [layout, Bool.false_eq_true, if_false]

theorem Reads.next_unmatched_eq (reads : lx.Reads ks) (place : Option ParserPlace)
    (plain : st.text.bytes = false) (more : st.rest ≠ [])
    (none : ∀ k n, front? st.rest = some (k, n) → k ∉ ks) :
    lx.next place st = (.failed (.unexpectedChars
      (lx.unmatched ⟨ks.map TokenKind.matcher, [], false⟩ place st)), st) := by
  have nothing : ((front? st.rest).filter fun l => ks.contains l.1) = .none := by
    rw [Option.filter_eq_none_iff]
    intro l front
    simpa using none l.1 l.2 front
  rw [reads.next_eq plain more, nothing]

theorem Reads.next_unmatched (reads : lx.Reads ks) (place : Option ParserPlace)
    (plain : st.text.bytes = false) (more : st.rest ≠ [])
    (none : ∀ k n, front? st.rest = some (k, n) → k ∉ ks) :
    ∃ r : CharReport, r.pos = st.cursor.pos ∧
      lx.next place st = (.failed (.unexpectedChars r), st) :=
  ⟨_, rfl, reads.next_unmatched_eq place plain more none⟩

theorem Reads.next_remaining_lt (reads : lx.Reads ks) (plain : st.text.bytes = false) {t : Token}
    {st' : LexState} (h : lx.next place st = (.token t, st')) : st'.remaining < st.remaining := by
  induction size : st.remaining using Nat.strong_induction_on generalizing st with
  | _ m ih =>
    by_cases empty : st.rest = []
    · rw [next_finished empty] at h
      exact absurd (congrArg Prod.fst h) (by simp)
    · rw [reads.next_eq plain empty] at h
      cases found : (front? st.rest).filter fun l => ks.contains l.1 with
      | none =>
        rw [found] at h
        exact absurd (congrArg Prod.fst h) (by simp)
      | some l =>
        obtain ⟨k, n⟩ := l
        have less := remaining_past_lt (Option.filter_eq_some_iff.mp found).1
        simp only [found] at h
        by_cases layout : k.isLayout = true
        · rw [if_pos layout] at h
          have same : (st.past k (st.rest.take n)).text.bytes = false := plain
          have later := ih _ (size ▸ less) same h rfl
          omega
        · rw [if_neg layout] at h
          rw [← (Prod.mk.inj h).2, ← size]
          exact less

end Lexer

namespace ContextualLexer

variable {cl : ContextualLexer} {t : Table} {place : ParserPlace} {st : LexState} {k : TokenKind}
  {n : Nat}

/-- The kinds that a state of a table looks for: layout, and what it has an action for. -/
def wanted (t : Table) (q : Nat) : List TokenKind :=
  TokenKind.all.filter fun k => k.isLayout || (t.action? q k.terminal).isSome

/-- Whether every state of a table has a lexer for the kinds it looks for, and the root lexer reads
all kinds. -/
def isSuited (cl : ContextualLexer) (t : Table) : Bool :=
  cl.root.isReading TokenKind.all && t.rows.all fun row =>
    (cl.byState.lookup row.1).any fun lx => lx.isReading (wanted t row.1)

theorem root_reads (suited : cl.isSuited t = true) : cl.root.Reads TokenKind.all :=
  Lexer.reads_of_isReading (Bool.and_eq_true_iff.mp suited).1

theorem state_reads (suited : cl.isSuited t = true) (row : (t.row? place.state).isSome = true) :
    ∃ lx, cl.byState.lookup place.state = some lx ∧ lx.Reads (wanted t place.state) := by
  obtain ⟨row, eq⟩ := Option.isSome_iff_exists.mp row
  have mem : (place.state, row) ∈ t.rows := by
    obtain ⟨l₁, l₂, same, _⟩ := List.lookup_eq_some_iff.mp eq
    rw [same]
    simp
  have check := List.all_eq_true.mp (Bool.and_eq_true_iff.mp suited).2 _ mem
  obtain ⟨lx, found, reading⟩ := (Option.any_eq_true _ _).mp check
  exact ⟨lx, found, Lexer.reads_of_isReading reading⟩

theorem mem_wanted {q : Nat} :
    k ∈ wanted t q ↔ k.isLayout = true ∨ (t.action? q k.terminal).isSome = true := by
  simp [wanted, k.mem_all]

theorem next_finished (suited : cl.isSuited t = true) (row : (t.row? place.state).isSome = true)
    (empty : st.rest = []) : cl.next place st = (.finished, st) := by
  obtain ⟨lx, found, _⟩ := state_reads suited row
  rw [next, found]
  simp only [Lexer.next_finished empty]

theorem next_stray (suited : cl.isSuited t = true) (row : (t.row? place.state).isSome = true)
    (plain : st.text.bytes = false) (more : st.rest ≠ []) (front : front? st.rest = none) :
    ∃ r : CharReport, r.pos = st.cursor.pos ∧
      cl.next place st = (.failed (.unexpectedChars r), st) := by
  obtain ⟨lx, found, reads⟩ := state_reads suited row
  obtain ⟨r, pos, eq⟩ := reads.next_unmatched (some place) plain more (by simp [front])
  obtain ⟨_, _, eq'⟩ :=
    (root_reads suited).next_unmatched (some place) plain more (by simp [front])
  refine ⟨r, pos, ?_⟩
  rw [next, found]
  simp only [eq, eq']

theorem next_layout (suited : cl.isSuited t = true) (row : (t.row? place.state).isSome = true)
    (plain : st.text.bytes = false) (front : front? st.rest = some (k, n))
    (layout : k.isLayout = true) :
    cl.next place st = cl.next place (st.past k (st.rest.take n)) := by
  obtain ⟨lx, found, reads⟩ := state_reads suited row
  rw [next, next, found]
  simp only [reads.next_layout plain front (mem_wanted.mpr (.inl layout)) layout]

theorem next_token (suited : cl.isSuited t = true) (row : (t.row? place.state).isSome = true)
    (plain : st.text.bytes = false) (front : front? st.rest = some (k, n))
    (layout : k.isLayout = false) (acts : (t.action? place.state k.terminal).isSome = true) :
    cl.next place st = (.token (tokenOf st.cursor k (st.rest.take n)),
      { st.past k (st.rest.take n) with last := some (tokenOf st.cursor k (st.rest.take n)) }) := by
  obtain ⟨lx, found, reads⟩ := state_reads suited row
  rw [next, found]
  simp only [reads.next_token plain front (mem_wanted.mpr (.inr acts)) layout]

theorem next_refused (suited : cl.isSuited t = true) (row : (t.row? place.state).isSome = true)
    (plain : st.text.bytes = false) (front : front? st.rest = some (k, n))
    (layout : k.isLayout = false) (acts : t.action? place.state k.terminal = none) :
    ∃ r st', r.offender = .token (tokenOf st.cursor k (st.rest.take n)) ∧
      cl.next place st = (.failed (.unexpectedToken r), st') := by
  obtain ⟨lx, found, reads⟩ := state_reads suited row
  obtain ⟨r, _, eq⟩ := reads.next_unmatched (some place) plain (Lexer.rest_ne_nil front) (by
    intro k' n' front'
    obtain ⟨rfl, rfl⟩ := Prod.mk.inj (Option.some.inj (front.symm.trans front'))
    simp [mem_wanted, layout, acts])
  rw [next, found]
  simp only [eq, (root_reads suited).next_token plain front k.mem_all layout]
  exact ⟨_, _, rfl, rfl⟩

theorem next_remaining_lt (suited : cl.isSuited t = true)
    (row : (t.row? place.state).isSome = true) (plain : st.text.bytes = false) {x : Token}
    {st' : LexState} (h : cl.next place st = (.token x, st')) : st'.remaining < st.remaining := by
  obtain ⟨lx, found, reads⟩ := state_reads suited row
  rw [next, found] at h
  dsimp only at h
  split at h
  · split at h <;> exact absurd (congrArg Prod.fst h) (by simp)
  · exact reads.next_remaining_lt plain h

end ContextualLexer

end AxisLang
