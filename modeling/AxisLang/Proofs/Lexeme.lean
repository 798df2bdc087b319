import AxisLang.Expression.Grammar
import AxisLang.Proofs.Lists
import Mathlib.Data.List.TakeWhile

/-! The lexemes of expressions: which texts belong to each kind, and how a text is cut into the
longest of them from left to right. The first character of a lexeme tells its kind, so at most one kind
fits at any place and the order in which kinds are tried does not matter. -/
namespace AxisLang

inductive TokenKind where
  | space
  | comment
  | name
  | dots
  | star
  | comma
  | opening
  | closing
  | arrow
deriving DecidableEq, Repr, Inhabited

namespace TokenKind

def terminal : TokenKind → String
  | .space => "WS"
  | .comment => "COMMENT"
  | .name => "__ANON_0"
  | .dots => "__ANON_1"
  | .star => "STAR"
  | .comma => "COMMA"
  | .opening => "LSQB"
  | .closing => "RSQB"
  | .arrow => "__ANON_2"

def isLayout : TokenKind → Bool
  | .space => true
  | .comment => true
  | _ => false

def mark? : TokenKind → Option (List Char)
  | .dots => some ['.', '.', '.']
  | .star => some ['*']
  | .comma => some [',']
  | .opening => some ['[']
  | .closing => some [']']
  | .arrow => some ['-', '>']
  | _ => none

end TokenKind

def isBlank (c : Char) : Bool :=
  [' ', '\t', '\x0c', '\r', '\n'].contains c

def isNameStart (c : Char) : Bool :=
  ('a' ≤ c && c ≤ 'z') || ('A' ≤ c && c ≤ 'Z') || c == '_'

def isNamePart (c : Char) : Bool :=
  isNameStart c || ('0' ≤ c && c ≤ '9')

def isCommentPart (c : Char) : Bool :=
  c != '\n'

namespace TokenKind

def Spells : TokenKind → List Char → Prop
  | .space, u => u ≠ [] ∧ ∀ c ∈ u, isBlank c = true
  | .comment, u => ∃ body, u = '/' :: '/' :: body ∧ ∀ c ∈ body, isCommentPart c = true
  | .name, u => ∃ c rest, u = c :: rest ∧ isNameStart c = true ∧ ∀ d ∈ rest, isNamePart d = true
  | k, u => k.mark? = some u

def ofChar? (c : Char) : Option TokenKind :=
  if isBlank c then some .space
  else if isNameStart c then some .name
  else if c = '/' then some .comment
  else if c = '.' then some .dots
  else if c = '*' then some .star
  else if c = ',' then some .comma
  else if c = '[' then some .opening
  else if c = ']' then some .closing
  else if c = '-' then some .arrow
  else none

/-- The length of the longest lexeme of a kind at the front of a text. -/
def length? (k : TokenKind) (s : List Char) : Option Nat :=
  match k with
  | .space => if s.head?.any isBlank then some (s.takeWhile isBlank).length else none
  | .comment =>
    if ['/', '/'].isPrefixOf s then some (((s.drop 2).takeWhile isCommentPart).length + 2) else none
  | .name =>
    if s.head?.any isNameStart then some (((s.drop 1).takeWhile isNamePart).length + 1) else none
  | k => k.mark?.bind fun u => if u.isPrefixOf s then some u.length else none

theorem not_isBlank_of_isNameStart {c : Char} (h : isNameStart c = true) : isBlank c = false := by
  by_contra blank
  simp only [isBlank, Bool.not_eq_false, List.contains_iff_mem, List.mem_cons, List.not_mem_nil,
    or_false] at blank
  rcases blank with rfl | rfl | rfl | rfl | rfl <;> exact absurd h (by decide)

theorem Spells.ofChar {k : TokenKind} {u : List Char} (h : k.Spells u) :
    ∃ c u', u = c :: u' ∧ ofChar? c = some k := by
  cases k with
  | space =>
    obtain ⟨c, u', rfl⟩ := List.exists_cons_of_ne_nil h.1
    exact ⟨c, u', rfl, by simp [ofChar?, h.2 c (by simp)]⟩
  | comment =>
    obtain ⟨body, rfl, _⟩ := h
    exact ⟨'/', '/' :: body, rfl, by decide⟩
  | name =>
    obtain ⟨c, u', rfl, start, _⟩ := h
    exact ⟨c, u', rfl, by simp [ofChar?, start, not_isBlank_of_isNameStart start]⟩
  | _ =>
    obtain rfl := Option.some.inj h
    exact ⟨_, _, rfl, by decide⟩

theorem space_length? {s : List Char} {n : Nat} :
    length? .space s = some n ↔ s.head?.any isBlank = true ∧ (s.takeWhile isBlank).length = n := by
  simp only [length?, Option.ite_none_right_eq_some, Option.some.injEq]

theorem comment_length? {s : List Char} {n : Nat} :
    length? .comment s = some n ↔
      ∃ t, s = '/' :: '/' :: t ∧ (t.takeWhile isCommentPart).length + 2 = n := by
  simp only [length?, Option.ite_none_right_eq_some, Option.some.injEq, List.isPrefixOf_iff_prefix]
  constructor
  · rintro ⟨⟨t, rfl⟩, rfl⟩
    exact ⟨t, rfl, rfl⟩
  · rintro ⟨t, rfl, rfl⟩
    exact ⟨⟨t, rfl⟩, rfl⟩

theorem name_length? {s : List Char} {n : Nat} :
    length? .name s = some n ↔
      ∃ c t, s = c :: t ∧ isNameStart c = true ∧ (t.takeWhile isNamePart).length + 1 = n := by
  simp only [length?, Option.ite_none_right_eq_some, Option.some.injEq]
  cases s with
  | nil => simp
  | cons c t => simp [and_assoc]

theorem mark_length? {k : TokenKind} {m s : List Char} {n : Nat} (h : k.mark? = some m) :
    k.length? s = some n ↔ m <+: s ∧ m.length = n := by
  have eq : k.length? s = if m.isPrefixOf s then some m.length else none := by
    cases k <;> simp only [mark?, reduceCtorEq, Option.some.injEq] at h <;> subst h <;> rfl
  rw [eq, Option.ite_none_right_eq_some, Option.some.injEq, List.isPrefixOf_iff_prefix]

theorem length?_eq_some {k : TokenKind} {s : List Char} {n : Nat} (h : k.length? s = some n) :
    (∃ u rest, s = u ++ rest ∧ u.length = n ∧ k.Spells u) ∧
      ∀ u, k.Spells u → u <+: s → u.length ≤ n := by
  cases k with
  | space =>
    obtain ⟨start, rfl⟩ := space_length?.mp h
    refine ⟨⟨s.takeWhile isBlank, s.dropWhile isBlank, ?_, rfl, ?_, fun _ => List.mem_takeWhile_imp⟩, ?_⟩
    · exact List.takeWhile_append_dropWhile.symm
    · cases s with
      | nil => simp at start
      | cons c s => simp only [List.head?_cons, Option.any_some] at start; simp [start]
    · exact fun u spells front => length_le_takeWhile front spells.2
  | comment =>
    obtain ⟨t, rfl, rfl⟩ := comment_length?.mp h
    refine ⟨⟨'/' :: '/' :: t.takeWhile isCommentPart, t.dropWhile isCommentPart, ?_, rfl, ?_⟩, ?_⟩
    · simp
    · exact ⟨_, rfl, fun _ => List.mem_takeWhile_imp⟩
    · rintro u ⟨body, rfl, all⟩ front
      simp only [List.cons_prefix_cons, true_and] at front
      have bound := length_le_takeWhile front all
      simp only [List.length_cons]
      omega
  | name =>
    obtain ⟨c, t, rfl, start, rfl⟩ := name_length?.mp h
    refine ⟨⟨c :: t.takeWhile isNamePart, t.dropWhile isNamePart, ?_, rfl, ?_⟩, ?_⟩
    · simp
    · exact ⟨c, _, rfl, start, fun _ => List.mem_takeWhile_imp⟩
    · rintro u ⟨d, rest, rfl, _, all⟩ front
      rw [List.cons_prefix_cons] at front
      have bound := length_le_takeWhile front.2 all
      simp only [List.length_cons]
      omega
  | _ =>
    obtain ⟨⟨rest, rfl⟩, rfl⟩ := (mark_length? rfl).mp h
    refine ⟨⟨_, rest, rfl, rfl, rfl⟩, fun u spells _ => ?_⟩
    exact Nat.le_of_eq (congrArg List.length (Option.some.inj spells)).symm

theorem length?_eq_none {k : TokenKind} {s u : List Char} (h : k.length? s = none)
    (spells : k.Spells u) : ¬ u <+: s := by
  intro front
  obtain ⟨rest, rfl⟩ := front
  have none : ∀ n, k.length? (u ++ rest) ≠ some n := by simp [h]
  cases k with
  | space =>
    obtain ⟨c, u', rfl⟩ := List.exists_cons_of_ne_nil spells.1
    exact none _ (space_length?.mpr ⟨by simp [spells.2 c (by simp)], rfl⟩)
  | comment =>
    obtain ⟨body, rfl, _⟩ := spells
    exact none _ (comment_length?.mpr ⟨body ++ rest, rfl, rfl⟩)
  | name =>
    obtain ⟨c, u', rfl, start, _⟩ := spells
    exact none _ (name_length?.mpr ⟨c, u' ++ rest, rfl, start, rfl⟩)
  | _ => exact none _ ((mark_length? spells).mpr ⟨List.prefix_append u rest, rfl⟩)

end TokenKind

/-- The lexeme at the front of a text, by its kind and length. -/
def front? (s : List Char) : Option (TokenKind × Nat) :=
  (s.head?.bind TokenKind.ofChar?).bind fun k => (k.length? s).map fun n => (k, n)

/-- The kind of a lexeme is told by its first character, so a kind has a length just where it is the
kind of the front. -/
theorem length?_eq_some_iff {k : TokenKind} {s : List Char} {n : Nat} :
    k.length? s = some n ↔ front? s = some (k, n) := by
  constructor
  · intro h
    obtain ⟨⟨u, rest, rfl, rfl, spells⟩, _⟩ := TokenKind.length?_eq_some h
    obtain ⟨c, u', rfl, kind⟩ := spells.ofChar
    have first : (c :: u' ++ rest).head?.bind TokenKind.ofChar? = some k := kind
    rw [front?, first, Option.bind_some, h, Option.map_some]
  · intro h
    obtain ⟨k', _, h⟩ := Option.bind_eq_some_iff.mp h
    obtain ⟨n', length, same⟩ := Option.map_eq_some_iff.mp h
    obtain ⟨rfl, rfl⟩ := Prod.mk.inj same
    exact length

structure Longest (k : TokenKind) (u s : List Char) : Prop where
  spells : k.Spells u
  front : u <+: s
  longest : ∀ k' u', TokenKind.Spells k' u' → u' <+: s → u'.length ≤ u.length

theorem longest_iff {k : TokenKind} {u s : List Char} :
    Longest k u s ↔ u <+: s ∧ front? s = some (k, u.length) := by
  constructor
  · rintro ⟨spells, front, longest⟩
    refine ⟨front, length?_eq_some_iff.mp ?_⟩
    cases length : k.length? s with
    | none => exact absurd front (TokenKind.length?_eq_none length spells)
    | some n =>
      obtain ⟨⟨u', rest, rfl, rfl, spells'⟩, most⟩ := TokenKind.length?_eq_some length
      have below := most u spells front
      have above := longest k u' spells' (List.prefix_append u' rest)
      rw [Nat.le_antisymm below above]
  · rintro ⟨front, eq⟩
    obtain ⟨⟨u', rest, rfl, same, spells⟩, most⟩ :=
      TokenKind.length?_eq_some (length?_eq_some_iff.mpr eq)
    have inside : u <+: u' :=
      List.prefix_of_prefix_length_le front (List.prefix_append u' rest) (Nat.le_of_eq same.symm)
    obtain rfl : u = u' := inside.eq_of_length same.symm
    refine ⟨spells, front, fun k' w spells' front' => ?_⟩
    obtain ⟨c, u₁, rfl, kind⟩ := spells.ofChar
    obtain ⟨d, w₁, rfl, kind'⟩ := spells'.ofChar
    -- both lexemes begin with the first character of the text, so they are of one kind
    obtain rfl : d = c := by simpa using List.cons_prefix_cons.mp front' |>.1
    obtain rfl : k' = k := Option.some.inj (kind'.symm.trans kind)
    exact most _ spells' front'

/-- A text cut from left to right into lexemes, each the longest where it stands. -/
inductive Cut : List Char → List (TokenKind × List Char) → Prop
  | nil : Cut [] []
  | cons {k u s ls} (longest : Longest k u (u ++ s)) (rest : Cut s ls) :
      Cut (u ++ s) ((k, u) :: ls)

theorem Cut.nil_inv {ls : List (TokenKind × List Char)} {s : List Char} (h : Cut s ls)
    (empty : s = []) : ls = [] := by
  cases h with
  | nil => rfl
  | cons longest _ =>
    obtain ⟨c, u', rfl, _⟩ := longest.spells.ofChar
    simp at empty

theorem Cut.front_inv {ls : List (TokenKind × List Char)} {s : List Char} {k : TokenKind} {n : Nat}
    (h : Cut s ls) (front : front? s = some (k, n)) :
    ∃ ls', ls = (k, s.take n) :: ls' ∧ Cut (s.drop n) ls' := by
  cases h with
  | nil => simp [front?] at front
  | @cons k' u s ls longest rest =>
    obtain ⟨_, eq⟩ := longest_iff.mp longest
    obtain ⟨rfl, rfl⟩ := Prod.mk.inj (Option.some.inj (eq.symm.trans front))
    exact ⟨ls, by simp, by simpa using rest⟩

theorem Cut.front_isSome {ls : List (TokenKind × List Char)} {s : List Char} (h : Cut s ls)
    (some : s ≠ []) : (front? s).isSome = true := by
  cases h with
  | nil => exact absurd rfl some
  | cons longest _ => simp [(longest_iff.mp longest).2]

theorem Cut.of_front {ls : List (TokenKind × List Char)} {s : List Char} {k : TokenKind} {n : Nat}
    (front : front? s = some (k, n)) (h : Cut (s.drop n) ls) : Cut s ((k, s.take n) :: ls) := by
  obtain ⟨⟨u, rest, rfl, rfl, _⟩, _⟩ := TokenKind.length?_eq_some (length?_eq_some_iff.mpr front)
  simp only [List.take_left, List.drop_left] at h ⊢
  exact .cons (longest_iff.mpr ⟨List.prefix_append u rest, front⟩) h

/-- A text cut in the same way up to a place, with the text that is left there. -/
inductive CutTo : List Char → List (TokenKind × List Char) → List Char → Prop
  | nil {s} : CutTo s [] s
  | cons {k u s ls rest} (longest : Longest k u (u ++ s)) (later : CutTo s ls rest) :
      CutTo (u ++ s) ((k, u) :: ls) rest

theorem CutTo.of_front {ls : List (TokenKind × List Char)} {s rest : List Char} {k : TokenKind}
    {n : Nat} (front : front? s = some (k, n)) (h : CutTo (s.drop n) ls rest) :
    CutTo s ((k, s.take n) :: ls) rest := by
  obtain ⟨⟨u, r, rfl, rfl, _⟩, _⟩ := TokenKind.length?_eq_some (length?_eq_some_iff.mpr front)
  simp only [List.take_left, List.drop_left] at h ⊢
  exact .cons (longest_iff.mpr ⟨List.prefix_append u r, front⟩) h

theorem CutTo.cut {ls : List (TokenKind × List Char)} {s rest : List Char} (h : CutTo s ls rest)
    (empty : rest = []) : Cut s ls := by
  induction h with
  | nil => exact empty ▸ .nil
  | cons longest _ ih => exact .cons longest (ih empty)

theorem CutTo.text {ls : List (TokenKind × List Char)} {s rest : List Char} (h : CutTo s ls rest) :
    s = ls.flatMap Prod.snd ++ rest := by
  induction h with
  | nil => rfl
  | cons _ _ ih => rw [List.flatMap_cons, List.append_assoc, ← ih]

theorem CutTo.split {ls ls' : List (TokenKind × List Char)} {s rest : List Char}
    (h : CutTo s ls rest) (whole : Cut s ls') : ∃ more, ls' = ls ++ more ∧ Cut rest more := by
  induction h generalizing ls' with
  | nil => exact ⟨ls', rfl, whole⟩
  | @cons k u s ls rest longest _ ih =>
    obtain ⟨ls₁, rfl, after⟩ := whole.front_inv (longest_iff.mp longest).2
    simp only [List.take_left, List.drop_left] at after ⊢
    obtain ⟨more, rfl, cut⟩ := ih after
    exact ⟨more, rfl, cut⟩

theorem Cut.unique {ls ls' : List (TokenKind × List Char)} {s : List Char} (h : Cut s ls)
    (h' : Cut s ls') : ls = ls' := by
  induction h generalizing ls' with
  | nil => exact (h'.nil_inv rfl).symm
  | @cons k u s ls longest _ ih =>
    obtain ⟨ls₁, rfl, rest⟩ := h'.front_inv (longest_iff.mp longest).2
    simp only [List.take_left, List.drop_left] at rest ⊢
    rw [ih rest]

end AxisLang
