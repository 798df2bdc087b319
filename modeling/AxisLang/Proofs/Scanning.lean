import AxisLang.Proofs.Lexeme

/-! The scanner of expressions meets the longest-match rule. Each terminal, read from its stored
pattern, matches the longest lexeme of its kind; a scanner over any of the terminals, in any order,
finds the lexeme at the front if its kind is among them. -/
namespace AxisLang

namespace Regex

def stop : Goal := fun _ n => some n

theorem loop_chars {step : Step} {p : Char → Bool} (none : ∀ n g, step [] n g = none)
    (one : ∀ c s n g, step (c :: s) n g = if p c then g s (n + 1) else .none) (s : List Char)
    (n : Nat) {fuel : Nat} (enough : s.length ≤ fuel) :
    loop step true fuel .none s n stop = some (n + (s.takeWhile p).length) := by
  induction s generalizing n fuel with
  | nil => cases fuel <;> simp [loop, none, stop]
  | cons c s ih =>
    obtain ⟨fuel, rfl⟩ : ∃ m, fuel = m + 1 :=
      ⟨fuel - 1, by rw [List.length_cons] at enough; omega⟩
    have more := ih (n + 1) (Nat.le_of_succ_le_succ enough)
    by_cases h : p c = true
    · have onward : n + 1 ≠ n := by omega
      simp only [loop, one, h, if_true, reduceCtorEq, if_false, onward, Option.map_none, more,
        List.takeWhile_cons_of_pos, List.length_cons]
      rw [Nat.add_assoc, Nat.add_comm 1]
    · simp [loop, one, h, stop]

theorem run_rep (k : CharClass) (s : List Char) (n : Nat) :
    run (.rep (.one k) 0 none true) s n stop = some (n + (s.takeWhile k.test).length) := by
  rw [run, times]
  exact loop_chars (fun _ _ => rfl) (fun _ _ _ _ => rfl) s n (Nat.le_refl _)

theorem run_rep_succ (k : CharClass) (s : List Char) (n : Nat) :
    run (.rep (.one k) 1 none true) s n stop =
      if s.head?.any k.test then some (n + (s.takeWhile k.test).length) else none := by
  rw [run]
  cases s with
  | nil => rfl
  | cons c s =>
    simp only [times, run, List.head?_cons, Option.any_some]
    by_cases h : k.test c = true
    · simp only [h, if_true, List.takeWhile_cons_of_pos, List.length_cons, Option.map_none]
      rw [loop_chars (p := k.test) (fun _ _ => rfl) (fun _ _ _ _ => rfl) s (n + 1) (Nat.le_refl _)]
      rw [Nat.add_assoc, Nat.add_comm 1]
    · simp [h]

theorem run_one (k : CharClass) (c : Char) (s : List Char) (n : Nat) (g : Goal) :
    run (.one k) (c :: s) n g = if k.test c then g s (n + 1) else none := rfl

theorem run_seq (a b : Regex) (s : List Char) (n : Nat) (g : Goal) :
    run (.seq a b) s n g = run a s n fun s' n' => run b s' n' g := rfl

end Regex

namespace TokenKind

def plainClass (items : List ClassItem) (negated : Bool) : Regex :=
  .one ⟨items, negated, false, false⟩

def exactly (c : Char) : Regex := plainClass [.char c] false

def regex : TokenKind → Regex
  | .space =>
    .rep (plainClass [.char ' ', .char '\t', .char '\x0c', .char '\r', .char '\n'] false) 1 none true
  | .comment =>
    .seq (exactly '/') (.seq (exactly '/') (.rep (plainClass [.char '\n'] true) 0 none true))
  | .name =>
    .seq (plainClass [.range 'a' 'z', .range 'A' 'Z', .char '_'] false)
      (.rep (plainClass [.range 'a' 'z', .range 'A' 'Z', .range '0' '9', .char '_'] false) 0 none
        true)
  | k => Regex.concat ((k.mark?.getD []).map exactly)

theorem test_char (c d : Char) : CharClass.test ⟨[.char c], false, false, false⟩ d = (d == c) := by
  rw [Bool.eq_iff_iff]
  simp [CharClass.test, CharClass.hit, ClassItem.covers]

theorem test_blank : CharClass.test ⟨[.char ' ', .char '\t', .char '\x0c', .char '\r', .char '\n'],
    false, false, false⟩ = isBlank := by
  funext c
  simp [CharClass.test, CharClass.hit, ClassItem.covers, isBlank]

theorem test_comment : CharClass.test ⟨[.char '\n'], true, false, false⟩ = isCommentPart := by
  funext c
  rw [Bool.eq_iff_iff]
  simp [CharClass.test, CharClass.hit, ClassItem.covers, isCommentPart]

theorem test_nameStart : CharClass.test ⟨[.range 'a' 'z', .range 'A' 'Z', .char '_'], false, false,
    false⟩ = isNameStart := by
  funext c
  rw [Bool.eq_iff_iff]
  simp [CharClass.test, CharClass.hit, ClassItem.covers, isNameStart, or_assoc]

theorem test_namePart : CharClass.test ⟨[.range 'a' 'z', .range 'A' 'Z', .range '0' '9', .char '_'],
    false, false, false⟩ = isNamePart := by
  funext c
  rw [Bool.eq_iff_iff]
  simp [CharClass.test, CharClass.hit, ClassItem.covers, isNamePart, isNameStart, or_assoc,
    or_comm (a := c = '_')]

theorem run_exactly (c d : Char) (s : List Char) (n : Nat) (g : Regex.Goal) :
    Regex.run (exactly c) (d :: s) n g = if d = c then g s (n + 1) else none := by
  rw [exactly, plainClass, Regex.run_one, test_char]
  simp

theorem run_concat (m s : List Char) (n : Nat) :
    Regex.run (Regex.concat (m.map exactly)) s n Regex.stop =
      if m.isPrefixOf s then some (n + m.length) else none := by
  induction m generalizing s n with
  | nil => rfl
  | cons c m ih =>
    cases s with
    | nil => cases m <;> rfl
    | cons d s =>
      cases m with
      | nil =>
        rw [List.map_cons, List.map_nil, Regex.concat, run_exactly]
        by_cases h : d = c
        · simp [h, Regex.stop, List.isPrefixOf]
        · simp [h, Ne.symm h, List.isPrefixOf]
      | cons b m =>
        have eq : Regex.concat ((c :: b :: m).map exactly) =
          .seq (exactly c) (Regex.concat ((b :: m).map exactly)) := rfl
        rw [eq, Regex.run_seq, run_exactly, ih]
        by_cases h : d = c
        · simp only [h, if_true, List.isPrefixOf, beq_self_eq_true, Bool.true_and, List.length_cons]
          rw [Nat.add_assoc, Nat.add_comm 1]
        · simp [h, Ne.symm h, List.isPrefixOf]

/-- The regular expression of a kind finds the longest lexeme of the kind. -/
theorem matchLength?_regex (k : TokenKind) (s : List Char) :
    k.regex.matchLength? s = k.length? s := by
  cases k with
  | space =>
    have run := Regex.run_rep_succ ⟨[.char ' ', .char '\t', .char '\x0c', .char '\r', .char '\n'],
      false, false, false⟩ s 0
    rw [test_blank, Nat.zero_add] at run
    exact run
  | comment =>
    match s with
    | [] => rfl
    | [c] =>
      rw [Regex.matchLength?, regex, Regex.run_seq, run_exactly]
      by_cases h : c = '/'
      · subst h
        rfl
      · simp [h, length?, List.isPrefixOf]
    | c :: d :: s =>
      have body := Regex.run_rep ⟨[.char '\n'], true, false, false⟩ s 2
      rw [test_comment, Nat.add_comm] at body
      rw [Regex.matchLength?, regex, Regex.run_seq, run_exactly, Regex.run_seq, run_exactly]
      by_cases h : c = '/'
      · by_cases h' : d = '/'
        · subst h h'
          exact body
        · simp [h, h', Ne.symm h', length?, List.isPrefixOf]
      · simp [h, Ne.symm h, length?, List.isPrefixOf]
  | name =>
    cases s with
    | nil => rfl
    | cons c s =>
      have body := Regex.run_rep ⟨[.range 'a' 'z', .range 'A' 'Z', .range '0' '9', .char '_'], false,
        false, false⟩ s 1
      rw [test_namePart, Nat.add_comm] at body
      rw [Regex.matchLength?, regex, Regex.run_seq, plainClass, Regex.run_one, test_nameStart]
      by_cases h : isNameStart c = true
      · rw [if_pos h]
        simp only [length?, List.head?_cons, Option.any_some, h, if_true]
        exact body
      · simp [h, length?]
  | dots => exact (run_concat ['.', '.', '.'] s 0).trans (by simp [length?, mark?])
  | star => exact (run_concat ['*'] s 0).trans (by simp [length?, mark?])
  | comma => exact (run_concat [','] s 0).trans (by simp [length?, mark?])
  | opening => exact (run_concat ['['] s 0).trans (by simp [length?, mark?])
  | closing => exact (run_concat [']'] s 0).trans (by simp [length?, mark?])
  | arrow => exact (run_concat ['-', '>'] s 0).trans (by simp [length?, mark?])

def matcher (k : TokenKind) : Matcher := ⟨k.terminal, k.regex⟩

theorem firstMatch?_eq (ks : List TokenKind) (s : List Char) :
    Scanner.firstMatch? (ks.map matcher) s =
      ((front? s).filter fun l => ks.contains l.1).map fun l => (l.1.terminal, l.2) := by
  induction ks with
  | nil => cases front? s <;> rfl
  | cons k ks ih =>
    rw [List.map_cons, Scanner.firstMatch?, matcher, matchLength?_regex]
    cases length : k.length? s with
    | some n =>
      rw [length?_eq_some_iff.mp length]
      simp [Option.filter]
    | none =>
      rw [ih]
      cases front : front? s with
      | none => rfl
      | some l =>
        have other : l.1 ≠ k := by
          intro same
          have eq := length?_eq_some_iff.mpr front
          rw [same, length] at eq
          exact absurd eq (by simp)
        simp [Option.filter, other]

end TokenKind

end AxisLang
