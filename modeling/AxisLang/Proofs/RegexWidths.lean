import AxisLang.Proofs.Results
import AxisLang.Terminal.Pattern

/-! The least width of a regular expression.
Whatever an expression matches is at least as long as its least width, so an expression whose least
width is not zero never matches nothing. The widths do not depend on the flags under which a text is
read, apart from the one that lets blanks be passed over. -/
namespace AxisLang

namespace Regex

/-- Whatever the step finds, it takes at least so many characters of the text and hands on the rest. -/
def Takes (least : Nat) (step : Step) : Prop :=
  ∀ s n k m, step s n k = some m →
    ∃ j, least ≤ j ∧ j ≤ s.length ∧ k (s.drop j) (n + j) = some m

section Matching

variable {step : Step} {least : Nat}

theorem takes_times (h : Takes least step) (count : Nat) : Takes (least * count) (times step count) := by
  induction count with
  | zero =>
    intro s n k m found
    exact ⟨0, by omega, by omega, by simpa [times] using found⟩
  | succ count ih =>
    intro s n k m found
    rw [times] at found
    obtain ⟨i, enough, inside, later⟩ := h s n _ m found
    obtain ⟨j, enough', inside', last⟩ := ih _ _ k m later
    rw [List.drop_drop] at last
    rw [List.length_drop] at inside'
    refine ⟨i + j, ?_, by omega, by rw [← Nat.add_assoc]; exact last⟩
    rw [Nat.mul_succ]
    omega

theorem takes_loop (h : Takes least step) (greedy : Bool) (fuel : Nat) (most : Option Nat) :
    Takes 0 (loop step greedy fuel most) := by
  induction fuel generalizing most with
  | zero =>
    intro s n k m found
    exact ⟨0, by omega, by omega, by simpa [loop] using found⟩
  | succ fuel ih =>
    intro s n k m found
    have stop (now : k s n = some m) :
        ∃ j, 0 ≤ j ∧ j ≤ s.length ∧ k (s.drop j) (n + j) = some m :=
      ⟨0, by omega, by omega, by simpa using now⟩
    -- a further round is followed by the rest of the loop, or by the goal if it took nothing
    have more (round : (step s n fun s' n' => if n' = n then k s' n'
          else loop step greedy fuel (most.map (· - 1)) s' n' k) = some m) :
        ∃ j, 0 ≤ j ∧ j ≤ s.length ∧ k (s.drop j) (n + j) = some m := by
      obtain ⟨i, _, inside, later⟩ := h s n _ m round
      split at later
      · exact ⟨i, by omega, inside, later⟩
      · obtain ⟨j, _, inside', last⟩ := ih (most.map (· - 1)) _ _ k m later
        rw [List.drop_drop] at last
        rw [List.length_drop] at inside'
        exact ⟨i + j, by omega, by omega, by rw [← Nat.add_assoc]; exact last⟩
    unfold loop at found
    split at found
    · exact stop found
    · cases greedy with
      | true =>
        simp only [if_true] at found
        split at found
        · rename_i round
          exact more (round.trans found)
        · exact stop found
      | false =>
        simp only [Bool.false_eq_true, if_false] at found
        split at found
        · rename_i now
          exact stop (now.trans found)
        · exact more found

/-- By induction over the expression: a match is at least as long as the least width. -/
theorem takes_run (r : Regex) : Takes r.widths.1 r.run := by
  induction r with
  | empty =>
    intro s n k m found
    exact ⟨0, by simp [widths], by omega, by simpa [run] using found⟩
  | one c =>
    intro s n k m found
    cases s with
    | nil => simp [run] at found
    | cons d s =>
      simp only [run] at found
      split at found
      · exact ⟨1, by simp [widths], by simp, by simpa using found⟩
      · simp at found
  | seq a b iha ihb =>
    intro s n k m found
    obtain ⟨i, enough, inside, later⟩ := iha s n _ m found
    obtain ⟨j, enough', inside', last⟩ := ihb _ _ k m later
    rw [List.drop_drop] at last
    rw [List.length_drop] at inside'
    refine ⟨i + j, ?_, by omega, by rw [← Nat.add_assoc]; exact last⟩
    simp only [widths]
    omega
  | alt a b iha ihb =>
    intro s n k m found
    simp only [run] at found
    have first : a.widths.1 ≥ (alt a b).widths.1 := Nat.min_le_left _ _
    have second : b.widths.1 ≥ (alt a b).widths.1 := Nat.min_le_right _ _
    split at found
    · rename_i way
      obtain ⟨j, enough, rest⟩ := iha s n k m (way.trans found)
      exact ⟨j, by omega, rest⟩
    · obtain ⟨j, enough, rest⟩ := ihb s n k m found
      exact ⟨j, by omega, rest⟩
  | rep body least most greedy ih =>
    intro s n k m found
    rw [run] at found
    obtain ⟨i, enough, inside, later⟩ := takes_times ih least s n _ m found
    obtain ⟨j, _, inside', last⟩ := takes_loop ih greedy _ _ _ _ k m later
    rw [List.drop_drop] at last
    rw [List.length_drop] at inside'
    refine ⟨i + j, ?_, by omega, by rw [← Nat.add_assoc]; exact last⟩
    simp only [widths]
    omega

theorem matchLength?_bounds {r : Regex} {s : List Char} {n : Nat} (h : r.matchLength? s = some n) :
    r.widths.1 ≤ n ∧ n ≤ s.length := by
  obtain ⟨j, enough, inside, last⟩ := takes_run r s 0 _ n h
  have same : 0 + j = n := Option.some.inj last
  omega

end Matching

section Reading

/-- What reading tells of widths: those of the expression read, and the text left. -/
def sized (x : Except RegexFault (Regex × List Char)) :
    Except RegexFault ((Nat × Nat) × List Char) :=
  x.map fun p => (p.1.widths, p.2)

variable {f g : RegexFlags} {s : List Char}

theorem sized_bind {α β : Type} {key : α → β} {x y : Except RegexFault α}
    {k k' : α → Except RegexFault (Regex × List Char)} (h : x.map key = y.map key)
    (next : ∀ p q, key p = key q → sized (k p) = sized (k' q)) :
    sized (x >>= k) = sized (y >>= k') :=
  map_bind_congr h next

theorem sized_literal (f g : RegexFlags) (x : Except RegexFault (Char × List Char)) :
    sized (x >>= fun p => pure (literal f p.1, p.2)) =
      sized (x >>= fun p => pure (literal g p.1, p.2)) := by
  cases x <;> rfl

theorem sized_readEscape (f g : RegexFlags) (s : List Char) :
    sized (readEscape f s) = sized (readEscape g s) := by
  unfold readEscape
  split
  · rfl
  · split
    · exact sized_literal f g _
    · split <;> exact sized_literal f g _
    · exact sized_literal f g _

theorem sized_readCharClass (f g : RegexFlags) (s : List Char) :
    sized (readCharClass f s) = sized (readCharClass g s) := by
  unfold readCharClass
  dsimp only
  generalize readBracket _ _ _ = items
  cases items <;> rfl

/-- What reading flags tells of blanks: whether they are passed over, and the text left. -/
def spaced (x : Except RegexFault (RegexFlags × List Char)) : Except RegexFault (Bool × List Char) :=
  x.map fun p => (p.1.verbose, p.2)

theorem verbose_set (h : f.verbose = g.verbose) (on : Bool) (c : Char) :
    (f.set on c).map RegexFlags.verbose = (g.set on c).map RegexFlags.verbose := by
  unfold RegexFlags.set
  split <;> (try split) <;> simp [h]

theorem spaced_readFlags (h : f.verbose = g.verbose) (on : Bool) (s : List Char) :
    spaced (readFlags on f s) = spaced (readFlags on g s) := by
  induction s generalizing on f g with
  | nil => rfl
  | cons c s ih =>
    unfold readFlags
    split
    · rename_i eq
      exact absurd eq (by simp)
    · simp [spaced, Except.map, h]
    · split
      · rename_i eq _
        obtain ⟨rfl, rfl⟩ := List.cons.inj eq
        exact ih h false
      · rfl
    · rename_i eq
      obtain ⟨rfl, rfl⟩ := List.cons.inj eq
      have set := verbose_set h on c
      cases first : f.set on c with
      | none =>
        rw [first, Option.map_none, eq_comm, Option.map_eq_none_iff] at set
        rw [set]
      | some f' =>
        rw [first, Option.map_some, eq_comm, Option.map_eq_some_iff] at set
        obtain ⟨g', second, same⟩ := set
        rw [second]
        exact ih same.symm on

theorem spaced_readOpening (h : f.verbose = g.verbose) (s : List Char) :
    spaced (readOpening f s) = spaced (readOpening g s) := by
  unfold readOpening
  split
  · simp [spaced, Except.map, h]
  · split
    · rfl
    · exact spaced_readFlags h true _
  · rfl
  · simp [spaced, Except.map, h]

def Piece.size (p : Piece) : (Nat × Nat) × Bool := (p.regex.widths, p.repeated)

theorem widths_concat {as bs : List Regex} (h : as.map widths = bs.map widths) :
    (concat as).widths = (concat bs).widths := by
  induction as generalizing bs with
  | nil =>
    obtain rfl := List.map_eq_nil_iff.mp h.symm
    rfl
  | cons a as ih =>
    obtain ⟨b, bs, rfl, first, later⟩ := List.map_eq_cons_iff.mp h.symm
    have rest := ih later.symm
    cases as with
    | nil =>
      obtain rfl := List.map_eq_nil_iff.mp later
      exact first.symm
    | cons a' as =>
      obtain ⟨b', bs, rfl, _, _⟩ := List.map_eq_cons_iff.mp later
      simp only [concat, widths] at rest ⊢
      rw [first, rest]

theorem widths_joinPieces {d e : List Piece} (h : d.map Piece.size = e.map Piece.size) :
    (joinPieces d).widths = (joinPieces e).widths := by
  have first := congrArg (List.map Prod.fst) h
  simp only [List.map_map, Function.comp_def, Piece.size] at first
  apply widths_concat
  simp only [List.map_map, List.map_reverse, Function.comp_def, first]

theorem sized_read (fuel : Nat) :
    (∀ f g s, f.verbose = g.verbose → sized (readChoice fuel f s) = sized (readChoice fuel g s)) ∧
      ∀ f g d e s, f.verbose = g.verbose → d.map Piece.size = e.map Piece.size →
        sized (readSequence fuel f d s) = sized (readSequence fuel g e s) := by
  induction fuel with
  | zero => exact ⟨fun _ _ _ _ => rfl, fun _ _ _ _ _ _ _ => rfl⟩
  | succ fuel ih =>
    obtain ⟨choice, sequence⟩ := ih
    constructor
    · intro f g s verbose
      unfold readChoice
      apply sized_bind (sequence f g [] [] s verbose rfl)
      rintro ⟨a, rest⟩ ⟨b, rest'⟩ same
      obtain ⟨widths, rfl⟩ := Prod.mk.inj same
      dsimp only at widths ⊢
      split
      · apply sized_bind (choice f g _ verbose)
        rintro ⟨c, rest⟩ ⟨d, rest'⟩ same
        obtain ⟨widths', rfl⟩ := Prod.mk.inj same
        dsimp only at widths'
        simp only [sized, Except.map, pure, Except.pure, Regex.widths, widths, widths']
      · simp only [sized, Except.map, pure, Except.pure, widths]
    · intro f g d e s verbose sizes
      have piece {p q : Regex} {rest rest' : List Char} (same : (p.widths, rest) = (q.widths, rest')) :
          sized (readSequence fuel f (⟨p, false⟩ :: d) rest) =
            sized (readSequence fuel g (⟨q, false⟩ :: e) rest') := by
        obtain ⟨widths, rfl⟩ := Prod.mk.inj same
        exact sequence f g _ _ rest verbose (by simp [Piece.size, widths, sizes])
      unfold readSequence
      split
      · simp only [sized, Except.map, widths_joinPieces sizes]
      · simp only [sized, Except.map, widths_joinPieces sizes]
      · simp only [sized, Except.map, widths_joinPieces sizes]
      · rw [verbose]
        split
        · exact sequence f g d e _ verbose sizes
        · split
          · exact sequence f g d e _ verbose sizes
          · split
            · -- a repetition takes the latest piece, which is there in both or in neither
              cases d with
              | nil =>
                obtain rfl := List.map_eq_nil_iff.mp sizes.symm
                rfl
              | cons p d =>
                obtain ⟨q, e, rfl, first, later⟩ := List.map_eq_cons_iff.mp sizes.symm
                obtain ⟨widths, repeated⟩ := Prod.mk.inj first
                dsimp only
                rw [repeated]
                split
                · rfl
                · split
                  · rfl
                  · apply sequence f g _ _ _ verbose
                    simp [Piece.size, Regex.widths, widths, later]
            · split
              · exact sized_bind (sized_readEscape f g _) fun _ _ same => piece same
              · exact sized_bind (sized_readCharClass f g _) fun _ _ same => piece same
              · exact piece (p := anyChar f) (q := anyChar g) rfl
              · apply sized_bind (spaced_readOpening verbose _)
                rintro ⟨inside, rest⟩ ⟨inside', rest'⟩ same
                obtain ⟨verbose', rfl⟩ := Prod.mk.inj same
                apply sized_bind (choice inside inside' rest verbose')
                rintro ⟨a, rest⟩ ⟨b, rest'⟩ same
                obtain ⟨widths, rfl⟩ := Prod.mk.inj same
                dsimp only at widths ⊢
                split
                · exact piece (by rw [widths])
                · rfl
              · split
                · rfl
                · exact piece (p := literal f _) (q := literal g _) rfl

theorem read_eq_ok_iff {r : Regex} :
    read f s = .ok r ↔ readChoice (4 * s.length + 4) f s = .ok (r, []) := by
  unfold read
  cases readChoice (4 * s.length + 4) f s with
  | error e => simp [bind, Except.bind]
  | ok p =>
    obtain ⟨a, rest⟩ := p
    cases rest with
    | nil => simp [bind, Except.bind, pure, Except.pure]
    | cons c rest => simp [bind, Except.bind, throw, throwThe, MonadExceptOf.throw]

theorem widths_read {r r' : Regex} (verbose : f.verbose = g.verbose) (h : read f s = .ok r)
    (h' : read g s = .ok r') : r.widths = r'.widths := by
  have same := (sized_read (4 * s.length + 4)).1 f g s verbose
  rw [read_eq_ok_iff.mp h, read_eq_ok_iff.mp h'] at same
  exact (Prod.mk.inj (Except.ok.inj same)).1

end Reading

end Regex

end AxisLang
