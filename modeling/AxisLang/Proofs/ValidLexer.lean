import AxisLang.Proofs.LexerSteps
import AxisLang.Proofs.Literals
import AxisLang.Proofs.Scanners
import AxisLang.Proofs.TerminalOrder

/-! What the check of a lexer's terminals is good for: the lexer has a scanner, and the scanner finds
the first terminal that matches, which takes at least one character. -/
namespace AxisLang

open List (Forall₂)

variable {c : LexerConf} {lx : Lexer} {sc : Scanner} {t : Terminal} {s : List Char} {n : Nat}

structure Terminal.Plain (t : Terminal) : Prop where
  letters : ∀ x ∈ t.pattern.flags, ∀ a ∈ x.toList, a.isAlpha = true
  width : ∀ w, t.pattern.knownWidth = some w → ∃ r, t.pattern.compile {} = .ok r ∧ w = r.width

theorem Terminal.Plain.width_cases (plain : t.Plain) {w : Nat × Nat} (h : t.pattern.width = .ok w) :
    (t.pattern.kind = .literal ∧ w.1 = t.pattern.value.length) ∨
      ∃ r, t.pattern.compile {} = .ok r ∧ w = r.width := by
  unfold Pattern.width at h
  split at h
  · rename_i kind
    rw [← Except.ok.inj h]
    exact .inl ⟨kind, rfl⟩
  · right
    split at h
    · rename_i known
      rw [← Except.ok.inj h]
      exact plain.width _ known
    · split at h
      · simp at h
      · split at h
        · rename_i r compiled
          exact ⟨r, compiled, (Except.ok.inj h).symm⟩
        · simp at h

namespace LexerConf

def ownFlags (c : LexerConf) : RegexFlags :=
  Scanner.ownFlags (.ofBits c.flags) c.bytes

/-- A terminal is left in the scanner unless it is a keyword left to a regular terminal. -/
def Left (c : LexerConf) (t : Terminal) : Prop :=
  t ∈ c.terminals ∧ ¬ Scanner.Folded (.ofBits c.flags) c.terminals t

def Matches (c : LexerConf) (t : Terminal) (s : List Char) (n : Nat) : Prop :=
  ∃ r, t.pattern.compile c.ownFlags = .ok r ∧ r.matchLength? s = some n

structure FirstMatch (c : LexerConf) (t : Terminal) (s : List Char) (n : Nat) : Prop where
  left : c.Left t
  takes : c.Matches t s n
  first : ∀ u m, c.Left u → c.Matches u s m → u = t ∨ Terminal.Before t u

/-- A configuration that the check lets pass, with an engine for its patterns. White space counts in
them unless a pattern says otherwise. Terminals are named by identifiers and, if the lexer reads bytes, can
be written in bytes. -/
structure Checked (c : LexerConf) : Prop where
  validate : c.validate = true
  patterns : c.patterns = true
  spaced : (RegexFlags.ofBits c.flags).verbose = false
  plain : ∀ t ∈ c.terminals, t.Plain
  named : ∀ t ∈ c.terminals, isIdentifier t.name.toList = true
  onBytes : c.bytes = true → ∀ t ∈ c.terminals,
    t.isLatin = true ∧ Pattern.needsText t.pattern.regexText.toList = false

theorem ownFlags_verbose (c : LexerConf) :
    c.ownFlags.verbose = (RegexFlags.ofBits c.flags).verbose := by
  unfold ownFlags Scanner.ownFlags
  split <;> rfl

theorem Checked.groups {ts : List Terminal} (checked : c.Checked) (among : ∀ t ∈ ts, t ∈ c.terminals)
    (distinct : (ts.map (·.name)).Nodup) : Scanner.Groups c.bytes ts where
  groupable := by
    simp only [Scanner.groupable, Bool.and_eq_true, decide_eq_true_eq, List.all_eq_true]
    refine ⟨distinct, ?_⟩
    intro t mem
    refine ⟨checked.named t (among t mem), ?_⟩
    cases bytes : c.bytes with
    | false => rfl
    | true => rw [(checked.onBytes bytes t (among t mem)).2]; rfl
  latin set t mem := (checked.onBytes set t (among t mem)).1

end LexerConf

theorem Regex.exists_read {f g : RegexFlags} {r : Regex} (verbose : f.verbose = g.verbose)
    (h : read f s = .ok r) : ∃ r', read g s = .ok r' := by
  have same := (sized_read (4 * s.length + 4)).1 f g s verbose
  rw [read_eq_ok_iff.mp h] at same
  cases other : readChoice (4 * s.length + 4) g s with
  | error e => simp [other, sized, Except.map] at same
  | ok p =>
    rw [other] at same
    have rest : [] = p.2 := (Prod.mk.inj (Except.ok.inj same)).2
    refine ⟨p.1, read_eq_ok_iff.mpr ?_⟩
    rw [other, rest]

namespace Lexer

theorem validateTerminal_spec {f : RegexFlags} (h : validateTerminal f t = .ok ()) :
    (∃ r, t.pattern.compile f = .ok r) ∧ ∃ w, t.pattern.width = .ok w ∧ w.1 ≠ 0 := by
  unfold validateTerminal at h
  split at h
  · simp [throw, throwThe, MonadExceptOf.throw] at h
  · rename_i r compiled
    refine ⟨⟨r, compiled⟩, ?_⟩
    split at h
    · simp [throw, throwThe, MonadExceptOf.throw] at h
    · rename_i least most width
      refine ⟨_, width, ?_⟩
      rintro rfl
      simp [throw, throwThe, MonadExceptOf.throw] at h

theorem validate_spec (h : validate c = .ok ()) (mem : t ∈ c.terminals) :
    (∃ r, t.pattern.compile (.ofBits c.flags) = .ok r) ∧ ∃ w, t.pattern.width = .ok w ∧ w.1 ≠ 0 := by
  unfold validate at h
  obtain ⟨_, each, _⟩ := bind_eq_ok_iff.mp h
  exact validateTerminal_spec (forIn_ok each t mem)

end Lexer

namespace LexerConf

variable (valid : Lexer.validate c = .ok ())
include valid

theorem exists_compile (mem : t ∈ c.terminals) : ∃ r, t.pattern.compile c.ownFlags = .ok r := by
  obtain ⟨⟨r, compiled⟩, _⟩ := Lexer.validate_spec valid mem
  exact Regex.exists_read (ownFlags_verbose c).symm compiled

theorem Checked.pos_of_matches (checked : c.Checked) (mem : t ∈ c.terminals) (h : c.Matches t s n) :
    0 < n ∧ n ≤ s.length := by
  obtain ⟨r, compiled, matched⟩ := h
  have bounds := Regex.matchLength?_bounds matched
  have plain := checked.plain t mem
  obtain ⟨_, w, width, positive⟩ := Lexer.validate_spec valid mem
  have least : 0 < r.widths.1 := by
    rcases plain.width_cases width with ⟨kind, length⟩ | ⟨r', compiled', rfl⟩
    · rw [Regex.widths_literal kind plain.letters compiled]
      omega
    · have verbose : c.ownFlags.verbose = ({} : RegexFlags).verbose := by
        rw [ownFlags_verbose, checked.spaced]
      rw [Regex.widths_read verbose compiled compiled']
      simp only [Regex.width] at positive
      omega
  omega

end LexerConf

namespace Scanner

variable {f : RegexFlags} {left : List Terminal} {ms : List Matcher} {kind : String}

theorem unmatched_of_firstMatch? (tries : Forall₂ (Tries f) left ms) (h : firstMatch? ms s = none) :
    ∀ t ∈ left, ∀ r, t.pattern.compile f = .ok r → r.matchLength? s = none := by
  induction tries with
  | nil => simp
  | cons head _ ih =>
    rename_i t m left ms
    unfold firstMatch? at h
    split at h
    · simp at h
    · rename_i none
      refine List.forall_mem_cons.mpr ⟨?_, ih h⟩
      intro r compiled
      rw [← Except.ok.inj (head.2.symm.trans compiled)]
      exact none

theorem first_of_firstMatch? {R : Terminal → Terminal → Prop} (tries : Forall₂ (Tries f) left ms)
    (ordered : left.Pairwise R) (h : firstMatch? ms s = some (kind, n)) :
    ∃ t ∈ left, t.name = kind ∧ (∃ r, t.pattern.compile f = .ok r ∧ r.matchLength? s = some n) ∧
      ∀ u ∈ left, (∃ r m, u.pattern.compile f = .ok r ∧ r.matchLength? s = some m) → u = t ∨ R t u := by
  induction tries with
  | nil => simp [firstMatch?] at h
  | cons head rest ih =>
    rename_i t m left ms
    rw [List.pairwise_cons] at ordered
    unfold firstMatch? at h
    split at h
    · rename_i n' matched
      obtain ⟨rfl, rfl⟩ := Prod.mk.inj (Option.some.inj h)
      refine ⟨t, List.mem_cons_self, head.1.symm, ⟨m.regex, head.2, matched⟩, ?_⟩
      intro u mem _
      exact (List.mem_cons.mp mem).imp id (ordered.1 u)
    · rename_i none
      obtain ⟨u, mem, name, takes, first⟩ := ih ordered.2 h
      refine ⟨u, List.mem_cons_of_mem _ mem, name, takes, ?_⟩
      rintro v among ⟨r, k, compiled, matched⟩
      rcases List.mem_cons.mp among with rfl | among
      · rw [← Except.ok.inj (head.2.symm.trans compiled), none] at matched
        cases matched
      · exact first v among ⟨r, k, compiled, matched⟩

end Scanner

namespace LexerConf

structure Told (c : LexerConf) (sc : Scanner) : Prop where
  found : ∀ s kind n, sc.scan s = some (kind, n) →
    ∃ t, t.name = kind ∧ c.FirstMatch t s n ∧ 0 < n ∧ n ≤ s.length
  unmatched : ∀ s, sc.scan s = none → ∀ t n, c.Left t → ¬ c.Matches t s n

theorem Checked.exists_scanner (checked : c.Checked) (made : Lexer.Made c lx) :
    ∃ sc, lx.scanner = .ok sc ∧ c.Told sc := by
  have valid := made.valid checked.validate
  obtain ⟨perm, ordered⟩ := Terminal.sorted_spec made.terminals
  obtain ⟨sc, built⟩ : ∃ sc, Scanner.build (.ofBits c.flags) c.bytes lx.terminals = .ok sc := by
    apply Scanner.exists_build
    · intro t mem
      exact (Lexer.validate_spec valid (perm.mem_iff.mp mem)).1
    · intro t mem
      exact exists_compile valid (perm.mem_iff.mp mem)
    · exact checked.groups (fun t mem => perm.mem_iff.mp mem) ((perm.map _).nodup_iff.mpr made.distinct)
  have scanner : lx.scanner = .ok sc := by
    rw [made.scanner, if_pos checked.patterns, built]
  obtain ⟨left, sub, mem_left, tries⟩ := (Scanner.build_spec built).1
  have left_iff : ∀ t, t ∈ left ↔ c.Left t := by
    intro t
    simp only [mem_left, Left, Scanner.Folded, perm.mem_iff]
  refine ⟨sc, scanner, ?_, ?_⟩
  · intro s kind n found
    obtain ⟨t, mem, name, takes, first⟩ :=
      Scanner.first_of_firstMatch? tries ((ordered made.distinct).sublist sub) found
    have isLeft := (left_iff t).mp mem
    refine ⟨t, name, ⟨isLeft, takes, ?_⟩, checked.pos_of_matches valid isLeft.1 takes⟩
    rintro u m left ⟨r, compiled, matched⟩
    exact first u ((left_iff u).mpr left) ⟨r, m, compiled, matched⟩
  · rintro s none t n left ⟨r, compiled, matched⟩
    have unmatched := Scanner.unmatched_of_firstMatch? tries none t ((left_iff t).mpr left) r compiled
    rw [unmatched] at matched
    cases matched

end LexerConf

end AxisLang
