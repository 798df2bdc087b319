import AxisLang.Proofs.RegexWidths

/-! Literals as regular expressions.
A literal is escaped before it is read, and its flags open groups around it. What is read is the literal
again, character by character, so it matches as many characters as it has. -/
namespace AxisLang

namespace Regex

section Characters

variable {c : Char}

def signs : List Char := "()[]\x7b\x7d?*+-|^$\\.&~# \t\n\r".toList

theorem isSpecial_iff :
    Pattern.isSpecial c = true ↔ c ∈ signs ∨ c.toNat = 11 ∨ c.toNat = 12 := by
  rw [Pattern.isSpecial, Bool.or_eq_true, Bool.or_eq_true, or_assoc, List.contains_iff_mem,
    decide_eq_true_iff, decide_eq_true_iff]
  exact Iff.rfl

theorem isSpecial_of_isAsciiSpace (h : isAsciiSpace c = true) :
    Pattern.isSpecial c = true := by
  simp only [isAsciiSpace, Bool.or_eq_true, Bool.and_eq_true, decide_eq_true_eq] at h
  have one : c.toNat = 32 ∨ c.toNat = 9 ∨ c.toNat = 10 ∨ c.toNat = 11 ∨ c.toNat = 12 ∨ c.toNat = 13 := by
    omega
  have back : c = Char.ofNat c.toNat := (Char.ofNat_toNat c).symm
  rcases one with eq | eq | eq | eq | eq | eq <;>
    · rw [eq] at back
      subst back
      decide

theorem not_isAlphanum_of_isSpecial (h : Pattern.isSpecial c = true) :
    c.isAlphanum = false := by
  rcases isSpecial_iff.mp h with mem | eq | eq
  · have all : (signs.all fun d => !d.isAlphanum) = true := by decide
    simpa using List.all_eq_true.mp all c mem
  · obtain rfl : c = Char.ofNat 11 := by rw [← eq, Char.ofNat_toNat]
    decide
  · obtain rfl : c = Char.ofNat 12 := by rw [← eq, Char.ofNat_toNat]
    decide

theorem isOctal_of_not_isAlphanum (h : c.isAlphanum = false) : isOctal c = false := by
  simp only [Char.isAlphanum, Bool.or_eq_false_iff] at h
  have digit := h.2
  simp only [Char.isDigit, Bool.and_eq_false_iff, decide_eq_false_iff_not] at digit
  simp only [isOctal, Bool.and_eq_false_iff, decide_eq_false_iff_not, Char.le_def]
  rcases digit with low | high
  · exact .inl low
  · refine .inr ?_
    intro le
    exact high (UInt32.le_trans le (by decide))

theorem readEscape_symbol (h : c.isAlphanum = false) (f : RegexFlags) (rest : List Char) :
    readEscape f (c :: rest) = .ok (literal f c, rest) := by
  have noClass : readClassEscape (c :: rest) = none := by
    unfold readClassEscape
    split <;> simp_all
  have char : readCharEscape (c :: rest) = .ok (c, rest) := by
    unfold readCharEscape
    split <;> simp_all
  unfold readEscape
  rw [noClass]
  dsimp only
  split
  · rename_i eq
    obtain ⟨rfl, _⟩ := List.cons.inj eq
    exact absurd h (by decide)
  · rename_i a b d more _ eq
    obtain ⟨rfl, rfl⟩ := List.cons.inj eq
    simp only [isOctal_of_not_isAlphanum h, Bool.false_and, Bool.false_eq_true, if_false, char]
    rfl
  · rw [char]
    rfl

theorem readSequence_special (h : Pattern.isSpecial c = true) (fuel : Nat) (f : RegexFlags)
    (done : List Piece) (rest : List Char) :
    readSequence (fuel + 1) f done ('\\' :: c :: rest) =
      readSequence fuel f (⟨literal f c, false⟩ :: done) rest := by
  have blank : isAsciiSpace '\\' = false := by decide
  have bounds : readBounds ('\\' :: c :: rest) = none := rfl
  rw [readSequence]
  simp only [blank, bounds, Bool.and_false, Bool.false_eq_true, if_false, Char.reduceEq, decide_false,
    readEscape_symbol (not_isAlphanum_of_isSpecial h)]
  rfl

theorem readSequence_plain (h : Pattern.isSpecial c = false) (fuel : Nat) (f : RegexFlags)
    (done : List Piece) (rest : List Char) :
    readSequence (fuel + 1) f done (c :: rest) =
      readSequence fuel f (⟨literal f c, false⟩ :: done) rest := by
  have other : ∀ d, Pattern.isSpecial d = true → c ≠ d := by
    rintro d special rfl
    rw [h] at special
    exact Bool.noConfusion special
  have blank : isAsciiSpace c = false := by
    cases space : isAsciiSpace c with
    | false => rfl
    | true => exact absurd rfl (other c (isSpecial_of_isAsciiSpace space))
  have bounds : readBounds (c :: rest) = none := by
    unfold readBounds
    split
    case h_5 => rfl
    all_goals
      rename_i eq
      exact absurd (List.cons.inj eq).1 (other _ (by decide))
  have hash : c ≠ '#' := other _ (by decide)
  have hat : c ≠ '^' := other _ (by decide)
  have dollar : c ≠ '$' := other _ (by decide)
  rw [readSequence]
  · simp only [blank, hash, hat, dollar, bounds, Bool.and_false, Bool.or_false, decide_false,
      Bool.false_eq_true, if_false]
  all_goals exact other _ (by decide)

end Characters

def escapes (cs : List Char) : List Char :=
  cs.flatMap fun c => if Pattern.isSpecial c then ['\\', c] else [c]

theorem toList_escaped (s : String) : (Pattern.escaped s).toList = escapes s.toList := by
  rw [Pattern.escaped, String.toList_ofList, escapes]

theorem escapes_cons (c : Char) (cs : List Char) :
    escapes (c :: cs) = (if Pattern.isSpecial c then ['\\', c] else [c]) ++ escapes cs :=
  List.flatMap_cons

/-- The text ends here, or a group does. -/
def Closes (rest : List Char) : Prop :=
  rest = [] ∨ ∃ more, rest = ')' :: more

theorem readSequence_closes {rest : List Char} (h : Closes rest) (fuel : Nat) (f : RegexFlags)
    (done : List Piece) : readSequence (fuel + 1) f done rest = .ok (joinPieces done, rest) := by
  rcases h with rfl | ⟨more, rfl⟩
  · rw [readSequence]
  · rw [readSequence]

theorem readSequence_escapes {rest : List Char} (h : Closes rest) (cs : List Char) {fuel : Nat}
    {f : RegexFlags} {done : List Piece} {p : Regex × List Char}
    (read : readSequence fuel f done (escapes cs ++ rest) = .ok p) :
    p = (joinPieces ((cs.map fun c => ⟨literal f c, false⟩).reverse ++ done), rest) := by
  induction cs generalizing fuel done with
  | nil =>
    cases fuel with
    | zero => simp [readSequence] at read
    | succ fuel =>
      rw [escapes, List.flatMap_nil, List.nil_append, readSequence_closes h] at read
      simpa using (Except.ok.inj read).symm
  | cons c cs ih =>
    cases fuel with
    | zero => simp [readSequence] at read
    | succ fuel =>
      have next : readSequence fuel f (⟨literal f c, false⟩ :: done) (escapes cs ++ rest) = .ok p := by
        rw [← read, escapes_cons]
        cases special : Pattern.isSpecial c with
        | true => exact (readSequence_special special fuel f done _).symm
        | false => exact (readSequence_plain special fuel f done _).symm
      simpa using ih next

/-- Wherever the text is read as a choice, in a group or on its own, it is read as a whole and its least
width is `n`. -/
def Measures (s : List Char) (n : Nat) : Prop :=
  ∀ fuel f rest p, Closes rest → readChoice fuel f (s ++ rest) = .ok p → p.1.widths.1 = n ∧ p.2 = rest

theorem readChoice_closes {rest : List Char} (h : Closes rest) {fuel : Nat} {f : RegexFlags}
    {s : List Char} {p : Regex × List Char}
    (sequence : ∀ fuel p, readSequence fuel f [] s = .ok p → p.2 = rest)
    (read : readChoice fuel f s = .ok p) : ∃ fuel', readSequence fuel' f [] s = .ok p := by
  cases fuel with
  | zero => simp [readChoice] at read
  | succ fuel =>
    rw [readChoice] at read
    cases first : readSequence fuel f [] s with
    | error e => simp [first, bind, Except.bind] at read
    | ok q =>
      have ends := sequence fuel q first
      obtain ⟨a, left⟩ := q
      obtain rfl : left = rest := ends
      rcases h with rfl | ⟨more, rfl⟩
      · simp [first, bind, Except.bind, pure, Except.pure] at read
        exact ⟨fuel, by rw [first, read]⟩
      · simp [first, bind, Except.bind, pure, Except.pure] at read
        exact ⟨fuel, by rw [first, read]⟩

theorem widths_literals (f : RegexFlags) (cs : List Char) :
    (concat (cs.map (literal f))).widths.1 = cs.length := by
  induction cs with
  | nil => rfl
  | cons c cs ih =>
    cases cs with
    | nil => rfl
    | cons d cs =>
      simp only [List.map_cons, concat, widths, List.length_cons] at ih ⊢
      rw [ih]
      simp only [literal, widths]
      omega

theorem measures_escapes (cs : List Char) : Measures (escapes cs) cs.length := by
  intro fuel f rest p closes read
  obtain ⟨fuel', sequence⟩ := readChoice_closes closes
    (fun fuel q read => by rw [readSequence_escapes closes cs read]) read
  have eq := readSequence_escapes closes cs sequence
  rw [eq, List.append_nil]
  refine ⟨?_, rfl⟩
  have literals : joinPieces (cs.map fun c => ⟨literal f c, false⟩).reverse = concat (cs.map (literal f)) := by
    simp [joinPieces, List.map_map, Function.comp_def]
  rw [literals, widths_literals]

theorem readFlags_letters {cs : List Char} (letters : ∀ c ∈ cs, c.isAlpha = true) {on : Bool}
    {f : RegexFlags} {more : List Char} {q : RegexFlags × List Char}
    (read : readFlags on f (cs ++ ':' :: more) = .ok q) : q.2 = more := by
  induction cs generalizing f with
  | nil =>
    rw [List.nil_append, readFlags] at read
    rw [← Except.ok.inj read]
  | cons c cs ih =>
    rw [List.forall_mem_cons] at letters
    rw [List.cons_append, readFlags] at read
    · cases set : f.set on c with
      | none => simp [set] at read
      | some f' =>
        rw [set] at read
        exact ih letters.2 read
    · rintro rfl
      exact absurd letters.1 (by decide)
    · rintro rfl
      exact absurd letters.1 (by decide)

theorem readOpening_letters {cs : List Char} (letters : ∀ c ∈ cs, c.isAlpha = true) {f : RegexFlags}
    {more : List Char} {q : RegexFlags × List Char}
    (read : readOpening f ('?' :: (cs ++ ':' :: more)) = .ok q) : q.2 = more := by
  cases cs with
  | nil =>
    rw [List.nil_append, readOpening] at read
    rw [← Except.ok.inj read]
  | cons c cs =>
    rw [List.cons_append, readOpening] at read
    · split at read
      · simp at read
      · rw [← List.cons_append] at read
        exact readFlags_letters letters read
    · rintro rfl
      exact absurd letters (by simp)

theorem Measures.group {s flag : List Char} {n : Nat} (h : Measures s n)
    (letters : ∀ c ∈ flag, c.isAlpha = true) :
    Measures ('(' :: '?' :: (flag ++ ':' :: (s ++ [')']))) n := by
  have whole {fuel : Nat} {f : RegexFlags} {rest : List Char} {p : Regex × List Char}
      (closes : Closes rest)
      (read : readSequence fuel f [] ('(' :: '?' :: (flag ++ ':' :: (s ++ ')' :: rest))) = .ok p) :
      p.1.widths.1 = n ∧ p.2 = rest := by
    cases fuel with
    | zero => simp [readSequence] at read
    | succ fuel =>
      have blank : isAsciiSpace '(' = false := by decide
      have bounds (u : List Char) : readBounds ('(' :: u) = none := rfl
      rw [readSequence] at read
      simp only [blank, bounds, Bool.and_false, Bool.false_eq_true, if_false, Char.reduceEq,
        decide_false] at read
      cases opening : readOpening f ('?' :: (flag ++ ':' :: (s ++ ')' :: rest))) with
      | error e => simp [opening, bind, Except.bind] at read
      | ok q =>
        obtain ⟨inside, left⟩ := q
        obtain rfl : left = s ++ ')' :: rest := readOpening_letters letters opening
        cases body : readChoice fuel inside (s ++ ')' :: rest) with
        | error e => simp [opening, body, bind, Except.bind] at read
        | ok q =>
          obtain ⟨width, ends⟩ := h fuel inside (')' :: rest) q (.inr ⟨rest, rfl⟩) body
          obtain ⟨r, left⟩ := q
          obtain rfl : left = ')' :: rest := ends
          simp only [opening, body, bind, Except.bind] at read
          cases fuel with
          | zero => simp [readSequence] at read
          | succ fuel =>
            rw [readSequence_closes closes] at read
            rw [← Except.ok.inj read]
            exact ⟨width, rfl⟩
  intro fuel f rest p closes read
  have text : '(' :: '?' :: (flag ++ ':' :: (s ++ [')'])) ++ rest =
      '(' :: '?' :: (flag ++ ':' :: (s ++ ')' :: rest)) := by simp
  rw [text] at read
  obtain ⟨fuel', sequence⟩ := readChoice_closes closes (fun _ _ read => (whole closes read).2) read
  exact whole closes sequence

theorem measures_withFlags {flags : List String} (letters : ∀ x ∈ flags, ∀ c ∈ x.toList, c.isAlpha = true)
    {s : String} {n : Nat} (h : Measures s.toList n) :
    Measures (Pattern.withFlags flags s).toList n := by
  induction flags generalizing s with
  | nil => exact h
  | cons x flags ih =>
    rw [List.forall_mem_cons] at letters
    refine ih letters.2 ?_
    have group := h.group letters.1
    simpa [String.toList_append] using group

theorem widths_literal {p : Pattern} (literal : p.kind = .literal)
    (letters : ∀ x ∈ p.flags, ∀ c ∈ x.toList, c.isAlpha = true) {f : RegexFlags} {r : Regex}
    (read : p.compile f = .ok r) : r.widths.1 = p.value.length := by
  have text : p.regexText = Pattern.withFlags p.flags (Pattern.escaped p.value) := by
    rw [Pattern.regexText, literal]
  rw [Pattern.compile, text, read_eq_ok_iff] at read
  have measures : Measures (Pattern.escaped p.value).toList p.value.length := by
    rw [toList_escaped, ← String.length_toList]
    exact measures_escapes _
  have whole := measures_withFlags letters measures _ f [] (r, []) (.inl rfl)
    (by rw [List.append_nil]; exact read)
  exact whole.1

end Regex

end AxisLang
