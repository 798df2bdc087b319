import AxisLang.Lexer.Scanner
import AxisLang.Proofs.Results

/-! What a scanner is made of.
A literal that a regular terminal of the same priority matches as a whole is a keyword of that terminal.
The scanner tries the other terminals in the order given, and knows for each regular terminal its
keywords. -/
namespace AxisLang

namespace Scanner

open List (Forall₂)

variable {f : RegexFlags} {bytes : Bool} {ts : List Terminal} {t l : Terminal} {sc : Scanner}

structure IsKeyword (f : RegexFlags) (t l : Terminal) : Prop where
  regular : t.pattern.kind = .regex
  literal : l.pattern.kind = .literal
  priority : l.priority = t.priority
  whole : ∃ r, t.pattern.compile f = .ok r ∧
    r.matchLength? l.pattern.value.toList = some l.pattern.value.length

/-- A keyword without a flag of its own is left to its regular terminal. -/
def Folded (f : RegexFlags) (ts : List Terminal) (l : Terminal) : Prop :=
  l ∈ ts ∧ ∃ t ∈ ts, IsKeyword f t l ∧ isCovered l t = true

def Tries (f : RegexFlags) (t : Terminal) (m : Matcher) : Prop :=
  m.kind = t.name ∧ t.pattern.compile f = .ok m.regex

theorem ready_eq_ok_iff {m : Matcher} : ready f t = .ok m ↔ Tries f t m := by
  unfold ready Tries
  cases t.pattern.compile f with
  | error e => simp
  | ok r =>
    obtain ⟨kind, regex⟩ := m
    simp [eq_comm]

structure Groups (bytes : Bool) (ts : List Terminal) : Prop where
  groupable : groupable bytes ts = true
  latin : bytes = true → ∀ t ∈ ts, t.isLatin = true

theorem alternatives_eq_ok_iff {ms : List Matcher} : alternatives f bytes ts = .ok ms ↔
    Groups bytes ts ∧ ts.mapM (ready (ownFlags f bytes)) = .ok ms := by
  unfold alternatives
  split
  · rename_i refused
    refine iff_of_false (by simp) ?_
    rintro ⟨groups, _⟩
    obtain ⟨set, foreign⟩ := Bool.and_eq_true_iff.mp refused
    rw [List.all_eq_true.mpr (groups.latin set)] at foreign
    cases foreign
  · rename_i fine
    have latin : bytes = true → ∀ t ∈ ts, t.isLatin = true := by
      rintro rfl
      simpa using fine
    split
    · rename_i clash
      refine iff_of_false (by simp) ?_
      rintro ⟨groups, _⟩
      rw [groups.groupable] at clash
      cases clash
    · rename_i apart
      exact (and_iff_right ⟨by simpa using apart, latin⟩).symm

theorem Groups.sublist (h : Groups bytes ts) {us : List Terminal} (sub : us.Sublist ts) : Groups bytes us where
  groupable := by
    have whole := h.groupable
    simp only [Scanner.groupable, Bool.and_eq_true, decide_eq_true_eq, List.all_eq_true] at whole ⊢
    exact ⟨whole.1.sublist (sub.map _), fun t mem => whole.2 t (sub.mem mem)⟩
  latin set t mem := h.latin set t (sub.mem mem)

theorem mem_keywordsOf {literals ls : List Terminal} (h : keywordsOf f literals t = .ok ls)
    (regular : t.pattern.kind = .regex) (texts : ∀ l ∈ literals, l.pattern.kind = .literal) :
    l ∈ ls ↔ l ∈ literals ∧ IsKeyword f t l := by
  unfold keywordsOf at h
  split at h
  · obtain ⟨m, made, last⟩ := bind_eq_ok_iff.mp h
    obtain rfl := Except.ok.inj last
    have compiled := (ready_eq_ok_iff.mp made).2
    rw [List.mem_filter]
    refine and_congr_right fun mem => ?_
    rw [Bool.and_eq_true, beq_iff_eq, beq_iff_eq]
    constructor
    · rintro ⟨priority, whole⟩
      exact ⟨regular, texts l mem, priority, m.regex, compiled, whole⟩
    · rintro ⟨_, _, priority, r, compiled', whole⟩
      rw [compiled] at compiled'
      obtain rfl := Except.ok.inj compiled'
      exact ⟨priority, whole⟩
  · rename_i none
    obtain rfl := Except.ok.inj h
    -- without a literal of the same priority there is nothing to look for
    constructor
    · intro mem
      simp at mem
    · rintro ⟨mem, keyword⟩
      exact absurd (List.any_eq_true.mpr ⟨l, mem, by simp [keyword.priority]⟩) none

theorem keywordsOf_sublist {literals ls : List Terminal} (h : keywordsOf f literals t = .ok ls) :
    ls.Sublist literals := by
  unfold keywordsOf at h
  split at h
  · obtain ⟨m, _, last⟩ := bind_eq_ok_iff.mp h
    rw [← Except.ok.inj last]
    exact List.filter_sublist
  · rw [← Except.ok.inj h]
    exact List.nil_sublist _

structure Families (f : RegexFlags) (ts : List Terminal) (families : List (Terminal × List Terminal)) :
    Prop where
  sound : ∀ fam ∈ families, fam.1 ∈ ts ∧ ∀ l, l ∈ fam.2 ↔ l ∈ ts ∧ IsKeyword f fam.1 l
  sublist : ∀ fam ∈ families, fam.2.Sublist ts
  complete : ∀ t ∈ ts, t.pattern.kind = .regex → ∃ fam ∈ families, fam.1 = t

theorem families_spec {families : List (Terminal × List Terminal)}
    (h : ((ts.filter fun t => t.pattern.kind == PatternKind.regex).mapM fun t => do
      return (t, ← keywordsOf f (ts.filter fun t => t.pattern.kind == PatternKind.literal) t)) = .ok families) :
    Families f ts families := by
  have each : Forall₂ (fun t fam => fam.1 = t ∧
      keywordsOf f (ts.filter fun t => t.pattern.kind == PatternKind.literal) t = .ok fam.2)
      (ts.filter fun t => t.pattern.kind == PatternKind.regex) families := by
    refine (forall₂_of_mapM h).imp ?_
    intro t fam pair
    obtain ⟨ls, words, last⟩ := bind_eq_ok_iff.mp pair
    obtain rfl := Except.ok.inj last
    exact ⟨rfl, words⟩
  constructor
  · intro fam mem
    obtain ⟨t, among, rfl, words⟩ := exists_left_of_forall₂ each mem
    rw [List.mem_filter, beq_iff_eq] at among
    refine ⟨among.1, ?_⟩
    intro l
    rw [mem_keywordsOf words among.2 (by simp), List.mem_filter, beq_iff_eq]
    constructor
    · rintro ⟨⟨mem, _⟩, keyword⟩
      exact ⟨mem, keyword⟩
    · rintro ⟨mem, keyword⟩
      exact ⟨⟨mem, keyword.literal⟩, keyword⟩
  · intro fam mem
    obtain ⟨t, _, rfl, words⟩ := exists_left_of_forall₂ each mem
    exact (keywordsOf_sublist words).trans List.filter_sublist
  · intro t mem regular
    obtain ⟨fam, among, same, _⟩ := exists_right_of_forall₂ each
      (List.mem_filter.mpr ⟨mem, by simp [regular]⟩)
    exact ⟨fam, among, same⟩

/-- The terminals that a scanner tries, and those that have keywords. -/
theorem build_spec (h : build f bytes ts = .ok sc) :
    (∃ left, left.Sublist ts ∧ (∀ t, t ∈ left ↔ t ∈ ts ∧ ¬ Folded f ts t) ∧
        Forall₂ (Tries (ownFlags f bytes)) left sc.matchers) ∧
      ∀ name, (sc.keywords.lookup name).isSome = true ↔
        ∃ t ∈ ts, t.name = name ∧ ∃ l ∈ ts, IsKeyword f t l := by
  unfold build at h
  obtain ⟨families, gathered, h⟩ := bind_eq_ok_iff.mp h
  obtain ⟨keywords, words, h⟩ := bind_eq_ok_iff.mp h
  obtain ⟨matchers, made, h⟩ := bind_eq_ok_iff.mp h
  obtain rfl := Except.ok.inj h
  have known := families_spec gathered
  have tried := (alternatives_eq_ok_iff.mp made).2
  constructor
  · refine ⟨_, List.filter_sublist, ?_, (forall₂_of_mapM tried).imp fun _ _ => ready_eq_ok_iff.mp⟩
    intro t
    rw [List.mem_filter]
    refine and_congr_right fun mem => ?_
    rw [Bool.not_eq_true', ← Bool.not_eq_true, List.contains_iff_mem, List.mem_flatMap]
    refine not_congr ?_
    constructor
    · rintro ⟨fam, among, covered⟩
      rw [List.mem_filter] at covered
      exact ⟨mem, fam.1, (known.sound fam among).1, ((known.sound fam among).2 t |>.mp covered.1).2,
        covered.2⟩
    · rintro ⟨_, r, among, keyword, covered⟩
      obtain ⟨fam, listed, rfl⟩ := known.complete r among keyword.regular
      refine ⟨fam, listed, List.mem_filter.mpr ⟨?_, covered⟩⟩
      exact ((known.sound fam listed).2 t).mpr ⟨mem, keyword⟩
  · intro name
    have entries : Forall₂ (fun fam e => e.1 = fam.1.name)
        (families.filter fun fam => !fam.2.isEmpty) keywords := by
      refine (forall₂_of_mapM words).imp ?_
      intro fam e pair
      obtain ⟨ms, _, last⟩ := bind_eq_ok_iff.mp pair
      rw [← Except.ok.inj last]
    simp only [List.lookup_isSome_iff, beq_iff_eq]
    constructor
    · rintro ⟨e, mem, rfl⟩
      obtain ⟨fam, among, name⟩ := exists_left_of_forall₂ entries mem
      rw [List.mem_filter] at among
      obtain ⟨l, first⟩ := List.exists_mem_of_ne_nil fam.2 (by simpa using among.2)
      obtain ⟨terminal, words⟩ := known.sound fam among.1
      exact ⟨fam.1, terminal, name.symm, l, words l |>.mp first⟩
    · rintro ⟨t, mem, rfl, l, literal, keyword⟩
      obtain ⟨fam, listed, rfl⟩ := known.complete t mem keyword.regular
      have some : l ∈ fam.2 := ((known.sound fam listed).2 l).mpr ⟨literal, keyword⟩
      obtain ⟨e, among, name⟩ := exists_right_of_forall₂ entries
        (List.mem_filter.mpr ⟨listed, by simpa using List.ne_nil_of_mem some⟩)
      exact ⟨e, among, name.symm⟩

theorem exists_build (readable : ∀ t ∈ ts, ∃ r, t.pattern.compile f = .ok r)
    (own : ∀ t ∈ ts, ∃ r, t.pattern.compile (ownFlags f bytes) = .ok r) (groups : Groups bytes ts) :
    ∃ sc, build f bytes ts = .ok sc := by
  have readies : ∀ {g : RegexFlags} {t : Terminal}, (∃ r, t.pattern.compile g = .ok r) →
      ∃ m, ready g t = .ok m := by
    rintro g t ⟨r, compiled⟩
    exact ⟨⟨t.name, r⟩, ready_eq_ok_iff.mpr ⟨rfl, compiled⟩⟩
  have exists_alternatives {us : List Terminal} (sub : us.Sublist ts) :
      ∃ ms, alternatives f bytes us = .ok ms := by
    obtain ⟨ms, made⟩ := exists_mapM_ok fun t mem => readies (own t (sub.mem mem))
    exact ⟨ms, alternatives_eq_ok_iff.mpr ⟨groups.sublist sub, made⟩⟩
  obtain ⟨families, gathered⟩ : ∃ families,
      ((ts.filter fun t => t.pattern.kind == PatternKind.regex).mapM fun t => do
        return (t, ← keywordsOf f (ts.filter fun t => t.pattern.kind == PatternKind.literal) t)) =
          .ok families := by
    apply exists_mapM_ok
    intro t mem
    obtain ⟨m, made⟩ := readies (readable t (List.mem_filter.mp mem).1)
    by_cases asked : ((ts.filter fun t => t.pattern.kind == PatternKind.literal).any fun l =>
        l.priority == t.priority) = true
    · exact ⟨_, by rw [keywordsOf, if_pos asked, made]; rfl⟩
    · exact ⟨_, by rw [keywordsOf, if_neg asked]; rfl⟩
  obtain ⟨keywords, words⟩ : ∃ keywords, ((families.filter fun fam => !fam.2.isEmpty).mapM fun fam => do
      return (fam.1.name, ← alternatives f bytes fam.2)) = .ok keywords := by
    apply exists_mapM_ok
    intro fam mem
    obtain ⟨ms, made⟩ := exists_alternatives
      ((families_spec gathered).sublist fam (List.mem_filter.mp mem).1)
    exact ⟨_, by rw [made]; rfl⟩
  obtain ⟨matchers, made⟩ := exists_alternatives List.filter_sublist
  exact ⟨_, bind_eq_ok_iff.mpr ⟨families, gathered, bind_eq_ok_iff.mpr ⟨keywords, words,
    bind_eq_ok_iff.mpr ⟨matchers, made, rfl⟩⟩⟩⟩

end Scanner

end AxisLang
