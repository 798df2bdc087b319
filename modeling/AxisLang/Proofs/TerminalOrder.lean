import AxisLang.Terminal.Basic
import AxisLang.Proofs.Results

/-! The order in which a lexer tries its terminals. Terminals with names of their own stand in a strict
order, and sorting lists each of them once in that order. -/
namespace AxisLang

namespace Terminal

open List (Forall₂)

namespace Rank

variable {a b c : Rank}

theorem before_trans (h : a.before b = true) (h' : b.before c = true) : a.before c = true := by
  unfold before at *
  have names := @String.lt_trans a.name b.name c.name
  grind

theorem before_asymm (h : a.before b = true) : b.before a = false := by
  unfold before at *
  have names := @String.lt_asymm a.name b.name
  grind

theorem before_total (h : a.name ≠ b.name) : a.before b = true ∨ b.before a = true := by
  have names : a.name < b.name ∨ b.name < a.name := by
    by_cases less : a.name < b.name
    · exact .inl less
    · by_cases more : b.name < a.name
      · exact .inr more
      · exact absurd (String.le_antisymm (String.not_lt.mp more) (String.not_lt.mp less)) h
  unfold before
  grind

end Rank

def Before (a b : Terminal) : Prop :=
  ∃ ρ σ, a.rank = .ok ρ ∧ b.rank = .ok σ ∧ ρ.before σ = true

section Sorting

variable {x : Rank × Terminal} {xs : List (Rank × Terminal)} {ts out : List Terminal}

theorem insertByRank_perm (x : Rank × Terminal) (xs : List (Rank × Terminal)) :
    (insertByRank x xs).Perm (x :: xs) := by
  induction xs with
  | nil => exact .refl _
  | cons y ys ih =>
    unfold insertByRank
    split
    · exact .refl _
    · exact (ih.cons y).trans (.swap x y ys)

theorem insertByRank_ordered (h : xs.Pairwise fun a b => b.1.before a.1 = false) :
    (insertByRank x xs).Pairwise fun a b => b.1.before a.1 = false := by
  induction xs with
  | nil => exact List.pairwise_singleton _ _
  | cons y ys ih =>
    rw [List.pairwise_cons] at h
    unfold insertByRank
    split
    · rename_i first
      refine List.pairwise_cons.mpr ⟨?_, List.pairwise_cons.mpr h⟩
      intro z mem
      rcases List.mem_cons.mp mem with rfl | mem
      · exact Rank.before_asymm first
      · by_contra between
        have behind := Rank.before_trans (by simpa using between) first
        rw [h.1 z mem] at behind
        exact Bool.noConfusion behind
    · rename_i behind
      refine List.pairwise_cons.mpr ⟨?_, ih h.2⟩
      intro z mem
      rcases List.mem_cons.mp ((insertByRank_perm x ys).mem_iff.mp mem) with rfl | mem
      · simpa using behind
      · exact h.1 z mem

theorem foldl_insertByRank (ys xs : List (Rank × Terminal))
    (h : xs.Pairwise fun a b => b.1.before a.1 = false) :
    (ys.foldl (fun acc y => insertByRank y acc) xs).Perm (ys ++ xs) ∧
      (ys.foldl (fun acc y => insertByRank y acc) xs).Pairwise fun a b => b.1.before a.1 = false := by
  induction ys generalizing xs with
  | nil => exact ⟨.refl _, h⟩
  | cons y ys ih =>
    obtain ⟨perm, ordered⟩ := ih _ (insertByRank_ordered (x := y) h)
    refine ⟨perm.trans ?_, ordered⟩
    exact ((insertByRank_perm y xs).append_left ys).trans List.perm_middle

theorem rank_name {t : Terminal} {ρ : Rank} (h : t.rank = .ok ρ) : ρ.name = t.name := by
  obtain ⟨w, _, last⟩ := bind_eq_ok_iff.mp h
  rw [← Except.ok.inj last]

theorem sorted_spec (h : sorted ts = .ok out) :
    out.Perm ts ∧ ((ts.map (·.name)).Nodup → out.Pairwise Before) := by
  obtain ⟨ranked, ranks, last⟩ := bind_eq_ok_iff.mp h
  obtain rfl := Except.ok.inj last
  have each : Forall₂ (fun t x => t = x.2 ∧ x.2.rank = .ok x.1) ts ranked := by
    refine (forall₂_of_mapM ranks).imp ?_
    intro t x pair
    obtain ⟨ρ, rank, last⟩ := bind_eq_ok_iff.mp pair
    obtain rfl := Except.ok.inj last
    exact ⟨rfl, rank⟩
  have terminals : ts = ranked.map (·.2) := by
    have items := each.imp fun _ _ both => both.1
    rwa [← List.forall₂_map_right_iff, List.forall₂_eq_eq_eq] at items
  have rankOf : ∀ x ∈ ranked, x.2.rank = .ok x.1 := by
    intro x mem
    obtain ⟨t, _, _, rank⟩ := exists_left_of_forall₂ each mem
    exact rank
  obtain ⟨perm, ordered⟩ := foldl_insertByRank ranked [] .nil
  rw [List.append_nil] at perm
  refine ⟨terminals ▸ perm.map _, ?_⟩
  intro distinct
  have apart := (perm.map (·.2.name)).nodup_iff.mpr (by simpa [terminals, Function.comp_def] using distinct)
  rw [List.Nodup, List.pairwise_map] at apart
  rw [List.pairwise_map]
  refine (ordered.and apart).imp_of_mem ?_
  intro x y first second both
  have rank := rankOf x (perm.mem_iff.mp first)
  have rank' := rankOf y (perm.mem_iff.mp second)
  refine ⟨x.1, y.1, rank, rank', ?_⟩
  have names : x.1.name ≠ y.1.name := by
    rw [rank_name rank, rank_name rank']
    exact both.2
  rcases Rank.before_total names with before | behind
  · exact before
  · rw [both.1] at behind
    exact Bool.noConfusion behind

end Sorting

end Terminal

end AxisLang
