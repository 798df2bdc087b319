import AxisLang.Parser.Machine
import Mathlib.Logic.Relation

/-! Derivations of a grammar with the values that its rules compute.
Symbols go by their names, as in a parse table, and a token of a kind that has no rules is a derivation
of its kind. A derivation is taken over a list of symbols at once: the front symbol is a token or is replaced by the
expansion of one of its rules, and the rest of the list derives the rest of the tokens. -/
namespace AxisLang

variable {α : Type}

/-- The symbols derive the tokens, and the values of the symbols are as given. -/
inductive Derives (rules : List Rule) (sem : Semantics α) :
    List String → List Token → List α → Prop
  | nil : Derives rules sem [] [] []
  | token {t : Token} {v : α} {Xs w vs} (terminal : ∀ r ∈ rules, r.origin.name ≠ t.kind)
      (value : sem.onToken t = .ok v) (tail : Derives rules sem Xs w vs) :
      Derives rules sem (t.kind :: Xs) (t :: w) (v :: vs)
  | rule {r : Rule} {v : α} {us u Xs w vs} (mem : r ∈ rules)
      (body : Derives rules sem (r.expansion.map Symbol.name) u us)
      (value : sem.onRule r us = .ok v) (tail : Derives rules sem Xs w vs) :
      Derives rules sem (r.origin.name :: Xs) (u ++ w) (v :: vs)

namespace Derives

variable {rules : List Rule} {sem : Semantics α} {Xs Ys : List String} {w u : List Token}
  {vs us : List α}

theorem append (h : Derives rules sem Xs w vs) (k : Derives rules sem Ys u us) :
    Derives rules sem (Xs ++ Ys) (w ++ u) (vs ++ us) := by
  induction h with
  | nil => exact k
  | token terminal value _ ih => exact .token terminal value ih
  | rule mem body value _ _ ih =>
    rw [List.append_assoc]
    exact .rule mem body value ih

theorem length_eq (h : Derives rules sem Xs w vs) : vs.length = Xs.length := by
  induction h with
  | nil => rfl
  | token _ _ _ ih => exact congrArg Nat.succ ih
  | rule _ _ _ _ _ ih => exact congrArg Nat.succ ih

theorem cons_inv {X : String} (h : Derives rules sem (X :: Xs) w vs) :
    ∃ u w' v vs', w = u ++ w' ∧ vs = v :: vs' ∧ Derives rules sem [X] u [v] ∧
      Derives rules sem Xs w' vs' := by
  cases h with
  | @token t v _ w' vs' terminal value tail =>
    exact ⟨[t], w', v, vs', rfl, rfl, .token terminal value .nil, tail⟩
  | @rule r v us u _ w' vs' mem body value tail =>
    refine ⟨u, w', v, vs', rfl, rfl, ?_, tail⟩
    have single : Derives rules sem [r.origin.name] (u ++ []) [v] := .rule mem body value .nil
    rwa [List.append_nil] at single

theorem nil_inv (h : Derives rules sem [] w vs) : w = [] ∧ vs = [] := by
  cases h
  exact ⟨rfl, rfl⟩

theorem singleton_inv {X : String} (h : Derives rules sem [X] w vs) :
    (∃ t v, X = t.kind ∧ w = [t] ∧ vs = [v] ∧ (∀ r ∈ rules, r.origin.name ≠ X) ∧
      sem.onToken t = .ok v) ∨
    ∃ r v us, r ∈ rules ∧ X = r.origin.name ∧ vs = [v] ∧
      Derives rules sem (r.expansion.map Symbol.name) w us ∧ sem.onRule r us = .ok v := by
  cases h with
  | @token t v _ _ _ terminal value tail =>
    obtain ⟨rfl, rfl⟩ := tail.nil_inv
    exact .inl ⟨t, v, rfl, rfl, rfl, terminal, value⟩
  | @rule r v us u _ _ _ mem body value tail =>
    obtain ⟨rfl, rfl⟩ := tail.nil_inv
    exact .inr ⟨r, v, us, mem, rfl, rfl, by rwa [List.append_nil], value⟩

theorem exists_of_forall (h : ∀ X ∈ Xs, ∃ u v, Derives rules sem [X] u [v]) :
    ∃ u vs, Derives rules sem Xs u vs := by
  induction Xs with
  | nil => exact ⟨[], [], .nil⟩
  | cons X Xs ih =>
    obtain ⟨u, v, first⟩ := h X (by simp)
    obtain ⟨w, vs, rest⟩ := ih fun Y mem => h Y (by simp [mem])
    exact ⟨u ++ w, [v] ++ vs, first.append rest⟩

end Derives

structure Semantics.IsTotal (sem : Semantics α) (rules : List Rule) : Prop where
  token : ∀ x, ∃ v, sem.onToken x = .ok v
  rule : ∀ r ∈ rules, ∀ u vs, Derives rules sem (r.expansion.map Symbol.name) u vs →
    ∃ v, sem.onRule r vs = .ok v

end AxisLang
