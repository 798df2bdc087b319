import AxisLang.Proofs.Lexeme
import Mathlib.Data.List.Forall2

/-! The abstract form of expressions and how they are spelled.
A phrase lists arguments and perhaps a result; names are of any type, so that one definition serves for
tokens and for texts. Its spelling is the list of its names and marks, without layout. A spelling that
fits a phrase of one type of names fits a phrase of any finer type. -/
namespace AxisLang

inductive Mark where
  | dots
  | star
  | comma
  | opening
  | closing
  | arrow
deriving DecidableEq, Repr, Inhabited

def Mark.kind : Mark → TokenKind
  | .dots => .dots
  | .star => .star
  | .comma => .comma
  | .opening => .opening
  | .closing => .closing
  | .arrow => .arrow

inductive Piece (ν : Type) where
  | name (n : ν)
  | mark (m : Mark)
deriving DecidableEq, Repr

inductive Factor (ν : Type) where
  | name (n : ν)
  | dots
deriving DecidableEq, Repr

inductive Entry (ν : Type) where
  | single (f : Factor ν)
  | product (first second : Factor ν) (more : List (Factor ν))
deriving DecidableEq, Repr

inductive Argument (ν : Type) where
  | bare (name : ν)
  | indexed (name : Option ν) (first : Entry ν) (more : List (Entry ν))
deriving DecidableEq, Repr

structure Phrase (ν : Type) where
  first : Argument ν
  more : List (Argument ν)
  output : Option (Argument ν)
deriving DecidableEq, Repr

variable {ν μ β γ : Type}

def following (m : Mark) (spell : β → List (Piece ν)) (xs : List β) : List (Piece ν) :=
  xs.flatMap fun x => .mark m :: spell x

namespace Piece

def map (f : ν → μ) : Piece ν → Piece μ
  | .name n => .name (f n)
  | .mark m => .mark m

def kind : Piece ν → TokenKind
  | .name _ => .name
  | .mark m => m.kind

@[simp] theorem kind_map (f : ν → μ) (p : Piece ν) : (p.map f).kind = p.kind := by
  cases p <;> rfl

theorem map_eq_name {f : ν → μ} {p : Piece ν} {n : μ} :
    p.map f = .name n ↔ ∃ x, p = .name x ∧ f x = n := by
  cases p <;> simp [map]

theorem map_eq_mark {f : ν → μ} {p : Piece ν} {m : Mark} : p.map f = .mark m ↔ p = .mark m := by
  cases p <;> simp [map]

end Piece

namespace Factor

def map (f : ν → μ) : Factor ν → Factor μ
  | .name n => .name (f n)
  | .dots => .dots

def spell : Factor ν → List (Piece ν)
  | .name n => [.name n]
  | .dots => [.mark .dots]

end Factor

namespace Entry

def map (f : ν → μ) : Entry ν → Entry μ
  | .single x => .single (x.map f)
  | .product x y more => .product (x.map f) (y.map f) (more.map (Factor.map f))

def spell : Entry ν → List (Piece ν)
  | .single x => x.spell
  | .product x y more => x.spell ++ following .star Factor.spell (y :: more)

end Entry

namespace Argument

def map (f : ν → μ) : Argument ν → Argument μ
  | .bare n => .bare (f n)
  | .indexed n x more => .indexed (n.map f) (x.map f) (more.map (Entry.map f))

def spell : Argument ν → List (Piece ν)
  | .bare n => [.name n]
  | .indexed n x more =>
    n.toList.map Piece.name ++ .mark .opening :: (x.spell ++ following .comma Entry.spell more) ++
      [.mark .closing]

end Argument

namespace Phrase

def map (f : ν → μ) (e : Phrase ν) : Phrase μ :=
  ⟨e.first.map f, e.more.map (Argument.map f), e.output.map (Argument.map f)⟩

def spell (e : Phrase ν) : List (Piece ν) :=
  e.first.spell ++ following .comma Argument.spell e.more ++
    .mark .arrow :: e.output.toList.flatMap Argument.spell

end Phrase

/-- Whatever is spelled by coarse names, each of which comes from a fine one, comes from something
spelled by the fine names. -/
def Lifts (f : ν → μ) (g : β → γ) (spell : β → List (Piece ν)) (spell' : γ → List (Piece μ)) :
    Prop :=
  ∀ y ps, spell' y = ps.map (Piece.map f) → ∃ x, g x = y ∧ spell x = ps

theorem lifts_following {f : ν → μ} {g : β → γ} {spell : β → List (Piece ν)}
    {spell' : γ → List (Piece μ)} (h : Lifts f g spell spell') (m : Mark) :
    Lifts f (List.map g) (following m spell) (following m spell') := by
  intro ys
  induction ys with
  | nil =>
    intro ps eq
    exact ⟨[], rfl, (List.map_eq_nil_iff.mp eq.symm).symm⟩
  | cons y ys ih =>
    intro ps eq
    obtain ⟨p, q, rfl, front, back⟩ := List.map_eq_append_iff.mp eq.symm
    obtain ⟨a, p', rfl, mark, own⟩ := List.map_eq_cons_iff.mp front
    obtain rfl := Piece.map_eq_mark.mp mark
    obtain ⟨x, rfl, spelled⟩ := h y p' own.symm
    obtain ⟨xs, rfl, rest⟩ := ih q back.symm
    exact ⟨x :: xs, rfl, by rw [← spelled, ← rest]; rfl⟩

theorem lifts_factor (f : ν → μ) : Lifts f (Factor.map f) Factor.spell Factor.spell := by
  rintro (n | _) ps eq
  · obtain ⟨a, rest, rfl, name, none⟩ := List.map_eq_cons_iff.mp eq.symm
    obtain ⟨x, rfl, rfl⟩ := Piece.map_eq_name.mp name
    exact ⟨.name x, rfl, by rw [List.map_eq_nil_iff.mp none]; rfl⟩
  · obtain ⟨a, rest, rfl, mark, none⟩ := List.map_eq_cons_iff.mp eq.symm
    obtain rfl := Piece.map_eq_mark.mp mark
    exact ⟨.dots, rfl, by rw [List.map_eq_nil_iff.mp none]; rfl⟩

theorem lifts_entry (f : ν → μ) : Lifts f (Entry.map f) Entry.spell Entry.spell := by
  rintro (y | ⟨y₁, y₂, ys⟩) ps eq
  · obtain ⟨x, rfl, spelled⟩ := lifts_factor f y ps eq
    exact ⟨.single x, rfl, spelled⟩
  · obtain ⟨p, q, rfl, front, back⟩ := List.map_eq_append_iff.mp eq.symm
    obtain ⟨x₁, rfl, rfl⟩ := lifts_factor f y₁ p front.symm
    obtain ⟨xs, same, rfl⟩ := lifts_following (lifts_factor f) .star _ q back.symm
    obtain ⟨x₂, more, rfl, rfl, rfl⟩ := List.map_eq_cons_iff.mp same
    exact ⟨.product x₁ x₂ more, rfl, rfl⟩

theorem lifts_name (f : ν → μ) :
    Lifts f (Option.map f) (fun n => n.toList.map Piece.name) fun n => n.toList.map Piece.name := by
  rintro (_ | n) ps eq
  · exact ⟨none, rfl, (List.map_eq_nil_iff.mp eq.symm).symm⟩
  · obtain ⟨a, rest, rfl, name, empty⟩ := List.map_eq_cons_iff.mp eq.symm
    obtain ⟨x, rfl, rfl⟩ := Piece.map_eq_name.mp name
    exact ⟨some x, rfl, by rw [List.map_eq_nil_iff.mp empty]; rfl⟩

theorem lifts_argument (f : ν → μ) : Lifts f (Argument.map f) Argument.spell Argument.spell := by
  rintro (n | ⟨n, y, ys⟩) ps eq
  · obtain ⟨a, rest, rfl, name, empty⟩ := List.map_eq_cons_iff.mp eq.symm
    obtain ⟨x, rfl, rfl⟩ := Piece.map_eq_name.mp name
    exact ⟨.bare x, rfl, by rw [List.map_eq_nil_iff.mp empty]; rfl⟩
  · obtain ⟨p, q, rfl, front, last⟩ := List.map_eq_append_iff.mp eq.symm
    obtain ⟨p₁, p₂, rfl, name, body⟩ := List.map_eq_append_iff.mp front
    obtain ⟨a, p₂, rfl, mark, inside⟩ := List.map_eq_cons_iff.mp body
    obtain ⟨p₃, p₄, rfl, entry, entries⟩ := List.map_eq_append_iff.mp inside
    obtain ⟨b, q, rfl, close, empty⟩ := List.map_eq_cons_iff.mp last
    obtain rfl := Piece.map_eq_mark.mp mark
    obtain rfl := Piece.map_eq_mark.mp close
    obtain rfl := List.map_eq_nil_iff.mp empty
    obtain ⟨n, rfl, rfl⟩ := lifts_name f n p₁ name.symm
    obtain ⟨x, rfl, rfl⟩ := lifts_entry f y p₃ entry.symm
    obtain ⟨xs, rfl, rfl⟩ := lifts_following (lifts_entry f) .comma ys p₄ entries.symm
    exact ⟨.indexed n x xs, rfl, rfl⟩

theorem lifts_phrase (f : ν → μ) : Lifts f (Phrase.map f) Phrase.spell Phrase.spell := by
  rintro ⟨y, ys, out⟩ ps eq
  obtain ⟨p, q, rfl, inputs, rest⟩ := List.map_eq_append_iff.mp eq.symm
  obtain ⟨p₁, p₂, rfl, first, more⟩ := List.map_eq_append_iff.mp inputs
  obtain ⟨a, q, rfl, mark, last⟩ := List.map_eq_cons_iff.mp rest
  obtain rfl := Piece.map_eq_mark.mp mark
  obtain ⟨x, rfl, rfl⟩ := lifts_argument f y p₁ first.symm
  obtain ⟨xs, rfl, rfl⟩ := lifts_following (lifts_argument f) .comma ys p₂ more.symm
  cases out with
  | none =>
    obtain rfl := List.map_eq_nil_iff.mp last
    exact ⟨⟨x, xs, none⟩, rfl, rfl⟩
  | some y =>
    obtain ⟨z, rfl, spelled⟩ := lifts_argument f y q (by rw [last]; simp)
    exact ⟨⟨x, xs, some z⟩, rfl, by simp [Phrase.spell, spelled]⟩

end AxisLang
