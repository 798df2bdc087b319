import AxisLang.Proofs.Einsum

/-! The axes of an expression that parses.
Its products have factors, and its names are spelled with letters, digits and underscores. So none of
them is a name that an ellipsis brings in. -/
namespace AxisLang

structure Axis.IsSpelled (a : Axis) : Prop where
  names : a.isEllipsis = false → a.names ≠ []
  fresh : ∀ n ∈ a.names, ∀ j, Shape.spareAxis j ≠ .named n

theorem toLower_ne_bang {c : Char} (h : c ≠ '!') : c.toLower ≠ '!' := by
  unfold Char.toLower
  split
  · next upper =>
    intro same
    have low : 65 ≤ c.val.toNat := UInt32.le_iff_toNat_le.mp upper.1
    have high : c.val.toNat ≤ 90 := UInt32.le_iff_toNat_le.mp upper.2
    have moved : (c.val + ('a'.val - 'A'.val)).toNat = 33 := congrArg Char.toNat same
    rw [UInt32.toNat_add] at moved
    change (c.val.toNat + 32) % 4294967296 = 33 at moved
    omega
  · exact h

theorem lowered_ne_spare {n : String} {c : Char} (head : n.toList.head? = some c) (other : c ≠ '!')
    (j : Nat) : Shape.spareAxis j ≠ .named (lowered n) := by
  intro same
  have chars := congrArg (fun s : String => s.toList.head?) (Axis.named.inj same)
  simp [lowered, head] at chars
  exact toLower_ne_bang other chars.symm

theorem Factor.name_mem_spell {x : Factor String} {n : String} (name : x.name? = some n) :
    .name n ∈ x.spell := by
  cases x with
  | name m => simpa [name?, spell] using name.symm
  | dots => cases name

theorem Entry.exists_name {x : Entry String} {n : String} (mem : n ∈ x.axis.names) :
    ∃ m, .name m ∈ x.spell ∧ n = lowered m := by
  cases x with
  | single x =>
    cases x with
    | name m => exact ⟨m, List.mem_singleton.mpr rfl, List.mem_singleton.mp mem⟩
    | dots => cases mem
  | product x y more =>
    obtain ⟨m, inside, rfl⟩ := List.mem_map.mp mem
    obtain ⟨f, hf, name⟩ := List.mem_filterMap.mp inside
    refine ⟨m, ?_, rfl⟩
    have spelled := Factor.name_mem_spell name
    rcases List.mem_cons.mp hf with rfl | hf
    · exact List.mem_append_left _ spelled
    · exact List.mem_append_right _ (mem_following hf spelled)

theorem Entry.names_ne_nil {x : Entry String} (unmixed : x.isMixed = false)
    (solid : x.axis.isEllipsis = false) : x.axis.names ≠ [] := by
  cases x with
  | single x =>
    cases x with
    | name m => exact List.cons_ne_nil _ _
    | dots => cases solid
  | product x y more =>
    cases x with
    | name m => exact List.cons_ne_nil _ _
    | dots => cases unmixed

theorem Expression.Reads.name_head {s n : String} {e : Phrase String} (h : Reads s e)
    (mem : .name n ∈ e.spell) : ∃ c, n.toList.head? = some c ∧ isNameStart c = true := by
  obtain ⟨ls, cut, spelled⟩ := h
  rw [spelled] at mem
  obtain ⟨⟨k, u⟩, lexeme, piece⟩ := List.mem_flatMap.mp mem
  have kind : k = .name := by
    cases k <;> simp [TokenKind.piece?] at piece ⊢
  subst kind
  obtain ⟨⟨c, rest, rfl, start, _⟩, _⟩ := cut.mem_inv lexeme
  obtain rfl : n = String.ofList (c :: rest) := by simpa [TokenKind.piece?] using piece
  exact ⟨c, by simp, start⟩

theorem Spec.isSpelled_of_parse {text : String} {s : Spec} (parsed : parse text = .ok s) :
    ∀ v ∈ s.inputs, ∀ a ∈ v.axes, a.IsSpelled := by
  obtain ⟨e, reads, unmixed, _, _⟩ := (Expression.parse_ok_iff text).mp ⟨s, parsed⟩
  obtain rfl := reads.parse_eq parsed
  intro v hv a ha
  obtain ⟨x, hx, same⟩ := exists_argument hv
  obtain ⟨y, rfl, own, inside⟩ := Argument.exists_entry (same ▸ ha)
  constructor
  · refine Entry.names_ne_nil (own ?_)
    rw [Phrase.isMixed, Bool.or_eq_false_iff, List.any_eq_false] at unmixed
    simpa using unmixed.1 x hx
  · intro n name j
    obtain ⟨m, spelled, rfl⟩ := Entry.exists_name name
    obtain ⟨c, head, start⟩ := reads.name_head (Phrase.mem_spell (.inl hx) (inside _ spelled))
    exact lowered_ne_spare head (fun bang => by simp [bang, isNameStart] at start) j

end AxisLang
