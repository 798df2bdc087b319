/-! Columns on the screen: how wide a line is when tabs go to the next multiple of eight. -/
namespace AxisLang

def tabStop : Nat := 8

/-- The number of characters of a text after its tabs are replaced by blanks. The column restarts
after a line feed or a carriage return. -/
def expandedLength (cs : List Char) : Nat :=
  go 0 0 cs
where
  /-- `total` counts the characters written so far, `column` those of the current line. -/
  go (total column : Nat) : List Char → Nat
    | [] => total
    | c :: cs =>
      if c = '\t' then
        let fill := tabStop - column % tabStop
        go (total + fill) (column + fill) cs
      else if c = '\n' || c = '\r' then go (total + 1) 0 cs
      else go (total + 1) (column + 1) cs

def lastLine (cs : List Char) : List Char :=
  (cs.reverse.takeWhile (· ≠ '\n')).reverse

def firstLine (cs : List Char) : List Char :=
  cs.takeWhile (· ≠ '\n')

theorem exists_last_newline {u : List Char} (h : '\n' ∈ u) : ∃ a b, u = a ++ '\n' :: b ∧ '\n' ∉ b := by
  obtain ⟨b, a, eq, first⟩ := List.eq_append_cons_of_mem (List.mem_reverse.mpr h)
  refine ⟨a.reverse, b.reverse, ?_, by simpa using first⟩
  rw [← List.reverse_reverse u, eq]
  simp

end AxisLang
