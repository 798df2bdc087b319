/-! Pairs in the order in which their keys were first seen, under a given equality of keys. -/
namespace AxisLang.Keyed

/-- Sets the value of a key: in the place of an equal key, which stays, or else at the end. -/
def put (same : κ → κ → Bool) (key : κ) (value : α) : List (κ × α) → List (κ × α)
  | [] => [(key, value)]
  | p :: ps => if same p.1 key then (p.1, value) :: ps else p :: put same key value ps

/-- The mapping that a list of pairs describes: the last value of a key counts, at the place of the
first. -/
def ofPairs (same : κ → κ → Bool) (pairs : List (κ × α)) : List (κ × α) :=
  pairs.foldl (fun m p => put same p.1 p.2 m) []

def firstSeen (same : κ → κ → Bool) (keys : List κ) : List (κ × Nat) :=
  keys.zipIdx.foldl (fun m k => if m.any fun p => same p.1 k.1 then m else m ++ [k]) []

/-- For each key the index of the first one equal to it. -/
def firstEqual (same : κ → κ → Bool) (keys : List κ) : List Nat :=
  let seen := firstSeen same keys
  keys.zipIdx.map fun k => ((seen.find? fun p => same p.1 k.1).map (·.2)).getD k.2

end AxisLang.Keyed
