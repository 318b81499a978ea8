/-! Suggestions for a misspelt name. Names are compared by the Jaro-Winkler similarity: the share of
characters that match within a window, less the matches out of order, with a bonus for a common
beginning. -/

namespace Metagen.Text

/-- Mark the first character of `target` from index `low` up to `high`, excluded, that equals `c`
and is not taken yet. `i` is the index of the list's head. -/
def takeMatch (c : Char) (low high i : Nat) : List (Char × Bool) → Option (List (Char × Bool))
  | [] => none
  | (d, taken) :: rest =>
    if high ≤ i then none
    else if low ≤ i && c == d && !taken then some ((d, true) :: rest)
    else (takeMatch c low high (i + 1) rest).map ((d, taken) :: ·)

/-- Match the characters of `source` in order, each within `reach` of its own index. Returns the
matched characters of `source` and the marked target. -/
def matchWithin (reach : Nat) (i : Nat) (source : List Char) (target : List (Char × Bool)) :
    List Char × List (Char × Bool) :=
  match source with
  | [] => ([], target)
  | c :: rest =>
    match takeMatch c (i - reach) (i + reach + 1) 0 target with
    | some marked =>
      let (matched, final) := matchWithin reach (i + 1) rest marked
      (c :: matched, final)
    | none => matchWithin reach (i + 1) rest target

def jaro (a b : List Char) : Float :=
  if a.isEmpty && b.isEmpty then 1.0
  else if a.isEmpty || b.isEmpty then 0.0
  else
    let reach := max a.length b.length / 2 - 1
    let (matched, marked) := matchWithin reach 0 a (b.map (·, false))
    let other := (marked.filter (·.2)).map (·.1)
    let count := matched.length
    if count == 0 then 0.0
    else
      let swapped := ((matched.zip other).countP fun (c, d) => c != d) / 2
      let share (n total : Nat) : Float := n.toFloat / total.toFloat
      (share count a.length + share count b.length + share (count - swapped) count) / 3.0

/-- The length of the common beginning, at most four characters. -/
def commonStart (a b : List Char) : Nat :=
  (((a.take 4).zip b).takeWhile fun (c, d) => c == d).length

/-- The Jaro-Winkler similarity: above 0.7, a tenth of the missing part is added for each character
of the common beginning. -/
def similarity (a b : String) : Float :=
  let base := jaro a.toList b.toList
  if base > 0.7 then
    base + 0.1 * (commonStart a.toList b.toList).toFloat * (1.0 - base)
  else base

/-- At most three options at least 0.8 similar to `given`, the most similar first, and equally
similar ones by code points. -/
def suggestions (given : String) (options : List String) : List String :=
  let scored := options.map fun option => (similarity given option, option)
  let close := scored.filter fun (score, _) => score ≥ 0.8
  let sorted := close.mergeSort fun (s, a) (t, b) => t < s || (s == t && a ≤ b)
  (sorted.take 3).map (·.2)

end Metagen.Text
