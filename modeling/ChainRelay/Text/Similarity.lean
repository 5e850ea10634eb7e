/-! # Jaro similarity of two words

Characters match when they are equal and not further apart than half the longer word; matched
characters in another order count as half transpositions. -/

namespace ChainRelay

/-- Mark the first unused position of `word` in `[low, high)` that holds `c`. -/
def claimPosition (c : Char) (low high : Nat) (word : Array Char) (used : Array Bool) :
    Option (Array Bool) :=
  let free (j : Nat) : Bool := low ≤ j && word[j]? == some c && used[j]? == some false
  (List.range (min high word.size)).find? free |>.map fun j => used.set! j true

/-- The matched characters of both words, each in the order of its word. -/
def jaroMatches (a b : Array Char) : List Char × List Char :=
  let reach := max a.size b.size / 2 - 1
  let step (state : List Char × Array Bool) (entry : Char × Nat) : List Char × Array Bool :=
    let (c, i) := entry
    match claimPosition c (i - reach) (i + reach + 1) b state.2 with
    | some used => (c :: state.1, used)
    | none => state
  let (found, used) := a.toList.zipIdx.foldl step ([], Array.replicate b.size false)
  (found.reverse, (b.toList.zip used.toList).filterMap fun (c, u) => if u then some c else none)

/-- The Jaro similarity, from 0 (nothing in common) to 1 (equal). -/
def jaro (a b : String) : Float :=
  let xs := a.toList.toArray
  let ys := b.toList.toArray
  if xs.isEmpty && ys.isEmpty then 1.0
  else
    let (left, right) := jaroMatches xs ys
    let common := left.length
    if common = 0 then 0.0
    else
      let moved := ((left.zip right).filter fun (c, d) => c != d).length / 2
      let ratio (n d : Nat) : Float := n.toFloat / d.toFloat
      (ratio common xs.size + ratio common ys.size + ratio (common - moved) common) / 3.0

/-- Put a scored word behind every word that does not score higher. -/
def insertByScore (entry : Float × String) : List (Float × String) → List (Float × String)
  | [] => [entry]
  | head :: rest =>
    if head.1 > entry.1 then entry :: head :: rest else head :: insertByScore entry rest

/-- The words whose similarity to `word` is above 0.7, the most similar last. -/
def similarWords (word : String) (known : List String) : List String :=
  let scored := known.foldl (fun found candidate =>
    let score := jaro word candidate
    if score > 0.7 then insertByScore (score, candidate) found else found) []
  scored.map (·.2)

end ChainRelay
