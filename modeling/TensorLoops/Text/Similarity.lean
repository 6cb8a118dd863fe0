namespace TensorLoops.Text

/-- The characters of a text, each with whether it is shared. -/
abbrev Shares := List (Char × Bool)

/-- Shares the first character like `c` between two places, if one is left. The list begins at place `i`. -/
def share? (c : Char) (first last : Nat) : Nat → Shares → Option Shares
  | _, [] => none
  | i, (d, shared) :: rest =>
    if first ≤ i && i ≤ last && d == c && !shared then some ((d, true) :: rest)
    else (share? c first last (i + 1) rest).map ((d, shared) :: ·)

/-- Shares characters from left to right, each with one at most `reach` places away. The first text
begins at place `i`; its shared characters are given too. -/
def shareAll (reach : Nat) : Nat → List Char → Shares → List Char × Shares
  | _, [], shares => ([], shares)
  | i, c :: rest, shares =>
    match share? c (i - reach) (i + reach) 0 shares with
    | none => shareAll reach (i + 1) rest shares
    | some shares =>
      let (found, shares) := shareAll reach (i + 1) rest shares
      (c :: found, shares)

/-- The shared characters of two texts, in the order of each of them. -/
def sharedChars (s t : List Char) : List Char × List Char :=
  let (found, shares) :=
    shareAll (max s.length t.length / 2 - 1) 0 s (t.map fun c => (c, false))
  (found, (shares.filter Prod.snd).map Prod.fst)

/-- How many places two lists differ at. -/
def differences (s t : List Char) : Nat := ((s.zip t).filter fun p => p.1 != p.2).length

/-- A number from zero to one: the mean of the shared part of each text, and of the part of the shared
characters that stand in order, where two that changed places count once. -/
def similarity (s t : List Char) : Float :=
  if s.isEmpty && t.isEmpty then 1
  else
    let (left, right) := sharedChars s t
    if left.isEmpty then 0
    else
      let n := Float.ofNat left.length
      let inOrder := Float.ofNat (left.length - differences left right / 2)
      (n / Float.ofNat s.length + n / Float.ofNat t.length + inOrder / n) / 3

/-- The name most similar to a text, if one is similar enough; of equally similar names the last. -/
def mostSimilar? (s : String) (names : List String) : Option String :=
  let pick (best : Option (Float × String)) (name : String) : Option (Float × String) :=
    let x := similarity s.toList name.toList
    if x > 0.7 && best.all (fun b => b.1 ≤ x) then some (x, name) else best
  (names.foldl pick none).map Prod.snd

end TensorLoops.Text
