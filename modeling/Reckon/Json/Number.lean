import Reckon.Number.Decimal

/-!
Numbers in JSON. They are read with one pass over the digits and arithmetic on doubles, so that a
text with many digits or a large exponent may miss the nearest double by a little; a magnitude past
the largest double is refused.
-/
namespace Reckon.Json

/-- Digits at the front, taken into `n` for as long as it stays under `2 ^ 64`: the number reached,
how many digits it took, and the rest. -/
def absorb (n count : Nat) : List Char → Nat × Nat × List Char
  | [] => (n, count, [])
  | c :: cs =>
    let n' := digitsValue [c] + 10 * n
    if c.isDigit && n' < UInt64.size then absorb n' (count + 1) cs else (n, count, c :: cs)

/-- The significand of a whole number, how many of its digits did not fit, and the rest. A zero
stands alone. -/
def whole? : List Char → Option (Nat × Nat × List Char)
  | '0' :: cs =>
    match cs with
    | c :: _ => if c.isDigit then none else some (0, 0, cs)
    | [] => some (0, 0, cs)
  | c :: cs =>
    if c.isDigit then
      let (n, _, rest) := absorb (digitsValue [c]) 0 cs
      some (n, (rest.takeWhile Char.isDigit).length, rest.dropWhile Char.isDigit)
    else none
  | [] => none

/-- A significand with the digits after a point, if there is one, and how many of them it took. -/
def fraction? (n : Nat) : List Char → Option (Nat × Nat × List Char)
  | '.' :: c :: cs =>
    if c.isDigit then
      let (n, count, rest) := absorb n 0 (c :: cs)
      some (n, count, rest.dropWhile Char.isDigit)
    else none
  | '.' :: [] => none
  | cs => some (n, 0, cs)

def exponentDigits? (cs : List Char) : Option (Nat × List Char) :=
  match cs.takeWhile Char.isDigit with
  | [] => none
  | ds => some (digitsValue ds, cs.dropWhile Char.isDigit)

def exponent? : List Char → Option (Int × List Char)
  | [] => some (0, [])
  | c :: cs =>
    if c == 'e' || c == 'E' then
      match cs with
      | '-' :: cs => (exponentDigits? cs).map fun (n, rest) => (-n, rest)
      | '+' :: cs => (exponentDigits? cs).map fun (n, rest) => (n, rest)
      | cs => (exponentDigits? cs).map fun (n, rest) => (n, rest)
    else some (0, c :: cs)

def powerOfTen (n : Nat) : Float :=
  Float.ofScientific 1 false n

/-- `x` times `10 ^ e` by one multiplication or division, after as many divisions by `10 ^ 308` as
bring the exponent into range; none past the largest double. -/
def scale? (x : Float) (e : Int) : Option Float :=
  if e < -308 then if x == 0 then some x else scale? (x / powerOfTen 308) (e + 308)
  else if e < 0 then some (x / powerOfTen e.natAbs)
  else if e ≤ 308 then some (x * powerOfTen e.natAbs) |>.filter (!·.isInf)
  else if x == 0 then some x
  else none
termination_by (-e).toNat
decreasing_by omega

def magnitude? (cs : List Char) : Option (Float × List Char) := do
  let (n, dropped, cs) ← whole? cs
  let (n, places, cs) ← fraction? n cs
  let (e, cs) ← exponent? cs
  let x ← scale? (Float.ofNat n) (e + dropped - places)
  return (x, cs)

/-- The number that a text begins with, and what follows it. -/
def number? : List Char → Option (Float × List Char)
  | '-' :: cs => (magnitude? cs).map fun (x, rest) => (-x, rest)
  | cs => magnitude? cs

theorem absorb_suffix (n count : Nat) (cs : List Char) : (absorb n count cs).2.2 <:+ cs := by
  induction cs generalizing n count with
  | nil => simp [absorb]
  | cons c cs ih =>
    simp only [absorb]
    split
    · exact (ih _ _).trans (List.suffix_cons c cs)
    · exact List.suffix_refl _

theorem suffix_of_whole? {cs rest : List Char} {n dropped : Nat}
    (h : whole? cs = some (n, dropped, rest)) : rest <:+ cs := by
  unfold whole? at h
  split at h
  · split at h
    · split at h <;> simp_all
    · simp_all
  · rename_i c cs _
    split at h
    · simp only [Option.some.injEq, Prod.mk.injEq] at h
      rw [← h.2.2]
      exact ((List.dropWhile_suffix _).trans (absorb_suffix _ _ _)).trans (List.suffix_cons c cs)
    · simp at h
  · simp at h

theorem suffix_of_fraction? {cs rest : List Char} {n m places : Nat}
    (h : fraction? n cs = some (m, places, rest)) : rest <:+ cs := by
  unfold fraction? at h
  split at h
  · rename_i c cs
    split at h
    · simp only [Option.some.injEq, Prod.mk.injEq] at h
      rw [← h.2.2]
      exact ((List.dropWhile_suffix _).trans (absorb_suffix _ _ _)).trans (List.suffix_cons '.' _)
    · simp at h
  · simp at h
  · simp_all

theorem suffix_of_exponentDigits? {cs rest : List Char} {n : Nat}
    (h : exponentDigits? cs = some (n, rest)) : rest <:+ cs := by
  unfold exponentDigits? at h
  split at h
  · simp at h
  · simp only [Option.some.injEq, Prod.mk.injEq] at h
    rw [← h.2]
    exact List.dropWhile_suffix _

theorem suffix_of_exponent? {cs rest : List Char} {e : Int}
    (h : exponent? cs = some (e, rest)) : rest <:+ cs := by
  unfold exponent? at h
  split at h
  · simp_all
  · rename_i c cs
    split at h
    · split at h <;>
      · simp only [Option.map_eq_some_iff, Prod.mk.injEq] at h
        obtain ⟨_, hd, _, rfl⟩ := h
        have := suffix_of_exponentDigits? hd
        exact this.trans (by simp [List.suffix_cons_iff])
    · simp_all

theorem suffix_of_magnitude? {cs rest : List Char} {x : Float}
    (h : magnitude? cs = some (x, rest)) : rest <:+ cs := by
  simp only [magnitude?, bind, Option.bind_eq_some_iff] at h
  obtain ⟨⟨n, dropped, cs₁⟩, h1, ⟨m, places, cs₂⟩, h2, ⟨e, cs₃⟩, h3, y, _, h4⟩ := h
  simp only [pure, Option.some.injEq, Prod.mk.injEq] at h4
  rw [← h4.2]
  exact ((suffix_of_exponent? h3).trans (suffix_of_fraction? h2)).trans (suffix_of_whole? h1)

theorem suffix_of_number? {cs rest : List Char} {x : Float}
    (h : number? cs = some (x, rest)) : rest <:+ cs := by
  unfold number? at h
  split at h
  · simp only [Option.map_eq_some_iff, Prod.mk.injEq] at h
    obtain ⟨_, hm, _, rfl⟩ := h
    exact (suffix_of_magnitude? hm).trans (List.suffix_cons _ _)
  · exact suffix_of_magnitude? h

end Reckon.Json
