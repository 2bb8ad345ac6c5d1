import Mathlib.Data.List.Forall2
import Mathlib.Data.List.Zip
import Reckon.Value

/-!
Values taken apart: into their elements, into the pairs of elements that two of them combine, and into
rows, in which a scalar and an only element are everywhere. `rigid?` is the length of a value that
stretches to no other.
-/
namespace Reckon.Value

variable {n i : Nat} {f g : Float → Float → Float} {l r v : Value}

theorem length_elements (v : Value) : v.elements.length = v.size := by
  cases v <;> rfl

/-- What two values may be that combine, and what comes of them. -/
theorem zipWith_eq_ok (h : l.zipWith f r = .ok v) :
    (∃ x y, l = scalar x ∧ r = scalar y ∧ v = scalar (f x y)) ∨
    (∃ x ys, (l = scalar x ∨ l = array [x]) ∧ r = array ys ∧ v = array (ys.map (f x))) ∨
    (∃ xs y, l = array xs ∧ (r = scalar y ∨ r = array [y]) ∧ v = array (xs.map (f · y))) ∨
    ∃ xs ys, l = array xs ∧ r = array ys ∧ xs.length = ys.length ∧ v = array (xs.zipWith f ys) := by
  unfold zipWith at h
  split at h
  · cases h
    exact .inl ⟨_, _, rfl, rfl, rfl⟩
  · cases h
    exact .inr (.inl ⟨_, _, .inl rfl, rfl, rfl⟩)
  · cases h
    exact .inr (.inr (.inl ⟨_, _, rfl, .inl rfl, rfl⟩))
  · split at h
    · cases h
      exact .inr (.inr (.inr ⟨_, _, rfl, rfl, ‹_›, rfl⟩))
    · split at h
      · cases h
        exact .inr (.inl ⟨_, _, .inr rfl, rfl, rfl⟩)
      · cases h
        exact .inr (.inr (.inl ⟨_, _, rfl, .inr rfl, rfl⟩))
      · cases h

theorem pairs_singleton_left (x : Float) (ys : List Float) :
    (array [x]).pairs (array ys) = ys.map (x, ·) := by
  rcases ys with _ | ⟨y, _ | ⟨y', ys⟩⟩ <;> simp [pairs]

theorem pairs_singleton_right (xs : List Float) (y : Float) :
    (array xs).pairs (array [y]) = xs.map (·, y) := by
  rcases xs with _ | ⟨x, _ | ⟨x', xs⟩⟩ <;> simp [pairs]

theorem pairs_of_length {xs ys : List Float} (h : xs.length = ys.length) :
    (array xs).pairs (array ys) = xs.zip ys := by
  simp only [pairs, h, if_true]

theorem elements_zipWith (h : l.zipWith f r = .ok v) :
    v.elements = (l.pairs r).map fun p => f p.1 p.2 := by
  obtain ⟨x, y, rfl, rfl, rfl⟩ | ⟨x, ys, rfl | rfl, rfl, rfl⟩ | ⟨xs, y, rfl, rfl | rfl, rfl⟩ |
    ⟨xs, ys, rfl, rfl, hlen, rfl⟩ := zipWith_eq_ok h
  · rfl
  · simp [elements, pairs]
  · simp [elements, pairs_singleton_left]
  · simp [elements, pairs]
  · simp [elements, pairs_singleton_right]
  · rw [pairs_of_length hlen]
    exact List.map_uncurry_zip_eq_zipWith.symm

theorem zipWith_congr (h : ∀ p ∈ l.pairs r, f p.1 p.2 = g p.1 p.2) :
    l.zipWith f r = l.zipWith g r := by
  cases l with
  | scalar x => cases r <;> simpa [pairs, zipWith] using h
  | array xs =>
    cases r with
    | scalar y => simpa [pairs, zipWith] using h
    | array ys =>
      by_cases hlen : xs.length = ys.length
      · simp only [pairs, hlen, if_true] at h
        simp only [zipWith, hlen, if_true]
        rw [List.zipWith_congr f g xs ys (List.forall₂_iff_zip.mpr ⟨hlen, fun hp => h _ hp⟩)]
      · simp only [pairs, hlen, if_false] at h
        simp only [zipWith, hlen, if_false]
        split
        · simpa using h
        · simpa using h
        · rfl

/-- The number that a value has in row `i`. A scalar and an only element are in every row. -/
def entry (i : Nat) : Value → Option Float
  | scalar x => some x
  | array xs => xs[if xs.length = 1 then 0 else i]?

theorem entry_column {xs : List Float} (hi : i < xs.length) : (array xs).entry i = some xs[i] := by
  by_cases hone : xs.length = 1
  · obtain rfl : i = 0 := by omega
    simp [entry, hone]
  · simp [entry, hone]

theorem entry_map (g : Float → Float) (i : Nat) (v : Value) :
    (v.map g).entry i = (v.entry i).map g := by
  cases v <;> simp [map, entry]

theorem getElem?_elements (hi : i < v.size) : v.elements[i]? = v.entry i := by
  cases v with
  | scalar x =>
    obtain rfl : i = 0 := Nat.lt_one_iff.mp hi
    rfl
  | array xs => rw [entry_column hi, elements, List.getElem?_eq_getElem hi]

/-- A value that stretches to a column of `n`. -/
def Fits (n : Nat) : Value → Prop
  | scalar _ => True
  | array xs => xs.length = 1 ∨ xs.length = n

theorem fits_size (v : Value) : v.Fits v.size := by
  cases v with
  | scalar x => trivial
  | array xs => exact .inr rfl

theorem exists_entry (h : v.Fits n) (hi : i < n) : ∃ x, v.entry i = some x := by
  cases v with
  | scalar x => exact ⟨x, rfl⟩
  | array xs =>
    simp only [entry]
    split
    · exact ⟨xs[0], List.getElem?_eq_getElem (by omega)⟩
    · have : xs.length = n := h.resolve_left ‹_›
      exact ⟨xs[i], List.getElem?_eq_getElem (by omega)⟩

theorem fits_map {g : Float → Float} : (v.map g).Fits n ↔ v.Fits n := by
  cases v <;> simp [map, Fits]

/-- Operands stretch as far as their result. -/
theorem fits_of_zipWith (h : l.zipWith f r = .ok v) (hv : v.Fits n) : l.Fits n ∧ r.Fits n := by
  obtain ⟨x, y, rfl, rfl, rfl⟩ | ⟨x, ys, rfl | rfl, rfl, rfl⟩ | ⟨xs, y, rfl, rfl | rfl, rfl⟩ |
    ⟨xs, ys, rfl, rfl, hlen, rfl⟩ := zipWith_eq_ok h <;>
    simp_all [Fits]

/-- The result has in each row what comes of the operands in that row. -/
theorem entry_zipWith (h : l.zipWith f r = .ok v) {x y : Float} (hx : l.entry i = some x)
    (hy : r.entry i = some y) : v.entry i = some (f x y) := by
  obtain ⟨x, y, rfl, rfl, rfl⟩ | ⟨x, ys, rfl | rfl, rfl, rfl⟩ | ⟨xs, y, rfl, rfl | rfl, rfl⟩ |
    ⟨xs, ys, rfl, rfl, hlen, rfl⟩ := zipWith_eq_ok h
  · simp_all [entry]
  · simp_all [entry]
  · simp_all [entry]
  · simp_all [entry]
  · simp_all [entry]
  · simp only [entry, List.length_zipWith, hlen, Nat.min_self] at hx hy ⊢
    simp [List.getElem?_zipWith, hx, hy]

/-- The length of a column that does not stretch. -/
def rigid? : Value → Option Nat
  | scalar _ => none
  | array xs => if xs.length = 1 then none else some xs.length

theorem mem_rigid? : n ∈ v.rigid? ↔ n ≠ 1 ∧ ∃ xs, v = array xs ∧ xs.length = n := by
  cases v with
  | scalar x => simp [rigid?]
  | array xs =>
    by_cases h : xs.length = 1
    · simpa [rigid?, h] using fun hn => Ne.symm hn
    · simpa [rigid?, h] using fun hn => hn ▸ h

@[simp] theorem rigid?_map (g : Float → Float) (v : Value) : (v.map g).rigid? = v.rigid? := by
  cases v <;> simp [map, rigid?]

@[simp] theorem isScalar_map (g : Float → Float) (v : Value) :
    (v.map g).isScalar = v.isScalar := by
  cases v <;> rfl

/-- The length of two values together: of the lengths that do not stretch, two different ones are
one too many. -/
theorem zipWith_shape (f : Float → Float → Float) (l r : Value) :
    (∃ v, l.zipWith f r = .ok v ∧ v.isScalar = (l.isScalar && r.isScalar) ∧
      ∀ n, n ∈ v.rigid? ↔ n ∈ l.rigid? ∨ n ∈ r.rigid?) ∨
    ∃ m ∈ l.rigid?, ∃ n ∈ r.rigid?, m ≠ n ∧ l.zipWith f r = .error (.shapeMismatch m n) := by
  cases l with
  | scalar x =>
    cases r with
    | scalar y => exact .inl ⟨scalar (f x y), rfl, rfl, by simp [rigid?]⟩
    | array ys => exact .inl ⟨array (ys.map (f x)), rfl, rfl, by simp [rigid?]⟩
  | array xs =>
    cases r with
    | scalar y => exact .inl ⟨array (xs.map (f · y)), rfl, rfl, by simp [rigid?]⟩
    | array ys =>
      by_cases hlen : xs.length = ys.length
      · exact .inl ⟨array (xs.zipWith f ys), by simp [zipWith, hlen], rfl, by simp [rigid?, hlen]⟩
      by_cases hx : xs.length = 1
      · obtain ⟨x, rfl⟩ := List.length_eq_one_iff.mp hx
        refine .inl ⟨array (ys.map (f x)), ?_, rfl, by simp [rigid?]⟩
        simp only [zipWith, hlen, if_false]
      by_cases hy : ys.length = 1
      · obtain ⟨y, rfl⟩ := List.length_eq_one_iff.mp hy
        refine .inl ⟨array (xs.map (f · y)), ?_, rfl, by simp [rigid?]⟩
        simp only [zipWith, hlen, if_false]
        split <;> simp_all
      · refine .inr ⟨xs.length, by simp [rigid?, hx], ys.length, by simp [rigid?, hy], hlen, ?_⟩
        simp only [zipWith, hlen, if_false]
        split <;> simp_all

end Reckon.Value
