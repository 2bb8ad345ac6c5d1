import Reckon.Proofs.Values

/-!
Combining two values is stretching both of them to one length and combining their elements in pairs.
-/
namespace Reckon

/-- The same error with the operands exchanged. -/
def Error.swap : Error → Error
  | shapeMismatch left right => shapeMismatch right left
  | err => err

namespace Value

variable {n i : Nat} {f : Float → Float → Float} {l r v : Value} {xs ys : List Float}

theorem broadcast_of_fits (h : v.Fits n) :
    ∃ xs, v.broadcast n = .ok xs ∧ xs.length = n ∧ ∀ i < n, xs[i]? = v.entry i := by
  cases v with
  | scalar x =>
    refine ⟨List.replicate n x, rfl, List.length_replicate, fun i hi => ?_⟩
    simp [entry, hi]
  | array xs =>
    by_cases hn : xs.length = n
    · refine ⟨xs, by simp [broadcast, hn], hn, fun i hi => ?_⟩
      rw [entry_column (hn ▸ hi), List.getElem?_eq_getElem (hn ▸ hi)]
    · obtain ⟨x, rfl⟩ := List.length_eq_one_iff.mp (h.resolve_right hn)
      refine ⟨List.replicate n x, by simp only [broadcast, hn, if_false], List.length_replicate, ?_⟩
      intro i hi
      simp [entry, hi]

theorem fits_of_broadcast (h : v.broadcast n = .ok xs) : v.Fits n := by
  cases v with
  | scalar x => trivial
  | array xs =>
    simp only [broadcast] at h
    split at h
    · exact .inr ‹_›
    · split at h
      · exact .inl rfl
      · cases h

theorem exists_broadcast_iff : (∃ xs, v.broadcast n = .ok xs) ↔ v.Fits n :=
  ⟨fun ⟨_, h⟩ => fits_of_broadcast h, fun h => (broadcast_of_fits h).imp fun _ => And.left⟩

theorem size_eq_of_rigid (h : n ∈ v.rigid?) : v.size = n := by
  obtain ⟨-, xs, rfl, hxs⟩ := mem_rigid?.mp h
  exact hxs

theorem eq_of_fits {m : Nat} (h : m ∈ v.rigid?) (hv : v.Fits n) : m = n := by
  obtain ⟨hm, xs, rfl, rfl⟩ := mem_rigid?.mp h
  exact hv.resolve_left hm

/-- Values combine if they stretch to one length, and fail with their own lengths otherwise. -/
theorem zipWith_cases (f : Float → Float → Float) (l r : Value) :
    (∃ v, l.zipWith f r = .ok v ∧ v.isScalar = (l.isScalar && r.isScalar)) ∧
        (∃ n, l.Fits n ∧ r.Fits n) ∨
      l.zipWith f r = .error (.shapeMismatch l.size r.size) ∧ ¬ ∃ n, l.Fits n ∧ r.Fits n := by
  obtain ⟨v, hv, hs, -⟩ | ⟨m, hm, n, hn, hne, herr⟩ := zipWith_shape f l r
  · exact .inl ⟨⟨v, hv, hs⟩, v.size, fits_of_zipWith hv v.fits_size⟩
  · right
    rw [size_eq_of_rigid hm, size_eq_of_rigid hn]
    refine ⟨herr, ?_⟩
    rintro ⟨k, hl, hr⟩
    exact hne ((eq_of_fits hm hl).trans (eq_of_fits hn hr).symm)

theorem elements_of_broadcast (h : l.zipWith f r = .ok v) :
    ∃ xs ys, l.broadcast v.size = .ok xs ∧ r.broadcast v.size = .ok ys ∧
      v.elements = List.zipWith f xs ys := by
  obtain ⟨hl, hr⟩ := fits_of_zipWith h v.fits_size
  obtain ⟨xs, hxs, hlenx, hx⟩ := broadcast_of_fits hl
  obtain ⟨ys, hys, hleny, hy⟩ := broadcast_of_fits hr
  refine ⟨xs, ys, hxs, hys, List.ext_getElem? fun i => ?_⟩
  by_cases hi : i < v.size
  · obtain ⟨x, hlx⟩ := exists_entry hl hi
    obtain ⟨y, hry⟩ := exists_entry hr hi
    rw [getElem?_elements hi, entry_zipWith h hlx hry, List.getElem?_zipWith, hx i hi, hy i hi, hlx,
      hry]
  · rw [List.getElem?_eq_none (by rw [length_elements]; omega),
      List.getElem?_eq_none (by rw [List.length_zipWith]; omega)]

theorem zipWith_swap (f : Float → Float → Float) (l r : Value) :
    r.zipWith (fun y x => f x y) l = (l.zipWith f r).mapError Error.swap := by
  cases l with
  | scalar x => cases r <;> rfl
  | array xs =>
    cases r with
    | scalar y => rfl
    | array ys =>
      by_cases hlen : xs.length = ys.length
      · simp only [zipWith, hlen, if_true, Except.mapError]
        rw [List.zipWith_comm]
      · have hlen' : ¬ ys.length = xs.length := Ne.symm hlen
        simp only [zipWith, hlen, hlen', if_false]
        -- whether a list has none, one or more elements decides what becomes of it
        rcases xs with _ | ⟨x, _ | ⟨x', xs⟩⟩ <;> rcases ys with _ | ⟨y, _ | ⟨y', ys⟩⟩ <;> rfl

/-- Two values combine exactly if there is a length that both of them stretch to. The result is a
number only if they both are. It has as many elements as both values stretch to, and these are what
comes of the elements in pairs. Otherwise the error says how long the values are. The order of the
operands does not matter but for the order of the two lengths in the error. -/
theorem zipWith_eq_ok_iff_broadcast (f : Float → Float → Float) (l r : Value) :
    ((∃ v, l.zipWith f r = .ok v) ↔
      ∃ n, (∃ xs, l.broadcast n = .ok xs) ∧ ∃ ys, r.broadcast n = .ok ys) ∧
    (∀ v, l.zipWith f r = .ok v →
      (v.isScalar ↔ l.isScalar ∧ r.isScalar) ∧
      ∃ xs ys, l.broadcast v.size = .ok xs ∧ r.broadcast v.size = .ok ys ∧
        v.elements = List.zipWith f xs ys) ∧
    (∀ err, l.zipWith f r = .error err → err = .shapeMismatch l.size r.size) ∧
    r.zipWith (fun y x => f x y) l = (l.zipWith f r).mapError Error.swap := by
  simp only [exists_broadcast_iff]
  obtain ⟨⟨v, hv, hs⟩, hfits⟩ | ⟨herr, hfits⟩ := zipWith_cases f l r
  · refine ⟨iff_of_true ⟨v, hv⟩ hfits, ?_, ?_, zipWith_swap f l r⟩
    · intro w hw
      obtain rfl : v = w := Except.ok.inj (hv.symm.trans hw)
      exact ⟨by simp [hs], elements_of_broadcast hv⟩
    · intro err h
      rw [hv] at h
      cases h
  · refine ⟨iff_of_false ?_ hfits, ?_, ?_, zipWith_swap f l r⟩
    · rintro ⟨v, hv⟩
      rw [herr] at hv
      cases hv
    · intro v hv
      rw [herr] at hv
      cases hv
    · intro err h
      rw [herr] at h
      exact (Except.error.inj h).symm

/-- A column of one against an empty one. -/
example : (array [3]).zipWith (· + ·) (array []) = .ok (array []) := by
  decide +kernel

end Value

end Reckon
