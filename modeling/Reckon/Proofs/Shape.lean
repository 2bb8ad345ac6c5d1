import Mathlib.Data.Set.Subsingleton
import Reckon.Proofs.FirstError
import Reckon.Proofs.Values

/-!
The shape of a value. Whether a tree has one, and whether that is a number or a column and how long,
follows from the lengths of the columns among its variables, wherever these stand in the tree.
-/
namespace Reckon

namespace Expr

variable {ε : Float} {bindings : Bindings} {e s : Expr} {v : Value} {err : Error} {n : Nat}

/-- The lengths other than one of the columns that the variables of the tree stand for. -/
def lengths (bindings : Bindings) (e : Expr) : Set Nat :=
  {n | n ≠ 1 ∧ ∃ name ∈ e.variableNames, ∃ xs,
    bindings.lookup name = some (.array xs) ∧ xs.length = n}

/-- No variable of the tree stands for a column. -/
def Columnless (bindings : Bindings) (e : Expr) : Prop :=
  ∀ name ∈ e.variableNames, ∀ xs, bindings.lookup name ≠ some (.array xs)

theorem mem_lengths : n ∈ e.lengths bindings ↔
    ∃ name ∈ e.leafNames, ∃ v, bindings.lookup name = some v ∧ n ∈ v.rigid? := by
  simp only [lengths, Set.mem_ofPred_eq, mem_variableNames, Value.mem_rigid?]
  constructor
  · rintro ⟨hn, name, hname, xs, hxs, rfl⟩
    exact ⟨name, hname, _, hxs, hn, xs, rfl, rfl⟩
  · rintro ⟨name, hname, v, hv, hn, xs, rfl, rfl⟩
    exact ⟨hn, name, hname, xs, hv, rfl⟩

theorem columnless_call {f : Func} {a : Expr} :
    (call f a).Columnless bindings ↔ a.Columnless bindings := by
  simp [Columnless, mem_variableNames, leafNames]

theorem columnless_binary {o : Operator} {l r : Expr} :
    (binary o l r).Columnless bindings ↔ l.Columnless bindings ∧ r.Columnless bindings := by
  simp [Columnless, mem_variableNames, leafNames, or_imp, forall_and]

theorem mem_lengths_call {f : Func} {a : Expr} :
    n ∈ (call f a).lengths bindings ↔ n ∈ a.lengths bindings := by
  simp [mem_lengths, leafNames]

theorem mem_lengths_binary {o : Operator} {l r : Expr} :
    n ∈ (binary o l r).lengths bindings ↔ n ∈ l.lengths bindings ∨ n ∈ r.lengths bindings := by
  simp [mem_lengths, leafNames, or_and_right, exists_or]

/-- A value has the length of the columns that it comes of, and is a number if it comes of none. -/
theorem shape_of_eval (h : e.eval ε bindings = .ok v) :
    (v.isScalar ↔ e.Columnless bindings) ∧ ∀ n, n ∈ v.rigid? ↔ n ∈ e.lengths bindings := by
  induction e generalizing v with
  | const x =>
    cases h
    simp [Value.isScalar, Value.rigid?, Columnless, mem_variableNames, mem_lengths, leafNames]
  | var name =>
    cases hb : bindings.lookup name with
    | none => simp [eval, hb] at h
    | some u =>
      simp only [eval, hb, Option.elim_some, Except.ok.injEq] at h
      subst h
      cases u <;>
        simp [Value.isScalar, Columnless, mem_variableNames, mem_lengths, leafNames, hb]
  | call f a ih =>
    obtain ⟨w, ha, hw⟩ := bind_eq_ok.mp h
    cases hw
    obtain ⟨hscalar, hlength⟩ := ih ha
    simp [Func.apply, columnless_call, mem_lengths_call, hscalar, hlength]
  | binary o l r ihl ihr =>
    obtain ⟨u, hl, h⟩ := bind_eq_ok.mp h
    obtain ⟨w, hr, h⟩ := bind_eq_ok.mp h
    obtain ⟨hsl, hll⟩ := ihl hl
    obtain ⟨hsr, hlr⟩ := ihr hr
    rw [Operator.apply] at h
    rcases Value.zipWith_shape (o.eval ε) u w with ⟨v', hv, hs, hr⟩ | ⟨m, -, n, -, -, herr⟩
    · obtain rfl : v' = v := Except.ok.inj (hv.symm.trans h)
      simp [hs, hr, columnless_binary, mem_lengths_binary, hsl, hsr, hll, hlr]
    · rw [herr] at h
      cases h

theorem leafNames_of_mem_subtrees (hs : s ∈ e.subtrees) : s.leafNames ⊆ e.leafNames := by
  induction e with
  | const | var => simp_all [subtrees]
  | call f a ih =>
    rcases List.mem_append.mp hs with hs | hs
    · exact ih hs
    · rw [List.mem_singleton.mp hs]
      exact List.Subset.refl _
  | binary o l r ihl ihr =>
    rcases List.mem_append.mp hs with hs | hs
    · rcases List.mem_append.mp hs with hs | hs
      · exact List.subset_append_of_subset_left _ (ihl hs)
      · exact List.subset_append_of_subset_right _ (ihr hs)
    · rw [List.mem_singleton.mp hs]
      exact List.Subset.refl _

theorem lengths_of_mem_subtrees (hs : s ∈ e.subtrees) :
    s.lengths bindings ⊆ e.lengths bindings := by
  intro n hn
  obtain ⟨name, hname, v, hv⟩ := mem_lengths.mp hn
  exact mem_lengths.mpr ⟨name, leafNames_of_mem_subtrees hs hname, v, hv⟩

/-- An operator fails by itself only on columns of different lengths. -/
theorem mismatch_of_rootError {o : Operator} {l r : Expr}
    (h : rootError ε bindings (binary o l r) = some err) :
    ∃ m ∈ l.lengths bindings, ∃ n ∈ r.lengths bindings, m ≠ n ∧ err = .shapeMismatch m n := by
  simp only [rootError] at h
  split at h
  · rename_i v w hl hr
    rcases Value.zipWith_shape (o.eval ε) v w with ⟨u, hu, -⟩ | ⟨m, hm, n, hn, hne, herr⟩
    · rw [Operator.apply, hu] at h
      cases h
    · rw [Operator.apply, herr] at h
      have hml : m ∈ l.lengths bindings := ((shape_of_eval hl).2 m).mp hm
      have hnr : n ∈ r.lengths bindings := ((shape_of_eval hr).2 n).mp hn
      exact ⟨m, hml, n, hnr, hne, (Option.some.inj h).symm⟩
  · cases h

/-- If all variables have values, a tree without one has an operator whose operands have columns of
different lengths. -/
theorem mismatch_of_eval (hb : ∀ name ∈ e.variableNames, (bindings.lookup name).isSome)
    (h : e.eval ε bindings = .error err) : ∃ o l r, binary o l r ∈ e.subtrees ∧
      ∃ m ∈ l.lengths bindings, ∃ n ∈ r.lengths bindings, m ≠ n ∧
        m ∈ e.lengths bindings ∧ n ∈ e.lengths bindings ∧ err = .shapeMismatch m n := by
  obtain ⟨s, hs, hroot⟩ := List.exists_of_findSome?_eq_some ((eval_eq_error_iff err).mp h)
  cases s with
  | const | call => cases hroot
  | var name =>
    have hname : name ∈ e.variableNames :=
      mem_variableNames.mpr (leafNames_of_mem_subtrees hs (List.mem_singleton.mpr rfl))
    simp [rootError, hb name hname] at hroot
  | binary o l r =>
    obtain ⟨m, hml, n, hnr, hne, rfl⟩ := mismatch_of_rootError hroot
    have hsub : (binary o l r).lengths bindings ⊆ e.lengths bindings := lengths_of_mem_subtrees hs
    exact ⟨o, l, r, hs, m, hml, n, hnr, hne, hsub (mem_lengths_binary.mpr (.inl hml)),
      hsub (mem_lengths_binary.mpr (.inr hnr)), rfl⟩

theorem subsingleton_lengths (h : e.eval ε bindings = .ok v) :
    (e.lengths bindings).Subsingleton := by
  intro m hm n hn
  have hmv := ((shape_of_eval h).2 m).mpr hm
  have hnv := ((shape_of_eval h).2 n).mpr hn
  exact Option.some.inj (hmv.symm.trans hnv)

theorem lengths_of_array {xs : List Float} (h : e.eval ε bindings = .ok (.array xs)) :
    e.lengths bindings = {xs.length} ∨ e.lengths bindings = ∅ ∧ xs.length = 1 := by
  have hlength := (shape_of_eval h).2
  by_cases hone : xs.length = 1
  · refine .inr ⟨?_, hone⟩
    ext n
    simp [← hlength, Value.rigid?, hone]
  · left
    ext n
    simp [← hlength, Value.rigid?, hone, eq_comm]

/-- With a value for each variable, a tree has a value exactly if its columns agree on their length,
columns of one apart. The value is a number if there are no columns; else it is a column of their
length, or of one if they are all columns of one. Otherwise two of the lengths meet at some
operator, and differ. -/
theorem evaluate_shape (hb : ∀ name ∈ e.variableNames, (bindings.lookup name).isSome) :
    ((∃ v, e.evaluate ε bindings = .ok v) ↔ (e.lengths bindings).Subsingleton) ∧
    (∀ v, e.evaluate ε bindings = .ok v → (v.isScalar ↔ e.Columnless bindings) ∧
      ∀ xs, v = .array xs →
        e.lengths bindings = {xs.length} ∨ e.lengths bindings = ∅ ∧ xs.length = 1) ∧
    ∀ err, e.evaluate ε bindings = .error err → ∃ o l r, binary o l r ∈ e.subtrees ∧
      ∃ m ∈ l.lengths bindings, ∃ n ∈ r.lengths bindings, m ≠ n ∧
        m ∈ e.lengths bindings ∧ n ∈ e.lengths bindings ∧ err = .shapeMismatch m n := by
  rw [evaluate_eq_eval]
  refine ⟨⟨?_, ?_⟩, ?_, fun err => mismatch_of_eval hb⟩
  · rintro ⟨v, hv⟩
    exact subsingleton_lengths hv
  · intro hone
    cases he : e.eval ε bindings with
    | ok v => exact ⟨v, rfl⟩
    | error err =>
      obtain ⟨-, -, -, -, m, -, n, -, hne, hm, hn, -⟩ := mismatch_of_eval hb he
      exact absurd (hone hm hn) hne
  · intro v hv
    refine ⟨(shape_of_eval hv).1, ?_⟩
    rintro xs rfl
    exact lengths_of_array hv

/-- An empty column, a column of one and a number. -/
theorem evaluate_shape_empty :
    let e : Expr := .binary .add (.var "y") (.binary .mul (.call .sqrt (.var "x")) (.var "z"))
    let bindings : Bindings := [("x", .array []), ("y", .array [3]), ("z", .scalar 2)]
    (∀ name ∈ e.variableNames, (bindings.lookup name).isSome) ∧
      e.evaluate 1e-10 bindings = .ok (.array []) ∧ e.lengths bindings = {0} := by
  intro e bindings
  have hb : ∀ name ∈ e.variableNames, (bindings.lookup name).isSome := by
    simp [e, bindings, mem_variableNames, leafNames]
  have hvalue : e.evaluate 1e-10 bindings = .ok (.array []) := by
    rw [evaluate_eq_eval]
    decide +kernel
  refine ⟨hb, hvalue, ?_⟩
  rcases ((evaluate_shape hb).2.1 _ hvalue).2 [] rfl with hlengths | ⟨-, hone⟩
  · exact hlengths
  · cases hone

end Expr

end Reckon
