import Reckon.Proofs.Distinct
import Reckon.Proofs.Rows
import Reckon.Proofs.Shape
import Reckon.Proofs.Substitution

/-!
The variables of a tree are what it needs of the bindings, and all that it reads: a value takes a
binding for each of them, the first one without is the one complained of, and no other binding
matters.
-/
namespace Reckon

variable {ε : Float} {bindings bindings' : Bindings} {e : Expr} {v : Value} {name : String}

namespace Bindings

def binds (bindings : Bindings) (name : String) : Bool :=
  (bindings.lookup name).isSome

theorem lookup_filter {p : String → Bool} (h : p name) (bindings : Bindings) :
    (bindings.filter fun b => p b.1).lookup name = bindings.lookup name := by
  induction bindings with
  | nil => rfl
  | cons b bindings ih =>
    obtain ⟨m, v⟩ := b
    by_cases hm : p m
    · simp [hm, List.lookup_cons, ih]
    · have hne : (name == m) = false := by
        refine beq_false_of_ne ?_
        rintro rfl
        exact hm h
      simp [hm, List.lookup_cons, hne, ih]

end Bindings

namespace Expr

/-- The first variable without a binding, in the order of the listing. -/
def firstMissing? (bindings : Bindings) (e : Expr) : Option String :=
  e.variableNames.find? (!bindings.binds ·)

theorem firstMissing?_eq (bindings : Bindings) (e : Expr) :
    e.firstMissing? bindings = e.leafNames.find? (!bindings.binds ·) := by
  rw [firstMissing?, variableNames_eq, find?_eraseDups]

theorem exists_firstMissing (hname : name ∈ e.variableNames) (h : bindings.binds name = false) :
    ∃ first, e.firstMissing? bindings = some first := by
  refine Option.isSome_iff_exists.mp (List.find?_isSome.mpr ⟨name, hname, ?_⟩)
  rw [h]
  rfl

theorem binds_of_eval (h : e.eval ε bindings = .ok v) :
    ∀ name ∈ e.variableNames, bindings.binds name := by
  intro name hname
  obtain ⟨u, hu, -⟩ := aligned_of_eval h v.fits_size name hname
  simp [Bindings.binds, hu]

theorem missing_of_eval (h : e.eval ε bindings = .error (.unboundVariable name)) :
    name ∈ e.variableNames ∧ bindings.binds name = false := by
  obtain ⟨s, hs, hroot⟩ := List.exists_of_findSome?_eq_some ((eval_eq_error_iff _).mp h)
  cases s with
  | const | call => cases hroot
  | var m =>
    have hmem : m ∈ e.leafNames := leafNames_of_mem_subtrees hs (List.mem_singleton.mpr rfl)
    cases hb : bindings.lookup m with
    | some u => simp [rootError, hb] at hroot
    | none =>
      obtain rfl : m = name := by simpa [rootError, hb] using hroot
      exact ⟨mem_variableNames.mpr hmem, by simp [Bindings.binds, hb]⟩
  | binary o l r =>
    obtain ⟨m, -, n, -, -, herr⟩ := mismatch_of_rootError hroot
    cases herr

/-- Where no columns can disagree, only variables can fail. -/
theorem firstError_eq_firstMissing? (h : (e.lengths bindings).Subsingleton) :
    e.firstError ε bindings = (e.firstMissing? bindings).map .unboundVariable := by
  rw [firstMissing?_eq]
  induction e with
  | const x => rfl
  | var name =>
    cases hb : bindings.lookup name <;>
      simp [firstError, subtrees, rootError, leafNames, Bindings.binds, hb]
  | call f a ih =>
    rw [firstError_call, ih (h.anti fun n hn => mem_lengths_call.mpr hn)]
    rfl
  | binary o l r ihl ihr =>
    -- The operator cannot fail, so what its operands miss is what the tree misses.
    have hroot : rootError ε bindings (binary o l r) = none := by
      refine Option.eq_none_iff_forall_ne_some.mpr fun err herr => ?_
      obtain ⟨m, hm, n, hn, hne, -⟩ := mismatch_of_rootError herr
      exact hne (h (mem_lengths_binary.mpr (.inl hm)) (mem_lengths_binary.mpr (.inr hn)))
    have hl := ihl (h.anti fun n hn => mem_lengths_binary.mpr (.inl hn))
    have hr := ihr (h.anti fun n hn => mem_lengths_binary.mpr (.inr hn))
    rw [firstError_binary, hl, hr, hroot, leafNames, List.find?_append, Option.map_or,
      Option.or_none]

/-- The listing of the variables tells what evaluation will miss. If all of them are bound, it misses
none. If one is not, there is no value, and the first one that is not is the one named, unless the
columns of the tree have different lengths. Whatever the error, a variable that it names is one of
the tree that is not bound. -/
theorem evaluate_missing (ε : Float) (bindings : Bindings) (e : Expr) :
    ((∀ name ∈ e.variableNames, bindings.binds name) →
      ∀ name, e.evaluate ε bindings ≠ .error (.unboundVariable name)) ∧
    ((∃ name ∈ e.variableNames, bindings.binds name = false) →
      (∃ err, e.evaluate ε bindings = .error err) ∧
      ((e.lengths bindings).Subsingleton → ∃ name, e.firstMissing? bindings = some name ∧
        e.evaluate ε bindings = .error (.unboundVariable name))) ∧
    ∀ name, e.evaluate ε bindings = .error (.unboundVariable name) →
      name ∈ e.variableNames ∧ bindings.binds name = false := by
  rw [evaluate_eq_eval]
  refine ⟨?_, ?_, fun name => missing_of_eval⟩
  · intro hbinds name herr
    obtain ⟨hname, hmissing⟩ := missing_of_eval herr
    rw [hbinds name hname] at hmissing
    cases hmissing
  · rintro ⟨name, hname, hmissing⟩
    constructor
    · cases he : e.eval ε bindings with
      | error err => exact ⟨err, rfl⟩
      | ok v =>
        rw [binds_of_eval he name hname] at hmissing
        cases hmissing
    · intro hlengths
      obtain ⟨first, hfirst⟩ := exists_firstMissing hname hmissing
      refine ⟨first, hfirst, ?_⟩
      rw [eval_eq_error_iff, firstError_eq_firstMissing? hlengths, hfirst]
      rfl

/-- Two variables without a binding, one of which stands in two places, and columns that differ
before a variable without. -/
theorem evaluate_missing_first :
    let e : Expr := .binary .mul (.binary .sub (.var "b") (.call .sin (.var "a")))
      (.binary .div (.var "a") (.var "c"))
    let bindings : Bindings := [("b", .array [1, 2]), ("d", .array [])]
    let bindings' : Bindings := [("a", .array [1, 2]), ("b", .array [])]
    e.variableNames = ["b", "a", "c"] ∧
      e.evaluate 1e-10 bindings = .error (.unboundVariable "a") ∧
      (∃ err, e.evaluate 1e-10 bindings' = .error err) ∧
      ∀ name, (binary .sub (.var "b") (.var "a")).evaluate 1e-10 bindings' ≠
        .error (.unboundVariable name) := by
  intro e bindings bindings'
  have hnames : e.variableNames = ["b", "a", "c"] := by
    rw [variableNames_eq]
    decide +kernel
  have hlength : ∀ n ∈ e.lengths bindings, n = 2 := by
    intro n hn
    obtain ⟨name, hname, v, hv, hrigid⟩ := mem_lengths.mp hn
    rw [← mem_variableNames, hnames] at hname
    have hname : name = "b" ∨ name = "a" ∨ name = "c" := by simpa using hname
    rcases hname with rfl | rfl | rfl
    · obtain rfl : .array [1, 2] = v := Option.some.inj hv
      exact (Option.some.inj hrigid).symm
    · cases hv
    · cases hv
  have hlengths : (e.lengths bindings).Subsingleton := by
    intro m hm n hn
    rw [hlength m hm, hlength n hn]
  have hfirst : e.firstMissing? bindings = some "a" := by
    rw [firstMissing?, hnames]
    decide +kernel
  have hc : "c" ∈ e.variableNames := by simp [hnames]
  obtain ⟨name, hname, herr⟩ :=
    ((evaluate_missing 1e-10 bindings e).2.1 ⟨"c", hc, by decide +kernel⟩).2 hlengths
  obtain rfl : name = "a" := Option.some.inj (hname.symm.trans hfirst)
  refine ⟨hnames, herr, ?_, ?_⟩
  · exact ((evaluate_missing _ _ e).2.1 ⟨"c", hc, by decide +kernel⟩).1
  · refine (evaluate_missing _ _ _).1 ?_
    simp [mem_variableNames, leafNames, bindings', Bindings.binds]

theorem evaluate_congr (h : ∀ name ∈ e.variableNames, bindings.lookup name = bindings'.lookup name) :
    e.evaluate ε bindings = e.evaluate ε bindings' := by
  rw [evaluate_eq_eval, evaluate_eq_eval]
  exact eval_congr fun name hname => h name (mem_variableNames.mpr hname)

/-- Bindings that give the variables of a tree the same values, or none to the same ones, make no
difference to it. So bindings of other names may come first or hide others, and may be left out,
whatever their values. -/
theorem evaluate_reads (ε : Float) (bindings : Bindings) (e : Expr) :
    (∀ bindings' : Bindings,
      (∀ name ∈ e.variableNames, bindings.lookup name = bindings'.lookup name) →
      e.evaluate ε bindings = e.evaluate ε bindings') ∧
    (∀ others : Bindings, (∀ b ∈ others, b.1 ∉ e.variableNames) →
      e.evaluate ε (others ++ bindings) = e.evaluate ε bindings) ∧
    ∀ p : String → Bool, (∀ name ∈ e.variableNames, p name) →
      e.evaluate ε (bindings.filter fun b => p b.1) = e.evaluate ε bindings := by
  refine ⟨fun bindings' => evaluate_congr, ?_, ?_⟩
  · intro others hothers
    refine evaluate_congr fun name hname => ?_
    have hnone : others.lookup name = none := by
      refine List.lookup_eq_none_iff.mpr fun b hb => bne_iff_ne.mpr ?_
      rintro rfl
      exact hothers b hb hname
    rw [List.lookup_append, hnone, Option.none_or]
  · intro p hp
    exact evaluate_congr fun name hname => Bindings.lookup_filter (hp name hname) bindings

/-- An earlier binding of a name that the tree has not got, and bindings in another order without
the ones that it does not read. -/
theorem evaluate_reads_column :
    let e : Expr := .binary .add (.var "x") (.call .sqrt (.var "y"))
    let bindings : Bindings := [("x", .array [1, 2]), ("y", .scalar 4), ("z", .array [])]
    e.evaluate 1e-10 bindings = .ok (.array [3, 4]) ∧
      e.evaluate 1e-10 ([("z", .array [5, 6, 7])] ++ bindings) = .ok (.array [3, 4]) ∧
      e.evaluate 1e-10 (bindings.filter fun b => b.1 != "z") = .ok (.array [3, 4]) ∧
      e.evaluate 1e-10 [("y", .scalar 4), ("x", .array [1, 2])] = .ok (.array [3, 4]) := by
  intro e bindings
  have hnames : ∀ name ∈ e.variableNames, name = "x" ∨ name = "y" := by
    simp [e, mem_variableNames, leafNames]
  have h : e.evaluate 1e-10 bindings = .ok (.array [3, 4]) := by
    rw [evaluate_eq_eval]
    decide +kernel
  obtain ⟨hsame, hothers, hfilter⟩ := evaluate_reads 1e-10 bindings e
  refine ⟨h, (hothers _ ?_).trans h, (hfilter (· != "z") ?_).trans h, (hsame _ ?_).symm.trans h⟩
  · simp [e, mem_variableNames, leafNames]
  · intro name hname
    rcases hnames name hname with rfl | rfl <;> decide
  · intro name hname
    rcases hnames name hname with rfl | rfl <;> decide +kernel

end Expr

end Reckon
