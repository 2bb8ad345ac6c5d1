import Reckon.Proofs.Evaluation

/-!
Evaluation meets the nodes of a tree in postorder: it fails with the error of the first node that
fails by itself, and otherwise has a value.
-/
namespace Reckon.Expr

variable {ε : Float} {bindings : Bindings} {e : Expr}

/-- The trees in a tree, itself included, by their roots in postorder. -/
def subtrees : Expr → List Expr
  | const x => [const x]
  | var name => [var name]
  | call f a => a.subtrees ++ [call f a]
  | binary o l r => l.subtrees ++ r.subtrees ++ [binary o l r]

/-- The error of a root by itself: a variable without value, or an operator that cannot be applied
to the values of its operands. -/
def rootError (ε : Float) (bindings : Bindings) : Expr → Option Error
  | const _ | call _ _ => none
  | var name => if (bindings.lookup name).isSome then none else some (.unboundVariable name)
  | binary o l r =>
    match l.eval ε bindings, r.eval ε bindings with
    | .ok v, .ok w =>
      match o.apply ε v w with
      | .ok _ => none
      | .error e => some e
    | _, _ => none

/-- The first error in postorder. -/
def firstError (ε : Float) (bindings : Bindings) (e : Expr) : Option Error :=
  e.subtrees.findSome? (rootError ε bindings)

/-- The listing by subtrees is the postorder of the nodes. -/
theorem root_subtrees (e : Expr) : e.subtrees.map root = e.postorder := by
  induction e <;> simp_all [subtrees, postorder, root]

theorem firstError_call (f : Func) (a : Expr) :
    (call f a).firstError ε bindings = a.firstError ε bindings := by
  simp [firstError, subtrees, List.findSome?_append, rootError]

theorem firstError_binary (o : Operator) (l r : Expr) : (binary o l r).firstError ε bindings =
    ((l.firstError ε bindings).or (r.firstError ε bindings)).or
      (rootError ε bindings (binary o l r)) := by
  simp [firstError, subtrees, List.findSome?_append, Option.or_assoc]

/-- The error of evaluation and the first error of the listing, if the one is always the other. -/
theorem firstError_of_eval {r : Except Error Value}
    (hf : ∀ err, e.eval ε bindings = .error err ↔ e.firstError ε bindings = some err)
    (h : e.eval ε bindings = r) :
    e.firstError ε bindings = match r with
      | .ok _ => none
      | .error err => some err := by
  cases r with
  | error err => exact (hf err).mp h
  | ok v =>
    apply Option.eq_none_iff_forall_ne_some.mpr
    intro err herr
    have herror := (hf err).mpr herr
    rw [h] at herror
    cases herror

theorem eval_eq_error_iff (err : Error) :
    e.eval ε bindings = .error err ↔ e.firstError ε bindings = some err := by
  induction e generalizing err with
  | const x => simp [eval, firstError, subtrees, rootError]
  | var name => cases h : bindings.lookup name <;> simp [eval, firstError, subtrees, rootError, h]
  | call f a ih =>
    rw [firstError_call, ← ih]
    cases ha : a.eval ε bindings <;> simp [eval, ha]
  | binary o l r ihl ihr =>
    rw [firstError_binary]
    cases hl : l.eval ε bindings with
    | error e =>
      have hfl := firstError_of_eval ihl hl
      simp [eval, hl, hfl]
    | ok v =>
      have hfl := firstError_of_eval ihl hl
      cases hr : r.eval ε bindings with
      | error e =>
        have hfr := firstError_of_eval ihr hr
        simp [eval, hl, hr, hfl, hfr]
      | ok w =>
        have hfr := firstError_of_eval ihr hr
        cases ha : o.apply ε v w <;> simp [eval, rootError, hl, hr, ha, hfl, hfr]

theorem shapeMismatch_of_apply {o : Operator} {v w : Value} {err : Error}
    (h : o.apply ε v w = .error err) : ∃ m n, err = .shapeMismatch m n := by
  unfold Operator.apply Value.zipWith at h
  split at h
  · cases h
  · cases h
  · cases h
  · split at h
    · cases h
    · split at h
      · cases h
      · cases h
      · cases h
        exact ⟨_, _, rfl⟩

theorem rootError_ne_unknownNode (e : Expr) (name : String) :
    e.rootError ε bindings ≠ some (.unknownNode name) := by
  intro h
  unfold rootError at h
  split at h
  · cases h
  · cases h
  · split at h <;> cases h
  · split at h
    · split at h
      · cases h
      · rename_i herr
        obtain ⟨m, n, rfl⟩ := shapeMismatch_of_apply herr
        cases h
    · cases h

/-- The stack and the memory change nothing, wherever the nodes are placed: the result is that of
the recursion, and an error is that of the first node in postorder to have one. -/
theorem evaluate_eq_eval_firstError (e : Expr) :
    e.evaluate ε bindings = e.eval ε bindings ∧
    (∀ t : Placed, t.addresses.Nodup → t.expr = e → t.evaluate ε bindings = e.eval ε bindings) ∧
    e.subtrees.map root = e.postorder ∧
    (∀ err, e.evaluate ε bindings = .error err ↔ e.firstError ε bindings = some err) ∧
    ∀ name, e.evaluate ε bindings ≠ .error (.unknownNode name) := by
  have herr : ∀ err, e.evaluate ε bindings = .error err ↔ e.firstError ε bindings = some err := by
    intro err
    rw [evaluate_eq_eval]
    exact eval_eq_error_iff err
  refine ⟨e.evaluate_eq_eval, ?_, e.root_subtrees, herr, ?_⟩
  · rintro t hd rfl
    exact Placed.evaluate_eq_eval hd
  · intro name h
    obtain ⟨s, -, hs⟩ := List.exists_of_findSome?_eq_some ((herr _).mp h)
    exact rootError_ne_unknownNode s name hs

/-- Three leaves that look alike, at addresses in no order. -/
theorem evaluate_alike_leaves :
    let t : Placed := .binary 5 .sub (.var 9 "x") (.binary 2 .div (.var 7 "x") (.var 4 "x"))
    t.addresses.Nodup ∧
      t.evaluate 1e-10 [("x", .array [2, 4])] = .ok (.array [1, 3]) := by
  intro t
  have hd : t.addresses.Nodup := by decide
  refine ⟨hd, ?_⟩
  rw [(evaluate_eq_eval_firstError t.expr).2.1 t hd rfl]
  decide +kernel

end Reckon.Expr
