import Reckon.Expr.Eval
import Reckon.Proofs.Outcome
import Reckon.Proofs.Placement

/-!
Evaluation from a stack of nodes, with values remembered by address, is evaluation by recursion.
-/
namespace Reckon

variable {ε : Float} {bindings : Bindings}

namespace Placed

/-- The tree and all trees in it. -/
def parts : Placed → List Placed
  | const a x => [const a x]
  | var a name => [var a name]
  | call a f t => call a f t :: t.parts
  | binary a o l r => binary a o l r :: l.parts ++ r.parts

theorem addresses_eq (t : Placed) : t.addresses = t.parts.map address := by
  induction t <;> simp_all [addresses, parts, address]

theorem mem_addresses {s t : Placed} (h : s ∈ t.parts) : s.address ∈ t.addresses := by
  rw [addresses_eq]
  exact List.mem_map_of_mem h

theorem mem_parts_self (t : Placed) : t ∈ t.parts := by
  cases t <;> simp [parts]

theorem address_mem (t : Placed) : t.address ∈ t.addresses :=
  mem_addresses t.mem_parts_self

/-- Distinct addresses tell the parts of a tree apart. -/
theorem eq_of_address_eq {s t u : Placed} (hd : u.addresses.Nodup) (hs : s ∈ u.parts)
    (ht : t ∈ u.parts) (h : s.address = t.address) : s = t := by
  rw [addresses_eq] at hd
  exact List.inj_on_of_nodup_map hd hs ht h

/-- What is remembered of a tree is right. -/
def Sound (ε : Float) (bindings : Bindings) (memo : Memo) (t : Placed) : Prop :=
  ∀ s ∈ t.parts, ∀ v, memo[s.address]? = some v → s.expr.eval ε bindings = .ok v

variable {memo memo' : Memo} {t : Placed}

theorem Sound.congr (h : Sound ε bindings memo t)
    (hm : ∀ a ∈ t.addresses, memo'[a]? = memo[a]?) : Sound ε bindings memo' t := by
  intro s hs v hv
  rw [hm _ (mem_addresses hs)] at hv
  exact h s hs v hv

theorem sound_call {a : Nat} {f : Func} : Sound ε bindings memo (call a f t) ↔
    (∀ v, memo[a]? = some v → (call a f t).expr.eval ε bindings = .ok v) ∧
    Sound ε bindings memo t := by
  simp [Sound, parts, address]

theorem sound_binary {a : Nat} {o : Operator} {l r : Placed} :
    Sound ε bindings memo (binary a o l r) ↔
    (∀ v, memo[a]? = some v → (binary a o l r).expr.eval ε bindings = .ok v) ∧
    Sound ε bindings memo l ∧ Sound ε bindings memo r := by
  simp [Sound, parts, address, or_imp, forall_and]

theorem Sound.insert (hd : t.addresses.Nodup) (h : Sound ε bindings memo t) {v : Value}
    (hv : t.expr.eval ε bindings = .ok v) : Sound ε bindings (memo.insert t.address v) t := by
  intro s hs w hw
  rw [Std.HashMap.getElem?_insert] at hw
  split at hw
  · rename_i ha
    obtain rfl : t = s := eq_of_address_eq hd t.mem_parts_self hs (by simpa using ha)
    rw [hv, Option.some.inj hw]
  · exact h s hs w hw

theorem exists_of_known (hs : Sound ε bindings memo t) (h : memo.contains t.address) :
    ∃ v, memo[t.address]? = some v ∧ t.expr.eval ε bindings = .ok v := by
  rw [← Std.HashMap.isSome_getElem?_eq_contains] at h
  obtain ⟨v, hv⟩ := Option.isSome_iff_exists.mp h
  exact ⟨v, hv, hs t t.mem_parts_self v hv⟩

/-- The turn of `t` comes and goes: either its evaluation fails, and so does the run, or the run
goes on below it with its value remembered, and nothing else is changed outside the tree. -/
def Settles (ε : Float) (bindings : Bindings) (memo : Memo) (t : Placed) : Prop :=
  (∀ e, t.expr.eval ε bindings = .error e → ∀ stack, run ε bindings memo (t :: stack) = .error e) ∧
  ∀ v, t.expr.eval ε bindings = .ok v → ∃ memo' : Memo,
    (∀ stack, run ε bindings memo (t :: stack) = run ε bindings memo' stack) ∧
    memo'[t.address]? = some v ∧ Sound ε bindings memo' t ∧
    ∀ a, a ∉ t.addresses → memo'[a]? = memo[a]?

theorem run_of_known (h : memo.contains t.address) (stack : List Placed) :
    run ε bindings memo (t :: stack) = run ε bindings memo stack := by
  rw [run, if_pos h]

theorem settles_of_known (hs : Sound ε bindings memo t) (h : memo.contains t.address) :
    Settles ε bindings memo t := by
  obtain ⟨w, hw, he⟩ := exists_of_known hs h
  constructor
  · intro e herr
    rw [he] at herr
    cases herr
  · intro v hv
    obtain rfl : w = v := Except.ok.inj (he.symm.trans hv)
    exact ⟨memo, run_of_known h, hw, hs, fun _ _ => rfl⟩

/-- A node whose operands are remembered with their values has its own at hand. -/
theorem value?_of_ready
    (h : ∀ s ∈ t.operands, ∃ v, memo[s.address]? = some v ∧ s.expr.eval ε bindings = .ok v) :
    value? ε bindings memo t = (t.expr.eval ε bindings).map some := by
  cases t with
  | const a x => rfl
  | var a name => cases hb : bindings.lookup name <;> simp [value?, expr, Expr.eval, hb, Except.map]
  | call a f t =>
    obtain ⟨v, hv, he⟩ := h t (by simp [operands])
    simp [value?, expr, Expr.eval, hv, he, Except.map, pure, Except.pure]
  | binary a o l r =>
    obtain ⟨v, hv, hl⟩ := h l (by simp [operands])
    obtain ⟨w, hw, hr⟩ := h r (by simp [operands])
    simp [value?, expr, Expr.eval, hv, hw, hl, hr]

theorem run_of_value (hk : ¬ memo.contains t.address) {v : Value}
    (h : value? ε bindings memo t = .ok (some v)) (stack : List Placed) :
    run ε bindings memo (t :: stack) = run ε bindings (memo.insert t.address v) stack := by
  rw [run, if_neg hk]
  split <;> simp_all

theorem run_of_error (hk : ¬ memo.contains t.address) {e : Error}
    (h : value? ε bindings memo t = .error e) (stack : List Placed) :
    run ε bindings memo (t :: stack) = .error e := by
  rw [run, if_neg hk]
  split <;> simp_all

theorem run_of_waiting (hk : ¬ memo.contains t.address)
    (h : value? ε bindings memo t = .ok none) (stack : List Placed) :
    run ε bindings memo (t :: stack) = run ε bindings memo (t.operands ++ t :: stack) := by
  rw [run, if_neg hk]
  split <;> simp_all

theorem settles_of_ready (hd : t.addresses.Nodup) (hs : Sound ε bindings memo t)
    (h : ∀ s ∈ t.operands, ∃ v, memo[s.address]? = some v ∧ s.expr.eval ε bindings = .ok v) :
    Settles ε bindings memo t := by
  by_cases hk : memo.contains t.address
  · exact settles_of_known hs hk
  · have hv := value?_of_ready h
    constructor
    · intro e he
      rw [he] at hv
      exact run_of_error hk hv
    · intro v he
      rw [he] at hv
      refine ⟨memo.insert t.address v, run_of_value hk hv, by simp, hs.insert hd he, ?_⟩
      intro a ha
      rw [Std.HashMap.getElem?_insert, if_neg]
      intro h
      exact ha (beq_iff_eq.mp h ▸ t.address_mem)

theorem settles_of_error {e : Error} (he : t.expr.eval ε bindings = .error e)
    (hr : ∀ stack, run ε bindings memo (t :: stack) = .error e) : Settles ε bindings memo t := by
  constructor
  · intro e' he'
    rw [he] at he'
    cases he'
    exact hr
  · intro v hv
    rw [he] at hv
    cases hv

/-- It may take other nodes of the tree before its turn comes again. -/
theorem Settles.of_run (h : Settles ε bindings memo' t)
    (hr : ∀ stack, run ε bindings memo (t :: stack) = run ε bindings memo' (t :: stack))
    (hm : ∀ a, a ∉ t.addresses → memo'[a]? = memo[a]?) : Settles ε bindings memo t := by
  constructor
  · intro e he stack
    exact (hr stack).trans (h.1 e he stack)
  · intro v hv
    obtain ⟨memo'', hrun, hget, hsound, hkeep⟩ := h.2 v hv
    refine ⟨memo'', ?_, hget, hsound, ?_⟩
    · intro stack
      exact (hr stack).trans (hrun stack)
    · intro a ha
      exact (hkeep a ha).trans (hm a ha)

theorem settles_call {a : Nat} {f : Func} (hd : (call a f t).addresses.Nodup)
    (ih : ∀ memo, Sound ε bindings memo t → Settles ε bindings memo t)
    (hs : Sound ε bindings memo (call a f t)) : Settles ε bindings memo (call a f t) := by
  obtain ⟨hself, hst⟩ := sound_call.mp hs
  by_cases hk : memo.contains (call a f t).address
  · exact settles_of_known hs hk
  by_cases hkt : memo.contains t.address
  · exact settles_of_ready hd hs (by simpa [operands] using exists_of_known hst hkt)
  have hw : value? ε bindings memo (call a f t) = .ok none := by
    simp_all [value?]
  have hrun := run_of_waiting hk hw
  cases he : t.expr.eval ε bindings with
  | error e =>
    refine settles_of_error (e := e) (by simp [expr, Expr.eval, he]) ?_
    intro stack
    rw [hrun]
    exact (ih memo hst).1 e he _
  | ok v =>
    obtain ⟨memo', hrun', hget, hsound, hkeep⟩ := (ih memo hst).2 v he
    obtain ⟨ha, -⟩ := List.nodup_cons.mp hd
    have hs' : Sound ε bindings memo' (call a f t) := by
      refine sound_call.mpr ⟨?_, hsound⟩
      intro w hw
      rw [hkeep a ha] at hw
      exact hself w hw
    have hready := settles_of_ready hd hs' (by simpa [operands] using ⟨v, hget, he⟩)
    refine hready.of_run ?_ ?_
    · intro stack
      exact (hrun stack).trans (hrun' _)
    · intro b hb
      apply hkeep b
      intro hmem
      exact hb (List.mem_cons_of_mem a hmem)

theorem settles_binary {a : Nat} {o : Operator} {l r : Placed}
    (hd : (binary a o l r).addresses.Nodup)
    (ihl : ∀ memo, Sound ε bindings memo l → Settles ε bindings memo l)
    (ihr : ∀ memo, Sound ε bindings memo r → Settles ε bindings memo r)
    (hs : Sound ε bindings memo (binary a o l r)) : Settles ε bindings memo (binary a o l r) := by
  obtain ⟨hself, hsl, hsr⟩ := sound_binary.mp hs
  by_cases hk : memo.contains (binary a o l r).address
  · exact settles_of_known hs hk
  by_cases hkl : memo.contains l.address ∧ memo.contains r.address
  · refine settles_of_ready hd hs ?_
    simpa [operands] using ⟨exists_of_known hsl hkl.1, exists_of_known hsr hkl.2⟩
  have hw : value? ε bindings memo (binary a o l r) = .ok none := by
    simp only [value?]
    split
    · rename_i hl hr
      simp [← Std.HashMap.isSome_getElem?_eq_contains, hl, hr] at hkl
    · rfl
  have hrun := run_of_waiting hk hw
  obtain ⟨ha, hd'⟩ := List.nodup_cons.mp hd
  have hdisj : ∀ b ∈ r.addresses, b ∉ l.addresses := by
    intro b hr hl
    exact (List.nodup_append.mp hd').2.2 b hl b hr rfl
  cases hl : l.expr.eval ε bindings with
  | error e =>
    refine settles_of_error (e := e) (by simp [expr, Expr.eval, hl]) ?_
    intro stack
    rw [hrun]
    exact (ihl memo hsl).1 e hl _
  | ok v =>
    obtain ⟨memo₁, hrun₁, hget₁, hsound₁, hkeep₁⟩ := (ihl memo hsl).2 v hl
    have hsr₁ : Sound ε bindings memo₁ r := by
      apply hsr.congr
      intro b hb
      exact hkeep₁ b (hdisj b hb)
    cases hr : r.expr.eval ε bindings with
    | error e =>
      refine settles_of_error (e := e) (by simp [expr, Expr.eval, hl, hr]) ?_
      intro stack
      rw [hrun]
      exact (hrun₁ _).trans ((ihr memo₁ hsr₁).1 e hr _)
    | ok w =>
      obtain ⟨memo₂, hrun₂, hget₂, hsound₂, hkeep₂⟩ := (ihr memo₁ hsr₁).2 w hr
      have hkeep : ∀ b, b ∉ l.addresses ++ r.addresses → memo₂[b]? = memo[b]? := by
        intro b hb
        rw [List.mem_append, not_or] at hb
        exact (hkeep₂ b hb.2).trans (hkeep₁ b hb.1)
      -- Running the right operand has left the addresses of the left one alone.
      have hkeepl : ∀ b ∈ l.addresses, memo₂[b]? = memo₁[b]? := by
        intro b hb
        apply hkeep₂ b
        intro hmem
        exact hdisj b hmem hb
      have hsl₂ : Sound ε bindings memo₂ l := hsound₁.congr hkeepl
      have hs' : Sound ε bindings memo₂ (binary a o l r) := by
        refine sound_binary.mpr ⟨?_, hsl₂, hsound₂⟩
        intro u hu
        rw [hkeep a ha] at hu
        exact hself u hu
      have hget : memo₂[l.address]? = some v := (hkeepl _ l.address_mem).trans hget₁
      have hready := settles_of_ready hd hs'
        (by simpa [operands] using ⟨⟨v, hget, hl⟩, w, hget₂, hr⟩)
      refine hready.of_run ?_ ?_
      · intro stack
        exact (hrun stack).trans ((hrun₁ _).trans (hrun₂ _))
      · intro b hb
        apply hkeep b
        intro hmem
        exact hb (List.mem_cons_of_mem a hmem)

/-- Whatever is remembered of a tree already, so long as it is right. -/
theorem settles (hd : t.addresses.Nodup) (hs : Sound ε bindings memo t) :
    Settles ε bindings memo t := by
  induction t generalizing memo with
  | const a x => exact settles_of_ready hd hs (by simp [operands])
  | var a name => exact settles_of_ready hd hs (by simp [operands])
  | call a f t ih =>
    obtain ⟨-, hdt⟩ := List.nodup_cons.mp hd
    exact settles_call hd (fun _ => ih hdt) hs
  | binary a o l r ihl ihr =>
    obtain ⟨hdl, hdr, -⟩ := List.nodup_append.mp (List.nodup_cons.mp hd).2
    exact settles_binary hd (fun _ => ihl hdl) (fun _ => ihr hdr) hs

/-- No address may be used twice; which ones are used does not matter. -/
theorem evaluate_eq_eval (hd : t.addresses.Nodup) :
    t.evaluate ε bindings = t.expr.eval ε bindings := by
  have hs : Sound ε bindings ∅ t := by simp [Sound]
  obtain ⟨herr, hok⟩ := settles hd hs
  cases he : t.expr.eval ε bindings with
  | error e => simp [evaluate, herr e he]
  | ok v =>
    obtain ⟨memo, hrun, hget, -⟩ := hok v he
    have hempty : run ε bindings memo [] = .ok memo := by rw [run]
    simp [evaluate, hrun, hempty, hget, pure, Except.pure]

end Placed

theorem Expr.evaluate_eq_eval (e : Expr) : e.evaluate ε bindings = e.eval ε bindings := by
  simp [evaluate, placed_eq, Placed.evaluate_eq_eval (e.nodup_placedAt 0), expr_placedAt]

end Reckon
