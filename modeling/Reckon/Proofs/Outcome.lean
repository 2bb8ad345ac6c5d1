import Mathlib.Data.List.Forall2

/-! When a computation that may fail has a result, and when it fails. -/
namespace Reckon

variable {α β ε : Type} {x : Except ε α} {f : α → Except ε β}

@[simp] theorem ok_bind (a : α) (f : α → Except ε β) : Except.ok a >>= f = f a := rfl

@[simp] theorem error_bind (e : ε) (f : α → Except ε β) : Except.error e >>= f = .error e := rfl

@[simp] theorem map_ok (a : α) (f : α → β) : f <$> (Except.ok a : Except ε α) = .ok (f a) := rfl

@[simp] theorem map_error (e : ε) (f : α → β) : f <$> (Except.error e : Except ε α) = .error e :=
  rfl

theorem bind_eq_ok {b : β} : x >>= f = .ok b ↔ ∃ a, x = .ok a ∧ f a = .ok b := by
  cases x <;> simp [bind, Except.bind]

theorem pure_eq_ok {a b : α} : (pure a : Except ε α) = .ok b ↔ a = b := by
  simp [pure, Except.pure]

/-- All results of a list come from its elements. -/
theorem exists_of_mem_mapM {as : List α} {bs : List β} (h : as.mapM f = .ok bs) :
    ∀ b ∈ bs, ∃ a ∈ as, f a = .ok b := by
  induction as generalizing bs with
  | nil =>
    obtain rfl : [] = bs := Except.ok.inj h
    simp
  | cons a as ih =>
    simp only [List.mapM_cons, bind_eq_ok, pure_eq_ok] at h
    obtain ⟨c, hc, cs, hcs, rfl⟩ := h
    rintro b (_ | ⟨_, hb⟩)
    · exact ⟨a, List.mem_cons_self, hc⟩
    · obtain ⟨a', ha', hfa⟩ := ih hcs b hb
      exact ⟨a', List.mem_cons_of_mem a ha', hfa⟩

theorem mapM_eq_nil {as : List α} (h : as.mapM f = .ok []) : as = [] := by
  cases as with
  | nil => rfl
  | cons a as =>
    simp only [List.mapM_cons, bind_eq_ok, pure_eq_ok] at h
    obtain ⟨_, _, _, _, h⟩ := h
    cases h

theorem mapM_eq_cons {as : List α} {b : β} {bs : List β} (h : as.mapM f = .ok (b :: bs)) :
    ∃ a as', as = a :: as' ∧ f a = .ok b ∧ as'.mapM f = .ok bs := by
  cases as with
  | nil => cases h
  | cons a as =>
    simp only [List.mapM_cons, bind_eq_ok, pure_eq_ok, List.cons.injEq] at h
    obtain ⟨c, hc, cs, hcs, rfl, rfl⟩ := h
    exact ⟨a, as, rfl, hc, hcs⟩

/-- Results that are in two parts come from elements in two parts. -/
theorem mapM_eq_append {as : List α} {bs cs : List β} (h : as.mapM f = .ok (bs ++ cs)) :
    ∃ as₁ as₂, as = as₁ ++ as₂ ∧ as₁.mapM f = .ok bs ∧ as₂.mapM f = .ok cs := by
  induction bs generalizing as with
  | nil => exact ⟨[], as, rfl, rfl, h⟩
  | cons b bs ih =>
    obtain ⟨a, as, rfl, hb, h⟩ := mapM_eq_cons h
    obtain ⟨as₁, as₂, rfl, hbs, hcs⟩ := ih h
    exact ⟨a :: as₁, as₂, rfl, by simp [hb, hbs, pure, Except.pure], hcs⟩

theorem mapM_eq_map {as : List α} {k : α → β} (h : ∀ a ∈ as, f a = .ok (k a)) :
    as.mapM f = .ok (as.map k) := by
  induction as with
  | nil => rfl
  | cons a as ih =>
    have ha := h a List.mem_cons_self
    have has := ih fun b hb => h b (List.mem_cons_of_mem a hb)
    simp [ha, has, pure, Except.pure]

theorem mapM_eq_ok_iff_forall₂ {as : List α} {bs : List β} :
    as.mapM f = .ok bs ↔ List.Forall₂ (fun a b => f a = .ok b) as bs := by
  induction as generalizing bs with
  | nil => simp [pure, Except.pure, eq_comm]
  | cons a as ih =>
    simp only [List.mapM_cons, bind_eq_ok, pure_eq_ok, ih, List.forall₂_cons_left_iff]
    constructor
    · rintro ⟨b, hb, bs, hbs, rfl⟩
      exact ⟨b, bs, hb, hbs, rfl⟩
    · rintro ⟨b, bs, hb, hbs, rfl⟩
      exact ⟨b, hb, bs, hbs, rfl⟩

/-- A run fails at the first step that does. -/
theorem foldlM_eq_error_iff {k : β → α → Except ε β} {as : List α} {b : β} {e : ε} :
    as.foldlM k b = .error e ↔ ∃ before a after c,
      as = before ++ a :: after ∧ before.foldlM k b = .ok c ∧ k c a = .error e := by
  induction as generalizing b with
  | nil => simp [pure, Except.pure]
  | cons a as ih =>
    rw [List.foldlM_cons]
    constructor
    · intro h
      cases hk : k b a with
      | error e' =>
        rw [hk] at h
        obtain rfl : e' = e := Except.error.inj h
        exact ⟨[], a, as, b, rfl, rfl, hk⟩
      | ok c =>
        rw [hk] at h
        obtain ⟨before, a', after, d, rfl, hd, he⟩ := ih.mp h
        exact ⟨a :: before, a', after, d, rfl, by simp [hk, hd], he⟩
    · rintro ⟨before, a', after, d, heq, hd, he⟩
      cases before with
      | nil =>
        obtain ⟨rfl, rfl⟩ := List.cons.inj heq
        obtain rfl : b = d := Except.ok.inj hd
        rw [he]
        rfl
      | cons a'' before =>
        obtain ⟨rfl, rfl⟩ := List.cons.inj heq
        obtain ⟨c, hc, hd⟩ := bind_eq_ok.mp hd
        rw [hc]
        exact ih.mpr ⟨before, a', after, d, rfl, hd, he⟩

/-- What each step keeps true of the state and the elements so far is true after any run. -/
theorem foldlM_induction {σ : Type} {step : σ → α → Option σ} {P : σ → List α → Prop} {s s' : σ}
    {as : List α} (hstep : ∀ {u bs a v}, P u bs → step u a = some v → P v (bs ++ [a]))
    (h : P s []) (hs : as.foldlM step s = some s') : P s' as := by
  have hrun : ∀ bs u, P u bs → as.foldlM step u = some s' → P s' (bs ++ as) := by
    clear hs
    induction as with
    | nil =>
      intro bs u hu hs
      obtain rfl : u = s' := Option.some.inj hs
      simpa using hu
    | cons a as ih =>
      intro bs u hu hs
      obtain ⟨v, hv, hs⟩ := Option.bind_eq_some_iff.mp hs
      simpa using ih (bs ++ [a]) v (hstep hu hv) hs
  exact hrun [] s h hs

theorem filterMap_mapM {γ : Type} {p : β → Option γ} {q : α → Option γ}
    (hpq : ∀ a b, f a = .ok b → p b = q a) {as : List α} {bs : List β} (h : as.mapM f = .ok bs) :
    bs.filterMap p = as.filterMap q := by
  induction as generalizing bs with
  | nil =>
    obtain rfl : [] = bs := Except.ok.inj h
    rfl
  | cons a as ih =>
    simp only [List.mapM_cons, bind_eq_ok, pure_eq_ok] at h
    obtain ⟨b, hb, bs, hbs, rfl⟩ := h
    simp only [List.filterMap_cons, hpq a b hb, ih hbs]

theorem filter_mapM {p : β → Bool} {q : α → Bool} (hpq : ∀ a b, f a = .ok b → p b = q a)
    {as : List α} {bs : List β} (h : as.mapM f = .ok bs) :
    (as.filter q).mapM f = .ok (bs.filter p) := by
  induction as generalizing bs with
  | nil =>
    obtain rfl : [] = bs := Except.ok.inj h
    rfl
  | cons a as ih =>
    simp only [List.mapM_cons, bind_eq_ok, pure_eq_ok] at h
    obtain ⟨b, hb, bs, hbs, rfl⟩ := h
    cases hq : q a with
    | false => simpa [hq, hpq a b hb] using ih hbs
    | true => simp [hq, hpq a b hb, hb, ih hbs, pure, Except.pure]

end Reckon
