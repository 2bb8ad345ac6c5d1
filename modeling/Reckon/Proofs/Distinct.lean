import Mathlib.Data.List.Nodup

/-! The distinct elements of a list, each where it first occurs. -/
namespace Reckon

variable {α : Type} [BEq α] [LawfulBEq α] {x : α} {n : Nat}

theorem eraseDups_filter (p : α → Bool) (as : List α) :
    (as.filter p).eraseDups = as.eraseDups.filter p := by
  induction hn : as.length using Nat.strongRecOn generalizing as with
  | ind n ih =>
    cases as with
    | nil => rfl
    | cons a as =>
      have hlen : (as.filter fun b => !b == a).length < n := by
        have hle := List.length_filter_le (fun b => !b == a) as
        simp only [List.length_cons] at hn
        omega
      have hrest := ih _ hlen _ rfl
      rw [List.eraseDups_cons, List.filter_cons, List.filter_cons]
      by_cases ha : p a
      · rw [if_pos ha, if_pos ha, List.eraseDups_cons, ← hrest, List.filter_filter,
          List.filter_filter]
        simp only [Bool.and_comm]
      · rw [if_neg ha, if_neg ha, ← hrest, List.filter_filter]
        congr 1
        apply List.filter_congr
        intro b _
        by_cases hb : b = a
        · simp [hb, ha]
        · simp [hb]

theorem find?_eraseDups (p : α → Bool) (as : List α) : as.eraseDups.find? p = as.find? p := by
  rw [← List.head?_filter, ← List.head?_filter, ← eraseDups_filter]
  cases as.filter p with
  | nil => rfl
  | cons a bs =>
    rw [List.eraseDups_cons]
    rfl

/-- The first element stays where it is, and its repetitions go. -/
theorem eraseDups_cons_filter (a : α) (as : List α) :
    (a :: as).eraseDups = a :: as.eraseDups.filter (· != a) := by
  rw [List.eraseDups_cons, eraseDups_filter]
  rfl

theorem nodup_eraseDups (as : List α) : as.eraseDups.Nodup := by
  induction as with
  | nil => exact List.nodup_nil
  | cons a as ih =>
    rw [eraseDups_cons_filter]
    refine List.nodup_cons.mpr ⟨?_, ih.filter _⟩
    simp

/-- The order is that of the first occurrences. -/
theorem pairwise_idxOf_eraseDups (as : List α) :
    as.eraseDups.Pairwise fun b c => as.idxOf b < as.idxOf c := by
  induction as with
  | nil => exact .nil
  | cons a as ih =>
    have hidx : ∀ b ∈ as.eraseDups.filter (· != a), (a :: as).idxOf b = as.idxOf b + 1 := by
      intro b hb
      have hne : b ≠ a := by simpa using (List.mem_filter.mp hb).2
      exact List.idxOf_cons_ne as hne.symm
    rw [eraseDups_cons_filter, List.pairwise_cons]
    constructor
    · intro b hb
      rw [List.idxOf_cons_self, hidx b hb]
      exact Nat.succ_pos _
    · refine (ih.filter (· != a)).imp_of_mem ?_
      intro b c hb hc hlt
      rw [hidx b hb, hidx c hc]
      exact Nat.succ_lt_succ hlt

theorem length_eraseDups_reverse (as : List α) :
    as.reverse.eraseDups.length = as.eraseDups.length := by
  have hperm : as.reverse.eraseDups.Perm as.eraseDups :=
    (List.perm_ext_iff_of_nodup (nodup_eraseDups _) (nodup_eraseDups _)).mpr (by simp)
  exact hperm.length_eq

/-- One place more than is wanted makes up for the element that is left out. -/
theorem take_filter_take {as : List α} (h : as.Nodup) (n : Nat) (x : α) :
    ((as.take (n + 1)).filter (· != x)).take n = (as.filter (· != x)).take n := by
  induction as generalizing n with
  | nil => simp
  | cons a as ih =>
    obtain ⟨ha, has⟩ := List.nodup_cons.mp h
    by_cases hx : a = x
    · subst hx
      have hall : ∀ b ∈ as, (b != a) = true := by
        intro b hb
        exact bne_iff_ne.mpr fun he => ha (he ▸ hb)
      have htake : (as.take n).filter (· != a) = as.take n :=
        List.filter_eq_self.mpr fun b hb => hall b (List.mem_of_mem_take hb)
      simp [htake, List.filter_eq_self.mpr hall, List.take_take]
    · cases n with
      | zero => simp
      | succ n => simp [hx, ih has n]

/-- The element is among the first ones exactly if few others come before it. -/
theorem mem_take_eraseDups {as bs : List α} (h : x ∉ as) :
    x ∈ (as ++ x :: bs).eraseDups.take n ↔ as.eraseDups.length < n := by
  have hx : (x :: bs).removeAll as = x :: bs.removeAll as := by
    simp [List.removeAll, h]
  have hmem : x ∉ as.eraseDups := by simpa using h
  rw [List.eraseDups_append, hx, List.eraseDups_cons]
  constructor
  · intro hn
    by_contra hle
    rw [List.take_append_of_le_length (by omega)] at hn
    exact hmem (List.mem_of_mem_take hn)
  · intro hlt
    obtain ⟨k, rfl⟩ := Nat.exists_eq_add_of_lt hlt
    rw [Nat.add_assoc, List.take_length_add_append]
    simp

end Reckon
