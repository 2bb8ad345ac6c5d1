import Reckon.Number.Numeral
import Reckon.Proofs.Lexing

/-! What the texts of numbers and names read as. -/
namespace Reckon

variable {c : Char} {cs ds fs : List Char}

theorem digitsValue_eq (ds : List Char) : digitsValue ds = Nat.ofDigitChars 10 ds 0 :=
  rfl

theorem digitsValue_append (ds fs : List Char) :
    digitsValue (ds ++ fs) = digitsValue ds * 10 ^ fs.length + digitsValue fs := by
  rw [digitsValue_eq, Nat.ofDigitChars_append, Nat.ofDigitChars_eq_ofDigitChars_zero]
  simp only [digitsValue_eq]
  ring

theorem digitsValue_replicate_zero (n : ℕ) : digitsValue (List.replicate n '0') = 0 := by
  rw [digitsValue_eq, Nat.ofDigitChars_replicate_zero, mul_zero]

theorem digitsValue_toDigits (n : ℕ) : digitsValue (Nat.toDigits 10 n) = n := by
  rw [digitsValue_eq, Nat.ofDigitChars_ten_toDigits]

theorem isDigit_of_mem_toDigits {n : ℕ} (h : c ∈ Nat.toDigits 10 n) : c.isDigit :=
  Nat.isDigit_of_mem_toDigits (by decide) (by decide) h

namespace Numeral

theorem splitSign_of_ne (hm : c ≠ '-') (hp : c ≠ '+') :
    splitSign (c :: cs) = (false, c :: cs) := by
  unfold splitSign
  split <;> simp_all

theorem special?_eq_none (hi : c.toLower ≠ 'i') (hn : c.toLower ≠ 'n') :
    special? (c :: cs) = none := by
  have hne : ∀ d ds, c.toLower ≠ d → String.ofList (List.map Char.toLower (c :: cs)) ≠
      String.ofList (d :: ds) := by
    intro d ds hd h
    exact hd (List.cons.inj (String.ofList_injective h)).1
  unfold special?
  split
  · rename_i h
    exact absurd h (hne 'i' ['n', 'f'] hi)
  · rename_i h
    exact absurd h (hne 'i' ['n', 'f', 'i', 'n', 'i', 't', 'y'] hi)
  · rename_i h
    exact absurd h (hne 'n' ['a', 'n'] hn)
  · rfl

theorem special?_eq_some {x : Float} (h : special? cs = some x) : x = 1 / 0 ∨ x = 0 / 0 := by
  unfold special? at h
  split at h
  · exact .inl (Option.some.inj h).symm
  · exact .inl (Option.some.inj h).symm
  · exact .inr (Option.some.inj h).symm
  · cases h

/-- Characters that begin no sign and no special name make a number of their digits. -/
theorem read?_of_head (hm : c ≠ '-') (hp : c ≠ '+') (hi : c.toLower ≠ 'i')
    (hn : c.toLower ≠ 'n') :
    read? (String.ofList (c :: cs)) = (decimal? (c :: cs)).map Decimal.toFloat := by
  simp only [read?, String.toList_ofList, splitSign_of_ne hm hp, special?_eq_none hi hn]
  cases decimal? (c :: cs) <;> rfl

theorem decimal?_whole (hd : ∀ c ∈ ds, c.isDigit) (hn : ds ≠ []) :
    decimal? ds = some ⟨digitsValue ds, 0⟩ := by
  have htake : ds.takeWhile Char.isDigit = ds := List.takeWhile_eq_self_iff.mpr hd
  have hdrop : ds.dropWhile Char.isDigit = [] := List.dropWhile_eq_nil_iff.mpr hd
  simp [decimal?, htake, hdrop, hn, exponent?]

theorem decimal?_point (hd : ∀ c ∈ ds, c.isDigit) (hf : ∀ c ∈ fs, c.isDigit)
    (hn : ds ≠ [] ∨ fs ≠ []) :
    decimal? (ds ++ '.' :: fs) = some ⟨digitsValue (ds ++ fs), -fs.length⟩ := by
  have hpoint : Lexer.Ends Char.isDigit ('.' :: fs) := Lexer.ends_cons rfl
  have htake : fs.takeWhile Char.isDigit = fs := List.takeWhile_eq_self_iff.mpr hf
  have hdrop : fs.dropWhile Char.isDigit = [] := List.dropWhile_eq_nil_iff.mpr hf
  have hn' : ¬ (ds = [] ∧ fs = []) := by
    rintro ⟨rfl, rfl⟩
    simp at hn
  simp [decimal?, Lexer.takeWhile_append hd hpoint, Lexer.dropWhile_append hd hpoint, htake, hdrop,
    hn', exponent?]

theorem toLower_of_isDigit (h : c.isDigit) : c.toLower = c := by
  have hu : ¬ (c.val ≥ 'A'.val ∧ c.val ≤ 'Z'.val) := by
    rintro ⟨hA, -⟩
    simp only [Char.isDigit, Bool.and_eq_true, decide_eq_true_eq, ge_iff_le,
      UInt32.le_iff_toNat_le] at h hA
    have h9 := h.2
    simp at hA h9
    omega
  rw [Char.toLower, dif_neg hu]

theorem read?_of_isDigit (h : c.isDigit) :
    read? (String.ofList (c :: cs)) = (decimal? (c :: cs)).map Decimal.toFloat := by
  have hne : ∀ d : Char, d.isDigit = false → c ≠ d := by
    rintro d hd rfl
    rw [h] at hd
    cases hd
  apply read?_of_head (hne '-' rfl) (hne '+' rfl)
  · rw [toLower_of_isDigit h]
    exact hne 'i' rfl
  · rw [toLower_of_isDigit h]
    exact hne 'n' rfl

theorem read?_point (hd : ∀ c ∈ ds, c.isDigit) (hf : ∀ c ∈ fs, c.isDigit)
    (hn : ds ≠ [] ∨ fs ≠ []) :
    read? (String.ofList (ds ++ '.' :: fs)) =
      some (⟨digitsValue (ds ++ fs), -fs.length⟩ : Decimal).toFloat := by
  have hdecimal := decimal?_point hd hf hn
  cases ds with
  | nil =>
    rw [List.nil_append] at hdecimal ⊢
    rw [read?_of_head (by decide) (by decide) (by decide) (by decide), hdecimal]
    rfl
  | cons c ds =>
    rw [List.cons_append] at hdecimal ⊢
    rw [read?_of_isDigit (hd c (by simp)), hdecimal]
    rfl

theorem read?_number (h : Lexer.IsNumber ds) :
    ∃ d : Decimal, read? (String.ofList ds) = some d.toFloat := by
  cases h with
  | whole hd hn =>
    have hdecimal := decimal?_whole hd hn
    obtain ⟨c, ds, rfl⟩ := List.exists_cons_of_ne_nil hn
    rw [read?_of_isDigit (hd c (by simp)), hdecimal]
    exact ⟨_, rfl⟩
  | point hd hf hn => exact ⟨_, read?_point hd hf hn⟩

theorem decimal?_word (h : Lexer.IsWord cs) : decimal? cs = none := by
  cases cs with
  | nil => cases h
  | cons c cs =>
    have hc := Lexer.isDigit_eq_false_of_isWordStart h.1
    have hp : c ≠ '.' := Lexer.ne_of_isWordStart h.1 rfl
    simp only [decimal?, List.takeWhile_cons, List.dropWhile_cons, hc]
    split <;> simp_all

theorem read?_word (h : Lexer.IsWord cs) : read? (String.ofList cs) = special? cs := by
  have hdecimal := decimal?_word h
  cases cs with
  | nil => cases h
  | cons c cs =>
    have hm : c ≠ '-' := Lexer.ne_of_isWordStart h.1 rfl
    have hp : c ≠ '+' := Lexer.ne_of_isWordStart h.1 rfl
    simp only [read?, String.toList_ofList, splitSign_of_ne hm hp, hdecimal]
    cases special? (c :: cs) <;> rfl

end Numeral

end Reckon
