import Reckon.Json.Number
import Reckon.Proofs.Lexing

/-!
Numbers as JSON writes them: the scanner reads exactly these, and takes as much of a text for a
number as it can.
-/
namespace Reckon.Json

open Lexer (Ends ends_nil ends_cons ends_dropWhile of_mem_takeWhile)

variable {c : Char} {cs ds rest : List Char} {m k : Nat}

/-- Decimal digits, at least one. -/
structure Digits where
  chars : List Char
  isDigit : ∀ c ∈ chars, c.isDigit
  ne_nil : chars ≠ []

/-- The power of ten after a number: its mark, perhaps a sign, and digits. -/
structure Power where
  mark : Char
  sign : Option Char
  digits : Digits
  isMark : mark = 'e' ∨ mark = 'E'
  isSign : ∀ c ∈ sign, c = '-' ∨ c = '+'

/-- A number: perhaps a minus, digits, perhaps a point and digits, and perhaps a power of ten. A
zero before the point stands alone. -/
structure Numeral where
  negative : Bool
  whole : Digits
  fraction : Option Digits
  power : Option Power
  zero_alone : whole.chars.head? = some '0' → whole.chars = ['0']

def Power.text (p : Power) : List Char :=
  p.mark :: (p.sign.toList ++ p.digits.chars)

def Power.value (p : Power) : ℤ :=
  if p.sign = some '-' then -digitsValue p.digits.chars else digitsValue p.digits.chars

namespace Numeral

variable (n : Numeral)

/-- The digits after the point. -/
def decimals : List Char :=
  n.fraction.elim [] Digits.chars

def exponent : ℤ :=
  n.power.elim 0 Power.value

def unsigned : List Char :=
  n.whole.chars ++ (n.fraction.elim [] ('.' :: ·.chars) ++ n.power.elim [] Power.text)

def text : List Char :=
  if n.negative then '-' :: n.unsigned else n.unsigned

/-- The number that is meant. -/
def exact : ℚ :=
  (if n.negative then -1 else 1) *
    (digitsValue (n.whole.chars ++ n.decimals) * 10 ^ (n.exponent - n.decimals.length))

/-- The double that the number without its sign is read as, if it is not past the largest one. Digits
of the significand that have no room in it are left out: before the point they count for the power of
ten, and after it they do not count at all. -/
def magnitude? : Option Float :=
  let (m, _, dropped) := absorb 0 0 n.whole.chars
  let (m, places, _) := absorb m 0 n.decimals
  scale? (Float.ofNat m) (n.exponent + dropped.length - places)

def read? : Option Float :=
  n.magnitude?.map fun x => if n.negative then -x else x

/-- The number does not go on here. -/
structure Stops (rest : List Char) : Prop where
  digit : Ends Char.isDigit rest
  mark : n.power = none → Ends (fun c => c == 'e' || c == 'E') rest
  point : n.power = none → n.fraction = none → Ends (· == '.') rest

end Numeral

section Significand

theorem absorb_count (m k : Nat) (cs : List Char) :
    absorb m k cs = ((absorb m 0 cs).1, (absorb m 0 cs).2.1 + k, (absorb m 0 cs).2.2) := by
  induction cs generalizing m k with
  | nil => simp [absorb]
  | cons c cs ih =>
    simp only [absorb]
    split
    · rw [ih _ (k + 1), ih _ (0 + 1)]
      simp only [Prod.mk.injEq, true_and, and_true]
      omega
    · simp

theorem absorb_append (h : ∀ c ∈ ds, c.isDigit) (hr : Ends Char.isDigit rest) (m k : Nat) :
    absorb m k (ds ++ rest) =
      ((absorb m k ds).1, (absorb m k ds).2.1, (absorb m k ds).2.2 ++ rest) := by
  induction ds generalizing m k with
  | nil =>
    cases rest with
    | nil => rfl
    | cons c rest =>
      have hc : c.isDigit = false := hr c rfl
      simp [absorb, hc]
  | cons d ds ih =>
    have hrest := ih fun c hc => h c (List.mem_cons_of_mem d hc)
    simp only [List.cons_append, absorb]
    split
    · exact hrest _ _
    · rfl

theorem isDigit_of_mem_absorb (h : ∀ c ∈ ds, c.isDigit) (hc : c ∈ (absorb m k ds).2.2) :
    c.isDigit :=
  h c ((absorb_suffix m k ds).subset hc)

theorem digitsValue_le_of_isDigit (h : c.isDigit) : digitsValue [c] ≤ 9 := by
  simp only [Char.isDigit, Bool.and_eq_true, decide_eq_true_eq, ge_iff_le,
    UInt32.le_iff_toNat_le] at h
  have h9 : c.toNat ≤ 57 := h.2
  simp only [digitsValue, List.foldl_cons, List.foldl_nil]
  have hzero : '0'.toNat = 48 := rfl
  omega

/-- Whatever has room, all digits are passed over in the end. -/
theorem dropWhile_absorb (m k : Nat) (cs : List Char) :
    (absorb m k cs).2.2.dropWhile Char.isDigit = cs.dropWhile Char.isDigit := by
  have hdigit : ∀ c ∈ cs.takeWhile Char.isDigit, c.isDigit := fun _ => of_mem_takeWhile
  have hend := ends_dropWhile Char.isDigit cs
  have hleft : ∀ c ∈ (absorb m k (cs.takeWhile Char.isDigit)).2.2, c.isDigit :=
    fun _ => isDigit_of_mem_absorb hdigit
  have happend := absorb_append hdigit hend m k
  rw [List.takeWhile_append_dropWhile] at happend
  rw [happend, Lexer.dropWhile_append hleft hend]

/-- The first digit always has room. -/
theorem absorb_cons (h : c.isDigit) (cs : List Char) :
    (absorb 0 0 (c :: cs)).1 = (absorb (digitsValue [c]) 0 cs).1 ∧
      (absorb 0 0 (c :: cs)).2.2 = (absorb (digitsValue [c]) 0 cs).2.2 := by
  have hfits : digitsValue [c] < UInt64.size := by
    have hle := digitsValue_le_of_isDigit h
    norm_num [UInt64.size]
    omega
  have heq : absorb 0 0 (c :: cs) = absorb (digitsValue [c]) 1 cs := by
    simp [absorb, h, hfits]
  rw [heq, absorb_count]
  exact ⟨rfl, rfl⟩

end Significand

section Scanning

theorem whole?_append (d : Digits) (hz : d.chars.head? = some '0' → d.chars = ['0'])
    (hr : Ends Char.isDigit rest) : whole? (d.chars ++ rest) =
      some ((absorb 0 0 d.chars).1, (absorb 0 0 d.chars).2.2.length, rest) := by
  obtain ⟨ds, hd, hne⟩ := d
  obtain ⟨c, cs, rfl⟩ := List.exists_cons_of_ne_nil hne
  by_cases hc : c = '0'
  · subst hc
    obtain rfl : cs = [] := by simpa using hz rfl
    cases rest with
    | nil => rfl
    | cons c rest =>
      have hc : c.isDigit = false := hr c rfl
      have hzero : absorb 0 0 ['0'] = (0, 1, []) := by decide
      simp [whole?, hc, hzero]
  · have hdigit : c.isDigit := hd c List.mem_cons_self
    have hcs : ∀ c ∈ cs, c.isDigit := fun b hb => hd b (List.mem_cons_of_mem c hb)
    have hleft : ∀ b ∈ (absorb (digitsValue [c]) 0 cs).2.2, b.isDigit :=
      fun b hb => isDigit_of_mem_absorb hcs hb
    obtain ⟨hvalue, hrest⟩ := absorb_cons hdigit cs
    simp only [List.cons_append, hvalue, hrest]
    unfold whole?
    split
    · rename_i heq
      cases heq
      exact absurd rfl hc
    · rename_i heq
      cases heq
      simp only [hdigit, if_true, absorb_append hcs hr, Lexer.takeWhile_append hleft hr,
        Lexer.dropWhile_append hleft hr]
    · rename_i heq
      cases heq

theorem exists_of_whole? {dropped : Nat} (h : whole? cs = some (m, dropped, rest)) :
    ∃ d : Digits, (d.chars.head? = some '0' → d.chars = ['0']) ∧ cs = d.chars ++ rest ∧
      Ends Char.isDigit rest := by
  unfold whole? at h
  split at h
  · rename_i tail
    have hrest : rest = tail ∧ Ends Char.isDigit rest := by
      split at h
      · rename_i c _
        split at h
        · cases h
        · rename_i hc
          cases h
          exact ⟨rfl, ends_cons (by simpa using hc)⟩
      · cases h
        exact ⟨rfl, ends_nil⟩
    obtain ⟨rfl, hends⟩ := hrest
    exact ⟨⟨['0'], by simp, by simp⟩, fun _ => rfl, rfl, hends⟩
  · rename_i c tail hc
    split at h
    · rename_i hdigit
      cases h
      refine ⟨⟨c :: tail.takeWhile Char.isDigit, ?_, by simp⟩, ?_, ?_, ?_⟩
      · rintro b (_ | ⟨_, hb⟩)
        · exact hdigit
        · exact of_mem_takeWhile hb
      · intro hzero
        exact absurd (Option.some.inj hzero) hc
      · rw [dropWhile_absorb, List.cons_append, List.takeWhile_append_dropWhile]
      · exact ends_dropWhile _ _
    · cases h
  · cases h

theorem fraction?_append (f : Option Digits) (hd : Ends Char.isDigit rest)
    (hp : f = none → Ends (· == '.') rest) (m : Nat) :
    fraction? m (f.elim [] ('.' :: ·.chars) ++ rest) =
      some ((absorb m 0 (f.elim [] Digits.chars)).1, (absorb m 0 (f.elim [] Digits.chars)).2.1,
        rest) := by
  cases f with
  | none =>
    have hpoint := hp rfl
    simp only [Option.elim_none, List.nil_append, absorb]
    unfold fraction?
    split
    · cases hpoint '.' rfl
    · cases hpoint '.' rfl
    · rfl
  | some d =>
    obtain ⟨ds, hds, hne⟩ := d
    obtain ⟨c, cs, rfl⟩ := List.exists_cons_of_ne_nil hne
    have hleft : ∀ b ∈ (absorb m 0 (c :: cs)).2.2, b.isDigit :=
      fun b hb => isDigit_of_mem_absorb hds hb
    have happend := absorb_append hds hd m 0
    simp only [Option.elim_some, List.cons_append] at happend ⊢
    simp only [fraction?, hds c List.mem_cons_self, if_true, happend,
      Lexer.dropWhile_append hleft hd]

theorem exists_of_fraction? {places m' : Nat} (h : fraction? m cs = some (m', places, rest)) :
    ∃ f : Option Digits, cs = f.elim [] ('.' :: ·.chars) ++ rest ∧
      (f.isSome → Ends Char.isDigit rest) ∧ (f = none → Ends (· == '.') rest) := by
  unfold fraction? at h
  split at h
  · rename_i c tail
    split at h
    · rename_i hdigit
      simp only [Option.some.injEq, Prod.mk.injEq] at h
      obtain ⟨-, -, rfl⟩ := h
      refine ⟨some ⟨c :: tail.takeWhile Char.isDigit, ?_, by simp⟩, ?_, ?_, by simp⟩
      · rintro b (_ | ⟨_, hb⟩)
        · exact hdigit
        · exact of_mem_takeWhile hb
      · rw [dropWhile_absorb, List.dropWhile_cons, if_pos hdigit]
        simp [List.takeWhile_append_dropWhile]
      · exact fun _ => ends_dropWhile _ _
    · cases h
  · cases h
  · rename_i h1 h2
    cases h
    refine ⟨none, rfl, by simp, fun _ c hc => ?_⟩
    obtain ⟨tail, rfl⟩ := List.head?_eq_some_iff.mp hc
    rw [beq_eq_false_iff_ne]
    rintro rfl
    cases tail with
    | nil => exact h2 rfl
    | cons b tail => exact h1 b tail rfl

theorem exponentDigits?_append (d : Digits) (hr : Ends Char.isDigit rest) :
    exponentDigits? (d.chars ++ rest) = some (digitsValue d.chars, rest) := by
  unfold exponentDigits?
  rw [Lexer.takeWhile_append d.isDigit hr, Lexer.dropWhile_append d.isDigit hr]
  split
  · rename_i hnil
    exact absurd hnil d.ne_nil
  · rfl

theorem exists_of_exponentDigits? (h : exponentDigits? cs = some (k, rest)) :
    ∃ d : Digits, cs = d.chars ++ rest ∧ Ends Char.isDigit rest := by
  unfold exponentDigits? at h
  split at h
  · cases h
  · rename_i hne
    cases h
    exact ⟨⟨_, fun _ => of_mem_takeWhile, hne⟩, List.takeWhile_append_dropWhile.symm,
      ends_dropWhile _ _⟩

theorem exponent?_append (p : Option Power) (hd : Ends Char.isDigit rest)
    (hm : p = none → Ends (fun c => c == 'e' || c == 'E') rest) :
    exponent? (p.elim [] Power.text ++ rest) = some (p.elim 0 Power.value, rest) := by
  cases p with
  | none =>
    have hmark := hm rfl
    simp only [Option.elim_none, List.nil_append]
    cases rest with
    | nil => rfl
    | cons c rest =>
      have hc : (c == 'e' || c == 'E') = false := hmark c rfl
      simp [exponent?, hc]
  | some p =>
    have hmark : (p.mark == 'e' || p.mark == 'E') = true := by
      rcases p.isMark with h | h <;> simp [h]
    have hdigits := exponentDigits?_append p.digits hd
    simp only [Option.elim_some, Power.text, Power.value, List.cons_append, List.append_assoc]
    simp only [exponent?, hmark, if_true]
    cases hs : p.sign with
    | none =>
      obtain ⟨c, cs, hcs⟩ := List.exists_cons_of_ne_nil p.digits.ne_nil
      have hc : c.isDigit := p.digits.isDigit c (by simp [hcs])
      simp only [Option.toList_none, List.nil_append, hcs, List.cons_append] at hdigits ⊢
      split
      · rename_i heq
        cases heq
        cases hc
      · rename_i heq
        cases heq
        cases hc
      · simp [hdigits]
    | some c =>
      rcases p.isSign c hs with rfl | rfl
      · simp [hdigits]
      · simp [hdigits]

theorem exists_of_exponent? {e : ℤ} (h : exponent? cs = some (e, rest)) :
    ∃ p : Option Power, cs = p.elim [] Power.text ++ rest ∧
      (p.isSome → Ends Char.isDigit rest) ∧
      (p = none → Ends (fun c => c == 'e' || c == 'E') rest) := by
  unfold exponent? at h
  split at h
  · cases h
    exact ⟨none, rfl, by simp, fun _ => ends_nil⟩
  · rename_i c tail
    split at h
    · rename_i hmark
      have hmark : c = 'e' ∨ c = 'E' := by simpa using hmark
      split at h
      all_goals
        simp only [Option.map_eq_some_iff, Prod.mk.injEq] at h
        obtain ⟨_, hd, -, rfl⟩ := h
        obtain ⟨d, rfl, hend⟩ := exists_of_exponentDigits? hd
      · exact ⟨some ⟨c, some '-', d, hmark, by simp⟩, by simp [Power.text], fun _ => hend, by simp⟩
      · exact ⟨some ⟨c, some '+', d, hmark, by simp⟩, by simp [Power.text], fun _ => hend, by simp⟩
      · exact ⟨some ⟨c, none, d, hmark, by simp⟩, by simp [Power.text], fun _ => hend, by simp⟩
    · rename_i hmark
      cases h
      exact ⟨none, rfl, by simp, fun _ => ends_cons (by simpa using hmark)⟩

end Scanning

section Parts

variable {p : Char → Bool}

theorem ends_power (o : Option Power) (he : p 'e' = false) (hE : p 'E' = false)
    (h : o = none → Ends p rest) : Ends p (o.elim [] Power.text ++ rest) := by
  cases o with
  | none => exact h rfl
  | some q =>
    apply ends_cons
    rcases q.isMark with hmark | hmark
    · rw [hmark, he]
    · rw [hmark, hE]

theorem ends_fraction (f : Option Digits) (hp : p '.' = false) (h : f = none → Ends p rest) :
    Ends p (f.elim [] ('.' :: ·.chars) ++ rest) := by
  cases f with
  | none => exact h rfl
  | some d => exact ends_cons hp

end Parts

namespace Numeral

variable {n : Numeral} {x : Float}

theorem magnitude?_append (n : Numeral) (h : n.Stops rest) :
    Json.magnitude? (n.unsigned ++ rest) = n.magnitude?.map fun x => (x, rest) := by
  have hpower := exponent?_append n.power h.digit h.mark
  have hdigit := ends_power n.power rfl rfl fun _ => h.digit
  have hpoint : n.fraction = none → Ends (· == '.') (n.power.elim [] Power.text ++ rest) :=
    fun hf => ends_power n.power rfl rfl fun hp => h.point hp hf
  have hwhole := whole?_append n.whole n.zero_alone (ends_fraction n.fraction rfl fun _ => hdigit)
  have hfraction := fraction?_append n.fraction hdigit hpoint
  simp only [unsigned, List.append_assoc, Json.magnitude?, magnitude?, decimals, exponent, hwhole,
    Option.bind_eq_bind, Option.bind_some, hfraction, hpower]
  cases scale? _ _ <;> rfl

theorem exists_of_magnitude? (h : Json.magnitude? cs = some (x, rest)) :
    ∃ n : Numeral, n.negative = false ∧ cs = n.text ++ rest ∧ n.Stops rest := by
  simp only [Json.magnitude?, Option.bind_eq_bind, Option.bind_eq_some_iff] at h
  obtain ⟨⟨m, dropped, cs₁⟩, hwhole, ⟨m', places, cs₂⟩, hfraction, ⟨e, cs₃⟩, hexponent, y, -, h⟩ := h
  cases h
  obtain ⟨d, hz, rfl, hd⟩ := exists_of_whole? hwhole
  obtain ⟨f, rfl, hf, hpoint⟩ := exists_of_fraction? hfraction
  obtain ⟨p, rfl, hp, hmark⟩ := exists_of_exponent? hexponent
  refine ⟨⟨false, d, f, p, hz⟩, rfl, by simp [text, unsigned], ?_, hmark, ?_⟩
  · cases p with
    | some q => exact hp rfl
    | none =>
      cases f with
      | some f => exact hf rfl
      | none => exact hd
  · rintro rfl rfl
    exact hpoint rfl

theorem exists_head (n : Numeral) : ∃ c cs, n.unsigned = c :: cs ∧ c.isDigit := by
  obtain ⟨c, cs, hcs⟩ := List.exists_cons_of_ne_nil n.whole.ne_nil
  exact ⟨c, _, by rw [unsigned, hcs]; rfl, n.whole.isDigit c (by simp [hcs])⟩

theorem exists_text_head (n : Numeral) : ∃ c cs, n.text = c :: cs ∧ (c = '-' ∨ c.isDigit) := by
  cases hn : n.negative with
  | true => exact ⟨'-', n.unsigned, by simp [text, hn], .inl rfl⟩
  | false =>
    obtain ⟨c, cs, hcs, hc⟩ := n.exists_head
    exact ⟨c, cs, by simp [text, hn, hcs], .inr hc⟩

/-- A number is read alike whatever comes after it. -/
theorem number?_append (n : Numeral) (h : n.Stops rest) :
    number? (n.text ++ rest) = n.read?.map fun x => (x, rest) := by
  have hmagnitude := n.magnitude?_append h
  cases hn : n.negative with
  | true =>
    simp [text, hn, number?, hmagnitude, read?, Function.comp_def]
  | false =>
    obtain ⟨c, cs, hcs, hc⟩ := n.exists_head
    have htext : n.text = n.unsigned := by simp [text, hn]
    have hread : n.read? = n.magnitude? := by simp [read?, hn]
    rw [htext, hread, ← hmagnitude, hcs, List.cons_append]
    unfold number?
    split
    · rename_i heq
      cases heq
      cases hc
    · rfl

theorem exists_of_number? (h : number? cs = some (x, rest)) :
    ∃ n : Numeral, cs = n.text ++ rest ∧ n.Stops rest ∧ n.read? = some x := by
  have hnumeral : ∃ n : Numeral, cs = n.text ++ rest ∧ n.Stops rest := by
    unfold number? at h
    split at h
    · simp only [Option.map_eq_some_iff, Prod.mk.injEq] at h
      obtain ⟨⟨y, _⟩, hm, -, rfl⟩ := h
      obtain ⟨n, hn, rfl, hstops⟩ := exists_of_magnitude? hm
      refine ⟨{ n with negative := true }, ?_, hstops.digit, hstops.mark, hstops.point⟩
      simp [text, hn, unsigned]
    · obtain ⟨n, -, rfl, hstops⟩ := exists_of_magnitude? h
      exact ⟨n, rfl, hstops⟩
  obtain ⟨n, rfl, hstops⟩ := hnumeral
  refine ⟨n, rfl, hstops, ?_⟩
  rw [n.number?_append hstops] at h
  simpa using h

theorem number?_eq_none (hm : c ≠ '-') (hd : c.isDigit = false) : number? (c :: cs) = none := by
  cases h : number? (c :: cs) with
  | none => rfl
  | some found =>
    obtain ⟨x, rest⟩ := found
    obtain ⟨n, hcs, -⟩ := exists_of_number? h
    obtain ⟨b, tail, hb, hhead⟩ := n.exists_text_head
    rw [hb, List.cons_append] at hcs
    obtain rfl := (List.cons.inj hcs).1
    rcases hhead with hhead | hhead
    · exact absurd hhead hm
    · rw [hhead] at hd
      cases hd

end Numeral

end Reckon.Json
