import Mathlib
import Reckon.Token.Lexer

/-!
Cutting a text into tokens, piece by piece: what the texts of tokens look like, and how the tokens
of a text follow from those of its parts.
-/
namespace Reckon.Lexer

/-- Digits, or digits before and after a point, but not a point alone. -/
inductive IsNumber : List Char → Prop where
  | whole {ds : List Char} (hd : ∀ c ∈ ds, c.isDigit) (hn : ds ≠ []) : IsNumber ds
  | point {ds fs : List Char} (hd : ∀ c ∈ ds, c.isDigit) (hf : ∀ c ∈ fs, c.isDigit)
    (hn : ds ≠ [] ∨ fs ≠ []) : IsNumber (ds ++ '.' :: fs)

def IsWord : List Char → Prop
  | [] => False
  | c :: cs => isWordStart c ∧ ∀ d ∈ cs, isWordPart d

instance : DecidablePred IsWord
  | [] => isFalse id
  | c :: cs => decidable_of_iff (isWordStart c && cs.all isWordPart) (by simp [IsWord])

variable {p : Char → Bool} {c : Char} {cs ds fs name rest : List Char} {t : Token}
  {found ts us : List Token}

theorem of_mem_takeWhile (h : c ∈ cs.takeWhile p) : p c :=
  List.all_eq_true.mp List.all_takeWhile c h

theorem isNumber_of_number? (h : number? cs = some (ds, rest)) : IsNumber ds := by
  unfold number? at h
  split at h
  · split at h
    · cases h
    · rename_i hne
      obtain ⟨rfl, -⟩ := Prod.mk.inj (Option.some.inj h)
      exact @IsNumber.point [] _ (by simp) (fun _ => of_mem_takeWhile) (.inr hne)
  · cases h
  · rename_i hne
    obtain ⟨rfl, -⟩ := Prod.mk.inj (Option.some.inj h)
    exact .point (fun _ => of_mem_takeWhile) (fun _ => of_mem_takeWhile) (.inl hne)
  · rename_i hne _ _
    obtain ⟨rfl, -⟩ := Prod.mk.inj (Option.some.inj h)
    exact .whole (fun _ => of_mem_takeWhile) hne

theorem isWord_of_word? (h : word? cs = some (name, rest)) : IsWord name := by
  unfold word? at h
  split at h
  · split at h
    · rename_i hc
      obtain ⟨rfl, -⟩ := Prod.mk.inj (Option.some.inj h)
      exact ⟨hc, fun _ => of_mem_takeWhile⟩
    · cases h
  · cases h

/-- No character of the kind comes first. -/
def Ends (p : Char → Bool) (rest : List Char) : Prop :=
  ∀ c ∈ rest.head?, p c = false

theorem ends_nil : Ends p [] := by
  intro c hc
  cases hc

theorem ends_cons (h : p c = false) : Ends p (c :: cs) := by
  intro d hd
  obtain rfl : c = d := Option.some.inj hd
  exact h

theorem takeWhile_append (h : ∀ c ∈ cs, p c) (hr : Ends p rest) :
    (cs ++ rest).takeWhile p = cs := by
  rw [List.takeWhile_append_of_pos h]
  cases rest with
  | nil => simp
  | cons c rest =>
    have hc : p c = false := hr c rfl
    simp [hc]

theorem dropWhile_append (h : ∀ c ∈ cs, p c) (hr : Ends p rest) :
    (cs ++ rest).dropWhile p = rest := by
  rw [List.dropWhile_append_of_pos h]
  cases rest with
  | nil => rfl
  | cons c rest =>
    have hc : p c = false := hr c rfl
    simp [hc]

theorem ends_dropWhile (p : Char → Bool) (cs : List Char) : Ends p (cs.dropWhile p) := by
  intro c hc
  have h := List.head?_dropWhile_not p cs
  rw [hc] at h
  exact h

def isNumberPart (c : Char) : Bool :=
  c.isDigit || c == '.'

theorem Ends.digit (h : Ends isNumberPart rest) : Ends Char.isDigit rest := by
  intro c hc
  have hp := h c hc
  simp only [isNumberPart, Bool.or_eq_false_iff] at hp
  exact hp.1

theorem Ends.point (h : Ends isNumberPart rest) : Ends (· == '.') rest := by
  intro c hc
  have hp := h c hc
  simp only [isNumberPart, Bool.or_eq_false_iff] at hp
  exact hp.2

/-- A number with a point ends where the digits do; one without must not be in front of a point. -/
theorem number?_of_ends (h : IsNumber ds) (hd : Ends Char.isDigit rest)
    (hp : '.' ∈ ds ∨ Ends (· == '.') rest) : number? (ds ++ rest) = some (ds, rest) := by
  cases h with
  | whole hds hn =>
    have hpoint : Ends (· == '.') rest := hp.resolve_left fun h => absurd (hds '.' h) (by decide)
    obtain ⟨d, ds, rfl⟩ := List.exists_cons_of_ne_nil hn
    simp only [number?, takeWhile_append hds hd, dropWhile_append hds hd]
    cases rest with
    | nil => rfl
    | cons c rest =>
      have hc : c ≠ '.' := by
        rintro rfl
        cases hpoint '.' rfl
      split
      all_goals simp_all
  | @point ds fs hds hf hn =>
    have hpoint : Ends Char.isDigit ('.' :: (fs ++ rest)) := ends_cons rfl
    rw [List.append_assoc, List.cons_append]
    simp only [number?, takeWhile_append hds hpoint, dropWhile_append hds hpoint]
    cases ds with
    | nil =>
      obtain ⟨f, fs, rfl⟩ := List.exists_cons_of_ne_nil (hn.resolve_left (by simp))
      simp only [takeWhile_append hf hd, dropWhile_append hf hd]
      rfl
    | cons d ds =>
      simp only [takeWhile_append hf hd, dropWhile_append hf hd]

theorem number?_append (h : IsNumber ds) (hr : Ends isNumberPart rest) :
    number? (ds ++ rest) = some (ds, rest) :=
  number?_of_ends h hr.digit (.inr hr.point)

theorem ends_of_number? (h : number? cs = some (ds, rest)) :
    Ends Char.isDigit rest ∧ ('.' ∈ ds ∨ Ends (· == '.') rest) := by
  unfold number? at h
  split at h
  · split at h
    · cases h
    · cases h
      exact ⟨ends_dropWhile _ _, .inl (by simp)⟩
  · cases h
  · cases h
    exact ⟨ends_dropWhile _ _, .inl (by simp)⟩
  · rename_i hpoint _
    cases h
    refine ⟨ends_dropWhile _ _, .inr fun c hc => ?_⟩
    obtain ⟨tail, htail⟩ := List.head?_eq_some_iff.mp hc
    rw [beq_eq_false_iff_ne]
    rintro rfl
    exact hpoint tail htail

theorem word?_append (h : IsWord name) (hr : Ends isWordPart rest) :
    word? (name ++ rest) = some (name, rest) := by
  cases name with
  | nil => cases h
  | cons c cs =>
    simp only [word?, List.cons_append, h.1, takeWhile_append h.2 hr, dropWhile_append h.2 hr,
      if_true]

theorem ends_of_word? (h : word? cs = some (ds, rest)) : Ends isWordPart rest := by
  unfold word? at h
  split at h
  · split at h
    · cases h
      exact ends_dropWhile _ _
    · cases h
  · cases h

theorem number?_eq_none (hd : c.isDigit = false) (hp : c ≠ '.') :
    number? (c :: cs) = none := by
  simp only [number?, List.takeWhile_cons, List.dropWhile_cons, hd]
  split <;> simp_all

theorem exists_start (h : IsWord ds) : ∃ c cs, ds = c :: cs ∧ isWordStart c := by
  cases ds with
  | nil => cases h
  | cons c cs => exact ⟨c, cs, rfl, h.1⟩

theorem isDigit_eq_false_of_isWordStart (h : isWordStart c) : c.isDigit = false := by
  rw [Bool.eq_false_iff]
  intro hd
  simp only [isWordStart, Char.isAlpha, Char.isUpper, Char.isLower, Char.isDigit,
    Bool.or_eq_true, Bool.and_eq_true, decide_eq_true_eq, beq_iff_eq, ge_iff_le,
    UInt32.le_iff_toNat_le] at h hd
  rcases h with (h | h) | rfl
  · have := h.1
    have := hd.2
    simp at *
    omega
  · have := h.1
    have := hd.2
    simp at *
    omega
  · exact absurd hd.2 (by decide)

theorem isWordPart_of_isWordStart (h : isWordStart c) : isWordPart c := by
  simp only [isWordStart, isWordPart, Char.isAlphanum, Bool.or_eq_true] at h ⊢
  tauto

theorem ne_of_isWordStart {d : Char} (h : isWordStart c) (hd : isWordStart d = false) : c ≠ d := by
  rintro rfl
  rw [h] at hd
  cases hd

theorem number?_eq_none_of_isWord (h : IsWord name) : number? (name ++ rest) = none := by
  cases name with
  | nil => cases h
  | cons c cs =>
    apply number?_eq_none
    · exact isDigit_eq_false_of_isWordStart h.1
    · exact ne_of_isWordStart h.1 rfl

theorem token?_number (h : IsNumber ds) (hr : Ends isNumberPart rest) :
    token? (ds ++ rest) = some (.number (String.ofList ds), rest) := by
  simp only [token?, number?_append h hr]

theorem token?_word (h : IsWord name) (hr : Ends isWordPart rest) :
    token? (name ++ rest) = some (.word (String.ofList name), rest) := by
  simp only [token?, number?_eq_none_of_isWord h, word?_append h hr]

theorem token?_symbol (s : Symbol) (rest : List Char) :
    token? (s.char :: rest) = some (.symbol s, rest) := by
  have hn : number? (s.char :: rest) = none := by
    rcases s with _ | _ | o
    · exact number?_eq_none rfl (by decide)
    · exact number?_eq_none rfl (by decide)
    · cases o <;> exact number?_eq_none rfl (by decide)
  have hw : word? (s.char :: rest) = none := by
    rcases s with _ | _ | o
    · rfl
    · rfl
    · cases o <;> rfl
  have hs : Symbol.ofChar? s.char = some s := by
    rcases s with _ | _ | o
    · rfl
    · rfl
    · cases o <;> rfl
  simp [token?, hn, hw, hs]

theorem token?_blank (h : Text.isBlank c) : token? (c :: rest) = none := by
  simp only [Text.isBlank, Bool.or_eq_true, beq_iff_eq] at h
  have hn : number? (c :: rest) = none := by
    rcases h with ((rfl | rfl) | rfl) | rfl <;> exact number?_eq_none rfl (by decide)
  have hw : word? (c :: rest) = none := by
    rcases h with ((rfl | rfl) | rfl) | rfl <;> rfl
  have hs : Symbol.ofChar? c = none := by
    rcases h with ((rfl | rfl) | rfl) | rfl <;> rfl
  simp [token?, hn, hw, hs]

theorem number?_of_token? {text : String} (h : token? cs = some (.number text, rest)) :
    number? cs = some (text.toList, rest) := by
  unfold token? at h
  split at h
  · cases h
    simpa
  · cases h
  · simp at h
  · cases h

theorem word?_of_token? {text : String} (h : token? cs = some (.word text, rest)) :
    word? cs = some (text.toList, rest) := by
  unfold token? at h
  split at h
  · cases h
  · cases h
    simpa
  · simp at h
  · cases h

theorem tokensFrom_blank (h : Text.isBlank c) (found : List Token) (rest : List Char) :
    tokensFrom found (c :: rest) = tokensFrom found rest := by
  rw [tokensFrom, if_pos h]

theorem tokensFrom_token (h : token? cs = some (t, rest)) (found : List Token) :
    tokensFrom found cs = tokensFrom (t :: found) rest := by
  cases cs with
  | nil => cases h
  | cons c cs =>
    by_cases hb : Text.isBlank c = true
    · rw [token?_blank hb] at h
      cases h
    · rw [tokensFrom, if_neg hb]
      split
      · rename_i h'
        rw [h] at h'
        cases h'
        rfl
      · rename_i h'
        rw [h] at h'
        cases h'

/-- Neither a number nor a name goes on here. -/
abbrev Stops (rest : List Char) : Prop :=
  Ends (fun c => isWordPart c || c == '.') rest

theorem Stops.word (h : Stops rest) : Ends isWordPart rest := by
  intro c hc
  have hstop := h c hc
  simp only [Bool.or_eq_false_iff] at hstop
  exact hstop.1

theorem Stops.number (h : Stops rest) : Ends isNumberPart rest := by
  intro c hc
  have hstop := h c hc
  simp only [isWordPart, Char.isAlphanum, Bool.or_eq_false_iff] at hstop
  simp only [isNumberPart, Bool.or_eq_false_iff]
  exact ⟨hstop.1.1.2, hstop.2⟩

/-- The characters are cut into the tokens, whatever comes before, if the last token stops. -/
def Spells (cs : List Char) (ts : List Token) : Prop :=
  ∀ found rest, Stops rest →
    tokensFrom found (cs ++ rest) = tokensFrom (ts.reverse ++ found) rest

theorem spells_nil : Spells [] [] := fun _ _ _ => rfl

theorem spells_number (h : IsNumber ds) : Spells ds [.number (String.ofList ds)] := by
  intro found rest hr
  rw [tokensFrom_token (token?_number h hr.number)]
  rfl

theorem spells_word (h : IsWord name) : Spells name [.word (String.ofList name)] := by
  intro found rest hr
  rw [tokensFrom_token (token?_word h hr.word)]
  rfl

theorem Spells.blank (h : Spells cs ts) : Spells (' ' :: cs) ts := by
  intro found rest hr
  rw [List.cons_append, tokensFrom_blank rfl, h found rest hr]

theorem Spells.symbol (s : Symbol) (h : Spells cs ts) :
    Spells (s.char :: cs) (.symbol s :: ts) := by
  intro found rest hr
  rw [List.cons_append, tokensFrom_token (token?_symbol s _), h _ rest hr]
  simp

theorem Spells.append (h : Spells cs ts) (h' : Spells ds us) (hne : ds ≠ []) (hd : Stops ds) :
    Spells (cs ++ ds) (ts ++ us) := by
  intro found rest hr
  have hstop : Stops (ds ++ rest) := by
    obtain ⟨d, ds, rfl⟩ := List.exists_cons_of_ne_nil hne
    exact hd
  rw [List.append_assoc, h found _ hstop, h' _ rest hr]
  simp

/-- A number also ends where a name begins. -/
theorem Spells.number (hn : IsNumber ds) (h : Spells cs ts) (hne : cs ≠ [])
    (hc : Ends isNumberPart cs) : Spells (ds ++ cs) (.number (String.ofList ds) :: ts) := by
  intro found rest hr
  have hend : Ends isNumberPart (cs ++ rest) := by
    obtain ⟨c, cs, rfl⟩ := List.exists_cons_of_ne_nil hne
    exact hc
  rw [List.append_assoc, tokensFrom_token (token?_number hn hend), h _ rest hr]
  simp

theorem spells_group (h : Spells cs ts) :
    Spells ('(' :: (cs ++ [')'])) (.symbol .opening :: (ts ++ [.symbol .closing])) := by
  have hclose : Spells [')'] [.symbol .closing] := spells_nil.symbol .closing
  exact (h.append hclose (by simp) (ends_cons rfl)).symbol .opening

theorem spells_call (f : Func) (h : Spells cs ts) :
    Spells (f.name.toList ++ '(' :: (cs ++ [')']))
      (.word f.name :: .symbol .opening :: (ts ++ [.symbol .closing])) := by
  have hname : Spells f.name.toList [.word f.name] := by
    have hword : IsWord f.name.toList := by
      cases f <;> decide
    simpa using spells_word hword
  exact hname.append (spells_group h) (by simp) (ends_cons rfl)

theorem spells_operation (o : Operator) (hl : Spells cs ts) (hr : Spells ds us) :
    Spells (cs ++ ' ' :: o.symbol :: ' ' :: ds) (ts ++ .symbol (.operator o) :: us) := by
  have hright : Spells (' ' :: o.symbol :: ' ' :: ds) (.symbol (.operator o) :: us) :=
    (hr.blank.symbol (.operator o)).blank
  exact hl.append hright (by simp) (ends_cons rfl)

theorem tokenize_eq_ok {text : String} :
    tokenize text = .ok ts ↔ tokensFrom [] text.toList = some ts := by
  unfold tokenize
  cases tokensFrom [] text.toList <;> simp

theorem tokenize_of_spells {text : String} (h : Spells text.toList ts) :
    tokenize text = .ok ts := by
  have ht := h [] [] ends_nil
  rw [List.append_nil, List.append_nil, tokensFrom, List.reverse_reverse] at ht
  exact tokenize_eq_ok.mpr ht

/-- The text of the token is a number, a name or a symbol, as the token says. -/
def Spelled : Token → Prop
  | .number text => IsNumber text.toList
  | .word text => IsWord text.toList
  | .symbol _ => True

theorem spelled_of_token? (h : token? cs = some (t, rest)) : Spelled t := by
  unfold token? at h
  split at h
  · rename_i hn
    obtain ⟨rfl, -⟩ := Prod.mk.inj (Option.some.inj h)
    simpa [Spelled] using isNumber_of_number? hn
  · rename_i hw
    obtain ⟨rfl, -⟩ := Prod.mk.inj (Option.some.inj h)
    simpa [Spelled] using isWord_of_word? hw
  · obtain ⟨s, -, hs⟩ := Option.map_eq_some_iff.mp h
    obtain ⟨rfl, -⟩ := Prod.mk.inj hs
    trivial
  · cases h

theorem spelled_of_tokensFrom (h : tokensFrom found cs = some ts) (hf : ∀ t ∈ found, Spelled t) :
    ∀ t ∈ ts, Spelled t := by
  fun_induction tokensFrom found cs with
  | case1 found =>
    obtain rfl := Option.some.inj h
    simpa using hf
  | case2 found c rest hb ih => exact ih h hf
  | case3 found c rest hb t rest' ht ih =>
    apply ih h
    rintro u (_ | ⟨_, hu⟩)
    · exact spelled_of_token? ht
    · exact hf u hu
  | case4 => cases h

theorem spelled_of_tokenize {text : String} (h : tokenize text = .ok ts) :
    ∀ t ∈ ts, Spelled t :=
  spelled_of_tokensFrom (tokenize_eq_ok.mp h) (by simp)

end Reckon.Lexer
