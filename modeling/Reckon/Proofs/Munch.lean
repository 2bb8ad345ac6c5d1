import Reckon.Proofs.Lexing

/-!
Each token is the longest one that the text from it on begins with. A text can be cut in this way in
one manner at most, and the lexer finds it whenever there is one.
-/
namespace Reckon.Lexer

variable {c : Char} {cs ds name rest w w' : List Char} {t u : Token} {found ts : List Token}

/-- The text begins with the token, and with no longer one. -/
structure Longest (t : Token) (cs : List Char) : Prop where
  spelled : Spelled t
  begins : t.text.toList <+: cs
  longest : ∀ u, Spelled u → u.text.toList <+: cs → u.text.length ≤ t.text.length

/-- The tokens of a text, each with the blanks after it. -/
abbrev Pieces := List (Token × List Char)

def spelling (ps : Pieces) : List Char :=
  ps.flatMap fun p => p.1.text.toList ++ p.2

@[simp] theorem spelling_nil : spelling [] = [] := rfl

@[simp] theorem spelling_cons (t : Token) (w : List Char) (ps : Pieces) :
    spelling ((t, w) :: ps) = t.text.toList ++ (w ++ spelling ps) := by
  simp [spelling]

def Greedy : Pieces → Prop
  | [] => True
  | (t, w) :: ps =>
    Longest t (spelling ((t, w) :: ps)) ∧ (∀ c ∈ w, Text.isBlank c) ∧ Greedy ps

/-- A text as blanks and tokens in turn. -/
@[ext] structure Cut (cs : List Char) where
  before : List Char
  pieces : Pieces
  blank : ∀ c ∈ before, Text.isBlank c
  greedy : Greedy pieces
  chars : before ++ spelling pieces = cs

def Cut.tokens (d : Cut cs) : List Token :=
  d.pieces.map Prod.fst

section Token

theorem char_of_ofChar? {s : Symbol} (h : Symbol.ofChar? c = some s) : s.char = c := by
  unfold Symbol.ofChar? at h
  split at h
  · obtain rfl := Option.some.inj h
    rfl
  · obtain rfl := Option.some.inj h
    rfl
  · obtain ⟨o, ho, rfl⟩ := Option.map_eq_some_iff.mp h
    exact Operator.symbol_of_ofSymbol? ho

theorem append_of_token? (h : token? cs = some (t, rest)) : t.text.toList ++ rest = cs := by
  unfold token? at h
  split at h
  · rename_i hn
    obtain ⟨rfl, rfl⟩ := Prod.mk.inj (Option.some.inj h)
    simpa [Token.text] using (splits_of_number? hn).1
  · rename_i hw
    obtain ⟨rfl, rfl⟩ := Prod.mk.inj (Option.some.inj h)
    simpa [Token.text] using (splits_of_word? hw).1
  · obtain ⟨s, hs, heq⟩ := Option.map_eq_some_iff.mp h
    obtain ⟨rfl, rfl⟩ := Prod.mk.inj heq
    simp [Token.text, char_of_ofChar? hs]
  · cases h

theorem begins_of_token? (h : token? cs = some (t, rest)) :
    ∃ c ds, t.text.toList = c :: ds ∧ c ∈ cs.head? := by
  have hlt := length_lt_of_token? h
  have hcs := append_of_token? h
  cases ht : t.text.toList with
  | nil =>
    rw [ht, List.nil_append] at hcs
    rw [hcs] at hlt
    exact absurd hlt (lt_irrefl _)
  | cons c ds =>
    rw [ht] at hcs
    exact ⟨c, ds, rfl, by simp [← hcs]⟩

/-- A number that the text begins with may go on. -/
theorem number?_of_isNumber (h : IsNumber ds) (rest : List Char) :
    ∃ ds' rest', number? (ds ++ rest) = some (ds', rest') ∧ ds.length ≤ ds'.length := by
  cases h with
  | whole hd hn =>
    simp only [number?, List.takeWhile_append_of_pos hd, List.dropWhile_append_of_pos hd]
    split
    · simp_all
    · simp_all
    · exact ⟨_, _, rfl, by simp⟩
    · exact ⟨_, _, rfl, by simp⟩
  | @point ds fs hd hf hn =>
    have hpoint : Ends Char.isDigit ('.' :: (fs ++ rest)) := ends_cons rfl
    rw [List.append_assoc, List.cons_append]
    simp only [number?, takeWhile_append hd hpoint, dropWhile_append hd hpoint]
    cases ds with
    | nil =>
      obtain ⟨f, fs, rfl⟩ := List.exists_cons_of_ne_nil (hn.resolve_left (by simp))
      simp only [List.takeWhile_append_of_pos hf]
      exact ⟨_, _, rfl, by simp⟩
    | cons d ds =>
      simp only [List.takeWhile_append_of_pos hf]
      exact ⟨_, _, rfl, by simp⟩

theorem word?_of_isWord (h : IsWord name) (rest : List Char) :
    ∃ name' rest', word? (name ++ rest) = some (name', rest') ∧ name.length ≤ name'.length := by
  cases name with
  | nil => cases h
  | cons c cs =>
    simp only [word?, List.cons_append, h.1, if_true, List.takeWhile_append_of_pos h.2]
    exact ⟨_, _, rfl, by simp⟩

/-- If the text begins with a token at all, the lexer finds one that is no shorter. -/
theorem token?_of_spelled (h : Spelled t) (hp : t.text.toList <+: cs) :
    ∃ u rest, token? cs = some (u, rest) ∧ t.text.length ≤ u.text.length := by
  obtain ⟨rest, rfl⟩ := hp
  cases t with
  | number text =>
    obtain ⟨ds, rest', hn, hle⟩ := number?_of_isNumber h rest
    refine ⟨.number (String.ofList ds), rest', ?_,
      by simpa [Token.text, ← String.length_toList] using hle⟩
    simp only [token?, Token.text, hn]
  | word text =>
    obtain ⟨name, rest', hw, hle⟩ := word?_of_isWord h rest
    refine ⟨.word (String.ofList name), rest', ?_,
      by simpa [Token.text, ← String.length_toList] using hle⟩
    simp only [token?, Token.text, number?_eq_none_of_isWord h, hw]
  | symbol s => exact ⟨.symbol s, rest, by simpa [Token.text] using token?_symbol s rest, le_rfl⟩

/-- A text that is one token is that token, and of no other kind. -/
theorem token?_text (h : Spelled t) : token? t.text.toList = some (t, []) := by
  cases t with
  | number text => simpa [Token.text] using token?_number h ends_nil
  | word text => simpa [Token.text] using token?_word h ends_nil
  | symbol s => simpa [Token.text] using token?_symbol s []

theorem longest_of_token? (h : token? cs = some (t, rest)) : Longest t cs where
  spelled := spelled_of_token? h
  begins := ⟨rest, append_of_token? h⟩
  longest := by
    intro u hu hp
    obtain ⟨v, rest', hv, hle⟩ := token?_of_spelled hu hp
    rw [h] at hv
    obtain ⟨rfl, -⟩ := Prod.mk.inj (Option.some.inj hv)
    exact hle

theorem token?_eq_some_iff :
    token? cs = some (t, rest) ↔ Longest t cs ∧ t.text.toList ++ rest = cs := by
  constructor
  · intro h
    exact ⟨longest_of_token? h, append_of_token? h⟩
  · rintro ⟨ht, hcs⟩
    obtain ⟨u, rest', hu, hle⟩ := token?_of_spelled ht.spelled ht.begins
    have hmax := longest_of_token? hu
    have hge := ht.longest u hmax.spelled hmax.begins
    have hlength : t.text.toList.length = u.text.toList.length := by
      simpa only [String.length_toList] using le_antisymm hle hge
    obtain ⟨htext, rfl⟩ := List.append_inj (hcs.trans (append_of_token? hu).symm) hlength
    have htu := token?_text ht.spelled
    rw [htext, token?_text hmax.spelled] at htu
    obtain ⟨rfl, -⟩ := Prod.mk.inj (Option.some.inj htu)
    exact hu

/-- What the texts of tokens consist of. -/
theorem chars_of_spelled (h : Spelled t) (hc : c ∈ t.text.toList) :
    isWordPart c ∨ c = '.' ∨ ∃ s : Symbol, s.char = c ∧ t.text.toList = [c] := by
  cases t with
  | number text =>
    have hdigit : ∀ d : Char, d.isDigit → isWordPart d := by
      intro d hd
      simp [isWordPart, Char.isAlphanum, hd]
    have hnumber : IsNumber text.toList := h
    simp only [Token.text] at hc
    generalize text.toList = ds at hnumber hc
    cases hnumber with
    | whole hd hn => exact .inl (hdigit c (hd c hc))
    | point hd hf hn =>
      rcases List.mem_append.mp hc with hc | hc
      · exact .inl (hdigit c (hd c hc))
      · rcases List.mem_cons.mp hc with rfl | hc
        · exact .inr (.inl rfl)
        · exact .inl (hdigit c (hf c hc))
  | word text =>
    have hword : IsWord text.toList := h
    simp only [Token.text] at hc
    generalize text.toList = name at hword hc
    cases name with
    | nil => cases hc
    | cons d ds =>
      rcases List.mem_cons.mp hc with rfl | hc
      · exact .inl (isWordPart_of_isWordStart hword.1)
      · exact .inl (hword.2 c hc)
  | symbol s =>
    obtain rfl : c = s.char := by simpa [Token.text] using hc
    exact .inr (.inr ⟨s, rfl, by simp [Token.text]⟩)

theorem isBlank_of_spelled (h : Spelled t) (hc : c ∈ t.text.toList) : Text.isBlank c = false := by
  rw [Bool.eq_false_iff]
  intro hb
  simp only [Text.isBlank, Bool.or_eq_true, beq_iff_eq] at hb
  rcases chars_of_spelled h hc with hpart | rfl | ⟨s, rfl, -⟩
  · rcases hb with ((rfl | rfl) | rfl) | rfl <;> exact absurd hpart (by decide)
  · exact absurd hb (by decide)
  · rcases s with _ | _ | o
    · exact absurd hb (by decide)
    · exact absurd hb (by decide)
    · cases o <;> exact absurd hb (by decide)

/-- A token that begins in a text does not go on into what no token goes on with. -/
theorem prefix_of_stops {tail : List Char} (hu : Spelled u) (hp : u.text.toList <+: cs ++ tail)
    (hs : Stops tail) (hne : cs ≠ []) : u.text.toList <+: cs := by
  rcases List.prefix_or_prefix_of_prefix hp (List.prefix_append cs tail) with hpre | ⟨v, hv⟩
  · exact hpre
  · cases v with
    | nil => exact ⟨[], by simpa using hv.symm⟩
    | cons d v =>
      rw [← hv, List.prefix_append_right_inj] at hp
      obtain ⟨tail, rfl⟩ := hp
      have hd := hs d rfl
      simp only [Bool.or_eq_false_iff, beq_eq_false_iff_ne] at hd
      have hmem : d ∈ u.text.toList := by simp [← hv]
      rcases chars_of_spelled hu hmem with hpart | hpoint | ⟨-, -, hone⟩
      · rw [hd.1] at hpart
        cases hpart
      · exact absurd hpoint hd.2
      · have hlength := congrArg List.length (hv.trans hone)
        have hpos := List.length_pos_iff.mpr hne
        simp only [List.length_append, List.length_cons, List.length_nil] at hlength
        omega

/-- A token that the lexer finds stays the same in front of what no token goes on with. -/
theorem token?_append (h : token? cs = some (t, rest)) {tail : List Char} (hs : Stops tail) :
    token? (cs ++ tail) = some (t, rest ++ tail) := by
  obtain ⟨ht, hcs⟩ := token?_eq_some_iff.mp h
  refine token?_eq_some_iff.mpr ⟨⟨ht.spelled, ?_, ?_⟩, by rw [← hcs, List.append_assoc]⟩
  · exact ht.begins.trans (List.prefix_append cs tail)
  · intro u hu hp
    have hne : cs ≠ [] := by
      rintro rfl
      cases h
    exact ht.longest u hu (prefix_of_stops hu hp hs hne)

end Token

section Cutting

variable {ps ps' : Pieces}

theorem tokensFrom_blanks (h : ∀ c ∈ w, Text.isBlank c) (found : List Token) (cs : List Char) :
    tokensFrom found (w ++ cs) = tokensFrom found cs := by
  induction w with
  | nil => rfl
  | cons c w ih =>
    rw [List.cons_append, tokensFrom_blank (h c List.mem_cons_self)]
    exact ih fun d hd => h d (List.mem_cons_of_mem c hd)

theorem token?_spelling (h : Greedy ((t, w) :: ps)) :
    token? (spelling ((t, w) :: ps)) = some (t, w ++ spelling ps) :=
  token?_eq_some_iff.mpr ⟨h.1, (spelling_cons t w ps).symm⟩

/-- Greedy pieces are cut again from their text, whatever follows that goes on with no token. -/
theorem spells_spelling (h : Greedy ps) : Spells (spelling ps) (ps.map Prod.fst) := by
  induction ps with
  | nil => exact spells_nil
  | cons p ps ih =>
    obtain ⟨t, w⟩ := p
    intro found rest hr
    rw [tokensFrom_token (token?_append (token?_spelling h) hr), List.append_assoc,
      tokensFrom_blanks h.2.1, ih h.2.2 _ rest hr]
    simp

theorem ends_spelling (h : Greedy ps) : Ends Text.isBlank (spelling ps) := by
  intro c hc
  cases ps with
  | nil => cases hc
  | cons p ps =>
    obtain ⟨t, w⟩ := p
    rw [Bool.eq_false_iff]
    intro hb
    have ht := token?_spelling h
    obtain ⟨cs, hcs⟩ := List.head?_eq_some_iff.mp hc
    rw [hcs, token?_blank hb] at ht
    cases ht

theorem blanks_eq (hw : ∀ c ∈ w, Text.isBlank c) (hw' : ∀ c ∈ w', Text.isBlank c)
    (h : Greedy ps) (h' : Greedy ps') (heq : w ++ spelling ps = w' ++ spelling ps') :
    w = w' := by
  have hblanks := congrArg (List.takeWhile Text.isBlank) heq
  rwa [takeWhile_append hw (ends_spelling h), takeWhile_append hw' (ends_spelling h')] at hblanks

theorem pieces_eq (h : Greedy ps) (h' : Greedy ps') (heq : spelling ps = spelling ps') :
    ps = ps' := by
  induction ps generalizing ps' with
  | nil =>
    cases ps' with
    | nil => rfl
    | cons p ps' =>
      have ht := token?_spelling h'
      rw [← heq] at ht
      cases ht
  | cons p ps ih =>
    obtain ⟨t, w⟩ := p
    have ht := token?_spelling h
    cases ps' with
    | nil =>
      rw [heq] at ht
      cases ht
    | cons p' ps' =>
      obtain ⟨t', w'⟩ := p'
      rw [heq, token?_spelling h'] at ht
      obtain ⟨rfl, hrest⟩ := Prod.mk.inj (Option.some.inj ht)
      obtain rfl := blanks_eq h.2.1 h'.2.1 h.2.2 h'.2.2 hrest.symm
      rw [ih h.2.2 h'.2.2 (List.append_cancel_left hrest.symm)]

/-- Without its blanks, the text is that of its tokens. -/
theorem filter_spelling (h : Greedy ps) :
    (spelling ps).filter (!Text.isBlank ·) = (ps.map Prod.fst).flatMap (·.text.toList) := by
  induction ps with
  | nil => rfl
  | cons p ps ih =>
    obtain ⟨t, w⟩ := p
    have htext : t.text.toList.filter (!Text.isBlank ·) = t.text.toList := by
      refine List.filter_eq_self.mpr fun c hc => ?_
      simp [isBlank_of_spelled h.1.spelled hc]
    have hblank : w.filter (!Text.isBlank ·) = [] :=
      List.filter_eq_nil_iff.mpr fun c hc => by simp [h.2.1 c hc]
    simp [htext, hblank, ih h.2.2]

end Cutting

namespace Cut

theorem eq (d d' : Cut cs) : d = d' := by
  have heq := d.chars.trans d'.chars.symm
  have hbefore := blanks_eq d.blank d'.blank d.greedy d'.greedy heq
  rw [hbefore] at heq
  exact Cut.ext hbefore (pieces_eq d.greedy d'.greedy (List.append_cancel_left heq))

def addBlank (hc : Text.isBlank c) (d : Cut cs) : Cut (c :: cs) where
  before := c :: d.before
  pieces := d.pieces
  blank := by
    rintro b (_ | ⟨_, hb⟩)
    · exact hc
    · exact d.blank b hb
  greedy := d.greedy
  chars := congrArg (c :: ·) d.chars

def addToken (ht : token? cs = some (t, rest)) (d : Cut rest) : Cut cs where
  before := []
  pieces := (t, d.before) :: d.pieces
  blank := by simp
  greedy := by
    refine ⟨?_, d.blank, d.greedy⟩
    rw [spelling_cons, d.chars, append_of_token? ht]
    exact longest_of_token? ht
  chars := by rw [List.nil_append, spelling_cons, d.chars, append_of_token? ht]

theorem exists_of_tokensFrom (h : tokensFrom found cs = some ts) :
    ∃ d : Cut cs, ts = found.reverse ++ d.tokens := by
  fun_induction tokensFrom found cs with
  | case1 found =>
    obtain rfl := Option.some.inj h
    exact ⟨⟨[], [], by simp, trivial, rfl⟩, by simp [tokens]⟩
  | case2 found c rest hb ih =>
    obtain ⟨d, rfl⟩ := ih h
    exact ⟨d.addBlank hb, rfl⟩
  | case3 found c rest hb t rest' ht ih =>
    obtain ⟨d, rfl⟩ := ih h
    exact ⟨d.addToken ht, by simp [tokens, addToken]⟩
  | case4 => cases h

theorem spells (d : Cut cs) : Spells cs d.tokens := by
  intro found rest hr
  conv_lhs => rw [← d.chars]
  rw [List.append_assoc, tokensFrom_blanks d.blank, spells_spelling d.greedy found rest hr]
  rfl

theorem filter_eq (d : Cut cs) :
    d.tokens.flatMap (·.text.toList) = cs.filter (!Text.isBlank ·) := by
  have hbefore : d.before.filter (!Text.isBlank ·) = [] :=
    List.filter_eq_nil_iff.mpr fun c hc => by simp [d.blank c hc]
  conv_rhs => rw [← d.chars]
  rw [List.filter_append, hbefore, List.nil_append, filter_spelling d.greedy]
  rfl

end Cut

theorem exists_cut {text : String} (h : tokenize text = .ok ts) :
    ∃ d : Cut text.toList, d.tokens = ts := by
  obtain ⟨d, hd⟩ := Cut.exists_of_tokensFrom (tokenize_eq_ok.mp h)
  exact ⟨d, hd.symm⟩

theorem error_of_tokenize {text : String} {err : Error} (h : tokenize text = .error err) :
    err = .invalidToken text := by
  unfold tokenize at h
  cases hc : tokensFrom [] text.toList <;> simp_all

theorem spells_of_tokenize {text : String} (h : tokenize text = .ok ts) :
    Spells text.toList ts := by
  obtain ⟨d, rfl⟩ := exists_cut h
  exact d.spells

/-- A text is accepted exactly if it is blanks and tokens in turn, each token the longest that the
text from it on begins with. There is one way at most to see it so, and its tokens are the result;
their texts make up the text but for its blanks. Any other text is rejected whole. -/
theorem tokenize_eq_ok_iff_cut (text : String) :
    (∀ ts, tokenize text = .ok ts ↔ ∃ d : Cut text.toList, d.tokens = ts) ∧
    (∀ d d' : Cut text.toList, d = d') ∧
    (∀ ts, tokenize text = .ok ts →
      String.join (ts.map Token.text) = String.ofList (text.toList.filter (!Text.isBlank ·))) ∧
    (tokenize text = .error (.invalidToken text) ↔ IsEmpty (Cut text.toList)) := by
  refine ⟨fun ts => ⟨exists_cut, ?_⟩, Cut.eq, ?_, ⟨?_, ?_⟩⟩
  · rintro ⟨d, rfl⟩
    exact tokenize_of_spells d.spells
  · intro ts h
    obtain ⟨d, rfl⟩ := exists_cut h
    apply String.toList_injective
    rw [String.toList_ofList, ← d.filter_eq]
    simp [String.toList_join, List.flatMap_map]
  · intro h
    refine ⟨fun d => ?_⟩
    rw [tokenize_of_spells d.spells] at h
    cases h
  · intro hnone
    cases h : tokenize text with
    | ok ts =>
      obtain ⟨d, -⟩ := exists_cut h
      exact hnone.elim d
    | error err => rw [error_of_tokenize h]

/-- Points that go to the number before them or after them, and one that goes to none. -/
theorem tokenize_points :
    let ts : List Token := [.number "1.", .number ".5", .word "x"]
    tokenize " 1..5\tx" = .ok ts ∧ (∃ d : Cut " 1..5\tx".toList, d.tokens = ts) ∧
      String.join (ts.map Token.text) = "1..5x" ∧ IsEmpty (Cut "5 . 5".toList) := by
  intro ts
  have h : tokenize " 1..5\tx" = .ok ts := by decide +kernel
  have hnone : tokenize "5 . 5" = .error (.invalidToken "5 . 5") := by decide +kernel
  refine ⟨h, ?_, ?_, ?_⟩
  · exact ((tokenize_eq_ok_iff_cut _).1 ts).mp h
  · exact (tokenize_eq_ok_iff_cut _).2.2.1 ts h
  · exact (tokenize_eq_ok_iff_cut _).2.2.2.mp hnone

end Reckon.Lexer
