import Reckon.Proofs.Acceptance
import Reckon.Proofs.Munch

/-!
Blanks between tokens. What stands before a blank is cut without regard to what stands after it, so
that tokens written with blanks between them are read again, and more blanks make no difference.
-/
namespace Reckon

namespace Lexer

variable {c : Char} {cs ds w rest rest' : List Char} {t : Token} {found ts us : List Token}
  {ps ps' : Pieces}

/-- Tokens with blanks after them, at least one between two tokens. -/
def Spaced : Pieces → Prop
  | [] => True
  | (t, w) :: ps => Spelled t ∧ (∀ c ∈ w, Text.isBlank c) ∧ (w = [] → ps = []) ∧ Spaced ps

/-- The same tokens with other blanks after them. Tokens that blanks separate stay separate. -/
def Respaced : Pieces → Pieces → Prop
  | [], [] => True
  | (t, w) :: ps, (t', w') :: ps' =>
    t' = t ∧ (∀ c ∈ w', Text.isBlank c) ∧ (w' = [] → w = [] ∨ ps = []) ∧ Respaced ps ps'
  | _, _ => False

section Blanks

theorem stops_of_isBlank (h : Text.isBlank c) : Stops (c :: cs) := by
  apply ends_cons
  simp only [Text.isBlank, Bool.or_eq_true, beq_iff_eq] at h
  rcases h with ((rfl | rfl) | rfl) | rfl <;> rfl

theorem stops_of_blanks (h : ∀ c ∈ w, Text.isBlank c) (hne : w ≠ []) : Stops (w ++ cs) := by
  obtain ⟨c, w, rfl⟩ := List.exists_cons_of_ne_nil hne
  exact stops_of_isBlank (h c List.mem_cons_self)

theorem text_ne_nil (h : Spelled t) : t.text.toList ≠ [] := by
  intro hnil
  have ht := token?_text h
  rw [hnil] at ht
  cases ht

/-- Where no token is found, none is found if the text goes on with no token. -/
theorem token?_append_eq_none (h : token? cs = none) (hne : cs ≠ []) {tail : List Char}
    (hs : Stops tail) : token? (cs ++ tail) = none := by
  cases ht : token? (cs ++ tail) with
  | none => rfl
  | some found =>
    obtain ⟨t, rest⟩ := found
    have hlongest := longest_of_token? ht
    have hpre := prefix_of_stops hlongest.spelled hlongest.begins hs hne
    obtain ⟨u, rest', hu, -⟩ := token?_of_spelled hlongest.spelled hpre
    rw [h] at hu
    cases hu

/-- A text is cut before what stops tokens as if it ended there, and fails there too. -/
theorem tokensFrom_append (found : List Token) (cs : List Char) {tail : List Char}
    (hs : Stops tail) : tokensFrom found (cs ++ tail) =
      (tokensFrom found cs).bind fun us => tokensFrom us.reverse tail := by
  fun_induction tokensFrom found cs with
  | case1 found => simp
  | case2 found c rest hb ih =>
    rw [List.cons_append, tokensFrom_blank hb, ih]
  | case3 found c rest hb t rest' ht ih =>
    rw [tokensFrom_token (token?_append ht hs), ih]
  | case4 found c rest hb ht =>
    have hnone := token?_append_eq_none ht (by simp) hs
    rw [List.cons_append] at hnone ⊢
    rw [tokensFrom, if_neg hb]
    split
    · rename_i ht'
      rw [hnone] at ht'
      cases ht'
    · rfl

/-- What was found before does not matter to what is found after. -/
theorem tokensFrom_eq_some_iff : tokensFrom found cs = some ts ↔
    ∃ us, tokensFrom [] cs = some us ∧ ts = found.reverse ++ us := by
  have htokens : ∀ (d : Cut cs) found, tokensFrom found cs = some (found.reverse ++ d.tokens) := by
    intro d found
    have h := d.spells found [] ends_nil
    rw [List.append_nil] at h
    rw [h, tokensFrom]
    simp
  constructor
  · intro h
    obtain ⟨d, rfl⟩ := Cut.exists_of_tokensFrom h
    exact ⟨d.tokens, htokens d [], rfl⟩
  · rintro ⟨us, hus, rfl⟩
    obtain ⟨d, rfl⟩ := Cut.exists_of_tokensFrom hus
    exact htokens d found

end Blanks

section Pieces

/-- Whether the lexer finds a token depends only on the character after it. -/
theorem token?_of_ends (h : token? (t.text.toList ++ rest) = some (t, rest))
    (hdigit : Ends Char.isDigit rest → Ends Char.isDigit rest')
    (hpoint : Ends (· == '.') rest → Ends (· == '.') rest')
    (hpart : Ends isWordPart rest → Ends isWordPart rest') :
    token? (t.text.toList ++ rest') = some (t, rest') := by
  have hspelled := spelled_of_token? h
  cases t with
  | number text =>
    obtain ⟨hd, hp⟩ := ends_of_number? (number?_of_token? h)
    simp [token?, Token.text, number?_of_ends hspelled (hdigit hd) (hp.imp_right hpoint)]
  | word text =>
    have hend := hpart (ends_of_word? (word?_of_token? h))
    simpa [Token.text] using token?_word hspelled hend
  | symbol s => simpa [Token.text] using token?_symbol s rest'

theorem greedy_of_spaced (h : Spaced ps) : Greedy ps := by
  induction ps with
  | nil => trivial
  | cons p ps ih =>
    obtain ⟨t, w⟩ := p
    obtain ⟨ht, hw, hlast, hps⟩ := h
    refine ⟨?_, hw, ih hps⟩
    rw [spelling_cons]
    by_cases hne : w = []
    · obtain rfl := hlast hne
      rw [hne]
      simpa using longest_of_token? (token?_text ht)
    · exact longest_of_token? (token?_append (token?_text ht) (stops_of_blanks hw hne))

theorem head?_spelling (h : Respaced ps ps') (hps : Greedy ps) :
    (spelling ps').head? = (spelling ps).head? := by
  cases ps with
  | nil =>
    cases ps' with
    | nil => rfl
    | cons => cases h
  | cons p ps =>
    cases ps' with
    | nil => cases h
    | cons p' ps' =>
      obtain ⟨t, w⟩ := p
      obtain ⟨t', w'⟩ := p'
      obtain ⟨rfl, -⟩ := h
      obtain ⟨c, cs, hc⟩ := List.exists_cons_of_ne_nil (text_ne_nil hps.1.spelled)
      simp [hc]

theorem map_fst_of_respaced (h : Respaced ps ps') : ps'.map Prod.fst = ps.map Prod.fst := by
  induction ps generalizing ps' with
  | nil =>
    cases ps' with
    | nil => rfl
    | cons => cases h
  | cons p ps ih =>
    cases ps' with
    | nil => cases h
    | cons p' ps' => simp [h.1, ih h.2.2.2]

/-- A token stays the longest one if what follows it begins with a blank or as before. -/
theorem greedy_of_respaced (h : Respaced ps ps') (hps : Greedy ps) : Greedy ps' := by
  induction ps generalizing ps' with
  | nil =>
    cases ps' with
    | nil => trivial
    | cons => cases h
  | cons p ps ih =>
    cases ps' with
    | nil => cases h
    | cons p' ps' =>
      obtain ⟨t, w⟩ := p
      obtain ⟨t', w'⟩ := p'
      obtain ⟨rfl, hw', hclose, hrest⟩ := h
      refine ⟨?_, hw', ih hrest hps.2.2⟩
      have ht' := token?_text hps.1.spelled
      rw [spelling_cons]
      by_cases hne : w' = []
      · have hends : ∀ p : Char → Bool, Ends p (w ++ spelling ps) → Ends p (w' ++ spelling ps') := by
          intro p hp
          rw [hne, List.nil_append]
          rcases hclose hne with rfl | rfl
          · intro c hc
            rw [head?_spelling hrest hps.2.2] at hc
            exact hp c hc
          · cases ps' with
            | nil => exact ends_nil
            | cons => cases hrest
        have ht := token?_spelling hps
        rw [spelling_cons] at ht
        exact longest_of_token? (token?_of_ends ht (hends _) (hends _) (hends _))
      · exact longest_of_token? (token?_append ht' (stops_of_blanks hw' hne))

end Pieces

end Lexer

open Lexer

theorem tokenize_of_greedy {before : List Char} {ps : Pieces}
    (hb : ∀ c ∈ before, Text.isBlank c) (h : Greedy ps) :
    tokenize (String.ofList (before ++ spelling ps)) = .ok (ps.map Prod.fst) := by
  let d : Cut (before ++ spelling ps) := ⟨before, ps, hb, h, rfl⟩
  apply tokenize_of_spells
  rw [String.toList_ofList]
  exact d.spells

theorem tokenize_append_blank {s w t : String} (hne : w ≠ "") (hw : ∀ c ∈ w.toList, Text.isBlank c)
    {ts : List Token} : tokenize (s ++ w ++ t) = .ok ts ↔
      ∃ us vs, tokenize s = .ok us ∧ tokenize t = .ok vs ∧ ts = us ++ vs := by
  have hne' : w.toList ≠ [] := by simpa using hne
  simp only [tokenize_eq_ok, String.toList_append, List.append_assoc,
    tokensFrom_append [] s.toList (stops_of_blanks hw hne'), tokensFrom_blanks hw,
    Option.bind_eq_some_iff]
  constructor
  · rintro ⟨us, hus, h⟩
    obtain ⟨vs, hvs, rfl⟩ := tokensFrom_eq_some_iff.mp h
    exact ⟨us, vs, hus, hvs, by rw [List.reverse_reverse]⟩
  · rintro ⟨us, vs, hus, hvs, rfl⟩
    exact ⟨us, hus, tokensFrom_eq_some_iff.mpr ⟨vs, hvs, by rw [List.reverse_reverse]⟩⟩

/-- Tokens that are written with blanks between them, and perhaps before and after, are read again.
Two texts with blanks between them are cut if both of them are, and each as it is alone. In a text
that is cut into tokens the blanks between tokens may be exchanged for others, and others be put
where there are none, and neither its tokens nor what it is parsed to change. -/
theorem tokenize_spacing :
    (∀ before ps, (∀ c ∈ before, Text.isBlank c) → Spaced ps →
      tokenize (String.ofList (before ++ spelling ps)) = .ok (ps.map Prod.fst)) ∧
    (∀ s w t : String, w ≠ "" → (∀ c ∈ w.toList, Text.isBlank c) → ∀ ts,
      tokenize (s ++ w ++ t) = .ok ts ↔
        ∃ us vs, tokenize s = .ok us ∧ tokenize t = .ok vs ∧ ts = us ++ vs) ∧
    ∀ text ts, tokenize text = .ok ts → ∃ d : Cut text.toList, d.tokens = ts ∧
      ∀ before ps, (∀ c ∈ before, Text.isBlank c) → Respaced d.pieces ps →
        tokenize (String.ofList (before ++ spelling ps)) = .ok ts ∧
        ∀ g : Grammar, g.parse (String.ofList (before ++ spelling ps)) = g.parse text := by
  refine ⟨?_, ?_, ?_⟩
  · intro before ps hb hps
    exact tokenize_of_greedy hb (greedy_of_spaced hps)
  · intro s w t hne hw ts
    exact tokenize_append_blank hne hw
  · intro text ts h
    obtain ⟨d, rfl⟩ := exists_cut h
    refine ⟨d, rfl, fun before ps hb hps => ?_⟩
    have htokens : tokenize (String.ofList (before ++ spelling ps)) = .ok d.tokens := by
      rw [tokenize_of_greedy hb (greedy_of_respaced hps d.greedy), map_fst_of_respaced hps]
      rfl
    refine ⟨htokens, fun g => ?_⟩
    rw [Grammar.parse_of_tokenize htokens, Grammar.parse_of_tokenize h]

/-- A blank keeps two numbers apart, and a name may follow a number with or without one. -/
theorem tokenize_spacing_points :
    let ts : List Token := [.number "1.", .number ".5", .word "x2"]
    let ps : Pieces := [(.number "1.", ['\n', '\t']), (.number ".5", [' ']), (.word "x2", [])]
    Spaced ps ∧ tokenize "\r1.\n\t.5 x2" = .ok ts ∧
      tokenize ("1. .5" ++ " " ++ "x2") = .ok ts ∧
      tokenize "1. .5x2 " = .ok ts ∧
      ({} : Grammar).parse "\r1.\n\t.5 x2" = ({} : Grammar).parse "1. .5x2 " := by
  intro ts ps
  have h : tokenize "1. .5x2 " = .ok ts := by decide +kernel
  have hb : ∀ c ∈ ['\r'], Text.isBlank c := by simp [Text.isBlank]
  have hps : Spaced ps := by
    have hspelled := spelled_of_tokenize h
    simp_all [ps, ts, Spaced, Text.isBlank]
  have h1 : token? "1. .5x2 ".toList = some (.number "1.", " .5x2 ".toList) := by decide +kernel
  have h5 : token? ".5x2 ".toList = some (.number ".5", "x2 ".toList) := by decide +kernel
  have hx : token? "x2 ".toList = some (.word "x2", " ".toList) := by decide +kernel
  have hgreedy : Greedy [(.number "1.", [' ']), (.number ".5", []), (.word "x2", [' '])] := by
    refine ⟨longest_of_token? h1, ?_, longest_of_token? h5, ?_, longest_of_token? hx, ?_, trivial⟩ <;>
    simp [Text.isBlank]
  refine ⟨hps, ?_, ?_, h, ?_⟩
  · exact tokenize_spacing.1 ['\r'] ps hb hps
  · refine (tokenize_spacing.2.1 "1. .5" " " "x2" (by decide) (by simp [Text.isBlank]) ts).mpr
      ⟨[.number "1.", .number ".5"], [.word "x2"], ?_, ?_, rfl⟩ <;> decide +kernel
  · obtain ⟨d, -, hall⟩ := tokenize_spacing.2.2 "1. .5x2 " ts h
    have hd : d = ⟨[], _, by simp, hgreedy, by decide +kernel⟩ := Cut.eq _ _
    have hrespaced : Respaced d.pieces ps := by
      rw [hd]
      simp [Respaced, ps, Text.isBlank]
    exact (hall ['\r'] ps hb hrespaced).2 {}

end Reckon
