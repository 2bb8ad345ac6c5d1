import Reckon.Proofs.Munch

/-!
Texts with other names in them. Whatever name takes the place of another, the lexer cuts the text at
the same places: what follows a token stops it by its first character, and all names begin alike.
-/
namespace Reckon

def Token.rename (ρ : String → String) : Token → Token
  | .number text => .number text
  | .word text => .word (ρ text)
  | .symbol s => .symbol s

namespace Lexer

variable {ρ : String → String} {p : Char → Bool} {cs rest : List Char} {t : Token}
  {found ts : List Token}

/-- The text with each name exchanged and all else as it is. -/
def renamed (ρ : String → String) (cs : List Char) : List Char :=
  match cs with
  | [] => []
  | c :: rest =>
    if Text.isBlank c then c :: renamed ρ rest
    else match _h : token? (c :: rest) with
      | some (t, rest') => (t.rename ρ).text.toList ++ renamed ρ rest'
      | none => c :: rest
termination_by cs.length
decreasing_by
  · simp
  · exact length_lt_of_token? ‹_›

theorem renamed_blank {c : Char} (h : Text.isBlank c) (rest : List Char) :
    renamed ρ (c :: rest) = c :: renamed ρ rest := by
  rw [renamed, if_pos h]

theorem renamed_token (h : token? cs = some (t, rest)) :
    renamed ρ cs = (t.rename ρ).text.toList ++ renamed ρ rest := by
  cases cs with
  | nil => cases h
  | cons c cs =>
    by_cases hb : Text.isBlank c = true
    · rw [token?_blank hb] at h
      cases h
    · rw [renamed, if_neg hb]
      split
      · rename_i h'
        rw [h] at h'
        cases h'
        rfl
      · rename_i h'
        rw [h] at h'
        cases h'

section

variable (hρ : ∀ name, IsWord name.toList → IsWord (ρ name).toList)
include hρ

/-- Where a text does not go on in some way that all names are alike in, it does not with other names
either. -/
theorem ends_renamed (hp : ∀ c d, isWordStart c → isWordStart d → p c = p d) (h : Ends p cs) :
    Ends p (renamed ρ cs) := by
  cases cs with
  | nil =>
    rw [renamed]
    exact h
  | cons c rest =>
    by_cases hb : Text.isBlank c
    · rw [renamed_blank hb]
      exact ends_cons (h c rfl)
    cases ht : token? (c :: rest) with
    | none =>
      rw [renamed, if_neg hb]
      split
      · rename_i ht'
        rw [ht] at ht'
        cases ht'
      · exact h
    | some found =>
      obtain ⟨t, rest'⟩ := found
      obtain ⟨d, ds, hd, hc⟩ := begins_of_token? ht
      obtain rfl : c = d := Option.some.inj hc
      rw [renamed_token ht]
      cases t with
      | number | symbol =>
        rw [Token.rename, hd]
        exact ends_cons (h c rfl)
      | word text =>
        have hword : IsWord text.toList := spelled_of_token? ht
        obtain ⟨b, bs, hname, hb⟩ := exists_start (hρ text hword)
        rw [Token.text] at hd
        rw [hd] at hword
        rw [Token.rename, Token.text, hname]
        exact ends_cons ((hp b c hb hword.1).trans (h c rfl))

/-- The lexer finds the new token where it found the old one. -/
theorem token?_renamed (h : token? cs = some (t, rest)) :
    token? (renamed ρ cs) = some (t.rename ρ, renamed ρ rest) := by
  rw [renamed_token h]
  have hspelled := spelled_of_token? h
  cases t with
  | number text =>
    -- A name may stand right after a number, and neither goes on with the other.
    obtain ⟨hd, hpoint⟩ := ends_of_number? (number?_of_token? h)
    have hd : Ends Char.isDigit (renamed ρ rest) := by
      refine ends_renamed hρ ?_ hd
      intro c d hc hd
      rw [isDigit_eq_false_of_isWordStart hc, isDigit_eq_false_of_isWordStart hd]
    have hpoint : '.' ∈ text.toList ∨ Ends (· == '.') (renamed ρ rest) := by
      refine hpoint.imp_right (ends_renamed hρ ?_)
      intro c d hc hd
      rw [beq_false_of_ne (ne_of_isWordStart hc rfl), beq_false_of_ne (ne_of_isWordStart hd rfl)]
    simp [token?, Token.rename, Token.text, number?_of_ends hspelled hd hpoint]
  | word text =>
    have hend : Ends isWordPart (renamed ρ rest) := by
      refine ends_renamed hρ ?_ (ends_of_word? (word?_of_token? h))
      intro c d hc hd
      rw [isWordPart_of_isWordStart hc, isWordPart_of_isWordStart hd]
    simpa [Token.rename, Token.text] using token?_word (hρ text hspelled) hend
  | symbol s => simpa [Token.rename, Token.text] using token?_symbol s (renamed ρ rest)

theorem tokensFrom_renamed (h : tokensFrom found cs = some ts) :
    tokensFrom (found.map (·.rename ρ)) (renamed ρ cs) = some (ts.map (·.rename ρ)) := by
  fun_induction tokensFrom found cs with
  | case1 found =>
    obtain rfl := Option.some.inj h
    rw [renamed, tokensFrom, List.map_reverse]
  | case2 found c rest hb ih =>
    rw [renamed_blank hb, tokensFrom_blank hb]
    exact ih h
  | case3 found c rest hb t rest' ht ih =>
    rw [tokensFrom_token (token?_renamed hρ ht)]
    exact ih h
  | case4 => cases h

end

end Lexer

def renameWords (ρ : String → String) (text : String) : String :=
  String.ofList (Lexer.renamed ρ text.toList)

open Lexer in
theorem tokenize_renameWords {ρ : String → String} {text : String} {tokens : List Token}
    (hρ : ∀ name, IsWord name.toList → IsWord (ρ name).toList) (h : tokenize text = .ok tokens) :
    tokenize (renameWords ρ text) = .ok (tokens.map (·.rename ρ)) := by
  have ht := tokensFrom_renamed hρ (tokenize_eq_ok.mp h)
  rw [tokenize_eq_ok, renameWords, String.toList_ofList]
  exact ht

end Reckon
