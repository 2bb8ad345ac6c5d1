import Reckon.Error
import Reckon.Text.Blank
import Reckon.Token

/-!
Cutting a text into tokens: at each place the longest number or name, or a symbol, with blanks
anywhere between. Letters and digits are the ASCII ones.
-/
namespace Reckon.Lexer

def isWordStart (c : Char) : Bool :=
  c.isAlpha || c == '_'

def isWordPart (c : Char) : Bool :=
  c.isAlphanum || c == '_'

/-- The longest number that the text begins with, and what follows it: digits, then perhaps a point
and more digits, or a point and at least one digit. -/
def number? (cs : List Char) : Option (List Char × List Char) :=
  match cs.takeWhile Char.isDigit, cs.dropWhile Char.isDigit with
  | [], '.' :: rest =>
    match rest.takeWhile Char.isDigit with
    | [] => none
    | fraction => some ('.' :: fraction, rest.dropWhile Char.isDigit)
  | [], _ => none
  | whole, '.' :: rest =>
    some (whole ++ '.' :: rest.takeWhile Char.isDigit, rest.dropWhile Char.isDigit)
  | whole, rest => some (whole, rest)

/-- The longest name that the text begins with, and what follows it. -/
def word? : List Char → Option (List Char × List Char)
  | c :: cs =>
    if isWordStart c then some (c :: cs.takeWhile isWordPart, cs.dropWhile isWordPart) else none
  | [] => none

/-- The token that the text begins with, and what follows it. -/
def token? (cs : List Char) : Option (Token × List Char) :=
  match number? cs, word? cs, cs with
  | some (ds, rest), _, _ => some (.number (String.ofList ds), rest)
  | none, some (name, rest), _ => some (.word (String.ofList name), rest)
  | none, none, c :: rest => (Symbol.ofChar? c).map fun s => (.symbol s, rest)
  | none, none, [] => none

theorem splits_of_number? {cs ds rest : List Char} (h : number? cs = some (ds, rest)) :
    ds ++ rest = cs ∧ ds ≠ [] := by
  have hcs := List.takeWhile_append_dropWhile (p := Char.isDigit) (l := cs)
  unfold number? at h
  split at h
  · rename_i tail h1 h2
    have hr := List.takeWhile_append_dropWhile (p := Char.isDigit) (l := tail)
    split at h
    · simp at h
    · obtain ⟨rfl, rfl⟩ := Prod.mk.inj (Option.some.inj h)
      simp_all
  · simp at h
  · rename_i tail _ h2
    have hr := List.takeWhile_append_dropWhile (p := Char.isDigit) (l := tail)
    obtain ⟨rfl, rfl⟩ := Prod.mk.inj (Option.some.inj h)
    simp_all
  · obtain ⟨rfl, rfl⟩ := Prod.mk.inj (Option.some.inj h)
    simp_all

theorem splits_of_word? {cs name rest : List Char} (h : word? cs = some (name, rest)) :
    name ++ rest = cs ∧ name ≠ [] := by
  unfold word? at h
  split at h
  · split at h
    · obtain ⟨rfl, rfl⟩ := Prod.mk.inj (Option.some.inj h)
      simp [List.takeWhile_append_dropWhile]
    · simp at h
  · simp at h

theorem length_lt_of_splits {xs ys zs : List Char} (h : xs ++ ys = zs ∧ xs ≠ []) :
    ys.length < zs.length := by
  have := List.length_pos_iff.mpr h.2
  simp only [← h.1, List.length_append]
  omega

theorem length_lt_of_token? {cs rest : List Char} {t : Token} (h : token? cs = some (t, rest)) :
    rest.length < cs.length := by
  unfold token? at h
  split at h
  · rename_i hn
    obtain ⟨_, rfl⟩ := Prod.mk.inj (Option.some.inj h)
    exact length_lt_of_splits (splits_of_number? hn)
  · rename_i hw
    obtain ⟨_, rfl⟩ := Prod.mk.inj (Option.some.inj h)
    exact length_lt_of_splits (splits_of_word? hw)
  · simp only [Option.map_eq_some_iff, Prod.mk.injEq] at h
    obtain ⟨_, _, _, rfl⟩ := h
    simp
  · simp at h

/-- The tokens of the text after those already found, which are listed last first. -/
def tokensFrom (found : List Token) (cs : List Char) : Option (List Token) :=
  match cs with
  | [] => some found.reverse
  | c :: rest =>
    if Text.isBlank c then tokensFrom found rest
    else match _h : token? (c :: rest) with
      | some (t, rest') => tokensFrom (t :: found) rest'
      | none => none
termination_by cs.length
decreasing_by
  · simp
  · exact length_lt_of_token? ‹_›

end Lexer

/-- A text that cannot be cut into tokens is rejected whole. -/
def tokenize (text : String) : Except Error (List Token) :=
  (Lexer.tokensFrom [] text.toList).elim (.error (.invalidToken text)) .ok

end Reckon
