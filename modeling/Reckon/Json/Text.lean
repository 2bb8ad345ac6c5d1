/-!
Strings in JSON, from after the opening quote. Control characters must be escaped, and a code point
past the first plane is written as a pair of escaped surrogates; a surrogate alone is refused.
-/
namespace Reckon.Json

def hexDigit? (c : Char) : Option Nat :=
  if c.isDigit then some (c.toNat - '0'.toNat)
  else if 'a' ≤ c && c ≤ 'f' then some (c.toNat - 'a'.toNat + 10)
  else if 'A' ≤ c && c ≤ 'F' then some (c.toNat - 'A'.toNat + 10)
  else none

/-- Four hexadecimal digits and what follows them. -/
def unit? : List Char → Option (Nat × List Char)
  | a :: b :: c :: d :: rest => do
    return ((((← hexDigit? a) * 16 + (← hexDigit? b)) * 16 + (← hexDigit? c)) * 16 +
      (← hexDigit? d), rest)
  | _ => none

def shortEscape? : Char → Option Char
  | '"' => some '"'
  | '\\' => some '\\'
  | '/' => some '/'
  | 'b' => some '\x08'
  | 'f' => some '\x0c'
  | 'n' => some '\n'
  | 'r' => some '\r'
  | 't' => some '\t'
  | _ => none

/-- The character of an escape, from after its `u`, and what follows it. -/
def escaped? (cs : List Char) : Option (Char × List Char) := do
  let (u, rest) ← unit? cs
  if 0xdc00 ≤ u && u ≤ 0xdfff then none
  else if 0xd800 ≤ u && u ≤ 0xdbff then
    match rest with
    | '\\' :: 'u' :: rest =>
      let (v, rest) ← unit? rest
      if 0xdc00 ≤ v && v ≤ 0xdfff then
        return (Char.ofNat (0x10000 + (u - 0xd800) * 0x400 + (v - 0xdc00)), rest)
      else none
    | _ => none
  else return (Char.ofNat u, rest)

theorem length_of_unit? {cs rest : List Char} {u : Nat} (h : unit? cs = some (u, rest)) :
    rest.length < cs.length := by
  unfold unit? at h
  split at h
  · simp only [bind, pure, Option.bind_eq_some_iff, Option.some.injEq, Prod.mk.injEq] at h
    obtain ⟨_, _, _, _, _, _, _, _, _, rfl⟩ := h
    simp only [List.length_cons]
    omega
  · simp at h

theorem length_of_escaped? {cs rest : List Char} {c : Char} (h : escaped? cs = some (c, rest)) :
    rest.length < cs.length := by
  simp only [escaped?, bind, Option.bind_eq_some_iff] at h
  obtain ⟨⟨u, tail⟩, h1, h⟩ := h
  have := length_of_unit? h1
  split at h
  · simp at h
  · split at h
    · split at h
      · simp only [Option.bind_eq_some_iff] at h
        obtain ⟨⟨v, tail'⟩, h2, h⟩ := h
        have := length_of_unit? h2
        split at h
        · simp_all
          omega
        · simp at h
      · simp at h
    · simp_all

/-- The characters up to the closing quote, after those already found, which are listed last first;
and what follows the quote. -/
def stringFrom? (found : List Char) (cs : List Char) : Option (String × List Char) :=
  match cs with
  | [] => none
  | '"' :: rest => some (String.ofList found.reverse, rest)
  | '\\' :: 'u' :: rest =>
    match _h : escaped? rest with
    | some (c, rest') => stringFrom? (c :: found) rest'
    | none => none
  | '\\' :: c :: rest =>
    match shortEscape? c with
    | some c => stringFrom? (c :: found) rest
    | none => none
  | c :: rest => if c.toNat < 0x20 then none else stringFrom? (c :: found) rest
termination_by cs.length
decreasing_by
  · have := length_of_escaped? ‹_›
    simp only [List.length_cons]
    omega
  · simp only [List.length_cons]
    omega
  · simp

theorem length_of_stringFrom? {found cs rest : List Char} {text : String}
    (h : stringFrom? found cs = some (text, rest)) : rest.length < cs.length := by
  fun_induction stringFrom? found cs with
  | case1 => simp at h
  | case2 => simp_all
  | case3 found tail c rest' he ih =>
    have := length_of_escaped? he
    have := ih h
    simp only [List.length_cons]
    omega
  | case4 => simp at h
  | case5 found c tail c' _ hc ih =>
    have := ih h
    simp only [List.length_cons]
    omega
  | case6 => simp at h
  | case7 => simp at h
  | case8 found c tail _ _ _ _ ih =>
    have := ih h
    simp only [List.length_cons]
    omega

end Reckon.Json
