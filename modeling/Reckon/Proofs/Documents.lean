import Reckon.Json.Value
import Reckon.Proofs.Numerals

/-!
JSON texts and the values among them. A text is a value if it is a number or a list of numbers, with
blanks wherever JSON allows them, and every number is one that a double has room for.
-/
namespace Reckon.Json

open Lexer (Ends ends_nil ends_cons ends_dropWhile of_mem_takeWhile)
open Text (isBlank skipBlanks)

variable {c : Char} {cs rest w : List Char} {x : Float} {v : Value} {found xs : List Float}

/-- What a JSON text says. The characters of strings and names are as they are written. -/
inductive Datum where
  | null
  | bool (b : Bool)
  | number (n : Numeral)
  | string (cs : List Char)
  | array (items : List Datum)
  | object (members : List (List Char × Datum))

/-- What may stand between quotes. -/
inductive Quotable : List Char → Prop where
  | nil : Quotable []
  | plain {c : Char} {cs : List Char} (h : 0x20 ≤ c.toNat) (hq : c ≠ '"') (hb : c ≠ '\\')
    (hs : Quotable cs) : Quotable (c :: cs)
  | escape {c : Char} {cs : List Char} (h : (shortEscape? c).isSome) (hs : Quotable cs) :
    Quotable ('\\' :: c :: cs)
  | unicode {us cs : List Char} (h : ∀ u ∈ us, (hexDigit? u).isSome) (hn : us.length = 4)
    (hs : Quotable cs) : Quotable ('\\' :: 'u' :: (us ++ cs))

def Blank (w : List Char) : Prop :=
  ∀ c ∈ w, isBlank c

mutual

/-- The characters are a text of the datum. -/
inductive Written : Datum → List Char → Prop where
  | null : Written .null ['n', 'u', 'l', 'l']
  | boolTrue : Written (.bool true) ['t', 'r', 'u', 'e']
  | boolFalse : Written (.bool false) ['f', 'a', 'l', 's', 'e']
  | number (n : Numeral) : Written (.number n) n.text
  | string {cs : List Char} (h : Quotable cs) : Written (.string cs) ('"' :: (cs ++ ['"']))
  | noItems {w : List Char} (hw : Blank w) : Written (.array []) ('[' :: (w ++ [']']))
  | array {items : List Datum} {cs : List Char} (h : Items items cs) :
    Written (.array items) ('[' :: (cs ++ [']']))
  | noMembers {w : List Char} (hw : Blank w) : Written (.object []) ('\x7b' :: (w ++ ['\x7d']))
  | object {members : List (List Char × Datum)} {cs : List Char} (h : Members members cs) :
    Written (.object members) ('\x7b' :: (cs ++ ['\x7d']))

/-- The same with blanks around it. -/
inductive Padded : Datum → List Char → Prop where
  | pad {d : Datum} {w cs w' : List Char} (hw : Blank w) (h : Written d cs) (hw' : Blank w') :
    Padded d (w ++ (cs ++ w'))

/-- The data with commas between them. -/
inductive Items : List Datum → List Char → Prop where
  | last {d : Datum} {cs : List Char} (h : Padded d cs) : Items [d] cs
  | cons {d : Datum} {items : List Datum} {cs ds : List Char} (h : Padded d cs)
    (hs : Items items ds) : Items (d :: items) (cs ++ ',' :: ds)

/-- A name in quotes with blanks around it, and a datum after a colon. -/
inductive Member : List Char × Datum → List Char → Prop where
  | mk {name : List Char} {d : Datum} {w w' cs : List Char} (hw : Blank w) (hn : Quotable name)
    (hw' : Blank w') (h : Padded d cs) :
    Member (name, d) (w ++ '"' :: (name ++ '"' :: (w' ++ ':' :: cs)))

inductive Members : List (List Char × Datum) → List Char → Prop where
  | last {m : List Char × Datum} {cs : List Char} (h : Member m cs) : Members [m] cs
  | cons {m : List Char × Datum} {members : List (List Char × Datum)} {cs ds : List Char}
    (h : Member m cs) (hs : Members members ds) : Members (m :: members) (cs ++ ',' :: ds)

end

namespace Datum

/-- The number that a datum is. -/
def number? : Datum → Option Float
  | number n => n.read?
  | _ => none

/-- The value that a datum is: numbers are scalars, and lists of numbers are arrays. -/
def value? : Datum → Option Value
  | number n => n.read?.map .scalar
  | array items => (items.mapM number?).map .array
  | _ => none

end Datum

variable {d : Datum} {items : List Datum}

section Blanks

/-- No number goes on here. -/
abbrev Follows (rest : List Char) : Prop :=
  Ends (fun c => c.isDigit || c == 'e' || c == 'E' || c == '.') rest

theorem Numeral.stops_of_follows {n : Numeral} (h : Follows rest) : n.Stops rest := by
  refine ⟨fun c hc => ?_, fun _ c hc => ?_, fun _ _ c hc => ?_⟩
  all_goals
    have hall := h c hc
    simp only [Bool.or_eq_false_iff] at hall
    simp [hall]

theorem follows_append (hw : Blank w) (h : Follows rest) : Follows (w ++ rest) := by
  cases w with
  | nil => exact h
  | cons c w =>
    have hc := hw c List.mem_cons_self
    simp only [isBlank, Bool.or_eq_true, beq_iff_eq] at hc
    apply ends_cons
    rcases hc with ((rfl | rfl) | rfl) | rfl <;> rfl

theorem exists_blank (cs : List Char) : ∃ w, Blank w ∧ cs = w ++ skipBlanks cs :=
  ⟨cs.takeWhile isBlank, fun _ => of_mem_takeWhile, List.takeWhile_append_dropWhile.symm⟩

theorem skipBlanks_append (hw : Blank w) (cs : List Char) : skipBlanks (w ++ cs) = skipBlanks cs :=
  List.dropWhile_append_of_pos hw

theorem skipBlanks_cons (h : isBlank c = false) (cs : List Char) :
    skipBlanks (c :: cs) = c :: cs := by
  simp [skipBlanks, h]

/-- A datum begins with no blank and with no closing bracket. -/
theorem Written.exists_head (h : Written d cs) :
    ∃ c tail, cs = c :: tail ∧ isBlank c = false ∧ c ≠ ']' := by
  cases h with
  | number n =>
    obtain ⟨c, tail, hcs, rfl | hc⟩ := n.exists_text_head
    · exact ⟨'-', tail, hcs, rfl, by decide⟩
    · have hne : ∀ b : Char, b.isDigit = false → c ≠ b := by
        rintro b hb rfl
        rw [hc] at hb
        cases hb
      refine ⟨c, tail, hcs, ?_, hne _ rfl⟩
      simp [isBlank, hne ' ' rfl, hne '\t' rfl, hne '\r' rfl, hne '\n' rfl]
  | _ => exact ⟨_, _, rfl, rfl, by decide⟩

theorem Written.skipBlanks_append (h : Written d cs) (hw : Blank w) :
    skipBlanks (w ++ (cs ++ rest)) = cs ++ rest := by
  obtain ⟨c, tail, rfl, hc, -⟩ := h.exists_head
  rw [Json.skipBlanks_append hw, List.cons_append, skipBlanks_cons hc]

end Blanks

section Reading

theorem Written.number?_append (h : Written d cs) (hr : Follows rest) :
    number? (cs ++ rest) = d.number?.map fun x => (x, rest) := by
  cases h with
  | number n => exact n.number?_append (Numeral.stops_of_follows hr)
  | _ => exact Numeral.number?_eq_none (by decide) rfl

theorem numbersFrom?_eq (found : List Float) (cs : List Char) : numbersFrom? found cs =
    (number? cs).bind fun (x, after) =>
      match skipBlanks after with
      | ',' :: rest => numbersFrom? (x :: found) (skipBlanks rest)
      | ']' :: rest => some ((x :: found).reverse, rest)
      | _ => none := by
  rw [numbersFrom?]
  cases number? cs with
  | none => rfl
  | some found =>
    simp only [Option.bind_some]
    split <;> simp_all

theorem Padded.number?_append (h : Padded d cs) (c : Char) (rest : List Char)
    (hc : isBlank c = false) (hr : Follows (c :: rest)) : ∃ after, skipBlanks after = c :: rest ∧
      number? (skipBlanks (cs ++ c :: rest)) = d.number?.map fun x => (x, after) := by
  obtain ⟨hw, hd, hw'⟩ := h
  rename_i w cs w'
  refine ⟨w' ++ c :: rest, ?_, ?_⟩
  · rw [skipBlanks_append hw', skipBlanks_cons hc]
  · simp only [List.append_assoc, hd.skipBlanks_append hw]
    exact hd.number?_append (follows_append hw' hr)

/-- The list is read to its end unless one of its items is no number. -/
theorem Items.numbersFrom?_append (h : Items items cs) (found : List Float) (rest : List Char) :
    numbersFrom? found (skipBlanks (cs ++ ']' :: rest)) =
      (items.mapM Datum.number?).map fun xs => (found.reverse ++ xs, rest) := by
  induction items generalizing cs found with
  | nil => cases h
  | cons d items ih =>
    cases h with
    | last hd =>
      obtain ⟨after, hafter, hnumber⟩ := hd.number?_append ']' rest rfl (ends_cons rfl)
      rw [numbersFrom?_eq, hnumber]
      cases hx : d.number? <;> simp [hx, hafter]
    | @cons _ _ cs ds hd hs =>
      obtain ⟨after, hafter, hnumber⟩ :=
        hd.number?_append ',' (ds ++ ']' :: rest) rfl (ends_cons rfl)
      rw [numbersFrom?_eq, List.append_assoc, List.cons_append, hnumber]
      cases hx : d.number? with
      | none => simp [hx]
      | some x =>
        simp only [Option.map_some, Option.bind_some, hafter, ih hs]
        cases hxs : items.mapM Datum.number? <;> simp [hx, hxs]

theorem Items.exists_head (h : Items items cs) (rest : List Char) :
    ∃ c tail, skipBlanks (cs ++ rest) = c :: tail ∧ c ≠ ']' := by
  have hpadded : ∀ {d cs rest}, Padded d cs →
      ∃ c tail, skipBlanks (cs ++ rest) = c :: tail ∧ c ≠ ']' := by
    rintro d _ rest ⟨hw, hd, hw'⟩
    obtain ⟨c, tail, rfl, -, hc⟩ := hd.exists_head
    exact ⟨c, _, by rw [List.append_assoc, List.append_assoc, hd.skipBlanks_append hw]; rfl, hc⟩
  cases h with
  | last hd => exact hpadded hd
  | cons hd hs =>
    rw [List.append_assoc]
    exact hpadded hd

theorem value?_of_ne (h : c ≠ '[') :
    value? (c :: cs) = (number? (c :: cs)).map fun (x, rest) => (.scalar x, rest) := by
  unfold value?
  split
  · rename_i heq
    cases heq
    exact absurd rfl h
  · rfl

theorem Written.value?_append (h : Written d cs) (hr : Follows rest) :
    value? (cs ++ rest) = d.value?.map fun v => (v, rest) := by
  cases h with
  | number n =>
    have hnumber := n.number?_append (Numeral.stops_of_follows hr)
    obtain ⟨c, tail, hcs, hc⟩ := n.exists_text_head
    have hne : c ≠ '[' := by
      rintro rfl
      rcases hc with hc | hc <;> cases hc
    rw [hcs, List.cons_append] at hnumber ⊢
    rw [value?_of_ne hne, hnumber, Datum.value?]
    cases n.read? <;> rfl
  | noItems hw =>
    simp only [value?, List.cons_append, List.append_assoc, List.nil_append,
      Json.skipBlanks_append hw, skipBlanks_cons (c := ']') rfl]
    rfl
  | array hs =>
    obtain ⟨c, tail, hcs, hc⟩ := hs.exists_head (']' :: rest)
    have hnumbers := hs.numbersFrom?_append [] rest
    simp only [value?, List.cons_append, List.append_assoc, List.nil_append]
    rw [hcs] at hnumbers ⊢
    split
    · rename_i heq
      cases heq
      exact absurd rfl hc
    · rw [hnumbers, Datum.value?]
      cases List.mapM Datum.number? _ <;> rfl
  | _ =>
    rw [List.cons_append, value?_of_ne (by decide), Numeral.number?_eq_none (by decide) rfl]
    rfl

/-- Whether a JSON text is a value, and which, follows from what it says. -/
theorem Padded.ofJson?_eq {text : String} (h : Padded d text.toList) :
    Value.ofJson? text = d.value? := by
  generalize htext : text.toList = cs at h
  obtain ⟨hw, hd, hw'⟩ := h
  rename_i w cs w'
  have hend : skipBlanks w' = [] := List.dropWhile_eq_nil_iff.mpr hw'
  have hfollows : Follows w' := by
    simpa using follows_append hw' (ends_nil)
  rw [Value.ofJson?, only?, htext, hd.skipBlanks_append hw, hd.value?_append hfollows]
  cases d.value? <;> simp [hend]

end Reading

section Parsing

theorem Items.blank_append (h : Items items cs) (hw : Blank w) : Items items (w ++ cs) := by
  have hpadded : ∀ {d cs}, Padded d cs → Padded d (w ++ cs) := by
    rintro d _ ⟨hv, hd, hv'⟩
    rw [← List.append_assoc]
    exact .pad (List.forall_mem_append.mpr ⟨hw, hv⟩) hd hv'
  cases h with
  | last hd => exact .last (hpadded hd)
  | cons hd hs =>
    rw [← List.append_assoc]
    exact .cons (hpadded hd) hs

/-- A number that is found, with the blanks after it, is an item. -/
theorem exists_item {after : List Char} (h : number? cs = some (x, after)) :
    ∃ n ds, cs = ds ++ skipBlanks after ∧ Padded (.number n) ds ∧ n.read? = some x := by
  obtain ⟨n, hcs, -, hread⟩ := Numeral.exists_of_number? h
  obtain ⟨w, hw, hafter⟩ := exists_blank after
  refine ⟨n, n.text ++ w, ?_, .pad (w := []) (by simp [Blank]) (.number n) hw, hread⟩
  rw [hcs, List.append_assoc, ← hafter]

theorem exists_items (h : numbersFrom? found cs = some (xs, rest)) :
    ∃ items ds ys, cs = ds ++ ']' :: rest ∧ Items items ds ∧
      items.mapM Datum.number? = some ys ∧ xs = found.reverse ++ ys := by
  fun_induction numbersFrom? found cs with
  | case1 => cases h
  | case2 found cs x after hx rest' hr ih =>
    obtain ⟨items, ds, ys, hds, hitems, hys, rfl⟩ := ih h
    obtain ⟨n, es, hcs, hpadded, hread⟩ := exists_item hx
    obtain ⟨w, hw, hrest'⟩ := exists_blank rest'
    refine ⟨.number n :: items, es ++ ',' :: (w ++ ds), x :: ys, ?_,
      .cons hpadded (hitems.blank_append hw), ?_, by simp⟩
    · rw [hcs, hr, hrest', hds]
      simp
    · simp [Datum.number?, hread, hys]
  | case3 found cs x after hx rest' hr =>
    cases h
    obtain ⟨n, es, hcs, hpadded, hread⟩ := exists_item hx
    refine ⟨[.number n], es, [x], ?_, .last hpadded, ?_, by simp⟩
    · rw [hcs, hr]
    · simp [Datum.number?, hread]
  | case4 => cases h

theorem exists_written (h : value? cs = some (v, rest)) :
    ∃ d ds, cs = ds ++ rest ∧ Written d ds ∧ d.value? = some v := by
  unfold value? at h
  split at h
  · rename_i tail
    obtain ⟨w, hw, htail⟩ := exists_blank tail
    split at h
    · rename_i rest' hr
      cases h
      rw [hr] at htail
      exact ⟨.array [], _, by rw [htail]; simp, .noItems hw, rfl⟩
    · simp only [Option.map_eq_some_iff, Prod.mk.injEq] at h
      obtain ⟨⟨xs, _⟩, hxs, rfl, rfl⟩ := h
      obtain ⟨items, ds, ys, hds, hitems, hys, rfl⟩ := exists_items hxs
      rw [hds] at htail
      exact ⟨.array items, _, by rw [htail]; simp, .array (hitems.blank_append hw),
        by simp [Datum.value?, hys]⟩
  · simp only [Option.map_eq_some_iff, Prod.mk.injEq] at h
    obtain ⟨⟨x, _⟩, hx, rfl, rfl⟩ := h
    obtain ⟨n, hcs, -, hread⟩ := Numeral.exists_of_number? hx
    exact ⟨.number n, n.text, hcs, .number n, by simp [Datum.value?, hread]⟩

theorem exists_padded {text : String} (h : Value.ofJson? text = some v) :
    ∃ d, Padded d text.toList ∧ d.value? = some v := by
  simp only [Value.ofJson?, only?, Option.bind_eq_bind, Option.bind_eq_some_iff] at h
  obtain ⟨⟨u, rest⟩, hu, h⟩ := h
  split at h
  · rename_i hempty
    obtain rfl := Option.some.inj h
    obtain ⟨d, ds, hds, hd, hv⟩ := exists_written hu
    obtain ⟨w, hw, hcs⟩ := exists_blank text.toList
    obtain ⟨w', hw', hrest⟩ := exists_blank rest
    refine ⟨d, ?_, hv⟩
    rw [List.isEmpty_iff.mp hempty, List.append_nil] at hrest
    rw [hcs, hds, hrest]
    exact .pad hw hd hw'
  · cases h

end Parsing

end Reckon.Json
