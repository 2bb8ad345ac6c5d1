import Reckon.Proofs.Documents
import Reckon.Proofs.Magnitude

/-!
Values as JSON. A value is written so that it reads back as itself if its numbers do, and the texts that
are values at all are numbers and lists of numbers.
-/
namespace Reckon

open Json (Datum Items Numeral Padded)

variable {text : String} {x : Float} {xs : List Float}

namespace Value

section Writing

theorem exists_padded_writeNumber (h : ofJson? (scalar x).toJson = some (scalar x)) :
    ∃ d, Padded d (Json.writeNumber x).toList ∧ d.number? = some x := by
  obtain ⟨d, hd, hv⟩ := Json.exists_padded h
  refine ⟨d, hd, ?_⟩
  cases d with
  | number n => simpa [Datum.value?, Datum.number?] using hv
  | array items => simp [Datum.value?] at hv
  | _ => cases hv

/-- Elements with commas between them are the items of a list. -/
theorem exists_items_intercalate (hne : xs ≠ [])
    (h : ∀ x ∈ xs, ofJson? (scalar x).toJson = some (scalar x)) :
    ∃ items, Items items (",".intercalate (xs.map Json.writeNumber)).toList ∧
      items.mapM Datum.number? = some xs := by
  induction xs with
  | nil => exact absurd rfl hne
  | cons x xs ih =>
    obtain ⟨d, hd, hx⟩ := exists_padded_writeNumber (h x List.mem_cons_self)
    cases xs with
    | nil => exact ⟨[d], .last (by simpa using hd), by simp [hx]⟩
    | cons y ys =>
      obtain ⟨items, hitems, hys⟩ :=
        ih (List.cons_ne_nil y ys) fun z hz => h z (List.mem_cons_of_mem x hz)
      refine ⟨d :: items, ?_, by simp [hx, hys]⟩
      have happend := Items.cons hd hitems
      rw [String.toList_intercalate] at happend ⊢
      simpa [List.intercalate_cons_cons] using happend

theorem ofJson?_toJson (v : Value)
    (h : ∀ x ∈ v.elements, ofJson? (scalar x).toJson = some (scalar x)) :
    ofJson? v.toJson = some v := by
  cases v with
  | scalar x => exact h x List.mem_cons_self
  | array xs =>
    by_cases hne : xs = []
    · subst hne
      decide +kernel
    obtain ⟨items, hitems, hxs⟩ := exists_items_intercalate hne h
    have hpadded : Padded (.array items) (array xs).toJson.toList := by
      have hblank : Json.Blank [] := by simp [Json.Blank]
      have hpad := Padded.pad hblank (.array hitems) hblank
      simpa [toJson] using hpad
    rw [hpadded.ofJson?_eq, Datum.value?, hxs]
    rfl

end Writing

end Value

namespace Json.Datum

variable {d : Datum} {items : List Datum}

theorem number?_eq_some_iff : d.number? = some x ↔ ∃ n, d = .number n ∧ n.read? = some x := by
  cases d <;> simp [number?]

theorem mapM_number?_eq_some_iff : items.mapM number? = some xs ↔
    ∃ ns : List Json.Numeral, items = ns.map .number ∧ ns.mapM Json.Numeral.read? = some xs := by
  constructor
  · intro h
    induction items generalizing xs with
    | nil => exact ⟨[], rfl, h⟩
    | cons d items ih =>
      simp only [List.mapM_cons, Option.bind_eq_bind, Option.bind_eq_some_iff] at h
      obtain ⟨x, hx, ys, hys, hxs⟩ := h
      obtain ⟨n, rfl, hn⟩ := number?_eq_some_iff.mp hx
      obtain ⟨ns, rfl, hns⟩ := ih hys
      exact ⟨n :: ns, rfl, by simp [hn, hns, ← hxs]⟩
  · rintro ⟨ns, rfl, hns⟩
    rw [List.mapM_map]
    exact hns

theorem value?_eq_scalar_iff :
    d.value? = some (.scalar x) ↔ ∃ n, d = .number n ∧ n.read? = some x := by
  cases d <;> simp [value?]

theorem value?_eq_array_iff : d.value? = some (.array xs) ↔
    ∃ ns : List Json.Numeral, d = .array (ns.map .number) ∧
      ns.mapM Json.Numeral.read? = some xs := by
  cases d with
  | array items => simp [value?, mapM_number?_eq_some_iff]
  | _ => simp [value?]

end Json.Datum

namespace Value

theorem ofJson?_eq_some_iff {v : Value} :
    ofJson? text = some v ↔ ∃ d, Padded d text.toList ∧ d.value? = some v := by
  constructor
  · exact Json.exists_padded
  · rintro ⟨d, hd, hv⟩
    rw [hd.ofJson?_eq, hv]

/-- A value reads back as itself from what it is written as, if each of its numbers does alone: as a
scalar or as an array, as long as it is, with the same doubles in the same order. A text is a scalar
exactly if it is a number that is read, and an array exactly if it is a list of such numbers, with
blanks where JSON allows them; whatever else JSON can say, anywhere in it, is no value. And a number is
read unless it is past the largest double, but for a few next to it. -/
theorem json_interchange :
    (∀ v : Value, (∀ x ∈ v.elements, ofJson? (scalar x).toJson = some (scalar x)) →
      ofJson? v.toJson = some v) ∧
    (∀ text x, ofJson? text = some (scalar x) ↔
      ∃ n, Padded (.number n) text.toList ∧ n.read? = some x) ∧
    (∀ text xs, ofJson? text = some (array xs) ↔
      ∃ ns : List Json.Numeral, Padded (.array (ns.map .number)) text.toList ∧
        ns.mapM Json.Numeral.read? = some xs) ∧
    (∀ text d, Padded d text.toList → (∀ n, d ≠ .number n) →
      (∀ ns : List Json.Numeral, d ≠ .array (ns.map .number)) → ofJson? text = none) ∧
    ∀ n : Json.Numeral, (|n.exact| ≤ 2 ^ 1024 - 2 ^ 973 → n.read?.isSome) ∧
      (2 ^ 1024 + 2 ^ 973 ≤ |n.exact| → n.read? = none) := by
  refine ⟨ofJson?_toJson, fun text x => ?_, fun text xs => ?_, fun text d hd hn hns => ?_,
    fun n => ⟨Json.Numeral.isSome_read?, Json.Numeral.read?_eq_none⟩⟩
  · simp only [ofJson?_eq_some_iff, Datum.value?_eq_scalar_iff]
    constructor
    · rintro ⟨_, hd, n, rfl, hn⟩
      exact ⟨n, hd, hn⟩
    · rintro ⟨n, hd, hn⟩
      exact ⟨_, hd, n, rfl, hn⟩
  · simp only [ofJson?_eq_some_iff, Datum.value?_eq_array_iff]
    constructor
    · rintro ⟨_, hd, ns, rfl, hns⟩
      exact ⟨ns, hd, hns⟩
    · rintro ⟨ns, hd, hns⟩
      exact ⟨_, hd, ns, rfl, hns⟩
  · rw [hd.ofJson?_eq]
    cases hv : d.value? with
    | none => rfl
    | some v =>
      cases v with
      | scalar x =>
        obtain ⟨n, rfl, -⟩ := Datum.value?_eq_scalar_iff.mp hv
        exact absurd rfl (hn n)
      | array xs =>
        obtain ⟨ns, rfl, -⟩ := Datum.value?_eq_array_iff.mp hv
        exact absurd rfl (hns ns)

/-- A number and a list of two, and a list that has a list in it. -/
theorem json_interchange_column :
    ofJson? (scalar (-0)).toJson = some (scalar (-0)) ∧
      ofJson? (array [1.5, -0]).toJson = some (array [1.5, -0]) ∧
      ofJson? "[[\t]]" = none ∧ ∃ n : Json.Numeral, n.text = ['7'] ∧ n.read?.isSome := by
  obtain ⟨hwrite, -, -, hother, hrange⟩ := json_interchange
  have hreads : ∀ x ∈ (array [1.5, -0]).elements,
      ofJson? (scalar x).toJson = some (scalar x) := by
    decide +kernel
  refine ⟨hreads _ (by simp [elements]), hwrite _ hreads, ?_, ?_⟩
  · have hblank : Json.Blank [] := by simp [Json.Blank]
    have htab : Json.Blank ['\t'] := by simp [Json.Blank, Text.isBlank]
    have hinner : Padded (.array []) "[\t]".toList := .pad hblank (.noItems htab) hblank
    have hnested : Padded (.array [.array []]) "[[\t]]".toList :=
      .pad hblank (.array (.last hinner)) hblank
    refine hother _ _ hnested (by simp) fun ns hns => ?_
    cases ns with
    | nil => simp at hns
    | cons n ns => simp at hns
  · let n : Json.Numeral := ⟨false, ⟨['7'], by simp, by simp⟩, none, none, by simp⟩
    exact ⟨n, rfl, (hrange n).1 (by decide +kernel)⟩

/-- A number just below the largest double, `1.797693134862315708e308`. Its significand and its power of
ten are both rounded upwards. -/
def belowLargest : Json.Numeral where
  negative := false
  whole := ⟨['1'], by simp, by simp⟩
  fraction := some ⟨"797693134862315708".toList, List.all_eq_true.mp (by decide +kernel), by simp⟩
  power := some ⟨'e', none, ⟨['3', '0', '8'], List.all_eq_true.mp (by decide), by simp⟩, .inl rfl,
    by simp⟩
  zero_alone := by simp

theorem json_belowLargest :
    belowLargest.text = "1.797693134862315708e308".toList ∧
      (Float.ofBits 0x7fefffffffffffff).isFinite ∧
      |belowLargest.exact| < (Ratio.ofFloat (.ofBits 0x7fefffffffffffff)).num /
        (Ratio.ofFloat (.ofBits 0x7fefffffffffffff)).den ∧
      ofJson? "1.797693134862315708e308" = none :=
  ⟨by decide +kernel, by decide +kernel, by decide +kernel, by decide +kernel⟩

end Value

end Reckon
