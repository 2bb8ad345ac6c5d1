import Mathlib.Data.List.Induction
import Reckon.Proofs.Calls
import Reckon.Proofs.Distinct

/-!
Which trees an evaluator keeps: those of the texts that it evaluated most recently, of the ones that
parse, as far as there is room.
-/
namespace Reckon

/-- A cache of the latest keys, used once more. One that was looked up has its place already, so that
there is room for it. -/
theorem Cache.Uses.keys {α β : Type} [BEq α] [LawfulBEq α] {c c' : Cache α β} {key : α} {value : β}
    {as : List α} (hu : c.Uses key value c') (h : c.keys = as.eraseDups.take c.capacity) :
    c'.keys = (key :: as).eraseDups.take c.capacity := by
  have htake : (key :: c.keys.filter (· != key)).take c.capacity =
      (key :: as).eraseDups.take c.capacity := by
    rw [h, eraseDups_cons_filter]
    cases c.capacity with
    | zero => rfl
    | succ n => simp [take_filter_take (nodup_eraseDups as)]
  rcases hu with hget | ⟨-, rfl⟩
  · have hmem : key ∈ c.keys :=
      List.mem_map.mpr ⟨_, leastRecentlyUsed.mem_of_get? hget, rfl⟩
    have hlt : (c.keys.filter (· != key)).length < c.keys.length :=
      List.length_filter_lt_length_iff_exists.mpr ⟨key, hmem, by simp⟩
    have hle : c.keys.length ≤ c.capacity := by
      rw [h]
      exact List.length_take_le _ _
    rw [leastRecentlyUsed.keys_of_get? hget, ← htake, List.take_of_length_le]
    exact Nat.lt_of_lt_of_le hlt hle
  · rw [leastRecentlyUsed.keys_put, htake]

/-- In a list of the latest from the latest on, one more comes first. -/
theorem reverse_filterMap_append_singleton {α β : Type} (f : α → Option β) (as : List α) (a : α) :
    ((as ++ [a]).filterMap f).reverse = (f a).toList ++ (as.filterMap f).reverse := by
  cases h : f a <;> simp [h]

namespace Grammar

variable {g : Grammar} {text : String}

def parses (g : Grammar) (text : String) : Bool :=
  (g.parse text).isOk

theorem parses_of_ok {e : Expr} (h : g.parse text = .ok e) : g.parses text := by
  simp [parses, h, Except.isOk, Except.toBool]

theorem not_parses_of_error {error : Error} (h : g.parse text = .error error) :
    ¬ g.parses text := by
  simp [parses, h, Except.isOk, Except.toBool]

end Grammar

open Evaluator Grammar

namespace EvaluatorConfig

variable {c : EvaluatorConfig} {ev : Evaluator} {text : String} {texts : List String}

/-- The number of trees that can be kept. -/
def room (c : EvaluatorConfig) : Nat :=
  max c.cacheSize 1

/-- The trees kept are those of the first of the texts, which are listed from the latest on. -/
structure Recalls (c : EvaluatorConfig) (texts : List String) (ev : Evaluator) : Prop where
  capacity : ev.trees.capacity = c.room
  keys : ev.trees.keys = texts.eraseDups.take c.room

theorem recalls_build (c : EvaluatorConfig) : c.Recalls [] c.build :=
  ⟨rfl, by simp [build]⟩

theorem Recalls.uses (h : c.Recalls texts ev) {e : Expr} {trees : Cache String Expr}
    (hu : ev.trees.Uses text e trees) : c.Recalls (text :: texts) { ev with trees } := by
  have hkeys : ev.trees.keys = texts.eraseDups.take ev.trees.capacity := by
    rw [h.keys, h.capacity]
  have huse := hu.keys hkeys
  rw [h.capacity] at huse
  exact ⟨hu.capacity.trans h.capacity, huse⟩

/-- The text that a call makes the most recent one. -/
def recent? (c : EvaluatorConfig) (call : Call) : Option String :=
  call.text?.filter c.grammar.parses

theorem Recalls.answer (h : c.Recalls texts ev) (hev : c.Serves ev) (call : Call) :
    c.Recalls ((c.recent? call).toList ++ texts) (ev.answer call).2 := by
  cases call with
  | evaluateText text bindings =>
    cases hp : c.grammar.parse text with
    | error error =>
      have hev' := hev.evaluateText_of_error hp bindings
      have hnot := not_parses_of_error hp
      rw [recent?, Call.text?, Option.filter_some, if_neg hnot]
      exact hev'.symm ▸ h
    | ok e =>
      obtain ⟨trees, hu, hev'⟩ := hev.evaluateText_of_ok hp bindings
      rw [recent?, Call.text?, Option.filter_some, if_pos (parses_of_ok hp)]
      exact hev'.symm ▸ h.uses hu
  | parse | evaluate | evaluateBatch => exact h

theorem filter_texts (calls : List Call) :
    (calls.filterMap Call.text?).filter c.grammar.parses = calls.filterMap c.recent? :=
  List.filter_filterMap

theorem recalls_after (calls : List Call) :
    c.Recalls ((calls.filterMap Call.text?).filter c.grammar.parses).reverse
      (c.build.after calls) := by
  rw [filter_texts]
  induction calls using List.reverseRecOn with
  | nil => exact c.recalls_build
  | append_singleton calls call ih =>
    rw [reverse_filterMap_append_singleton, Evaluator.after, List.foldl_append]
    exact ih.answer (c.serves_build.after calls) call

theorem mem_keys_after {calls : List Call} : text ∈ (c.build.after calls).trees.keys ↔
    c.grammar.parses text ∧ ∃ before since,
      calls.filterMap Call.text? = before ++ text :: since ∧ text ∉ since ∧
      (since.filter c.grammar.parses).eraseDups.length < c.room := by
  rw [(c.recalls_after calls).keys]
  generalize calls.filterMap Call.text? = texts
  -- A use of the text with none after it splits the list that the latest texts come first in.
  have hsplit : ∀ before since, texts = before ++ text :: since → text ∉ since →
      c.grammar.parses text →
        (text ∈ (texts.filter c.grammar.parses).reverse.eraseDups.take c.room ↔
          (since.filter c.grammar.parses).eraseDups.length < c.room) := by
    intro before since ht hsince hp
    have hnot : text ∉ (since.filter c.grammar.parses).reverse := by
      simpa using fun h => absurd h hsince
    have hlist : (texts.filter c.grammar.parses).reverse =
        (since.filter c.grammar.parses).reverse ++
          text :: (before.filter c.grammar.parses).reverse := by
      simp [ht, hp]
    rw [hlist, mem_take_eraseDups hnot, length_eraseDups_reverse]
  constructor
  · intro h
    have hmem : text ∈ texts ∧ c.grammar.parses text := by
      simpa using List.mem_of_mem_take h
    obtain ⟨since, before, ht, hsince⟩ :=
      List.eq_append_cons_of_mem (List.mem_reverse.mpr hmem.1)
    have ht' : texts = before.reverse ++ text :: since.reverse := by
      rw [← List.reverse_reverse texts, ht]
      simp
    have hsince' : text ∉ since.reverse := by simpa using hsince
    exact ⟨hmem.2, _, _, ht', hsince', (hsplit _ _ ht' hsince' hmem.2).mp h⟩
  · rintro ⟨hp, before, since, ht, hsince, hlt⟩
    exact (hsplit before since ht hsince hp).mpr hlt

/-- After any calls, the texts whose trees are kept are the ones evaluated last of those that parse,
the latest first and none twice, whether or not they had a value. A text that does not parse changes
nothing. The tree of a text is at hand exactly if it parses, has been evaluated, and there was room
for the other texts evaluated since. -/
theorem keys_after (c : EvaluatorConfig) (calls : List Call) :
    let ev := c.build.after calls
    let texts := calls.filterMap Call.text?
    let room := max c.cacheSize 1
    ev.trees.keys = (texts.filter c.grammar.parses).reverse.eraseDups.take room ∧
    ev.trees.keys.Nodup ∧
    (∀ text bindings, ¬ c.grammar.parses text → (ev.evaluateText text bindings).2 = ev) ∧
    ∀ text, ev.trees.contains text ↔ c.grammar.parses text ∧
      ∃ before since, texts = before ++ text :: since ∧ text ∉ since ∧
        (since.filter c.grammar.parses).eraseDups.length < room := by
  intro ev texts room
  have hkeys := (c.recalls_after calls).keys
  refine ⟨hkeys, ?_, ?_, ?_⟩
  · rw [hkeys]
    exact (nodup_eraseDups _).sublist (List.take_sublist _ _)
  · intro text bindings hnot
    cases hp : c.grammar.parse text with
    | error error => exact (c.serves_build.after calls).evaluateText_of_error hp bindings
    | ok e => exact absurd (parses_of_ok hp) hnot
  · intro text
    rw [Cache.contains_iff]
    exact mem_keys_after

/-- With room for two: a text without value is kept, one that does not parse is not, and a text used
again outlives one that came after it. -/
theorem keys_after_reuse :
    let c : EvaluatorConfig := { cacheSize := 2 }
    let calls : List Call := [.evaluateText "x" [], .evaluateText "y" [("y", .scalar 1)],
      .evaluateText "x" [], .evaluateText "x y" [], .evaluateText "z" []]
    let ev := c.build.after calls
    ev.trees.keys = ["z", "x"] ∧ ¬ c.grammar.parses "x y" ∧ (ev.evaluateText "x y" []).2 = ev ∧
      ev.trees.contains "x" := by
  intro c calls ev
  have hnot : ¬ c.grammar.parses "x y" := by decide +kernel
  obtain ⟨hkeys, -, hsame, hhit⟩ := keys_after c calls
  refine ⟨?_, hnot, hsame _ _ hnot, (hhit "x").mpr ⟨by decide +kernel, ?_⟩⟩
  · rw [hkeys]
    decide +kernel
  · exact ⟨["x", "y"], ["x y", "z"], rfl, by decide, by decide +kernel⟩

end EvaluatorConfig

end Reckon
