import Mathlib.Order.Monotone.Basic
import Reckon.Parse
import Reckon.Proofs.Conservation
import Reckon.Proofs.Outcome

/-!
What parsing reads of a grammar: which of the names in a text are functions, and which of two
operators in it binds more strongly.
-/
namespace Reckon

variable {g g' : Grammar} {t : Token} {ts tokens result : List Token} {text : String}

namespace Grammar

/-- The grammars differ in nothing that the tokens mention. -/
structure Agrees (g g' : Grammar) (tokens : List Token) : Prop where
  isFunction : ∀ text, .word text ∈ tokens → g.isFunction text = g'.isFunction text
  precedence : ∀ o p, .symbol (.operator o) ∈ tokens → .symbol (.operator p) ∈ tokens →
    (g.precedence o ≤ g.precedence p ↔ g'.precedence o ≤ g'.precedence p)

/-- A name stands for the same function in every grammar that has one of that name. -/
theorem function?_congr (h : g.isFunction text = g'.isFunction text) :
    g.function? text = g'.function? text := by
  unfold isFunction function? at h
  unfold function?
  cases hf : Func.ofName? text with
  | none => rfl
  | some f =>
    rw [hf] at h
    cases hk : g.knows f <;> cases hk' : g'.knows f <;> simp_all [Option.filter_some]

theorem isFunction_without {f : Func} (h : text ≠ f.name) :
    (g.without f).isFunction text = g.isFunction text := by
  unfold isFunction function? without
  cases hf : Func.ofName? text with
  | none => rfl
  | some f' =>
    have hne : f' ≠ f := by
      rintro rfl
      exact h (Func.name_of_ofName? hf).symm
    simp [Option.filter_some, hne]

theorem isFunction_without_self (g : Grammar) (f : Func) :
    (g.without f).isFunction f.name = false := by
  simp [isFunction, function?, without, Option.filter_some]

theorem isFunction_without_eq_false (f : Func) (h : g.isFunction text = false) :
    (g.without f).isFunction text = false := by
  by_cases hname : text = f.name
  · rw [hname, isFunction_without_self]
  · rw [isFunction_without hname, h]

theorem Agrees.node (h : g.Agrees g' tokens) (ht : t ∈ tokens) : g.node t = g'.node t := by
  cases t with
  | number text => rfl
  | word text => simp only [Grammar.node, function?_congr (h.isFunction text ht)]
  | symbol s =>
    cases s with
    | opening | closing | operator => rfl

theorem foldlM_grow_congr (h : ∀ t ∈ ts, g.node t = g'.node t) (trees : Forest) :
    ts.foldlM (fun trees t => do Forest.grow trees (← g.node t)) trees =
      ts.foldlM (fun trees t => do Forest.grow trees (← g'.node t)) trees := by
  induction ts generalizing trees with
  | nil => rfl
  | cons t ts ih =>
    simp only [List.foldlM_cons, h t List.mem_cons_self]
    cases g'.node t >>= Forest.grow trees with
    | error fault => rfl
    | ok grown => exact ih (fun u hu => h u (List.mem_cons_of_mem t hu)) grown

end Grammar

namespace Postfix

open Grammar

variable {s s' : State} {output : List Token} {pending : List Pending}

namespace State

theorem release_congr {o : Operator} (h : ∀ p, .operator p ∈ pending →
      (g.precedence o ≤ g.precedence p ↔ g'.precedence o ≤ g'.precedence p))
    (output : List Token) : release g o output pending = release g' o output pending := by
  induction pending generalizing output with
  | nil => rfl
  | cons entry pending ih =>
    have hrest := ih fun p hp => h p (List.mem_cons_of_mem entry hp)
    cases entry with
    | group => rfl
    | function f => exact hrest _
    | operator p =>
      simp only [release, h p List.mem_cons_self]
      rw [hrest]

theorem mem_held_of_pending {p : Operator} (h : .operator p ∈ s.pending) :
    .symbol (.operator p) ∈ s.held :=
  List.mem_append_right _ (List.mem_filterMap.mpr ⟨_, h, rfl⟩)

/-- All that waits comes from the tokens, so a step asks the grammars about nothing else. -/
theorem step_congr (h : g.Agrees g' tokens) (ht : t ∈ tokens) (hs : s.held ⊆ tokens) :
    step g s t = step g' s t := by
  cases t with
  | number text => rfl
  | word text => simp only [step, function?_congr (h.isFunction text ht)]
  | symbol symbol =>
    rcases symbol with _ | _ | o
    · rfl
    · rfl
    · have hrelease : release g o s.output s.pending = release g' o s.output s.pending :=
        release_congr (fun p hp => h.precedence o p ht (hs (mem_held_of_pending hp))) s.output
      simp only [step, hrelease]

theorem held_subset_step (hstep : step g s t = some s') (ht : t ∈ tokens)
    (hs : s.held ⊆ tokens) : s'.held ⊆ tokens := by
  intro u hu
  rcases List.mem_append.mp ((held_step hstep).subset hu) with hu | hu
  · exact hs hu
  · rwa [List.mem_singleton.mp (List.mem_of_mem_filter hu)]

theorem foldlM_congr (h : g.Agrees g' tokens) (hts : ts ⊆ tokens) (hs : s.held ⊆ tokens) :
    ts.foldlM (step g) s = ts.foldlM (step g') s := by
  induction ts generalizing s with
  | nil => rfl
  | cons t ts ih =>
    obtain ⟨ht, hts⟩ := List.cons_subset.mp hts
    rw [List.foldlM_cons, List.foldlM_cons, step_congr h ht hs]
    cases hstep : step g' s t with
    | none => rfl
    | some s' => exact ih hts (held_subset_step hstep ht hs)

end State

theorem order?_congr (h : g.Agrees g' tokens) : order? g tokens = order? g' tokens := by
  have hrun : tokens.foldlM (State.step g) {} = tokens.foldlM (State.step g') {} :=
    State.foldlM_congr h (List.Subset.refl _) (List.nil_subset _)
  rw [order?, order?, hrun]

end Postfix

namespace Grammar

theorem Agrees.build (h : g.Agrees g' tokens) (hts : ts ⊆ tokens) : g.build ts = g'.build ts := by
  rw [Grammar.build, Grammar.build, foldlM_grow_congr fun t ht => h.node (hts ht)]

theorem Agrees.parseTokens (h : g.Agrees g' tokens) :
    g.parseTokens tokens = g'.parseTokens tokens := by
  unfold Grammar.parseTokens postfixOrder
  rw [Postfix.order?_congr h]
  cases ho : Postfix.order? g' tokens with
  | none => rfl
  | some listing => exact h.build (Postfix.subset_of_order? ho)

theorem parse_eq_of_agrees (h : ∀ tokens, tokenize text = .ok tokens → g.Agrees g' tokens) :
    g.parse text = g'.parse text := by
  unfold parse
  cases ht : tokenize text with
  | error err => rfl
  | ok tokens => simp only [ok_bind, (h tokens ht).parseTokens]

/-- Two grammars parse a text alike, its faults included, if they agree on which of its names are
functions and on how any two of its operators compare. So numbers in the same order do as well for
the precedences, and a function that the text does not name may as well be missing. -/
theorem parse_congr (g : Grammar) (text : String) :
    (∀ g', (∀ tokens, tokenize text = .ok tokens → g.Agrees g' tokens) →
      g.parse text = g'.parse text) ∧
    (∀ rank : Nat → Nat, StrictMonoOn rank (Set.range g.precedence) →
      ({ g with precedence := rank ∘ g.precedence } : Grammar).parse text = g.parse text) ∧
    ∀ f : Func, (∀ tokens, tokenize text = .ok tokens → .word f.name ∉ tokens) →
      (g.without f).parse text = g.parse text := by
  refine ⟨fun g' => parse_eq_of_agrees, ?_, ?_⟩
  · intro rank hrank
    refine parse_eq_of_agrees fun tokens _ => ⟨fun _ _ => rfl, ?_⟩
    intro o p _ _
    exact hrank.le_iff_le (Set.mem_range_self o) (Set.mem_range_self p)
  · intro f hf
    refine parse_eq_of_agrees fun tokens ht => ⟨?_, fun _ _ _ _ => Iff.rfl⟩
    intro name hname
    refine isFunction_without ?_
    rintro rfl
    exact hf tokens ht hname

/-- A sum and a product that compare alike whatever the numbers, and a fault that stays the same
without a function that is not named. -/
theorem parse_congr_renumbered :
    let g : Grammar := {}
    let g' := ((g.withPrecedence .mul 200).withPrecedence .div 0).without .cos
    g.parse "a - 2 * sin b" = g'.parse "a - 2 * sin b" ∧
      ({ g with precedence := (10 * ·) ∘ g.precedence } : Grammar).parse "a * 2 / b -" =
        g.parse "a * 2 / b -" ∧
      (g.without .cos).parse "sin * cosine" = g.parse "sin * cosine" := by
  intro g g'
  have ht : tokenize "a - 2 * sin b" = .ok [.word "a", .symbol (.operator .sub), .number "2",
      .symbol (.operator .mul), .word "sin", .word "b"] := by
    decide +kernel
  have ht' : tokenize "sin * cosine" = .ok [.word "sin", .symbol (.operator .mul),
      .word "cosine"] := by
    decide +kernel
  refine ⟨(parse_congr g _).1 g' ?_, (parse_congr g _).2.1 (10 * ·) ?_,
    (parse_congr g _).2.2 .cos ?_⟩
  · intro tokens h
    obtain rfl := Except.ok.inj (ht.symm.trans h)
    refine ⟨?_, ?_⟩
    · intro text hmem
      have hname : text = "a" ∨ text = "sin" ∨ text = "b" := by simpa using hmem
      rcases hname with rfl | rfl | rfl <;> decide
    · intro o p ho hp
      have ho : o = .sub ∨ o = .mul := by simpa using ho
      have hp : p = .sub ∨ p = .mul := by simpa using hp
      rcases ho with rfl | rfl <;> rcases hp with rfl | rfl <;> decide
  · intro m _ n _ hmn
    exact Nat.mul_lt_mul_of_pos_left hmn (by decide)
  · intro tokens h
    obtain rfl := Except.ok.inj (ht'.symm.trans h)
    decide

end Grammar

end Reckon
