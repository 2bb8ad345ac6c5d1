import Reckon.Proofs.Operands
import Reckon.Proofs.Parentheses

/-!
The translation to postfix order fails on unbalanced parentheses and on nothing else. Otherwise it
drops the parentheses and rearranges the other tokens, of which the operands stay in their order.
-/
namespace Reckon

namespace Postfix

variable {g : Grammar} {m n : Nat} {t : Token} {tokens listing : List Token}

/-- No beginning of the tokens closes more parentheses than it opens, and all of them close as many
as they open. -/
structure Balanced (tokens : List Token) : Prop where
  closed_le : ∀ beginning, beginning <+: tokens →
    beginning.count (.symbol .closing) ≤ beginning.count (.symbol .opening)
  closed_eq : tokens.count (.symbol .opening) = tokens.count (.symbol .closing)

theorem nest_eq_some : nest n t = some m ↔
    m + [t].count (.symbol .closing) = n + [t].count (.symbol .opening) := by
  cases t with
  | number text => simp [nest, eq_comm]
  | word text => simp [nest, eq_comm]
  | symbol s =>
    rcases s with _ | _ | o
    · simp [nest, eq_comm]
    · cases n <;> simp [nest, eq_comm]
    · simp [nest, eq_comm]

/-- The depth never falls below zero and ends there, from any depth to begin with. -/
theorem matched_iff_count : Matched n tokens ↔
    (∀ beginning, beginning <+: tokens →
      beginning.count (.symbol .closing) ≤ n + beginning.count (.symbol .opening)) ∧
    n + tokens.count (.symbol .opening) = tokens.count (.symbol .closing) := by
  induction tokens generalizing n with
  | nil => simp
  | cons t tokens ih =>
    have hcount (s : Token) (ts : List Token) : (t :: ts).count s = [t].count s + ts.count s := by
      rw [← List.count_append, List.singleton_append]
    simp only [matched_cons, nest_eq_some, ih]
    rw [hcount _ tokens, hcount _ tokens]
    constructor
    · rintro ⟨m, hm, hle, heq⟩
      refine ⟨?_, by omega⟩
      intro beginning hprefix
      rcases List.prefix_cons_iff.mp hprefix with rfl | ⟨rest, rfl, hrest⟩
      · simp
      · have := hle rest hrest
        rw [hcount _ rest, hcount _ rest]
        omega
    · rintro ⟨hle, heq⟩
      have hfirst : [t].count (.symbol .closing) ≤ n + [t].count (.symbol .opening) :=
        hle [t] (List.prefix_append [t] tokens)
      refine ⟨n + [t].count (.symbol .opening) - [t].count (.symbol .closing), by omega, ?_, ?_⟩
      · intro rest hrest
        have := hle (t :: rest) (List.cons_prefix_cons.mpr ⟨rfl, hrest⟩)
        rw [hcount _ rest, hcount _ rest] at this
        omega
      · omega

theorem matched_iff_balanced : Matched 0 tokens ↔ Balanced tokens := by
  rw [matched_iff_count]
  simp only [Nat.zero_add]
  exact ⟨fun h => ⟨h.1, h.2⟩, fun h => ⟨h.1, h.2⟩⟩

instance : Decidable (Balanced tokens) :=
  have : Decidable (Matched 0 tokens) := inferInstanceAs (Decidable (_ = _))
  decidable_of_iff _ matched_iff_balanced

theorem exists_order?_iff : (∃ listing, order? g tokens = some listing) ↔ Balanced tokens := by
  rw [← Option.isSome_iff_exists, isSome_order?, matched_iff_balanced]

theorem order?_eq_none_iff : order? g tokens = none ↔ ¬ Balanced tokens := by
  rw [← exists_order?_iff (g := g), ← Option.isSome_iff_exists, Option.not_isSome_iff_eq_none]

theorem not_isParenthesis_of_order? (h : order? g tokens = some listing) :
    ∀ t ∈ listing, ¬ isParenthesis t := by
  intro t ht
  simpa using (List.mem_filter.mp ((perm_of_order? h).subset ht)).2

end Postfix

open Postfix

namespace Grammar

variable {g : Grammar} {tokens listing : List Token} {fault : SyntaxFault}

theorem postfixOrder_eq_ok_iff : g.postfixOrder tokens = .ok listing ↔
    order? g tokens = some listing := by
  cases h : order? g tokens <;> simp [postfixOrder, h]

theorem postfixOrder_eq_error_iff : g.postfixOrder tokens = .error fault ↔
    ¬ Balanced tokens ∧ fault = .mismatchedParentheses := by
  rw [← order?_eq_none_iff (g := g)]
  cases h : order? g tokens <;> simp [postfixOrder, h, eq_comm]

/-- What the tokens are makes no difference to whether there is a result: it is for their
parentheses alone to decide. The result is what else there is, rearranged. -/
theorem postfixOrder_rearranges (g : Grammar) (tokens : List Token) :
    ((∃ listing, g.postfixOrder tokens = .ok listing) ↔ Balanced tokens) ∧
    (∀ fault, g.postfixOrder tokens = .error fault ↔
      ¬ Balanced tokens ∧ fault = .mismatchedParentheses) ∧
    (∀ fault, g.postfixOrder tokens = .error fault → fault.message = "mismatched parentheses") ∧
    ∀ listing, g.postfixOrder tokens = .ok listing →
      (∀ t ∈ listing, ¬ isParenthesis t) ∧
      listing.Perm (tokens.filter (!isParenthesis ·)) ∧
      listing.filter g.isOperand = tokens.filter g.isOperand := by
  refine ⟨?_, fun fault => postfixOrder_eq_error_iff, ?_, ?_⟩
  · simp only [postfixOrder_eq_ok_iff, exists_order?_iff]
  · intro fault h
    obtain ⟨-, rfl⟩ := postfixOrder_eq_error_iff.mp h
    rfl
  · intro listing h
    have ho : order? g tokens = some listing := postfixOrder_eq_ok_iff.mp h
    exact ⟨not_isParenthesis_of_order? ho, perm_of_order? ho, filter_isOperand_order? ho⟩

/-- A group without operands, and a function after its own. -/
example : ({} : Grammar).postfixOrder [.symbol .opening, .symbol (.operator .add),
    .symbol .closing, .word "x", .number "1", .word "sin"] =
      .ok [.symbol (.operator .add), .word "x", .number "1", .word "sin"] := by decide +kernel

end Grammar

end Reckon
