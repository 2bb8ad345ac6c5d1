import Reckon.Proofs.Acceptance
import Reckon.Proofs.Agreement
import Reckon.Proofs.Leaves
import Reckon.Proofs.Respelling
import Reckon.Proofs.Substitution

/-!
Variables by other names. Parsing does not look into the names of variables, so a text with other
names for them has the same tree but for these names, or the same fault.
-/
namespace Reckon

variable {g : Grammar} {ρ : String → String} {f : Func} {t : Token} {ts tokens : List Token}
  {text text' name y : String}

def Node.rename (ρ : String → String) : Node → Node
  | const x => const x
  | var name => var (ρ name)
  | function f => function f
  | operator o => operator o

def Expr.rename (ρ : String → String) : Expr → Expr :=
  subst fun name => var (ρ name)

/-- Other names for the variables: the functions keep theirs, and no variable becomes a function or
a number. -/
structure Grammar.Renames (g : Grammar) (ρ : String → String) : Prop where
  function : ∀ name, g.isFunction name → ρ name = name
  unknown : ∀ name, g.isFunction name = false → g.isFunction (ρ name) = false
  leaf : ∀ name, Node.leaf (ρ name) = (Node.leaf name).rename ρ

namespace Grammar.Renames

theorem function? (h : g.Renames ρ) (name : String) : g.function? (ρ name) = g.function? name := by
  cases hn : g.isFunction name with
  | true => rw [h.function name hn]
  | false =>
    have hρ := h.unknown name hn
    rw [isFunction, Option.isSome_eq_false_iff, Option.isNone_iff_eq_none] at hn hρ
    rw [hn, hρ]

/-- What is no operand stays. -/
theorem rename_eq (h : g.Renames ρ) (ht : g.isOperand t = false) : t.rename ρ = t := by
  cases t with
  | number text => rfl
  | word text =>
    have hword : g.isFunction text := by simpa [isOperand] using ht
    rw [Token.rename, h.function text hword]
  | symbol s => rfl

end Grammar.Renames

namespace Postfix

namespace State

variable {s : State} {output : List Token} {pending : List Pending}

def rename (ρ : String → String) (s : State) : State :=
  { s with output := s.output.map (·.rename ρ) }

theorem closeGroup_rename (h : ∀ t ∈ (State.mk output pending).waiting, t.rename ρ = t) :
    closeGroup (output.map (·.rename ρ)) pending = (closeGroup output pending).map (rename ρ) := by
  fun_induction closeGroup output pending with
  | case1 => rfl
  | case2 output f pending =>
    have hf : Token.rename ρ (.word f.name) = .word f.name := h _ List.mem_cons_self
    simp [closeGroup, rename, hf]
  | case3 output pending hne =>
    cases pending with
    | nil => rfl
    | cons entry pending =>
      cases entry with
      | group | operator => rfl
      | function f => exact absurd rfl (hne f pending)
  | case4 output o pending ih => exact ih (List.forall_mem_cons.mp h).2
  | case5 output f pending ih =>
    obtain ⟨hf, hrest⟩ := List.forall_mem_cons.mp h
    simpa only [closeGroup, List.map_cons, hf] using ih hrest

theorem release_rename (g : Grammar) (o : Operator)
    (h : ∀ t ∈ (State.mk output pending).waiting, t.rename ρ = t) :
    release g o (output.map (·.rename ρ)) pending = (release g o output pending).rename ρ := by
  fun_induction release g o output pending with
  | case1 output f pending ih =>
    obtain ⟨hf, hrest⟩ := List.forall_mem_cons.mp h
    simpa only [release, List.map_cons, hf] using ih hrest
  | case2 output p pending hle ih =>
    rw [release, if_pos hle]
    exact ih (List.forall_mem_cons.mp h).2
  | case3 output p pending hlt =>
    rw [release, if_neg hlt]
    rfl
  | case4 output pending hf ho =>
    cases pending with
    | nil => rfl
    | cons entry pending =>
      cases entry with
      | group => rfl
      | operator p => exact absurd rfl (ho p pending)
      | function f => exact absurd rfl (hf f pending)

theorem finish_rename (h : ∀ t ∈ (State.mk output pending).waiting, t.rename ρ = t) :
    finish (output.map (·.rename ρ)) pending =
      (finish output pending).map (List.map (·.rename ρ)) := by
  fun_induction finish output pending with
  | case1 output => simp [finish]
  | case2 => rfl
  | case3 output o pending ih => exact ih (List.forall_mem_cons.mp h).2
  | case4 output f pending ih =>
    obtain ⟨hf, hrest⟩ := List.forall_mem_cons.mp h
    simpa only [finish, List.map_cons, hf] using ih hrest

/-- No operand waits, so a step has the names of operands in the output alone. -/
theorem step_rename (h : g.Renames ρ) (hw : ∀ t ∈ s.waiting, t.rename ρ = t) (t : Token) :
    step g (s.rename ρ) (t.rename ρ) = (step g s t).map (rename ρ) := by
  cases t with
  | number text => rfl
  | word text =>
    simp only [Token.rename, step, h.function?]
    cases g.function? text <;> rfl
  | symbol symbol =>
    rcases symbol with _ | _ | o
    · rfl
    · exact closeGroup_rename hw
    · exact congrArg (fun u => some (u.hold (.operator o))) (release_rename g o hw)

end State

theorem InOrder.rename_waiting {s : State} (hs : InOrder g s ts) (h : g.Renames ρ) :
    ∀ t ∈ s.waiting, t.rename ρ = t := by
  intro t ht
  refine h.rename_eq (Bool.eq_false_iff.mpr fun hoperand => ?_)
  have hmem : t ∈ s.waiting.filter g.isOperand := List.mem_filter.mpr ⟨ht, hoperand⟩
  rw [hs.waiting] at hmem
  cases hmem

theorem State.foldlM_rename {s : State} (h : g.Renames ρ) (hs : InOrder g s ts) :
    (tokens.map (·.rename ρ)).foldlM (step g) (s.rename ρ) =
      (tokens.foldlM (step g) s).map (rename ρ) := by
  induction tokens generalizing s ts with
  | nil => rfl
  | cons t tokens ih =>
    rw [List.map_cons, List.foldlM_cons, List.foldlM_cons, step_rename h (hs.rename_waiting h)]
    cases hstep : step g s t with
    | none => rfl
    | some s' => exact ih (hs.step hstep)

theorem order?_rename (h : g.Renames ρ) (tokens : List Token) :
    order? g (tokens.map (·.rename ρ)) = (order? g tokens).map (List.map (·.rename ρ)) := by
  have hrun : (tokens.map (·.rename ρ)).foldlM (State.step g) {} =
      (tokens.foldlM (State.step g) {}).map (State.rename ρ) :=
    State.foldlM_rename h (InOrder.start g)
  rw [order?, order?, hrun]
  cases hs : tokens.foldlM (State.step g) {} with
  | none => rfl
  | some s =>
    have hin : InOrder g s tokens := foldlM_induction InOrder.step (InOrder.start g) hs
    exact State.finish_rename (hin.rename_waiting h)

end Postfix

namespace Forest

theorem grow_rename (ρ : String → String) (trees : Forest) (n : Node) :
    grow (trees.map (Expr.rename ρ)) (n.rename ρ) =
      (grow trees n).map (List.map (Expr.rename ρ)) := by
  cases n with
  | const | var => rfl
  | function f => cases trees <;> rfl
  | operator o => rcases trees with _ | ⟨r, _ | ⟨l, trees⟩⟩ <;> rfl

theorem single_rename (ρ : String → String) (trees : Forest) :
    single (trees.map (Expr.rename ρ)) = (single trees).map (Expr.rename ρ) := by
  rcases trees with _ | ⟨e, _ | ⟨e', trees⟩⟩
  · rfl
  · rfl
  · simp [single, Except.map]

end Forest

namespace Grammar

theorem node_rename (h : g.Renames ρ) (hs : Lexer.Spelled t) :
    g.node (t.rename ρ) = (g.node t).map (Node.rename ρ) := by
  cases t with
  | number text =>
    obtain ⟨x, -, hx⟩ := leaf_of_number hs
    simp [Token.rename, node, hx, Except.map, Node.rename]
  | word text =>
    simp only [Token.rename, node, h.function?]
    cases g.function? text with
    | none => exact congrArg Except.ok (h.leaf text)
    | some f => rfl
  | symbol s => rcases s with _ | _ | o <;> rfl

theorem foldlM_grow_rename (h : g.Renames ρ) (hs : ∀ t ∈ ts, Lexer.Spelled t) (trees : Forest) :
    (ts.map (·.rename ρ)).foldlM (fun trees t => do Forest.grow trees (← g.node t))
        (trees.map (Expr.rename ρ)) =
      (ts.foldlM (fun trees t => do Forest.grow trees (← g.node t)) trees).map
        (List.map (Expr.rename ρ)) := by
  induction ts generalizing trees with
  | nil => rfl
  | cons t ts ih =>
    rw [List.map_cons, List.foldlM_cons, List.foldlM_cons, node_rename h (hs t List.mem_cons_self)]
    cases hn : g.node t with
    | error fault => rfl
    | ok n =>
      simp only [Except.map, ok_bind, Forest.grow_rename]
      cases Forest.grow trees n with
      | error fault => rfl
      | ok grown => exact ih (fun u hu => hs u (List.mem_cons_of_mem t hu)) grown

theorem build_rename (h : g.Renames ρ) (hs : ∀ t ∈ ts, Lexer.Spelled t) :
    g.build (ts.map (·.rename ρ)) = (g.build ts).map (Expr.rename ρ) := by
  have hgrow := foldlM_grow_rename h hs []
  rw [List.map_nil] at hgrow
  rw [build, build, hgrow]
  cases ts.foldlM (fun trees t => do Forest.grow trees (← g.node t)) [] with
  | error fault => rfl
  | ok trees => exact Forest.single_rename ρ trees

theorem parseTokens_rename (h : g.Renames ρ) (hs : ∀ t ∈ tokens, Lexer.Spelled t) :
    g.parseTokens (tokens.map (·.rename ρ)) = (g.parseTokens tokens).map (Expr.rename ρ) := by
  unfold parseTokens postfixOrder
  rw [Postfix.order?_rename h]
  cases ho : Postfix.order? g tokens with
  | none => rfl
  | some listing =>
    exact build_rename h fun t ht => hs t (Postfix.subset_of_order? ho ht)

/-- Other names for the variables change nothing else about what is parsed. -/
theorem parse_rename (h : g.Renames ρ) (ht : tokenize text = .ok tokens)
    (ht' : tokenize text' = .ok (tokens.map (·.rename ρ))) :
    g.parse text' = (g.parse text).map (Expr.rename ρ) := by
  rw [parse_of_tokenize ht, parse_of_tokenize ht',
    parseTokens_rename h (Lexer.spelled_of_tokenize ht)]
  cases g.parseTokens tokens <;> rfl

theorem leaf_name (f : Func) : Node.leaf f.name = .var f.name := by
  cases f <;> decide +kernel

/-- Where `f` is no function, its name may take the place of a variable. -/
theorem renames_without (f : Func) (hfun : g.isFunction y = false) (hread : Numeral.read? y = none) :
    (g.without f).Renames (Function.update id y f.name) := by
  refine ⟨fun name hname => ?_, fun name hname => ?_, fun name => ?_⟩
  · have hne : name ≠ y := by
      rintro rfl
      rw [isFunction_without_eq_false f hfun] at hname
      cases hname
    exact Function.update_of_ne hne _ _
  · by_cases hy : name = y
    · rw [hy, Function.update_self, isFunction_without_self]
    · rw [Function.update_of_ne hy]
      exact hname
  · by_cases hy : name = y
    · have hleaf : Node.leaf y = .var y := by
        rw [Node.leaf, hread]
        rfl
      rw [hy, Function.update_self, leaf_name, hleaf, Node.rename, Function.update_self]
    · rw [Function.update_of_ne hy, id]
      rcases Node.leaf_cases name with ⟨x, hx⟩ | hx
      · rw [hx, Node.rename]
      · rw [hx, Node.rename, Function.update_of_ne hy, id]

theorem isFunction_of_parse {e : Expr} (h : g.parse text = .ok e) :
    ∀ name ∈ e.variableNames, g.isFunction name = false := by
  intro name hname
  obtain ⟨n, hn, hvar⟩ := List.mem_filterMap.mp (List.mem_eraseDups.mp hname)
  have hlegible := Expr.legible_of_parse h n (e.perm_nodes.mem_iff.mpr hn)
  cases n with
  | var m =>
    obtain rfl : m = name := Option.some.inj hvar
    rw [isFunction, hlegible.2.1]
    rfl
  | const | function | operator => cases hvar

theorem isWord_update (hy : Lexer.IsWord y.toList) (old name : String)
    (hname : Lexer.IsWord name.toList) :
    Lexer.IsWord (Function.update id old y name).toList := by
  by_cases hold : name = old
  · rwa [hold, Function.update_self]
  · rwa [Function.update_of_ne hold]

/-- A new name in place of another one is found again. -/
theorem rename_rename (hnew : .word y ∉ tokens) (name : String) :
    (tokens.map (·.rename (Function.update id name y))).map (·.rename (Function.update id y name)) =
      tokens := by
  rw [List.map_map]
  conv_rhs => rw [← List.map_id tokens]
  refine List.map_congr_left fun t ht => ?_
  cases t with
  | number | symbol => rfl
  | word text =>
    have hy : text ≠ y := by
      rintro rfl
      exact hnew ht
    by_cases hname : text = name
    · simp [Token.rename, hname]
    · simp [Token.rename, Function.update_of_ne hname, Function.update_of_ne hy]

/-- In texts without the name of `f`, it does not matter whether `f` is known. -/
theorem agrees_without (f : Func) (hfun : g.isFunction y = false) (tokens : List Token) :
    g.Agrees (g.without f) (tokens.map (·.rename (Function.update id f.name y))) := by
  refine ⟨fun name hname => ?_, fun _ _ _ _ => Iff.rfl⟩
  obtain ⟨t, -, ht⟩ := List.mem_map.mp hname
  cases t with
  | number | symbol => cases ht
  | word m =>
    obtain rfl := Token.word.inj ht
    by_cases hm : m = f.name
    · rw [hm, Function.update_self, hfun, isFunction_without_eq_false f hfun]
    · rw [Function.update_of_ne hm, id, isFunction_without hm]

/-- Without a function, its name is a variable, and nothing else is different: a text is read as
the grammar with the function reads it with any new name in place of that one. The trees are the
same but for the name, and so are the faults. With the function, no variable has its name. -/
theorem parse_without (g : Grammar) (f : Func) (ht : tokenize text = .ok tokens)
    (hy : Lexer.IsWord y.toList) (hnew : .word y ∉ tokens) (hfun : g.isFunction y = false)
    (hread : Numeral.read? y = none) :
    let text' := renameWords (Function.update id f.name y) text
    tokenize text' = .ok (tokens.map (·.rename (Function.update id f.name y))) ∧
    (g.without f).parse text = (g.parse text').map (Expr.rename (Function.update id y f.name)) ∧
    (∀ err, (g.without f).parse text = .error err → ∃ fault, err = .malformed fault) ∧
    ∀ text e, g.parse text = .ok e → ∀ name ∈ e.variableNames, g.isFunction name = false := by
  intro text'
  have ht' := tokenize_renameWords (isWord_update hy f.name) ht
  have hsame : g.parse text' = (g.without f).parse text' := by
    refine parse_eq_of_agrees fun tokens' h => ?_
    rw [← Except.ok.inj (ht'.symm.trans h)]
    exact agrees_without f hfun tokens
  refine ⟨ht', ?_, fun err => malformed_of_parse ht, fun text e => isFunction_of_parse⟩
  rw [hsame]
  refine parse_rename (renames_without f hfun hread) ht' ?_
  rw [rename_rename hnew, ht]

/-- The name of a function as an operand and after another function, and after an operand. -/
theorem parse_without_sine :
    let g : Grammar := {}
    let renamed := renameWords (Function.update id Func.sin.name "s1")
    tokenize "sin/cos sin" = .ok [.word "sin", .symbol (.operator .div), .word "cos", .word "sin"] ∧
      renamed "sin/cos sin" = "s1/cos s1" ∧
      g.parse "s1/cos s1" = .ok (.binary .div (.var "s1") (.call .cos (.var "s1"))) ∧
      (g.without .sin).parse "sin/cos sin" =
        .ok (.binary .div (.var "sin") (.call .cos (.var "sin"))) ∧
      tokenize "2.sin" = .ok [.number "2.", .word "sin"] ∧ renamed "2.sin" = "2.s1" ∧
      (g.without .sin).parse "2.sin" = .error (.malformed (.surplusOperands 2)) := by
  intro g renamed
  have ht : tokenize "sin/cos sin" =
      .ok [.word "sin", .symbol (.operator .div), .word "cos", .word "sin"] := by
    decide +kernel
  have ht' : tokenize "2.sin" = .ok [.number "2.", .word "sin"] := by decide +kernel
  have hy : Lexer.IsWord "s1".toList := by decide
  have hfun : g.isFunction "s1" = false := by decide
  have hread : Numeral.read? "s1" = none := by decide +kernel
  have hrenamed : renamed "sin/cos sin" = "s1/cos s1" := by decide +kernel
  have hrenamed' : renamed "2.sin" = "2.s1" := by decide +kernel
  have hparse : g.parse "s1/cos s1" = .ok (.binary .div (.var "s1") (.call .cos (.var "s1"))) := by
    decide +kernel
  have hfault : g.parse "2.s1" = .error (.malformed (.surplusOperands 2)) := by decide +kernel
  refine ⟨ht, hrenamed, hparse, ?_, ht', hrenamed', ?_⟩
  · have h : (g.without .sin).parse "sin/cos sin" = (g.parse (renamed "sin/cos sin")).map _ :=
      (parse_without g .sin ht hy (by decide) hfun hread).2.1
    rw [h, hrenamed, hparse]
    decide +kernel
  · have h : (g.without .sin).parse "2.sin" = (g.parse (renamed "2.sin")).map _ :=
      (parse_without g .sin ht' hy (by decide) hfun hread).2.1
    rw [h, hrenamed', hfault]
    rfl

end Grammar

end Reckon
