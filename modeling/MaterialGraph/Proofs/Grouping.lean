import MaterialGraph.Proofs.Modes
import MaterialGraph.Proofs.Operands

/-!
# Operators and their operands

Every node that writes an operator makes each value that it is given one whole operand of
it: the tree of the text that it emits has the trees of the values where the operator wants
them. A branch does so with the values it selects from, and with the two that it compares
if they bind tighter than the comparison; it puts these into its text as they stand.

## Main results

* `Expr.cast_tree`, `Expr.castTo_tree` — casts keep the value whole.
* `Compiler.operands_grouped` — every operator gets its operands whole.
* `Compiler.comparison_regrouped` — a branch does not compare another branch.
-/

namespace MaterialGraph

open Grammar Text

namespace Grammar

variable {ts : List Token}

/-! ### Phrases of several operands -/

/-- A function applied to equal arguments. -/
theorem Derives.call_replicate {fs : List Token} {f t : Tree} (hf : Derives .primary fs f)
    (h : Derives .choice ts t) (n : Nat) :
    Derives .primary (fs ++ .symbol '(' :: (ts ++ (List.replicate n (.symbol ',' :: ts)).flatten) ++
      [.symbol ')']) ((List.replicate (n + 1) t).foldl .argument (.call f)) := by
  refine .close ?_
  induction n with
  | zero => simpa using Derives.first hf h
  | succ n ih =>
    have hmore := ih.further h
    rw [List.replicate_succ' (n := n + 1), List.foldl_append]
    simpa [List.replicate_succ'] using hmore

theorem Derives.minus {us : List Token} {a b : Tree} (ha : Derives .sum ts a)
    (hb : Derives .product us b) :
    Derives .sum (ts ++ .symbol '-' :: us) (.binary (.symbol '-') a b) :=
  .binary rfl rfl ha hb

/-- A difference in parentheses. -/
theorem Derives.minusGroup {us : List Token} {a b : Tree} (ha : Derives .sum ts a)
    (hb : Derives .product us b) :
    Derives .primary (.symbol '(' :: (ts ++ .symbol '-' :: us) ++ [.symbol ')'])
      (.binary (.symbol '-') a b) :=
  .group ((ha.minus hb).whole (by decide))

/-! ### Comparisons of any two phrases

Two phrases with a comparison between them are a phrase again, but the comparison is at its
top only if both bind tight enough.
-/

section Compare

variable {as bs : List Token}

variable {op : Token} (hop : Level.comparison.takes op = true)

include hop

/-- A comparison after a comparison. Operators group to the left. -/
theorem Derives.compare_comparison {a b : Tree} (ha : Derives .comparison as a)
    (hb : Derives .comparison bs b) :
    ∃ t, Derives .comparison (as ++ op :: bs) t ∧ (t = .binary op a b → Derives .sum bs b) := by
  generalize hl : Level.comparison = l at hb
  induction hb with
  | @loosen l l' bs b hnext h _ =>
    subst hl
    cases hnext
    exact ⟨_, .binary rfl hop ha h, fun _ => h⟩
  | @binary l l' op' ps qs p q hnext hop' hp hq ih _ =>
    subst hl
    obtain ⟨t, ht, -⟩ := ih rfl
    refine ⟨.binary op' t q, ?_, fun heq => ?_⟩
    · simpa using Derives.binary hnext hop' ht hq
    · -- the second operand would be a part of itself
      cases heq
  | _ => cases hl

/-- A choice after a comparison: the comparison belongs to its condition. -/
theorem Derives.compare_choice {a b : Tree} (ha : Derives .comparison as a)
    (hb : Derives .choice bs b) :
    ∃ t, Derives .choice (as ++ op :: bs) t ∧ (t = .binary op a b → Derives .sum bs b) := by
  generalize hl : Level.choice = l at hb
  cases hb with
  | loosen hnext h =>
    subst hl
    cases hnext
    obtain ⟨t, ht, hsum⟩ := ha.compare_comparison hop h
    exact ⟨t, .loosen rfl ht, hsum⟩
  | binary _ htakes =>
    subst hl
    cases htakes
  | @choose cs ts us c x y hc hx hy =>
    obtain ⟨t, ht, -⟩ := ha.compare_comparison hop hc
    refine ⟨.choose t x y, ?_, fun heq => ?_⟩
    · simpa using Derives.choose ht hx hy
    · cases heq
  | _ => cases hl

/-- Two phrases with a comparison between them. A choice before it takes it into its last
value. -/
theorem Derives.compare {a b : Tree} (ha : Derives .choice as a) (hb : Derives .choice bs b) :
    ∃ t, Derives .choice (as ++ op :: bs) t ∧
      (t = .binary op a b → Derives .comparison as a ∧ Derives .sum bs b) := by
  generalize hl : Level.choice = l at ha
  induction ha with
  | loosen hnext h _ =>
    subst hl
    cases hnext
    obtain ⟨t, ht, hsum⟩ := h.compare_choice hop hb
    exact ⟨t, ht, fun heq => ⟨h, hsum heq⟩⟩
  | binary _ htakes =>
    subst hl
    cases htakes
  | @choose cs ts us c x y hc hx _ _ _ ih =>
    obtain ⟨t, ht, -⟩ := ih rfl
    refine ⟨.choose c x t, ?_, fun heq => ?_⟩
    · simpa using Derives.choose hc hx ht
    · cases heq
  | _ => cases hl

end Compare

end Grammar

/-! ### Change of width -/

theorem ShaderType.ne_zero_of_vector? {n : Nat} {t : ShaderType}
    (h : ShaderType.vector? n = some t) : n ≠ 0 := by
  rintro rfl
  cases h

theorem ShaderType.components_le {t : ShaderType} {n : Nat} (h : t.components = some n) :
    n ≤ 4 := by
  cases t <;> cases h <;> decide

namespace Expr

/-- The tree of a value that gets `n` components: the value itself, its first components, or
a call with the value as each argument. -/
def treeOfWidth? (types : TypeTable) (e : Expr) (n : Nat) : Option Tree := do
  let t ← e.tree?
  let width ← e.components
  if width = n then return t
  else if width = 1 then
    let f ← readText? .primary (types.name (← ShaderType.vector? n))
    return (List.replicate n t).foldl .argument (.call f)
  else return .member t (swizzle n).toList

/-- The tree of a value that gets a type. -/
def castTree? (types : TypeTable) (e : Expr) (type : ShaderType) : Option Tree :=
  if type = e.type ∨ type = .any then e.tree? else type.components.bind (e.treeOfWidth? types)

theorem isIdentifier_swizzle {n : Nat} {t : ShaderType} (h : ShaderType.vector? n = some t) :
    isIdentifier (swizzle n) = true := by
  unfold ShaderType.vector? at h
  split at h <;> first | decide | cases h

theorem member_tree {e e' : Expr} {name : String} {t : Tree} (hname : isIdentifier name = true)
    (ht : e.tree? = some t) (he : e'.code = e.operand ++ "." ++ name) :
    e'.tree? = some (.member t name.toList) := by
  refine tree?_of_derives ?_
  rw [he, tokens_member hname]
  exact .loosenTo (by decide) (.member (operand_derives ht) _)

/-- **A value whose width changes stays whole.** -/
theorem cast_tree {types : TypeTable} {e e' : Expr} {n : Nat} {t : Tree}
    (h : e.cast types n = .ok e') (ht : e.treeOfWidth? types n = some t) : e'.tree? = some t := by
  unfold treeOfWidth? at ht
  simp only [Option.bind_eq_bind, Option.bind_eq_some_iff] at ht
  obtain ⟨tree, htree, width, hwidth, ht⟩ := ht
  unfold cast at h
  split at h
  · cases h
  · next target htarget =>
    rw [hwidth] at h
    dsimp only at h
    split at h
    · next heq =>
      -- nothing to change
      rw [if_pos heq] at ht
      cases h
      cases ht
      exact htree
    · next hne =>
      rw [if_neg hne] at ht
      split at h
      · next hone =>
        rw [if_pos hone] at ht
        simp only [htarget, Option.bind_some, Option.bind_eq_some_iff] at ht
        obtain ⟨f, hf, ht⟩ := ht
        cases h
        cases ht
        have hf : Derives .primary (tokens (types.name target)) f :=
          (read?_eq_some_iff (by decide)).mp hf
        -- a number is repeated as the arguments of a constructor
        obtain ⟨m, rfl⟩ := Nat.exists_eq_succ_of_ne_zero (ShaderType.ne_zero_of_vector? htarget)
        have hcall := hf.call_replicate ((operand_derives htree).loosenTo (by decide)) m
        refine tree?_of_derives (Derives.loosenTo (by decide) ?_)
        rw [tokens_close, tokens_mark (c := '(') rfl rfl rfl, tokens_intercalate]
        exact hcall
      · next hone =>
        rw [if_neg hone] at ht
        split at h
        · next hlt =>
          cases h
          cases ht
          -- a wider vector is cut to its first components
          exact member_tree (isIdentifier_swizzle htarget) htree rfl
        · cases h

theorem castTo_tree {types : TypeTable} {e e' : Expr} {type : ShaderType} {t : Tree}
    (h : e.castTo types type = .ok e') (ht : e.castTree? types type = some t) :
    e'.tree? = some t := by
  unfold castTree? at ht
  unfold castTo at h
  split at h
  · next hsame =>
    rw [if_pos hsame] at ht
    cases h
    exact ht
  · next hother =>
    rw [if_neg hother] at ht
    split at h
    · cases h
    · next n hn =>
      rw [hn] at ht
      cases hcast : e.cast types n with
      | error fault =>
        rw [hcast] at h
        cases h
      | ok e₁ =>
        rw [hcast] at h
        have htree : e₁.tree? = some t := cast_tree hcast ht
        have hcode : e'.code = e₁.code := by
          cases h
          dsimp only
          split <;> rfl
        unfold tree? treeAt?
        rw [hcode]
        exact htree

end Expr

/-- The trees of two values at their common type. -/
def selectTrees? (types : TypeTable) (on off : Expr) : Option (Tree × Tree) := do
  let type ← on.type.combine off.type
  return (← on.castTree? types type, ← off.castTree? types type)

theorem selectOperands_trees {types : TypeTable} {on off : Expr} {x : ShaderType × Expr × Expr}
    {t : Tree × Tree} (h : selectOperands types on off = .ok x)
    (ht : selectTrees? types on off = some t) :
    x.2.1.tree? = some t.1 ∧ x.2.2.tree? = some t.2 := by
  unfold selectTrees? at ht
  simp only [Option.bind_eq_bind, Option.bind_eq_some_iff] at ht
  obtain ⟨type, htype, a, ha, b, hb, ht⟩ := ht
  unfold selectOperands at h
  rw [htype] at h
  dsimp only at h
  cases hon : on.castTo types type with
  | error fault =>
    rw [hon] at h
    cases h
  | ok on' =>
    cases hoff : off.castTo types type with
    | error fault =>
      rw [hon, hoff] at h
      cases h
    | ok off' =>
      rw [hon, hoff] at h
      cases h
      cases ht
      exact ⟨Expr.castTo_tree hon ha, Expr.castTo_tree hoff hb⟩

/-! ### Texts with operators -/

namespace BinaryOp

variable {op : BinaryOp} {c : Char}

/-- The operator of the nodes that write one. -/
def symbol? : BinaryOp → Option Char
  | .add => some '+'
  | .subtract => some '-'
  | .multiply => some '*'
  | .divide => some '/'
  | _ => none

theorem emit_of_symbol? (hc : op.symbol? = some c) (types : TypeTable) (a b : Expr) :
    op.emit types a b = do
      return (← combinedType a b, operatorCode (String.singleton c) a b) := by
  cases op <;> cases hc <;> rfl

theorem code_of_emit (hc : op.symbol? = some c) {types : TypeTable} {a b : Expr}
    {x : ShaderType × String} (h : op.emit types a b = .ok x) :
    x.2 = operatorCode (String.singleton c) a b := by
  rw [emit_of_symbol? hc] at h
  cases hct : combinedType a b with
  | error fault =>
    rw [hct] at h
    cases h
  | ok type =>
    rw [hct] at h
    cases h
    rfl

/-- The tokens of an operator, and the level that has it. -/
theorem level_of_symbol? (hc : op.symbol? = some c) :
    tokens (String.singleton c) = [.symbol c] ∧
      ∃ l l' : Level, l.next? = some l' ∧ l.takes (.symbol c) = true ∧ l ≠ .application ∧
        l' ≠ .application := by
  cases op <;> cases hc
  · exact ⟨rfl, .sum, .product, by decide⟩
  · exact ⟨rfl, .sum, .product, by decide⟩
  · exact ⟨rfl, .product, .unary, by decide⟩
  · exact ⟨rfl, .product, .unary, by decide⟩

/-- An operator between two operands. -/
theorem operatorCode_tree {a b e : Expr} {s t : Tree} (hc : op.symbol? = some c)
    (ha : a.tree? = some s) (hb : b.tree? = some t)
    (he : e.code = operatorCode (String.singleton c) a b) :
    e.tree? = some (.binary (.symbol c) s t) := by
  obtain ⟨htoken, l, l', hl, htakes, hne, hne'⟩ := level_of_symbol? hc
  have ha : Derives l (tokens a.operand) s := (Expr.operand_derives ha).loosenTo hne
  have hb : Derives l' (tokens b.operand) t := (Expr.operand_derives hb).loosenTo hne'
  refine Expr.tree?_of_derives ?_
  rw [he, operatorCode, tokens_blank, tokens_blank, htoken, List.append_assoc]
  exact (Derives.binary hl htakes ha hb).whole hne

end BinaryOp

namespace UnaryOp

theorem negate_tree {e e' : Expr} {t : Tree} (ht : e.tree? = some t)
    (he : e'.code = UnaryOp.negate.code e) : e'.tree? = some (.sign (.symbol '-') t) := by
  refine Expr.tree?_of_derives ?_
  rw [he]
  show Derives .choice (tokens ("-" ++ e.operand)) _
  rw [tokens_append]
  exact (Derives.sign rfl ((Expr.operand_derives ht).loosenTo (by decide))).whole (by decide)

theorem oneMinus_tree {e e' : Expr} {t : Tree} (ht : e.tree? = some t)
    (he : e'.code = UnaryOp.oneMinus.code e) :
    e'.tree? = some (.binary (.symbol '-') (.number ['1']) t) := by
  have hone : Derives .sum [.number ['1']] (.number ['1']) :=
    (Derives.number ['1']).loosenTo (by decide)
  refine Expr.tree?_of_derives ?_
  rw [he]
  show Derives .choice (tokens ("1" ++ " - " ++ e.operand)) _
  rw [tokens_spaced (m := ['-']) rfl]
  exact (hone.minus ((Expr.operand_derives ht).loosenTo (by decide))).whole (by decide)

end UnaryOp

namespace RemapSettings

/-- The tree of a value carried from one range to another. -/
def tree (s : RemapSettings) (t : Tree) : Tree :=
  let minus := Tree.binary (.symbol '-')
  .binary (.symbol '+') (literalTree s.outMin)
    (.binary (.symbol '/')
      (.binary (.symbol '*') (minus t (literalTree s.inMin))
        (minus (literalTree s.outMax) (literalTree s.outMin)))
      (minus (literalTree s.inMax) (literalTree s.inMin)))

theorem emit_tree {s : RemapSettings} {e e' : Expr} {t : Tree} (h : s.emit e = .ok e')
    (ht : e.tree? = some t) : e'.tree? = some (s.tree t) := by
  have hsum (x : Number.Single) : Derives .sum (tokens (floatLiteral x)) (literalTree x) :=
    .loosen rfl (.loosen rfl (floatLiteral_derives x))
  have hproduct (x : Number.Single) : Derives .product (tokens (floatLiteral x)) (literalTree x) :=
    .loosen rfl (floatLiteral_derives x)
  -- the three factors stand in parentheses
  have hvalue := ((Expr.operand_derives ht).loosenTo (l := .sum) (by decide)).minusGroup
    (hproduct s.inMin)
  have hout := (hsum s.outMax).minusGroup (hproduct s.outMin)
  have hin := (hsum s.inMax).minusGroup (hproduct s.inMin)
  have hscaled : Derives .product (_ ++ .symbol '*' :: _) (.binary (.symbol '*') _ _) :=
    .binary rfl rfl (hvalue.loosenTo (by decide)) (hout.loosenTo (by decide))
  have hquotient : Derives .product (_ ++ .symbol '/' :: _) (.binary (.symbol '/') _ _) :=
    .binary rfl rfl hscaled (hin.loosenTo (by decide))
  have hall : Derives .sum (_ ++ .symbol '+' :: _) (.binary (.symbol '+') _ _) :=
    .binary rfl rfl (hsum s.outMin) hquotient
  unfold emit at h
  cases hn : numericType e with
  | error fault =>
    rw [hn] at h
    cases h
  | ok type =>
    rw [hn] at h
    cases h
    refine Expr.tree?_of_derives ?_
    have hminus : lexFrom .idle ['-'] = [.symbol '-'] := rfl
    have hplus : lexFrom .idle ['+', ' ', '('] = [.symbol '+', .symbol '('] := rfl
    have htimes : lexFrom .idle [')', ' ', '*', ' ', '('] =
        [.symbol ')', .symbol '*', .symbol '('] := rfl
    have hover : lexFrom .idle [')', ' ', '/', ' ', '('] =
        [.symbol ')', .symbol '/', .symbol '('] := rfl
    rw [tokens_close, tokens_spaced (m := ['-']) rfl,
      tokens_spaced (m := [')', ' ', '/', ' ', '(']) rfl, tokens_spaced (m := ['-']) rfl,
      tokens_spaced (m := [')', ' ', '*', ' ', '(']) rfl, tokens_spaced (m := ['-']) rfl,
      tokens_spaced (m := ['+', ' ', '(']) rfl, hminus, hplus, htimes, hover]
    simpa [tree] using hall.whole (by decide)

end RemapSettings

namespace Comparison

theorem tokens_symbol (c : Comparison) : tokens c.symbol = [.relation c.symbol.toList] := by
  cases c <;> rfl

theorem takes_symbol (c : Comparison) :
    Level.comparison.takes (.relation c.symbol.toList) = true := by
  cases c <;> decide

end Comparison

/-- A choice between two operands. -/
theorem choice_tree {c : List Token} {tc : Tree} {condition : String} {on off e : Expr}
    {t : Tree × Tree} (hc : Derives .comparison c tc) (htokens : tokens condition = c)
    (hon : on.tree? = some t.1) (hoff : off.tree? = some t.2)
    (he : e.code = condition ++ " ? " ++ on.operand ++ " : " ++ off.operand) :
    e.tree? = some (.choose tc t.1 t.2) := by
  have hon := (Expr.operand_derives hon).whole (by decide)
  have hoff := (Expr.operand_derives hoff).whole (by decide)
  have hmark : lexFrom .idle ['?'] = [.symbol '?'] := rfl
  have hcolon : lexFrom .idle [':'] = [.symbol ':'] := rfl
  refine Expr.tree?_of_derives ?_
  rw [he, tokens_spaced (m := [':']) rfl, tokens_spaced (m := ['?']) rfl, hmark, hcolon, htokens]
  simpa using Derives.choose hc hon hoff

namespace BranchSettings

/-- The text of a comparison. -/
def condition (s : BranchSettings) (a b : Expr) : String :=
  "( " ++ a.code ++ " " ++ s.comparison.symbol ++ " " ++ b.code ++ " )"

/-- The values bind tight enough for a comparison: the first at least as tight as one, the
second tighter. -/
def Tight (a b : Expr) : Prop :=
  (a.treeAt? .comparison).isSome = true ∧ (b.treeAt? .sum).isSome = true

/-- A condition is a phrase, and it is the comparison of both values if they bind tight
enough. -/
theorem condition_derives {a b : Expr} {ta tb : Tree} (s : BranchSettings)
    (ha : a.tree? = some ta) (hb : b.tree? = some tb) :
    ∃ t, Derives .primary (tokens (s.condition a b)) t ∧
      (t = .binary (.relation s.comparison.symbol.toList) ta tb ↔ Tight a b) := by
  have hda := Expr.derives_of_tree? ha
  have hdb := Expr.derives_of_tree? hb
  have hop := s.comparison.takes_symbol
  have htight : Tight a b ↔
      Derives .comparison (tokens a.code) ta ∧ Derives .sum (tokens b.code) tb :=
    and_congr (Expr.isSome_treeAt?_iff ha (by decide)) (Expr.isSome_treeAt?_iff hb (by decide))
  obtain ⟨t, ht, htop⟩ := hda.compare hop hdb
  have htokens : tokens (s.condition a b) = .symbol '(' :: (tokens a.code ++
      .relation s.comparison.symbol.toList :: tokens b.code) ++ [.symbol ')'] := by
    unfold condition
    rw [tokens_close, tokens_blank, tokens_blank, tokens_open, s.comparison.tokens_symbol]
    simp
  refine ⟨t, htokens ▸ .group ht, ?_⟩
  rw [htight]
  refine ⟨htop, fun h => ?_⟩
  have hboth := (Derives.binary rfl hop h.1 h.2).whole (by decide)
  exact Derives.unique (by decide) ht hboth

theorem emit_tree {types : TypeTable} {s : BranchSettings} {a b on off e : Expr} {ta tb : Tree}
    {t : Tree × Tree} (h : s.emit types a b on off = .ok e) (ha : a.tree? = some ta)
    (hb : b.tree? = some tb) (ht : selectTrees? types on off = some t) :
    e.tree? = some (.choose (.binary (.relation s.comparison.symbol.toList) ta tb) t.1 t.2) ↔
      Tight a b := by
  unfold emit at h
  cases hselect : selectOperands types on off with
  | error fault =>
    rw [hselect] at h
    cases h
  | ok x =>
    rw [hselect] at h
    cases h
    obtain ⟨hon, hoff⟩ := selectOperands_trees hselect ht
    obtain ⟨tc, hc, htight⟩ := s.condition_derives ha hb
    rw [← htight, choice_tree (hc.loosenTo (by decide)) rfl hon hoff
      (by unfold condition; simp [String.append_assoc])]
    simp

end BranchSettings

namespace SplitSettings

theorem emit_tree {e e' : Expr} {letter : String} {index : Nat} {t : Tree}
    (hletter : letter ∈ componentLetters) (h : emit e letter index = .ok e')
    (ht : e.tree? = some t) : e'.tree? = some (.member t letter.toList) := by
  have hname : isIdentifier letter = true := by
    have hall : ∀ letter ∈ componentLetters, isIdentifier letter = true := by decide
    exact hall letter hletter
  unfold emit at h
  split at h
  · cases h
  · split at h
    · cases h
    · cases h
      exact Expr.member_tree hname ht rfl

end SplitSettings

namespace SwizzleSettings

/-- The letters of components, one after the other. -/
def letters (indices : List Nat) : String := String.join (indices.map letter)

/-- The letters of components that there are form a name. -/
theorem isIdentifier_letters {indices : List Nat} (hne : indices ≠ [])
    (h : ∀ i ∈ indices, i < 4) : isIdentifier (letters indices) = true := by
  have hletter : ∀ i < 4, (letter i).toList ≠ [] ∧
      (letter i).toList.all (fun c => c.isAlpha && isWordChar c) = true := by decide
  have hall : ∀ c ∈ (letters indices).toList, (c.isAlpha && isWordChar c) = true := by
    intro c hc
    rw [letters, String.toList_join] at hc
    obtain ⟨text, ht, hc⟩ := List.mem_flatMap.mp hc
    obtain ⟨i, hi, rfl⟩ := List.mem_map.mp ht
    exact List.all_eq_true.mp (hletter i (h i hi)).2 c hc
  unfold isIdentifier
  split
  · next hnil =>
    obtain ⟨i, is, rfl⟩ := List.exists_cons_of_ne_nil hne
    rw [letters, String.toList_join, List.map_cons, List.flatMap_cons] at hnil
    exact absurd (List.append_eq_nil_iff.mp hnil).1 (hletter i (h i List.mem_cons_self)).1
  · next c cs hl =>
    rw [hl] at hall
    simp only [Bool.and_eq_true] at hall
    simp only [Bool.and_eq_true, Bool.or_eq_true, List.all_eq_true]
    exact ⟨.inl (hall c List.mem_cons_self).1, fun d hd => (hall d (List.mem_cons_of_mem c hd)).2⟩

theorem emit_tree {e e' : Expr} {indices : List Nat} {t : Tree} (h : emit e indices = .ok e')
    (ht : e.tree? = some t) : e'.tree? = some (.member t (letters indices).toList) := by
  unfold emit at h
  split at h
  · cases h
  · next n hn =>
    split at h
    · cases h
    · next hfind =>
      split at h
      · cases h
      · next type htype =>
        cases h
        have hwidth : n ≤ 4 := ShaderType.components_le hn
        refine Expr.member_tree (isIdentifier_letters ?_ fun i hi => ?_) ht rfl
        · rintro rfl
          cases htype
        · have := List.find?_eq_none.mp hfind i hi
          simp only [decide_eq_true_eq] at this
          omega

end SwizzleSettings

/-! ### Plans with operators -/

namespace Pass

section Groups

variable {α β : Type} {env : Environment} {r : Resolver} {s s' : Pass}

/-- Whenever the plan gives an expression, its inputs have given something, and the tree of
the expression is the one that belongs to that. -/
def Groups (env : Environment) (r : Resolver) (plan : Plan Expr) (inputs : Plan α)
    (tree? : α → Option Tree) : Prop :=
  ∀ s e s', run env r plan s = (.ok e, s') →
    ∃ x s₁, run env r inputs s = (.ok x, s₁) ∧ ∀ t, tree? x = some t → e.tree? = some t

/-- Whenever the plan gives an expression, its inputs have given something, and the tree of
the expression is the one that belongs to that exactly if `P` holds of it. -/
def GroupsIff (env : Environment) (r : Resolver) (plan : Plan Expr) (inputs : Plan α)
    (tree? : α → Option Tree) (P : α → Prop) : Prop :=
  ∀ s e s', run env r plan s = (.ok e, s') →
    ∃ x s₁, run env r inputs s = (.ok x, s₁) ∧ ∀ t, tree? x = some t → (e.tree? = some t ↔ P x)

theorem Groups.onlyResult {plan : Plan Expr} {inputs : Plan α} {tree? : α → Option Tree}
    (h : Groups env r plan inputs tree?) (className output : String) :
    Groups env r (.onlyResult className output plan) inputs tree? :=
  fun s e s' hr => h s e s' (run_onlyResult hr)

/-- A plan that reads its inputs and then asks for nothing. -/
theorem Groups.of_emit {inputs : Plan α} {tree? : α → Option Tree} {emit : α → Except Fault Expr}
    (h : ∀ x e t, emit x = .ok e → tree? x = some t → e.tree? = some t) :
    Groups env r (inputs >>= fun x => Plan.ofExcept (emit x)) inputs tree? := by
  intro s e s' hr
  obtain ⟨x, s₁, hx, hr⟩ := run_bind_eq_ok hr
  rw [run_ofExcept] at hr
  exact ⟨x, s₁, hx, fun t ht => h x e t (congrArg Prod.fst hr) ht⟩

end Groups

end Pass

section Nodes

variable {env : Environment} {r : Pass.Resolver}

open Pass

namespace BinaryOp

/-- The operands of an operation on two values. -/
def operands (types : TypeTable) (s : BinarySettings) : Plan (Expr × Expr) := do
  let a ← .orDefault types "a" s.a (.float s.defaultA)
  let b ← .orDefault types "b" s.b (.float s.defaultB)
  return (a, b)

theorem emit_of_run {op : BinaryOp} {s : BinarySettings} {frame : Frame} {output : String}
    {s₀ s' : Pass} {e : Expr} (h : run env r (op.spec.plan s frame output) s₀ = (.ok e, s')) :
    ∃ a b, run env r (operands frame.types s) s₀ = (.ok (a, b), s') ∧
      op.emit frame.types a b = .ok (e.type, e.code) := by
  obtain ⟨a, s₁, ha, h⟩ := run_bind_eq_ok (run_onlyResult h)
  obtain ⟨b, s₂, hb, h⟩ := run_bind_eq_ok h
  obtain ⟨x, s₃, hx, h⟩ := run_bind_eq_ok h
  rw [run_ofExcept] at hx
  obtain ⟨hemit, rfl⟩ := Prod.mk.inj hx
  cases h
  refine ⟨a, b, ?_, hemit⟩
  unfold operands
  rw [run_bind_of_ok ha, run_bind_of_ok hb]
  rfl

/-- The tree of an operator with its operands. -/
def tree? (c : Char) (x : Expr × Expr) : Option Tree := do
  return .binary (.symbol c) (← x.1.tree?) (← x.2.tree?)

theorem plan_groups {op : BinaryOp} {c : Char} (hc : op.symbol? = some c) (s : BinarySettings)
    (frame : Frame) (output : String) :
    Groups env r (op.spec.plan s frame output) (operands frame.types s) (tree? c) := by
  intro s₀ e s' hr
  obtain ⟨a, b, hoperands, hemit⟩ := emit_of_run hr
  refine ⟨(a, b), s', hoperands, fun t ht => ?_⟩
  simp only [tree?, Option.bind_eq_bind, Option.bind_eq_some_iff] at ht
  obtain ⟨ta, hta, tb, htb, ht⟩ := ht
  cases ht
  exact operatorCode_tree hc hta htb (code_of_emit hc hemit)

end BinaryOp

namespace UnaryOp

/-- The operand of an operation on one value. -/
def operand (types : TypeTable) (s : UnarySettings) : Plan Expr :=
  .orDefault types "input" s.input (.float s.fallback)

theorem plan_groups {op : UnaryOp} {tree : Tree → Tree}
    (htree : ∀ {e e' : Expr} {t : Tree}, e.tree? = some t → e'.code = op.code e →
      e'.tree? = some (tree t)) (s : UnarySettings) (frame : Frame) (output : String) :
    Groups env r (op.spec.plan s frame output) (operand frame.types s) (·.tree?.map tree) := by
  intro s₀ e s' hr
  obtain ⟨a, s₁, ha, hr⟩ := run_bind_eq_ok (run_onlyResult hr)
  obtain ⟨x, s₂, hx, hr⟩ := run_bind_eq_ok hr
  rw [run_ofExcept] at hx
  refine ⟨a, s₁, ha, fun t ht => ?_⟩
  obtain ⟨ta, hta, rfl⟩ := Option.map_eq_some_iff.mp ht
  cases hr
  refine htree hta ?_
  have hx : op.emit a = .ok x := congrArg Prod.fst hx
  unfold emit at hx
  cases hn : numericType a with
  | error fault =>
    rw [hn] at hx
    cases hx
  | ok type =>
    rw [hn] at hx
    cases hx
    rfl

end UnaryOp

namespace BranchSettings

/-- The values of a branch: the two that it compares and the two that it selects from. -/
def operands (types : TypeTable) (s : BranchSettings) : Plan ((Expr × Expr) × Expr × Expr) := do
  let a ← .orDefault types "a" s.a (.float s.defaultA)
  let b ← .orDefault types "b" s.b (.float s.defaultB)
  let on ← .orDefault types "on_true" s.onTrue (.float s.defaultTrue)
  let off ← .orDefault types "on_false" s.onFalse (.float s.defaultFalse)
  return ((a, b), on, off)

theorem emit_of_run {s : BranchSettings} {frame : Frame} {output : String} {s₀ s' : Pass}
    {e : Expr} (h : run env r (spec.plan s frame output) s₀ = (.ok e, s')) :
    ∃ a b on off, run env r (s.operands frame.types) s₀ = (.ok ((a, b), on, off), s') ∧
      s.emit frame.types a b on off = .ok e := by
  obtain ⟨a, s₁, ha, h⟩ := run_bind_eq_ok (run_onlyResult h)
  obtain ⟨b, s₂, hb, h⟩ := run_bind_eq_ok h
  split at h
  · cases h
  · obtain ⟨on, s₃, hon, h⟩ := run_bind_eq_ok h
    obtain ⟨off, s₄, hoff, h⟩ := run_bind_eq_ok h
    rw [run_ofExcept] at h
    obtain ⟨hemit, rfl⟩ := Prod.mk.inj h
    refine ⟨a, b, on, off, ?_, hemit⟩
    unfold operands
    rw [run_bind_of_ok ha, run_bind_of_ok hb, run_bind_of_ok hon, run_bind_of_ok hoff]
    rfl

/-- The tree of a branch with its operands. -/
def tree? (types : TypeTable) (s : BranchSettings) (x : (Expr × Expr) × Expr × Expr) :
    Option Tree := do
  let a ← x.1.1.tree?
  let b ← x.1.2.tree?
  let t ← selectTrees? types x.2.1 x.2.2
  return .choose (.binary (.relation s.comparison.symbol.toList) a b) t.1 t.2

theorem plan_groups (s : BranchSettings) (frame : Frame) (output : String) :
    GroupsIff env r (spec.plan s frame output) (s.operands frame.types) (s.tree? frame.types)
      fun x => Tight x.1.1 x.1.2 := by
  intro s₀ e s' hr
  obtain ⟨a, b, on, off, hoperands, hemit⟩ := emit_of_run hr
  refine ⟨((a, b), on, off), s', hoperands, fun t ht => ?_⟩
  simp only [tree?, Option.bind_eq_bind, Option.bind_eq_some_iff] at ht
  obtain ⟨ta, hta, tb, htb, x, hx, ht⟩ := ht
  cases ht
  exact emit_tree hemit hta htb hx

end BranchSettings

namespace SwitchSettings

theorem selection_of_run {s : SwitchSettings} {frame : Frame} {output : String} {s₀ s' : Pass}
    {e : Expr} (h : run env r (spec.plan s frame output) s₀ = (.ok e, s')) :
    ∃ x s₁ y, run env r (s.operands frame.types) s₀ = (.ok x, s₁) ∧
      selectOperands frame.types x.1 x.2 = .ok y ∧
      run env r (s.selection frame.mode y) s₁ = (.ok e, s') := by
  rw [plan_eq] at h
  obtain ⟨x, s₁, hx, h⟩ := run_bind_eq_ok (run_onlyResult h)
  obtain ⟨y, s₂, hy, h⟩ := run_bind_eq_ok h
  rw [run_ofExcept] at hy
  obtain ⟨hselect, rfl⟩ := Prod.mk.inj hy
  exact ⟨x, s₁, y, hx, hselect, h⟩

/-- The attribute that a switch tests. -/
def condition (s : SwitchSettings) : Plan Expr := do
  Plan.ofExcept (← Plan.request (.toggle s.name s.previewValue))

/-- The values of a switch that is decided when the program runs: those that it selects from
and the attribute that it tests. -/
def values (types : TypeTable) (s : SwitchSettings) : Plan ((Expr × Expr) × Expr) := do
  let x ← s.operands types
  let condition ← s.condition
  return (x, condition)

/-- The tree of a switch with its operands and its condition. -/
def tree? (types : TypeTable) (x : (Expr × Expr) × Expr) : Option Tree := do
  let c ← x.2.treeAt? .comparison
  let t ← selectTrees? types x.1.1 x.1.2
  return .choose c t.1 t.2

theorem plan_groups (s : SwitchSettings) {frame : Frame} (hmode : frame.mode = .preview)
    (output : String) :
    Groups env r (spec.plan s frame output) (values frame.types s) (tree? frame.types) := by
  intro s₀ e s' hr
  obtain ⟨x, s₁, y, hx, hselect, hr⟩ := selection_of_run hr
  rw [hmode] at hr
  have hr : run env r (s.condition >>= fun toggle => .done
    { type := y.1, code := toggle.code ++ " ? " ++ y.2.1.operand ++ " : " ++ y.2.2.operand }) s₁ =
      (.ok e, s') := hr
  obtain ⟨toggle, s₃, htoggle, hr⟩ := run_bind_eq_ok hr
  refine ⟨(x, toggle), s₃, ?_, fun t ht => ?_⟩
  · unfold values
    rw [run_bind_of_ok hx, run_bind_of_ok htoggle]
    rfl
  · simp only [tree?, Option.bind_eq_bind, Option.bind_eq_some_iff] at ht
    obtain ⟨c, hc, u, hu, ht⟩ := ht
    cases ht
    cases hr
    obtain ⟨hon, hoff⟩ := selectOperands_trees hselect hu
    exact choice_tree ((read?_eq_some_iff (by decide)).mp hc) rfl hon hoff rfl

end SwitchSettings

namespace SplitSettings

theorem plan_groups (s : SplitSettings) (frame : Frame) (output : String) :
    Groups env r (spec.plan s frame output)
      (.orDefault frame.types "input" s.input (.vector4 s.fallback))
      (·.tree?.map (.member · output.toList)) := by
  unfold spec
  dsimp only
  split
  · intro s₀ e s' hr
    cases hr
  · next index hindex =>
    have hletter : output ∈ componentLetters := by
      obtain ⟨hlt, heq, -⟩ := List.findIdx?_eq_some_iff_getElem.mp hindex
      rw [← beq_iff_eq.mp heq]
      exact List.getElem_mem hlt
    refine Groups.of_emit fun x e t he ht => ?_
    obtain ⟨tx, htx, rfl⟩ := Option.map_eq_some_iff.mp ht
    exact emit_tree hletter he htx

end SplitSettings

namespace SwizzleSettings

theorem plan_groups {s : SwizzleSettings} {indices : List Nat} (hs : s.indices? = some indices)
    (frame : Frame) (output : String) :
    Groups env r (spec.plan s frame output)
      (.orDefault frame.types "input" s.input (.vector4 .zeros))
      (·.tree?.map (.member · (letters indices).toList)) := by
  refine Groups.onlyResult ?_ _ _
  rw [hs]
  refine Groups.of_emit fun x e t he ht => ?_
  obtain ⟨tx, htx, rfl⟩ := Option.map_eq_some_iff.mp ht
  exact emit_tree he htx

end SwizzleSettings

namespace RemapSettings

theorem plan_groups (s : RemapSettings) (frame : Frame) (output : String) :
    Groups env r (spec.plan s frame output)
      (.orDefault frame.types "input" s.input (.float zero)) (·.tree?.map s.tree) := by
  refine Groups.onlyResult (Groups.of_emit fun x e t he ht => ?_) _ _
  obtain ⟨tx, htx, rfl⟩ := Option.map_eq_some_iff.mp ht
  exact emit_tree he htx

end RemapSettings

namespace SampleSettings

theorem plan_groups (k : SampleKind) (s : SampleSettings) (frame : Frame) {output : String}
    (hchannel : output ∈ channelOutputs) :
    Groups env r ((spec k).plan s frame output) (.own resultOutput)
      (·.tree?.map (.member · output.toList)) := by
  have hname : ∀ output ∈ channelOutputs, isIdentifier output = true := by decide
  show Groups env r (plan k s frame output) _ _
  unfold plan
  rw [if_pos hchannel]
  intro s₀ e s' hr
  obtain ⟨color, s₁, hcolor, hr⟩ := run_bind_eq_ok hr
  refine ⟨color, s₁, hcolor, fun t ht => ?_⟩
  obtain ⟨tc, htc, rfl⟩ := Option.map_eq_some_iff.mp ht
  cases hr
  exact Expr.member_tree (hname output hchannel) htc rfl

end SampleSettings

/-! ### The attributes of switches -/

/-- The global of a standard type is a name. -/
theorem TypeTable.builtin_naming_tokens :
    TypeTable.builtin.Naming fun name => tokens name = [.word name.toList] := by
  intro t name hname
  obtain ⟨cs, hlist, hcs⟩ := builtin_global t hname
  refine tokens_of_isIdentifier ?_
  unfold isIdentifier
  rw [hlist]
  simp only [Bool.and_eq_true, List.all_eq_true]
  exact ⟨by decide, hcs⟩

/-- What registration gives for the attribute of a feature has the global of a parameter. -/
theorem Pass.bindToggle_global {N : String → Prop} (hN : env.types.Naming N) {name : String}
    {initial : Bool} {s : Pass} {e : Expr} (h : (s.bindToggle env name initial).1 = .ok e) :
    N e.code := by
  have hyields : World.lax.Yields (fun e => N e.code) (s.bindToggle env name initial).1 := by
    unfold bindToggle
    dsimp only
    split
    · exact .error trivial
    · rw [bindParameter_eq]
      exact (Globals.addParameter_yields hN _ _).map fun p hp => hp
  rw [h] at hyields
  exact hyields

namespace SwitchSettings

/-- Among the standard types, the attribute that a switch tests is a name. -/
theorem condition_tree (htypes : env.types = .builtin) {s : SwitchSettings} {p p' : Pass}
    {e : Expr} (h : run env r s.condition p = (.ok e, p')) :
    e.treeAt? .comparison = some (.word e.code.toList) := by
  have hword : tokens e.code = [.word e.code.toList] := by
    obtain ⟨x, p₁, hx, h⟩ := run_bind_eq_ok h
    rw [run_ofExcept] at h
    rw [run_request, perform_toggle] at hx
    obtain rfl : x = .ok e := congrArg Prod.fst h
    exact bindToggle_global (htypes ▸ TypeTable.builtin_naming_tokens)
      (Except.ok.inj (congrArg Prod.fst hx))
  refine (read?_eq_some_iff (by decide)).mpr ?_
  rw [hword]
  exact (Derives.word _).loosenTo (by decide)

end SwitchSettings

end Nodes

/-- **Every operator gets its operands whole.** Whenever a node with an operator gives an
expression, the text of the expression has the tree in which the trees of the values it was
given stand where the operator wants them. -/
structure Grouped (env : Environment) (r : Pass.Resolver) : Prop where
  /-- Sums, differences, products and quotients. -/
  binary : ∀ (op : BinaryOp) c, op.symbol? = some c → ∀ s frame output,
    Pass.Groups env r (op.spec.plan s frame output) (BinaryOp.operands frame.types s)
      (BinaryOp.tree? c)
  /-- A value with the opposite sign. -/
  negate : ∀ s frame output,
    Pass.Groups env r (UnaryOp.negate.spec.plan s frame output) (UnaryOp.operand frame.types s)
      (·.tree?.map (.sign (.symbol '-')))
  /-- The difference to one. -/
  oneMinus : ∀ s frame output,
    Pass.Groups env r (UnaryOp.oneMinus.spec.plan s frame output) (UnaryOp.operand frame.types s)
      (·.tree?.map (.binary (.symbol '-') (.number ['1'])))
  /-- A value carried from one range to another. -/
  remap : ∀ (s : RemapSettings) frame output,
    Pass.Groups env r (RemapSettings.spec.plan s frame output)
      (.orDefault frame.types "input" s.input (.float zero)) (·.tree?.map s.tree)
  /-- A branch, exactly if the values that it compares bind tight enough. -/
  branch : ∀ (s : BranchSettings) frame output,
    Pass.GroupsIff env r (BranchSettings.spec.plan s frame output) (s.operands frame.types)
      (s.tree? frame.types) fun x => BranchSettings.Tight x.1.1 x.1.2
  /-- A switch that is decided when the program runs. -/
  switch : ∀ (s : SwitchSettings) (frame : Frame) output, frame.mode = .preview →
    Pass.Groups env r (SwitchSettings.spec.plan s frame output)
      (SwitchSettings.values frame.types s) (SwitchSettings.tree? frame.types)
  /-- What such a switch tests is a name. -/
  condition : env.types = .builtin → ∀ (s : SwitchSettings) p e p',
    Pass.run env r s.condition p = (.ok e, p') →
      e.treeAt? .comparison = some (.word e.code.toList)
  /-- A component of a vector. -/
  split : ∀ (s : SplitSettings) frame output,
    Pass.Groups env r (SplitSettings.spec.plan s frame output)
      (.orDefault frame.types "input" s.input (.vector4 s.fallback))
      (·.tree?.map (.member · output.toList))
  /-- Some of the components of a vector. -/
  swizzle : ∀ (s : SwizzleSettings) indices, s.indices? = some indices → ∀ frame output,
    Pass.Groups env r (SwizzleSettings.spec.plan s frame output)
      (.orDefault frame.types "input" s.input (.vector4 .zeros))
      (·.tree?.map (.member · (SwizzleSettings.letters indices).toList))
  /-- A channel of a colour read from a texture. -/
  channel : ∀ k (s : SampleSettings) frame output, output ∈ SampleSettings.channelOutputs →
    Pass.Groups env r ((SampleSettings.spec k).plan s frame output) (.own resultOutput)
      (·.tree?.map (.member · output.toList))
  /-- A value whose width changes. -/
  cast : ∀ (types : TypeTable) (e e' : Expr) n t, e.cast types n = .ok e' →
    e.treeOfWidth? types n = some t → e'.tree? = some t

namespace Compiler

/-- **Every operator gets its operands whole**, whatever has been done before and however
the inputs of the node are resolved. -/
theorem operands_grouped (env : Environment) (r : Pass.Resolver) : Grouped env r where
  binary _ _ hc := BinaryOp.plan_groups hc
  negate := UnaryOp.plan_groups UnaryOp.negate_tree
  oneMinus := UnaryOp.plan_groups UnaryOp.oneMinus_tree
  remap := RemapSettings.plan_groups
  branch := BranchSettings.plan_groups
  switch s _ output hmode := s.plan_groups hmode output
  condition htypes _ _ _ _ h := SwitchSettings.condition_tree htypes h
  split := SplitSettings.plan_groups
  swizzle _ _ hs := SwizzleSettings.plan_groups hs
  channel k s frame _ h := s.plan_groups k frame h
  cast _ _ _ _ _ := Expr.cast_tree

/-- A way to resolve inputs: the first node gives a difference and all others a choice. -/
def loose : Pass.Resolver := fun site s =>
  (.valid { type := .float, code := if site.node = ⟨1⟩ then "a - b" else "c ? 1.0f : 0.0f" }, s)

/-- An operation on what the first two nodes give. -/
def firstTwo : BinarySettings where
  a := .ofNode 1
  b := .ofNode 2
  defaultA := zero
  defaultB := zero

/-- The third node, in the pixel stage. -/
def third : Frame := ⟨.builtin, .preview, .pixel, [], ⟨3⟩⟩

/-- A branch that compares what the first node gives and may select what the second one gives. -/
def ifFirst : BranchSettings := { a := .ofNode 1, onTrue := .ofNode 2 }

/-- The difference of a difference and a choice, and a branch that compares the one and selects the
other. What the branch compares binds tight enough. -/
theorem operands_grouped_difference :
    let difference := Tree.binary (.symbol '-') (.word ['a']) (.word ['b'])
    let zero := Tree.number "0.0f".toList
    let choice := Tree.choose (.word ['c']) (.number "1.0f".toList) zero
    (∃ e s', Pass.run (({} : Compiler).environment .preview {}) loose
        (BinaryOp.subtract.spec.plan firstTwo third "result") {} = (.ok e, s') ∧
      e.code = "( a - b ) - ( c ? 1.0f : 0.0f )" ∧
      e.tree? = some (.binary (.symbol '-') difference choice)) ∧
    ∃ e s', Pass.run (({} : Compiler).environment .preview {}) loose
        (BranchSettings.spec.plan ifFirst third "result") {} = (.ok e, s') ∧
      e.code = "( a - b == 0.0f ) ? ( c ? 1.0f : 0.0f ) : 0.0f" ∧
      e.tree? = some (.choose (.binary (.relation "==".toList) difference zero) choice zero) := by
  have hgrouped := operands_grouped (({} : Compiler).environment .preview {}) loose
  refine ⟨⟨_, _, rfl, rfl, ?_⟩, _, _, rfl, rfl, ?_⟩
  · obtain ⟨x, s₁, hx, h⟩ := hgrouped.binary .subtract '-' rfl firstTwo third "result" {} _ _ rfl
    cases hx
    exact h _ (by decide +kernel)
  · obtain ⟨x, s₁, hx, h⟩ := hgrouped.branch ifFirst third "result" {} _ _ rfl
    cases hx
    have htight : BranchSettings.Tight { type := .float, code := "a - b" }
        ((Constant.float MaterialGraph.zero).expr .builtin) :=
      ⟨by decide +kernel, by decide +kernel⟩
    exact (h _ (by decide +kernel)).mpr htight

/-- A branch that compares the value of another branch. -/
def nestedDocument : Document where
  nodes := [
    .of .materialResult 1 { roughness := .ofNode 3 },
    .of .branch 2 {},
    .of .branch 3 { a := .ofNode 2 }]

/-- The tree of what a node gives when the document is compiled. -/
def treeOf? (d : Document) (node : NodeId) : Option Tree := do
  let draft ← (({} : Compiler).materialDraft d {}).toOption
  match ← draft.pass.progress? ⟨[], node, "result", .pixel⟩ with
  | .finished outcome => (← outcome.expr?).tree?
  | .started => none

/-- **A branch does not compare another branch as a whole.** What it compares with becomes
part of the last value of the other one. -/
theorem comparison_regrouped :
    let zero := Tree.number "0.0f".toList
    let one := Tree.number "1.0f".toList
    let equal := Tree.binary (.relation "==".toList)
    let other := Tree.choose (equal zero zero) one zero
    treeOf? nestedDocument ⟨2⟩ = some other ∧
    treeOf? nestedDocument ⟨3⟩ =
      some (.choose (.choose (equal zero zero) one (equal zero zero)) one zero) ∧
    treeOf? nestedDocument ⟨3⟩ ≠ some (.choose (equal other zero) one zero) := by
  decide +kernel

end Compiler

end MaterialGraph
