import Mathlib.Order.Bounds.Defs
import MaterialGraph.Proofs.Grouping

/-!
# Widths of operands

A node that works on each component takes scalars and vectors of one width. The type that
it declares for its value is as wide as the widest of them, and every value in its text is a
scalar or just as wide. Two vectors of different widths are refused. Only an interpolation
between two scalars does not look at the width of its third value.

## Main results

* `ShaderType.components_combine` — the width of a common type.
* `ShaderType.Spans.snoc` — one more value.
* `LerpSettings.emit_spans_iff` — when the values of an interpolation agree.
* `Compiler.widths_agree` — component-wise nodes agree on widths.
* `Compiler.scalar_lerp_at_vector` — an interpolation between scalars at a vector.
-/

namespace MaterialGraph

/-- Something done in two parts gives a value only if both parts do. -/
theorem exists_of_bind_eq_ok {ε α β : Type} {x : Except ε α} {f : α → Except ε β} {b : β}
    (h : x >>= f = .ok b) : ∃ a, x = .ok a ∧ f a = .ok b := by
  cases x with
  | error fault => cases h
  | ok a => exact ⟨a, rfl, h⟩

/-! ### Widths of types -/

namespace ShaderType

theorem components_pos {t : ShaderType} {n : Nat} (h : t.components = some n) : 0 < n := by
  cases t <;> cases h <;> decide

theorem components_vector? {n : Nat} {t : ShaderType} (h : vector? n = some t) :
    t.components = some n := by
  unfold vector? at h
  split at h <;> cases h <;> rfl

/-- The common type of two types has the greater width, and the other one is a scalar or as
wide. -/
theorem components_combine {s t r : ShaderType} (h : s.combine t = some r) :
    ∃ m n, s.components = some m ∧ t.components = some n ∧ r.components = some (max m n) ∧
      (m = 1 ∨ n = 1 ∨ m = n) := by
  unfold combine at h
  split at h
  · next hs ht =>
    refine ⟨1, 1, hs, ht, ?_, .inl rfl⟩
    cases h
    split <;> rfl
  · next n _ hs ht =>
    cases h
    have hpos := components_pos ht
    exact ⟨1, n, hs, ht, by rw [ht, Nat.max_eq_right hpos], .inl rfl⟩
  · next m _ hs ht =>
    cases h
    have hpos := components_pos hs
    exact ⟨m, 1, hs, ht, by rw [hs, Nat.max_eq_left hpos], .inr (.inl rfl)⟩
  · next m n _ _ _ hs ht =>
    by_cases hmn : m = n
    · subst hmn
      rw [if_pos rfl] at h
      refine ⟨m, m, hs, ht, ?_, .inr (.inr rfl)⟩
      rw [Nat.max_self]
      split at h
      · cases h
        exact hs
      · exact components_vector? h
    · rw [if_neg hmn] at h
      cases h
  · cases h

/-- The type has `n` components, each of the values is a scalar or has as many, and `n` is the
greatest width among them. -/
structure Spans (t : ShaderType) (values : List Expr) (n : Nat) : Prop where
  components : t.components = some n
  /-- The width of each value. -/
  each : ∀ e ∈ values, e.components = some 1 ∨ e.components = some n
  /-- The greatest width of the values. -/
  widest : IsGreatest {m | ∃ e ∈ values, e.components = some m} n

end ShaderType

/-- Two of the values are vectors of different widths. -/
def Expr.Clash (values : List Expr) : Prop :=
  ∃ a ∈ values, ∃ b ∈ values, ∃ m n,
    a.components = some m ∧ b.components = some n ∧ 1 < m ∧ 1 < n ∧ m ≠ n

namespace ShaderType.Spans

variable {t r : ShaderType} {values : List Expr} {m n : Nat}

/-- No value is wider than the type if each is a scalar or as wide. -/
theorem of_each (ht : t.components = some n)
    (heach : ∀ e ∈ values, e.components = some 1 ∨ e.components = some n)
    (hsome : ∃ e ∈ values, e.components = some n) : t.Spans values n := by
  refine ⟨ht, heach, hsome, ?_⟩
  rintro m ⟨e, he, hm⟩
  rcases heach e he with hone | hn
  · obtain rfl : m = 1 := Option.some.inj (hm.symm.trans hone)
    exact components_pos ht
  · exact Nat.le_of_eq (Option.some.inj (hm.symm.trans hn))

theorem single {e : Expr} (he : e.components = some n) : e.type.Spans [e] n := by
  apply of_each he
  · intro x hx
    rw [List.mem_singleton.mp hx]
    exact .inr he
  · exact ⟨e, List.mem_singleton.mpr rfl, he⟩

theorem snoc {e : Expr} (h : t.Spans values m) (hr : t.combine e.type = some r) :
    ∃ n, r.Spans (values ++ [e]) n := by
  obtain ⟨m', k, hm', hk, hmax, hagree⟩ := components_combine hr
  obtain rfl : m' = m := Option.some.inj (hm'.symm.trans h.components)
  have hm := components_pos h.components
  have hpos := components_pos hk
  refine ⟨max m' k, of_each hmax ?_ ?_⟩
  · intro x hx
    rcases List.mem_append.mp hx with hx | hx
    · rcases h.each x hx with hone | hwide
      · exact .inl hone
      · rw [hwide, Option.some.injEq, Option.some.injEq]
        omega
    · rw [List.mem_singleton.mp hx, Expr.components, hk, Option.some.injEq, Option.some.injEq]
      omega
  · -- the widest is the new value, or the one that has been before
    rcases Nat.le_total m' k with hle | hle
    · exact ⟨e, by simp, by rw [Nat.max_eq_right hle]; exact hk⟩
    · obtain ⟨x, hx, hwide⟩ := h.widest.1
      exact ⟨x, by simp [hx], by rw [Nat.max_eq_left hle]; exact hwide⟩

/-- One more value that is a scalar or as wide as the type. -/
theorem concat {e : Expr} (h : t.Spans values n)
    (he : e.components = some 1 ∨ e.components = some n) : t.Spans (values ++ [e]) n := by
  obtain ⟨x, hx, hwide⟩ := h.widest.1
  apply of_each h.components
  · intro y hy
    rcases List.mem_append.mp hy with hy | hy
    · exact h.each y hy
    · rw [List.mem_singleton.mp hy]
      exact he
  · exact ⟨x, List.mem_append_left _ hx, hwide⟩

theorem not_clash (h : t.Spans values n) : ¬ Expr.Clash values := by
  rintro ⟨a, ha, b, hb, k, l, hk, hl, hk1, hl1, hne⟩
  have hwidth : ∀ x ∈ values, ∀ w, x.components = some w → 1 < w → w = n := by
    intro x hx w hw hw1
    rcases h.each x hx with hone | hn
    · have : w = 1 := Option.some.inj (hw.symm.trans hone)
      omega
    · exact Option.some.inj (hw.symm.trans hn)
  exact hne ((hwidth a ha k hk hk1).trans (hwidth b hb l hl hl1).symm)

end ShaderType.Spans

/-! ### Widths of values -/

namespace Expr

variable {types : TypeTable} {e e' : Expr}

theorem components_cast {n : Nat} (h : e.cast types n = .ok e') : e'.components = some n := by
  unfold cast at h
  split at h
  · cases h
  · next target htarget =>
    have hwidth := ShaderType.components_vector? htarget
    split at h
    · cases h
    · next width hw =>
      split at h
      · next heq =>
        cases h
        rw [hw, heq]
      · split at h
        · cases h
          exact hwidth
        · split at h
          · cases h
            exact hwidth
          · cases h

theorem components_castTo {t : ShaderType} {n : Nat} (h : e.castTo types t = .ok e')
    (ht : t.components = some n) : e'.components = some n := by
  unfold castTo at h
  split at h
  · next hsame =>
    cases h
    rcases hsame with rfl | rfl
    · exact ht
    · cases ht
  · rw [ht] at h
    dsimp only at h
    cases hcast : e.cast types n with
    | error fault =>
      rw [hcast] at h
      cases h
    | ok e₁ =>
      rw [hcast] at h
      cases h
      dsimp only
      rw [if_pos (components_cast hcast)]
      exact ht

end Expr

theorem eq_type_of_numericType {e : Expr} {t : ShaderType} (h : numericType e = .ok t) :
    t = e.type := by
  unfold numericType at h
  split at h
  · cases h
    rfl
  · cases h

theorem combine_of_combinedType {a b : Expr} {r : ShaderType} (h : combinedType a b = .ok r) :
    a.type.combine b.type = some r := by
  obtain ⟨s, hs, h⟩ := exists_of_bind_eq_ok h
  obtain ⟨t, ht, h⟩ := exists_of_bind_eq_ok h
  obtain rfl := eq_type_of_numericType hs
  obtain rfl := eq_type_of_numericType ht
  split at h
  · next hr =>
    cases h
    exact hr
  · cases h

/-- The common type of two values spans both. -/
theorem spans_of_combine {a b : Expr} {r : ShaderType} (h : a.type.combine b.type = some r) :
    ∃ n, r.Spans [a, b] n := by
  obtain ⟨m, -, hm, -⟩ := ShaderType.components_combine h
  exact (ShaderType.Spans.single hm).snoc h

/-- Two values that are brought to one width have the width of their common type. -/
theorem components_of_widened {types : TypeTable} {a b : Expr} {p : Expr × Expr}
    (h : widened types a b = .ok p) :
    ∃ r n, a.type.combine b.type = some r ∧ r.components = some n ∧
      p.1.components = some n ∧ p.2.components = some n := by
  obtain ⟨r, hr, h⟩ := exists_of_bind_eq_ok h
  have hcombine := combine_of_combinedType hr
  obtain ⟨m, k, -, -, hmax, -⟩ := ShaderType.components_combine hcombine
  rw [hmax] at h
  obtain ⟨a', ha, h⟩ := exists_of_bind_eq_ok h
  obtain ⟨b', hb, h⟩ := exists_of_bind_eq_ok h
  cases h
  exact ⟨r, max m k, hcombine, hmax, Expr.components_cast ha, Expr.components_cast hb⟩

/-- The type of a selection spans both values, as they are given and as they are written. -/
theorem spans_of_selectOperands {types : TypeTable} {on off : Expr}
    {x : ShaderType × Expr × Expr} (h : selectOperands types on off = .ok x) :
    ∃ n, x.1.Spans [on, off] n ∧ x.1.Spans [x.2.1, x.2.2] n := by
  unfold selectOperands at h
  split at h
  · cases h
  · next type htype =>
    obtain ⟨n, hspans⟩ := spans_of_combine htype
    obtain ⟨on', hon, h⟩ := exists_of_bind_eq_ok h
    obtain ⟨off', hoff, h⟩ := exists_of_bind_eq_ok h
    cases h
    have hon' := Expr.components_castTo hon hspans.components
    have hoff' := Expr.components_castTo hoff hspans.components
    refine ⟨n, hspans, .of_each hspans.components ?_ ⟨on', by simp, hon'⟩⟩
    simp [hon', hoff']

/-! ### Interpolation -/

namespace LerpSettings

variable {types : TypeTable} {a b t e : Expr}

/-- The text of an interpolation. -/
def text (a b t : Expr) : String :=
  "lerp( " ++ a.code ++ ", " ++ b.code ++ ", " ++ t.code ++ " )"

/-- What an interpolation makes sure of: its two values get one width, and the third is a
scalar or has a common type with them. -/
theorem of_emit (h : emit types a b t = .ok e) :
    ∃ p, widened types a b = .ok p ∧ combinedType p.1 p.2 = .ok e.type ∧
      (t.components = some 1 ∨ ∃ r, combinedType p.1 t = .ok r) ∧ e.code = text p.1 p.2 t := by
  obtain ⟨⟨a', b'⟩, hp, h⟩ := exists_of_bind_eq_ok h
  obtain ⟨type, htype, h⟩ := exists_of_bind_eq_ok h
  by_cases ht : t.components = some 1
  · rw [if_neg (not_not_intro ht)] at h
    cases h
    exact ⟨(a', b'), hp, htype, .inl ht, rfl⟩
  · rw [if_pos ht] at h
    obtain ⟨r, hr, h⟩ := exists_of_bind_eq_ok h
    cases h
    exact ⟨(a', b'), hp, htype, .inr ⟨r, hr⟩, rfl⟩

/-- Both ends are scalars, and the place between them is not. -/
def Uneven (a b t : Expr) : Prop :=
  a.components = some 1 ∧ b.components = some 1 ∧ t.components ≠ some 1

/-- With one vector at most, no two differ. -/
theorem Uneven.not_clash (h : Uneven a b t) : ¬ Expr.Clash [a, b, t] := by
  obtain ⟨ha, hb, -⟩ := h
  rintro ⟨x, hx, y, hy, m, n, hm, hn, hm1, hn1, hne⟩
  have hthird : ∀ z ∈ [a, b, t], ∀ k, z.components = some k → 1 < k → z = t := by
    intro z hz k hk hk1
    simp only [List.mem_cons, List.not_mem_nil, or_false] at hz
    rcases hz with rfl | rfl | rfl
    · rw [ha, Option.some.injEq] at hk
      omega
    · rw [hb, Option.some.injEq] at hk
      omega
    · rfl
  rw [hthird x hx m hm hm1] at hm
  rw [hthird y hy n hn hn1, hm] at hn
  exact hne (Option.some.inj hn)

/-- The widths of the values of an interpolation: the type spans the first two, and the width
of the third matters only if they are vectors. -/
theorem widths_of_emit (h : emit types a b t = .ok e) :
    ∃ p n k, widened types a b = .ok p ∧ e.code = text p.1 p.2 t ∧ e.type.Spans [a, b] n ∧
      e.type.Spans [p.1, p.2] n ∧ t.components = some k ∧ (k = 1 ∨ n = 1 ∨ k = n) := by
  obtain ⟨p, hp, htype, ht, hcode⟩ := of_emit h
  obtain ⟨r, n, hcombine, hr, ha, hb⟩ := components_of_widened hp
  obtain ⟨l, hl⟩ := spans_of_combine hcombine
  obtain rfl : l = n := Option.some.inj (hl.components.symm.trans hr)
  have hwidth : e.type.components = some l := by
    obtain ⟨m, k, hm, hk, hmax, -⟩ :=
      ShaderType.components_combine (combine_of_combinedType htype)
    obtain rfl : m = l := Option.some.inj (hm.symm.trans ha)
    obtain rfl : k = m := Option.some.inj (hk.symm.trans hb)
    rwa [Nat.max_self] at hmax
  have hspans : e.type.Spans [a, b] l := .of_each hwidth hl.each hl.widest.1
  have hwritten : e.type.Spans [p.1, p.2] l :=
    .of_each hwidth (by simp [ha, hb]) ⟨p.1, by simp, ha⟩
  rcases ht with hone | ⟨r', hr'⟩
  · exact ⟨p, l, 1, hp, hcode, hspans, hwritten, hone, .inl rfl⟩
  · obtain ⟨m, k, hm, hk, -, hagree⟩ :=
      ShaderType.components_combine (combine_of_combinedType hr')
    obtain rfl : m = l := Option.some.inj (hm.symm.trans ha)
    exact ⟨p, m, k, hp, hcode, hspans, hwritten, hk, by omega⟩

/-- **The values of an interpolation agree unless it is one between scalars at a vector.** -/
theorem emit_spans_iff (h : emit types a b t = .ok e) :
    ∃ p, widened types a b = .ok p ∧ e.code = text p.1 p.2 t ∧
      ((∃ n, e.type.Spans [a, b, t] n ∧ e.type.Spans [p.1, p.2, t] n) ↔ ¬ Uneven a b t) := by
  obtain ⟨p, n, k, hp, hcode, hspans, hwritten, ht, hagree⟩ := widths_of_emit h
  refine ⟨p, hp, hcode, ?_, ?_⟩
  · rintro ⟨m, hm, -⟩ ⟨ha, hb, hne⟩
    obtain rfl : m = n := Option.some.inj (hm.components.symm.trans hspans.components)
    -- the type is as wide as one of the two scalars
    have hone : some m = some 1 := by
      obtain ⟨x, hx, hwide⟩ := hspans.widest.1
      simp only [List.mem_cons, List.not_mem_nil, or_false] at hx
      rcases hx with rfl | rfl
      · exact hwide.symm.trans ha
      · exact hwide.symm.trans hb
    rcases hm.each t (by simp) with hwide | hwide
    · exact hne hwide
    · exact hne (hwide.trans hone)
  · intro heven
    -- a third value of another width would be a vector, and the ends scalars
    have hthird : t.components = some 1 ∨ t.components = some n := by
      by_contra hneither
      rw [not_or, ht, Option.some.injEq, Option.some.injEq] at hneither
      obtain rfl : n = 1 := by omega
      have heach : ∀ x ∈ [a, b], x.components = some 1 := fun x hx => (hspans.each x hx).elim id id
      exact heven ⟨heach a (by simp), heach b (by simp), by simpa [ht] using hneither.1⟩
    exact ⟨n, hspans.concat hthird, hwritten.concat hthird⟩

end LerpSettings

/-! ### Other operations on each component -/

namespace BinaryOp

/-- The text of the operations that work on each component. -/
def text? : BinaryOp → Option (Expr → Expr → String)
  | .add => some (operatorCode "+")
  | .subtract => some (operatorCode "-")
  | .multiply => some (operatorCode "*")
  | .divide => some (operatorCode "/")
  | .min => some (callCode "min")
  | .max => some (callCode "max")
  | .power => some (callCode "pow")
  | .dot | .cross | .distance => none

theorem emit_of_text? {op : BinaryOp} {text : Expr → Expr → String} (hop : op.text? = some text)
    (types : TypeTable) (a b : Expr) :
    op.emit types a b = do return (← combinedType a b, text a b) := by
  cases op with
  | dot | cross | distance => cases hop
  | _ =>
    obtain rfl := Option.some.inj hop
    rfl

theorem spans_of_emit {op : BinaryOp} {text : Expr → Expr → String} (hop : op.text? = some text)
    {types : TypeTable} {a b : Expr} {x : ShaderType × String}
    (h : op.emit types a b = .ok x) : x.2 = text a b ∧ ∃ n, x.1.Spans [a, b] n := by
  rw [emit_of_text? hop] at h
  obtain ⟨r, hr, h⟩ := exists_of_bind_eq_ok h
  cases h
  exact ⟨rfl, spans_of_combine (combine_of_combinedType hr)⟩

end BinaryOp

namespace ClampSettings

/-- The text of a value between bounds. -/
def text (e low high : Expr) : String :=
  "clamp( " ++ e.code ++ ", " ++ low.code ++ ", " ++ high.code ++ " )"

theorem spans_of_emit {a low high e : Expr} (h : emit a low high = .ok e) :
    e.code = text a low high ∧ ∃ n, e.type.Spans [a, low, high] n := by
  obtain ⟨partly, hpartly, h⟩ := exists_of_bind_eq_ok h
  obtain ⟨t, ht, h⟩ := exists_of_bind_eq_ok h
  obtain rfl := eq_type_of_numericType ht
  split at h
  · cases h
  · next type htype =>
    cases h
    obtain ⟨m, hm⟩ := spans_of_combine (combine_of_combinedType hpartly)
    exact ⟨rfl, hm.snoc htype⟩

end ClampSettings

/-! ### Plans of component-wise nodes -/

namespace Pass

section Componentwise

variable {α : Type}

/-- The values that a plan is given agree in their widths. `Writes` says, for what the inputs
have given, which values the plan writes and where they stand. -/
structure Componentwise (env : Environment) (r : Resolver) (plan : Plan Expr) (inputs : Plan α)
    (values : α → List Expr) (Writes : α → List Expr → Expr → Pass → Prop) (P : α → Prop) :
    Prop where
  /-- Whenever the plan gives an expression, its inputs have given something, and the type of
  the expression spans the values, as given and as written, exactly if `P` holds. -/
  agree : ∀ s e s', run env r plan s = (.ok e, s') →
    ∃ x s₁ written, run env r inputs s = (.ok x, s₁) ∧ Writes x written e s' ∧
      ((∃ n, e.type.Spans (values x) n ∧ e.type.Spans written n) ↔ P x)
  /-- The plan fails if two of the values are vectors of different widths. -/
  fails : ∀ s x s₁, run env r inputs s = (.ok x, s₁) → Expr.Clash (values x) →
    ∃ fault s', run env r plan s = (.error fault, s')

variable {env : Environment} {r : Resolver} {plan : Plan Expr} {inputs : Plan α}
  {values : α → List Expr} {Writes : α → List Expr → Expr → Pass → Prop} {P : α → Prop}

/-- It is enough to look at the expressions that the plan gives: if there is none for vectors
of different widths, the plan fails on them. -/
theorem Componentwise.of_agree (h : ∀ s e s', run env r plan s = (.ok e, s') →
    ∃ x s₁ written, run env r inputs s = (.ok x, s₁) ∧ Writes x written e s' ∧
      ((∃ n, e.type.Spans (values x) n ∧ e.type.Spans written n) ↔ P x) ∧
      (¬ P x → ¬ Expr.Clash (values x))) :
    Componentwise env r plan inputs values Writes P where
  agree s e s' hr := by
    obtain ⟨x, s₁, written, hx, hwrites, hiff, -⟩ := h s e s' hr
    exact ⟨x, s₁, written, hx, hwrites, hiff⟩
  fails s x s₁ hx hclash := by
    rcases hr : run env r plan s with ⟨fault | e, s'⟩
    · exact ⟨fault, s', rfl⟩
    · -- what the inputs give is determined
      obtain ⟨y, s₂, written, hy, -, hiff, hnot⟩ := h s e s' hr
      obtain rfl : x = y := Except.ok.inj (congrArg Prod.fst (hx.symm.trans hy))
      by_cases hP : P x
      · obtain ⟨n, hspans, -⟩ := hiff.mpr hP
        exact absurd hclash hspans.not_clash
      · exact absurd hclash (hnot hP)

/-- A plan whose values always agree. -/
theorem Componentwise.of_spans (h : ∀ s e s', run env r plan s = (.ok e, s') →
    ∃ x s₁ written, run env r inputs s = (.ok x, s₁) ∧ Writes x written e s' ∧
      ∃ n, e.type.Spans (values x) n ∧ e.type.Spans written n) :
    Componentwise env r plan inputs values Writes fun _ => True := by
  refine .of_agree fun s e s' hr => ?_
  obtain ⟨x, s₁, written, hx, hwrites, hspans⟩ := h s e s' hr
  exact ⟨x, s₁, written, hx, hwrites, ⟨fun _ => trivial, fun _ => hspans⟩,
    fun hnot => absurd trivial hnot⟩

end Componentwise

end Pass

section Nodes

variable {env : Environment} {r : Pass.Resolver}

open Pass

namespace BinaryOp

/-- A binary operation writes both values as they are given. -/
def Writes (text : Expr → Expr → String) (x : Expr × Expr) (written : List Expr) (e : Expr)
    (_ : Pass) : Prop :=
  written = [x.1, x.2] ∧ e.code = text x.1 x.2

theorem plan_componentwise {op : BinaryOp} {text : Expr → Expr → String}
    (hop : op.text? = some text) (s : BinarySettings) (frame : Frame) (output : String) :
    Componentwise env r (op.spec.plan s frame output) (operands frame.types s)
      (fun x => [x.1, x.2]) (Writes text) fun _ => True := by
  refine .of_spans fun s₀ e s' hr => ?_
  obtain ⟨a, b, hoperands, hemit⟩ := emit_of_run hr
  obtain ⟨hcode, n, hspans⟩ := spans_of_emit hop hemit
  exact ⟨(a, b), s', [a, b], hoperands, ⟨rfl, hcode⟩, n, hspans, hspans⟩

end BinaryOp

namespace LerpSettings

/-- The values of an interpolation. -/
def operands (types : TypeTable) (s : LerpSettings) : Plan (Expr × Expr × Expr) := do
  let a ← .orDefault types "a" s.a (.float s.defaultA)
  let b ← .orDefault types "b" s.b (.float s.defaultB)
  let t ← .orDefault types "t" s.t (.float s.defaultT)
  return (a, b, t)

/-- An interpolation writes its ends at their common width. -/
def Writes (types : TypeTable) (x : Expr × Expr × Expr) (written : List Expr) (e : Expr)
    (_ : Pass) : Prop :=
  ∃ p, widened types x.1 x.2.1 = .ok p ∧ written = [p.1, p.2, x.2.2] ∧
    e.code = text p.1 p.2 x.2.2

theorem plan_componentwise (s : LerpSettings) (frame : Frame) (output : String) :
    Componentwise env r (spec.plan s frame output) (s.operands frame.types)
      (fun x => [x.1, x.2.1, x.2.2]) (Writes frame.types)
      fun x => ¬ Uneven x.1 x.2.1 x.2.2 := by
  refine .of_agree fun s₀ e s' hr => ?_
  obtain ⟨a, s₁, ha, hr⟩ := run_bind_eq_ok (run_onlyResult hr)
  obtain ⟨b, s₂, hb, hr⟩ := run_bind_eq_ok hr
  obtain ⟨t, s₃, ht, hr⟩ := run_bind_eq_ok hr
  rw [run_ofExcept] at hr
  obtain ⟨p, hp, hcode, hiff⟩ := emit_spans_iff (congrArg Prod.fst hr)
  refine ⟨(a, b, t), s₃, [p.1, p.2, t], ?_, ⟨p, hp, rfl, hcode⟩, hiff, ?_⟩
  · unfold operands
    rw [run_bind_of_ok ha, run_bind_of_ok hb, run_bind_of_ok ht]
    rfl
  · intro huneven
    exact (not_not.mp huneven).not_clash

end LerpSettings

namespace ClampSettings

/-- The values of a node that keeps a value between bounds. -/
def operands (types : TypeTable) (s : ClampSettings) : Plan (Expr × Expr × Expr) := do
  let e ← .orDefault types "input" s.input (.float zero)
  let low ← .orDefault types "min" s.min (.float s.defaultMin)
  let high ← .orDefault types "max" s.max (.float s.defaultMax)
  return (e, low, high)

/-- The value and its bounds are written as they are given. -/
def Writes (x : Expr × Expr × Expr) (written : List Expr) (e : Expr) (_ : Pass) : Prop :=
  written = [x.1, x.2.1, x.2.2] ∧ e.code = text x.1 x.2.1 x.2.2

theorem plan_componentwise (s : ClampSettings) (frame : Frame) (output : String) :
    Componentwise env r (spec.plan s frame output) (s.operands frame.types)
      (fun x => [x.1, x.2.1, x.2.2]) Writes fun _ => True := by
  refine .of_spans fun s₀ e s' hr => ?_
  obtain ⟨a, s₁, ha, hr⟩ := run_bind_eq_ok (run_onlyResult hr)
  obtain ⟨low, s₂, hlow, hr⟩ := run_bind_eq_ok hr
  obtain ⟨high, s₃, hhigh, hr⟩ := run_bind_eq_ok hr
  rw [run_ofExcept] at hr
  obtain ⟨hcode, n, hspans⟩ := spans_of_emit (congrArg Prod.fst hr)
  refine ⟨(a, low, high), s₃, [a, low, high], ?_, ⟨rfl, hcode⟩, n, hspans, hspans⟩
  unfold operands
  rw [run_bind_of_ok ha, run_bind_of_ok hlow, run_bind_of_ok hhigh]
  rfl

end ClampSettings

namespace BranchSettings

/-- A branch writes the values that it selects from at their common type. -/
def Writes (types : TypeTable) (s : BranchSettings) (x : (Expr × Expr) × Expr × Expr)
    (written : List Expr) (e : Expr) (_ : Pass) : Prop :=
  ∃ y, selectOperands types x.2.1 x.2.2 = .ok y ∧ written = [y.2.1, y.2.2] ∧
    e.code = s.condition x.1.1 x.1.2 ++ " ? " ++ y.2.1.operand ++ " : " ++ y.2.2.operand

theorem plan_componentwise (s : BranchSettings) (frame : Frame) (output : String) :
    Componentwise env r (spec.plan s frame output) (s.operands frame.types)
      (fun x => [x.2.1, x.2.2]) (s.Writes frame.types) fun _ => True := by
  refine .of_spans fun s₀ e s' hr => ?_
  obtain ⟨a, b, on, off, hoperands, hemit⟩ := emit_of_run hr
  obtain ⟨y, hy, he⟩ := exists_of_bind_eq_ok hemit
  cases he
  refine ⟨((a, b), on, off), s', [y.2.1, y.2.2], hoperands, ⟨y, hy, rfl, ?_⟩,
    spans_of_selectOperands hy⟩
  unfold condition
  simp [String.append_assoc]

end BranchSettings

namespace SwitchSettings

/-- Where the values of a switch stand: in its text if it is decided when the program runs,
and else in a statement that declares its variable with its type. -/
def Holds (env : Environment) (mode : Mode) (on off e : Expr) (s : Pass) : Prop :=
  match mode with
  | .preview => ∃ toggle, e.code = toggle ++ " ? " ++ on.operand ++ " : " ++ off.operand
  | .final => ∃ index combo, e.code = localName index ∧
      Statement.select (env.types.name e.type) index combo on.code off.code ∈ s.vertex ++ s.pixel

theorem holds_of_selection {sw : SwitchSettings} {mode : Mode} {x : ShaderType × Expr × Expr}
    {s s' : Pass} {e : Expr} (h : run env r (sw.selection mode x) s = (.ok e, s')) :
    e.type = x.1 ∧ Holds env mode x.2.1 x.2.2 e s' := by
  unfold selection at h
  cases mode with
  | preview =>
    obtain ⟨reply, s₁, -, h⟩ := run_bind_eq_ok h
    obtain ⟨toggle, s₂, -, h⟩ := run_bind_eq_ok h
    cases h
    exact ⟨rfl, toggle.code, rfl⟩
  | final =>
    obtain ⟨reply, s₁, -, h⟩ := run_bind_eq_ok h
    obtain ⟨feature, s₂, -, h⟩ := run_bind_eq_ok h
    rw [run_request, perform_select] at h
    cases h
    refine ⟨rfl, s₂.locals, feature.combo, rfl, ?_⟩
    unfold Pass.emit
    cases s₂.stage with
    | vertex => simp
    | pixel => simp

/-- A switch writes both values at their common type. -/
def Writes (types : TypeTable) (env : Environment) (mode : Mode) (x : Expr × Expr)
    (written : List Expr) (e : Expr) (s : Pass) : Prop :=
  ∃ y, selectOperands types x.1 x.2 = .ok y ∧ written = [y.2.1, y.2.2] ∧
    Holds env mode y.2.1 y.2.2 e s

theorem plan_componentwise (s : SwitchSettings) (frame : Frame) (output : String) :
    Componentwise env r (spec.plan s frame output) (s.operands frame.types)
      (fun x => [x.1, x.2]) (Writes frame.types env frame.mode) fun _ => True := by
  refine .of_spans fun s₀ e s' hr => ?_
  obtain ⟨x, s₁, y, hx, hselect, hr⟩ := selection_of_run hr
  obtain ⟨htype, hholds⟩ := holds_of_selection hr
  rw [htype]
  exact ⟨x, s₁, [y.2.1, y.2.2], hx, ⟨y, hselect, rfl, hholds⟩, spans_of_selectOperands hselect⟩

end SwitchSettings

end Nodes

/-- **Component-wise nodes agree on widths.** Whenever such a node gives an expression, the
type of the expression is as wide as the widest of its values, and every value in its text is
a scalar or just as wide. It fails if two of its values are vectors of different widths. -/
structure WidthsAgree (env : Environment) (r : Pass.Resolver) : Prop where
  /-- Sums, differences, products, quotients, minima, maxima and powers. -/
  binary : ∀ (op : BinaryOp) text, op.text? = some text → ∀ s frame output,
    Pass.Componentwise env r (op.spec.plan s frame output) (BinaryOp.operands frame.types s)
      (fun x => [x.1, x.2]) (BinaryOp.Writes text) fun _ => True
  /-- Interpolations, exactly if they are not between scalars at a vector. -/
  lerp : ∀ (s : LerpSettings) frame output,
    Pass.Componentwise env r (LerpSettings.spec.plan s frame output) (s.operands frame.types)
      (fun x => [x.1, x.2.1, x.2.2]) (LerpSettings.Writes frame.types)
      fun x => ¬ LerpSettings.Uneven x.1 x.2.1 x.2.2
  /-- Values between bounds. -/
  clamp : ∀ (s : ClampSettings) frame output,
    Pass.Componentwise env r (ClampSettings.spec.plan s frame output) (s.operands frame.types)
      (fun x => [x.1, x.2.1, x.2.2]) ClampSettings.Writes fun _ => True
  /-- The two values of a branch. -/
  branch : ∀ (s : BranchSettings) frame output,
    Pass.Componentwise env r (BranchSettings.spec.plan s frame output) (s.operands frame.types)
      (fun x => [x.2.1, x.2.2]) (s.Writes frame.types) fun _ => True
  /-- The two values of a switch. -/
  switch : ∀ (s : SwitchSettings) frame output,
    Pass.Componentwise env r (SwitchSettings.spec.plan s frame output) (s.operands frame.types)
      (fun x => [x.1, x.2]) (SwitchSettings.Writes frame.types env frame.mode) fun _ => True

namespace Compiler

/-- **Component-wise nodes agree on widths**, whatever has been done before and however the
inputs of the node are resolved. -/
theorem widths_agree (env : Environment) (r : Pass.Resolver) : WidthsAgree env r where
  binary _ _ hop := BinaryOp.plan_componentwise hop
  lerp := LerpSettings.plan_componentwise
  clamp := ClampSettings.plan_componentwise
  branch := BranchSettings.plan_componentwise
  switch := SwitchSettings.plan_componentwise

/-- A way to resolve inputs: each node gives as many components as its number says. -/
def numbered : Pass.Resolver := fun site s =>
  (.valid { type := (ShaderType.vector? site.node.value.toNat).getD .any, code := "v" }, s)

/-- A scalar and a vector of two components have a sum of two components, and so has an
interpolation between them at such a vector. Vectors of two and of three components have no
sum. -/
theorem widths_agree_sum :
    let env := ({} : Compiler).environment .preview {}
    let scalar : Expr := { type := .float, code := "v" }
    let vector : Expr := { type := .vector2, code := "v" }
    let lerp : LerpSettings := { a := firstTwo.a, b := firstTwo.b, t := firstTwo.b }
    let mixed := { firstTwo with a := { node := ⟨3⟩, output := "result" } }
    (∃ e s', Pass.run env numbered (BinaryOp.add.spec.plan firstTwo third "result") {} =
        (.ok e, s') ∧ e.code = "v + v" ∧ e.type.Spans [scalar, vector] 2) ∧
      (∃ e s', Pass.run env numbered (LerpSettings.spec.plan lerp third "result") {} =
        (.ok e, s') ∧ e.code = "lerp( float2( v, v ), v, v )" ∧
          e.type.Spans [scalar, vector, vector] 2) ∧
      ∃ fault s', Pass.run env numbered (BinaryOp.add.spec.plan mixed third "result") {} =
        (.error fault, s') := by
  intro env scalar vector lerp mixed
  have hwidths := widths_agree env numbered
  refine ⟨⟨_, _, rfl, rfl, ?_⟩, ⟨_, _, rfl, by decide +kernel, ?_⟩, ?_⟩
  · obtain ⟨x, s₁, written, hx, -, hspans⟩ :=
      (hwidths.binary .add _ rfl firstTwo third "result").agree {} _ _ rfl
    cases hx
    obtain ⟨n, hspans, -⟩ := hspans.mpr trivial
    cases hspans.components
    exact hspans
  · obtain ⟨x, s₁, written, hx, -, hspans⟩ :=
      (hwidths.lerp lerp third "result").agree {} _ _ rfl
    cases hx
    obtain ⟨n, hspans, -⟩ := hspans.mpr fun h => absurd h.2.1 (by decide)
    cases hspans.components
    exact hspans
  · refine (hwidths.binary .add _ rfl mixed third "result").fails {} _ _ rfl ?_
    exact ⟨_, .head _, _, .tail _ (.head _), 3, 2, rfl, rfl, by decide⟩

/-- An interpolation between two scalars at a vector. -/
def steppedDocument : Document where
  nodes := [
    .of .materialResult 1 { roughness := .ofNode 3 },
    .of (.literal .vector3) 2 { value := (⟨.ofRatio false 1 4, half, .ofRatio false 3 4⟩ : Vec3) },
    .of .lerp 3 { t := .ofNode 2 }]

/-- What a node gives when the document is compiled. -/
def valueOf? (d : Document) (node : NodeId) : Option Expr := do
  let draft ← (({} : Compiler).materialDraft d {}).toOption
  match ← draft.pass.progress? ⟨[], node, "result", .pixel⟩ with
  | .finished outcome => outcome.expr?
  | .started => none

/-- **An interpolation between scalars at a vector is called a scalar.** The vector stands in
its text, and nothing is reported. -/
theorem scalar_lerp_at_vector :
    ∃ t e, valueOf? steppedDocument ⟨2⟩ = some t ∧ valueOf? steppedDocument ⟨3⟩ = some e ∧
      e.code = "lerp( 0.0f, 1.0f, " ++ t.code ++ " )" ∧
      e.components = some 1 ∧ t.components = some 3 ∧
      (({} : Compiler).materialDraft steppedDocument {}).toOption.map (·.pass.report.entries) =
        some [] := by
  refine ⟨{ type := .vector3, code := "float3( 0.25, 0.5, 0.75 )", isConstant := true },
    { type := .float, code := "lerp( 0.0f, 1.0f, float3( 0.25, 0.5, 0.75 ) )", isConstant := true },
    ?_⟩
  decide +kernel

end Compiler

end MaterialGraph
