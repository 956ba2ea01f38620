import MaterialGraph.Proofs.Channels
import MaterialGraph.Proofs.Documents
import Mathlib.Data.List.Forall2

/-!
# What plans look at

The plan of a built-in node looks at the type of a value and at whether it is constant,
never at its text. So if two passes answer the requests of a node with values of one
kind, the node asks both for the same things and gives both values of one kind. And what
it asks for can be read off its settings: it reads the wires of its own connections,
registers at most one parameter, and only a switch has to do with features.

## Main results

* `NodeClass.plan_parallel` — the plans of the built-in nodes.
* `NodeClass.plan_confined` — a node asks only for what it may ask for.
-/

namespace MaterialGraph

/-! ### Values of one kind -/

/-- Values of one type that are both constant, or both not. -/
structure Expr.Alike (a b : Expr) : Prop where
  type : a.type = b.type
  constant : a.isConstant = b.isConstant

/-- Whether an input is missing. -/
def Fault.isMissing : Fault → Bool
  | .missingInput _ => true
  | _ => false

/-- Results of one kind: both are related, or both are faults that leave outcomes of one
kind. -/
abbrev Paired {α β : Type} (Q : α → β → Prop) : Except Fault α → Except Fault β → Prop :=
  Matched (fun f g => f.isMissing = g.isMissing) Q

/-- Outcomes of one kind. -/
def Outcome.Alike : Outcome → Outcome → Prop
  | .valid a, .valid b => a.Alike b
  | .error _, .error _ => True
  | .missingInput _, .missingInput _ => True
  | _, _ => False

/-- Answers of one kind. -/
def Command.Alike : (c : Command) → c.Reply → c.Reply → Prop
  | .read _ _, o, o' => o.Alike o'
  | .own _, o, o' => o.Alike o'
  | .call _, x, x' => Paired Expr.Alike x x'
  | .argument _, x, x' => Option.Rel Outcome.Alike x x'
  | .parameter _, x, x' => Paired Expr.Alike x x'
  | .declare _, _, _ => True
  | .function _, x, x' => Paired (fun _ _ => True) x x'
  | .texture _ _ _, x, x' => Paired Expr.Alike x x'
  | .sampler _, e, e' => e.Alike e'
  | .feature _ _, x, x' => Paired (fun _ _ => True) x x'
  | .toggle _ _, x, x' => Paired (fun _ _ => True) x x'
  | .select _ _ _ _, e, e' => e.Alike e'
  | .warn _, _, _ => True
  | .reportMissing _, _, _ => True
  | .note _, _, _ => True

theorem Expr.Alike.refl (a : Expr) : a.Alike a := ⟨rfl, rfl⟩

namespace Command

variable {x x' : Except Fault Expr} {name : String}

theorem alike_parameter {spec : ParameterSpec} (h : Paired Expr.Alike x x') :
    (parameter spec).Alike x x' := h

theorem alike_texture {spec : TextureSpec} {fallback : Vec4} (h : Paired Expr.Alike x x') :
    (texture spec name fallback).Alike x x' := h

theorem alike_toggle {initial : Bool} (h : Paired (fun _ _ => True) x x') :
    (toggle name initial).Alike x x' := h

theorem alike_function {source : String} {x x' : Except Fault String}
    (h : Paired (fun _ _ => True) x x') : (function source).Alike x x' := h

theorem alike_feature {group : String} {x x' : Except Fault Feature}
    (h : Paired (fun _ _ => True) x x') : (feature name group).Alike x x' := h

end Command

theorem Paired.refl {α : Type} {Q : α → α → Prop} (hQ : ∀ a, Q a a) (x : Except Fault α) :
    Paired Q x x :=
  Matched.refl (F := fun f g => f.isMissing = g.isMissing) (fun _ => rfl) hQ x

namespace Outcome

theorem Alike.refl (o : Outcome) : o.Alike o := by
  cases o with
  | valid e => exact Expr.Alike.refl e
  | error text => trivial
  | missingInput text => trivial

theorem Alike.toExpr {o o' : Outcome} (h : o.Alike o') (input : String) :
    Paired Expr.Alike (o.toExpr input) (o'.toExpr input) := by
  cases o <;> cases o' <;> first | exact h | exact h.elim | rfl

theorem alike_ofFault {f g : Fault} (h : f.isMissing = g.isMissing) :
    (ofFault f).Alike (ofFault g) := by
  cases f <;> cases g <;> trivial

end Outcome

theorem Command.Alike.refl (c : Command) (reply : c.Reply) : c.Alike reply reply := by
  have hresult (x : Except Fault Expr) : Paired Expr.Alike x x := Paired.refl Expr.Alike.refl x
  cases c with
  | read input wire => exact Outcome.Alike.refl reply
  | own output => exact Outcome.Alike.refl reply
  | call output => exact hresult reply
  | argument name =>
    cases reply with
    | none => exact .none
    | some o => exact .some (Outcome.Alike.refl o)
  | parameter spec => exact hresult reply
  | function source => exact Paired.refl (fun _ => trivial) reply
  | texture spec name fallback => exact hresult reply
  | sampler state => exact Expr.Alike.refl reply
  | feature name group => exact Paired.refl (fun _ => trivial) reply
  | toggle name initial => exact Paired.refl (fun _ => trivial) reply
  | select feature type on off => exact Expr.Alike.refl reply
  | _ => trivial

/-! ### Operations on values of one kind -/

section Operations

variable {a b c a' b' c' : Expr} (types : TypeTable)

theorem Expr.Alike.cast (h : a.Alike a') (n : Nat) :
    Paired Expr.Alike (a.cast types n) (a'.cast types n) := by
  unfold Expr.cast Expr.components
  rw [← h.type]
  cases ShaderType.vector? n with
  | none => exact .error rfl
  | some target =>
    cases a.type.components with
    | none => exact .error rfl
    | some width =>
      dsimp only
      by_cases hsame : width = n
      · rw [if_pos hsame, if_pos hsame]
        exact .ok h
      · rw [if_neg hsame, if_neg hsame]
        by_cases hone : width = 1
        · rw [if_pos hone, if_pos hone]
          exact .ok ⟨rfl, h.constant⟩
        · rw [if_neg hone, if_neg hone]
          by_cases hless : n < width
          · rw [if_pos hless, if_pos hless]
            exact .ok ⟨rfl, h.constant⟩
          · rw [if_neg hless, if_neg hless]
            exact .error rfl

theorem Expr.Alike.castTo (h : a.Alike a') (t : ShaderType) :
    Paired Expr.Alike (a.castTo types t) (a'.castTo types t) := by
  unfold Expr.castTo
  rw [← h.type]
  by_cases hsame : t = a.type ∨ t = .any
  · rw [if_pos hsame, if_pos hsame]
    exact .ok h
  · rw [if_neg hsame, if_neg hsame]
    cases ht : t.components with
    | none => exact .error rfl
    | some n =>
      refine (h.cast types n).map fun r r' hr => ?_
      unfold Expr.components
      rw [← hr.type]
      by_cases hw : r.type.components = some n
      · rw [if_pos hw, if_pos hw]
        exact ⟨rfl, hr.constant⟩
      · rw [if_neg hw, if_neg hw]
        exact hr

theorem numericType_paired (h : a.Alike a') : Paired Eq (numericType a) (numericType a') := by
  unfold numericType
  rw [← h.type]
  exact Paired.refl (fun _ => rfl) _

theorem combinedType_paired (ha : a.Alike a') (hb : b.Alike b') :
    Paired Eq (combinedType a b) (combinedType a' b') := by
  refine (numericType_paired ha).bind fun s s' hs => ?_
  refine (numericType_paired hb).bind fun t t' ht => ?_
  subst hs ht
  exact Paired.refl (fun _ => rfl) _

theorem widened_paired (ha : a.Alike a') (hb : b.Alike b') :
    Paired (fun p q => p.1.Alike q.1 ∧ p.2.Alike q.2) (widened types a b)
      (widened types a' b') := by
  refine (combinedType_paired ha hb).bind fun r r' hr => ?_
  subst hr
  cases r.components with
  | none => exact .error rfl
  | some n =>
    refine (ha.cast types n).bind fun x x' hx => ?_
    exact (hb.cast types n).bind fun y y' hy => .ok ⟨hx, hy⟩

theorem selectOperands_paired (ha : a.Alike a') (hb : b.Alike b') :
    Paired (fun p q => p.1 = q.1 ∧ p.2.1.Alike q.2.1 ∧ p.2.2.Alike q.2.2)
      (selectOperands types a b) (selectOperands types a' b') := by
  unfold selectOperands
  rw [← ha.type, ← hb.type]
  cases a.type.combine b.type with
  | none => exact .error rfl
  | some type =>
    refine (ha.castTo types type).bind fun x x' hx => ?_
    exact (hb.castTo types type).bind fun y y' hy => .ok ⟨rfl, hx, hy⟩

theorem BinaryOp.emit_paired (op : BinaryOp) (ha : a.Alike a') (hb : b.Alike b') :
    Paired (fun p q => p.1 = q.1) (op.emit types a b) (op.emit types a' b') := by
  have hcombined (f : Expr → Expr → String) :
      Paired (fun p q : ShaderType × String => p.1 = q.1)
        (do return (← combinedType a b, f a b)) (do return (← combinedType a' b', f a' b')) :=
    (combinedType_paired ha hb).bind fun r r' hr => .ok hr
  have hwidened (f : Expr → Expr → String) : Paired (fun p q : ShaderType × String => p.1 = q.1)
      (widened types a b >>= fun p => pure (.float, f p.1 p.2))
      (widened types a' b' >>= fun p => pure (.float, f p.1 p.2)) :=
    (widened_paired types ha hb).bind fun _ _ _ => .ok rfl
  cases op with
  | add => exact hcombined _
  | subtract => exact hcombined _
  | multiply => exact hcombined _
  | divide => exact hcombined _
  | min => exact hcombined _
  | max => exact hcombined _
  | power => exact hcombined _
  | dot => exact hwidened _
  | cross =>
    refine (ha.cast types 3).bind fun _ _ _ => ?_
    exact (hb.cast types 3).bind fun _ _ _ => .ok rfl
  | distance => exact hwidened _

theorem UnaryOp.emit_paired (op : UnaryOp) (ha : a.Alike a') :
    Paired (fun p q => p.1 = q.1) (op.emit a) (op.emit a') := by
  refine (numericType_paired ha).bind fun t t' ht => ?_
  subst ht
  exact .ok rfl

theorem LerpSettings.emit_paired (ha : a.Alike a') (hb : b.Alike b') (hc : c.Alike c') :
    Paired Expr.Alike (LerpSettings.emit types a b c) (LerpSettings.emit types a' b' c') := by
  refine (widened_paired types ha hb).bind fun p q hpq => ?_
  refine (combinedType_paired hpq.1 hpq.2).bind fun t t' ht => ?_
  subst ht
  have hconst : (p.1.isConstant && p.2.isConstant && c.isConstant) =
      (q.1.isConstant && q.2.isConstant && c'.isConstant) := by
    rw [hpq.1.constant, hpq.2.constant, hc.constant]
  have hcomp : c'.components = c.components := congrArg ShaderType.components hc.type.symm
  rw [hcomp]
  by_cases hscalar : c.components = some 1
  · rw [if_neg (not_not_intro hscalar), if_neg (not_not_intro hscalar)]
    exact .ok ⟨rfl, hconst⟩
  · rw [if_pos hscalar, if_pos hscalar]
    exact (combinedType_paired hpq.1 hc).bind fun _ _ _ => .ok ⟨rfl, hconst⟩

theorem ClampSettings.emit_paired (ha : a.Alike a') (hb : b.Alike b') (hc : c.Alike c') :
    Paired Expr.Alike (ClampSettings.emit a b c) (ClampSettings.emit a' b' c') := by
  refine (combinedType_paired ha hb).bind fun t t' ht => ?_
  refine (numericType_paired hc).bind fun u u' hu => ?_
  subst ht hu
  cases t.combine u with
  | none => exact .error rfl
  | some type =>
    refine .ok ⟨rfl, ?_⟩
    rw [ha.constant, hb.constant, hc.constant]

theorem RemapSettings.emit_paired (s : RemapSettings) (ha : a.Alike a') :
    Paired Expr.Alike (s.emit a) (s.emit a') :=
  (numericType_paired ha).bind fun _ _ ht => .ok ⟨ht, ha.constant⟩

theorem SplitSettings.emit_paired (ha : a.Alike a') (letter : String) (index : Nat) :
    Paired Expr.Alike (SplitSettings.emit a letter index) (SplitSettings.emit a' letter index) := by
  unfold SplitSettings.emit Expr.components
  rw [← ha.type]
  cases a.type.components with
  | none => exact .error rfl
  | some n =>
    dsimp only
    by_cases hi : n ≤ index
    · rw [if_pos hi, if_pos hi]
      exact .error rfl
    · rw [if_neg hi, if_neg hi]
      exact .ok ⟨rfl, ha.constant⟩

theorem SwizzleSettings.emit_paired (ha : a.Alike a') (indices : List Nat) :
    Paired Expr.Alike (SwizzleSettings.emit a indices) (SwizzleSettings.emit a' indices) := by
  unfold SwizzleSettings.emit Expr.components
  rw [← ha.type]
  cases a.type.components with
  | none => exact .error rfl
  | some n =>
    dsimp only
    cases indices.find? (n ≤ ·) with
    | some index => exact .error rfl
    | none =>
      cases ShaderType.vector? indices.length with
      | none => exact .error rfl
      | some type => exact .ok ⟨rfl, ha.constant⟩

theorem TransformSettings.emit_paired (s : TransformSettings) (ha : a.Alike a') :
    Paired Expr.Alike (s.emit a b) (s.emit a' b') := by
  unfold TransformSettings.emit
  rw [← ha.type]
  cases a.type with
  | matrix4 => exact .ok ⟨rfl, rfl⟩
  | matrix3 => exact .ok ⟨rfl, rfl⟩
  | _ => exact .error rfl

theorem BranchSettings.emit_paired (s : BranchSettings) {d d' : Expr} (ha : a.Alike a')
    (hb : b.Alike b') (hc : c.Alike c') (hd : d.Alike d') :
    Paired Expr.Alike (s.emit types a b c d) (s.emit types a' b' c' d') := by
  refine (selectOperands_paired types hc hd).bind fun p q hpq => .ok ⟨hpq.1, ?_⟩
  rw [ha.constant, hb.constant, hc.constant, hd.constant]

end Operations

/-! ### Plans side by side -/

/-- Two plans that ask for the same things, and only for what `A` allows, as long as they
are answered alike; in the end their results are related by `Q`. -/
inductive Plan.Parallel {α β : Type} (A : Command → Prop) (Q : α → β → Prop) :
    Plan α → Plan β → Prop where
  | done {a : α} {b : β} (h : Q a b) : Parallel A Q (.done a) (.done b)
  | fail {f g : Fault} (h : f.isMissing = g.isMissing) : Parallel A Q (.fail f) (.fail g)
  | ask (c : Command) {next : c.Reply → Plan α} {next' : c.Reply → Plan β} (hc : A c)
      (h : ∀ r r', c.Alike r r' → Parallel A Q (next r) (next' r')) :
      Parallel A Q (.ask c next) (.ask c next')
  | select (f f' : Feature) (type : ShaderType) (on off on' off' : Expr) {next : Expr → Plan α}
      {next' : Expr → Plan β} (hc : A (.select f type on off))
      (h : ∀ e e', e.Alike e' → Parallel A Q (next e) (next' e')) :
      Parallel A Q (.ask (.select f type on off) next) (.ask (.select f' type on' off') next')

/-- Whatever it is answered, the plan asks only for what `A` allows. -/
def Plan.Confined {α : Type} (A : Command → Prop) : Plan α → Prop
  | .done _ => True
  | .fail _ => True
  | .ask c next => A c ∧ ∀ reply, (next reply).Confined A

namespace Plan

variable {α β : Type} {A : Command → Prop} {Q : α → β → Prop}

theorem Parallel.confined {p : Plan α} {q : Plan β} (h : p.Parallel A Q q) : p.Confined A := by
  induction h with
  | done h => trivial
  | fail h => trivial
  | ask c hc h ih => exact ⟨hc, fun reply => ih reply reply (Command.Alike.refl c reply)⟩
  | select f f' type on off on' off' hc h ih =>
    exact ⟨hc, fun e => ih e e (Expr.Alike.refl e)⟩

theorem Confined.mono {B : Command → Prop} (hAB : ∀ cmd, A cmd → B cmd) {plan : Plan α}
    (h : plan.Confined A) : plan.Confined B := by
  induction plan with
  | done a => trivial
  | fail fault => trivial
  | ask cmd next ih => exact ⟨hAB cmd h.1, fun reply => ih reply (h.2 reply)⟩

theorem Confined.of_forall (hA : ∀ cmd, A cmd) (plan : Plan α) : plan.Confined A := by
  induction plan with
  | done a => trivial
  | fail fault => trivial
  | ask cmd next ih => exact ⟨hA cmd, ih⟩

end Plan

/-! ### The plans of the classes -/

/-- The bond between plans that are answered alike and ask only for what `A` allows. -/
def Bond.alike (A : Command → Prop) : Bond where
  value := Expr.Alike
  fault f g := f.isMissing = g.isMissing
  reads input x x' := x' = x ∧ A (.read input x)
  told _ _ := Outcome.Alike
  asks := A
  answers := Command.Alike
  name _ _ := True
  feature _ _ := True
  toggle _ _ := True
  choice _ _ := True
  returns _ := True

namespace Bond

variable {A : Command → Prop}

theorem alike_heard {input : String} {o o' : Outcome} (h : o.Alike o') :
    (alike A).Heard input o o' := by
  cases o with
  | valid e =>
    cases o' with
    | valid e' => exact .valid h
    | _ => exact h.elim
  | error text =>
    cases o' with
    | error text' => exact .error text text' rfl
    | _ => exact h.elim
  | missingInput text =>
    cases o' with
    | missingInput text' => exact .missingInput text text'
    | _ => exact h.elim

/-- The operations of the classes look at types and marks only. -/
theorem alike_lawful (A : Command → Prop) (types : TypeTable) : (alike A).Lawful types where
  connected h := h.1 ▸ rfl
  reported _ := rfl
  told := alike_heard
  own := alike_heard
  argument {name x x'} h := by
    have h : Option.Rel Outcome.Alike x x' := h
    cases h with
    | none => exact .none
    | some ho => exact .some (alike_heard ho)
  call := id
  parameter := id
  function := id
  texture := id
  sampler := id
  feature := id
  toggle := id
  type h := h.type.symm
  constant _ := Expr.Alike.refl _
  surface _ _ := Paired.refl Expr.Alike.refl _
  matrix _ := Expr.Alike.refl _
  cast n h := h.cast types n
  castTo t h := h.castTo types t
  binary {a a' b b'} op ha hb := (op.emit_paired types ha hb).imp fun _ _ hpq => ⟨hpq, by
    rw [ha.constant, hb.constant]⟩
  unary op ha := (op.emit_paired ha).imp fun _ _ hpq => ⟨hpq, ha.constant⟩
  lerp := LerpSettings.emit_paired types
  clamp := ClampSettings.emit_paired
  remap s := s.emit_paired
  transform s ha _ := s.emit_paired ha
  split index _ he := SplitSettings.emit_paired he _ index
  swizzle indices he := SwizzleSettings.emit_paired he indices
  combine {n type es es'} _ h := by
    refine ⟨rfl, ?_⟩
    show es.all (·.isConstant) = es'.all (·.isConstant)
    induction h with
    | nil => rfl
    | cons h _ ih => rw [List.all_cons, List.all_cons, h.constant, ih]
  sample _ _ _ _ := ⟨rfl, rfl⟩
  channel _ _ := ⟨rfl, rfl⟩
  branch s := s.emit_paired types
  choose ha hb := (selectOperands_paired types ha hb).imp fun _ _ h => ⟨h.1.symm, trivial⟩
  preview _ _ := ⟨rfl, rfl⟩
  ofCall _ _ _ := ⟨rfl, rfl⟩
  returns_float := trivial

end Bond

theorem Plan.Linked.parallel {α β : Type} {A : Command → Prop} {ends : Expr → Plan α → Prop}
    {Q : α → β → Prop} {p : Plan α} {q : Plan β} (h : p.Linked (.alike A) ends Q q) :
    p.Parallel A Q q := by
  induction h with
  | done h => exact .done h
  | fail h => exact .fail h
  | read input hx h ih =>
    obtain ⟨rfl, hx⟩ := hx
    exact .ask _ hx ih
  | ask c hplain hc h ih => exact .ask c hc ih
  | select hf hab hc hends h ih => exact .select _ _ _ _ _ _ _ hc ih

namespace NodeClass

open Plan

/-- **A built-in node asks for the same things wherever it stands**, as long as it is
answered alike and is inside of a call at both places or at none. -/
theorem plan_parallel (c : NodeClass) (s : c.Settings) (frame : Frame) {scope : Scope}
    (node : NodeId) (hscope : scope.isEmpty = frame.scope.isEmpty) (output : String) :
    (c.spec.plan s frame output).Parallel (c.MayAsk frame.types frame.mode s) Expr.Alike
      (c.spec.plan s { frame with scope, node } output) := by
  have hadmitted : c.Admitted (.alike (c.MayAsk frame.types frame.mode s)) frame.types frame.mode
      s s :=
    ⟨List.forall₂_same.mpr fun _ hx => ⟨rfl, hx⟩, fun _ h => h, fun _ => trivial⟩
  exact (plan_linked (Bond.alike_lawful _ _) (Moved.refl (fun _ => rfl) c s) hadmitted node hscope
    output).parallel

/-- **A built-in node asks only for what it may ask for.** -/
theorem plan_confined (c : NodeClass) (s : c.Settings) (frame : Frame) (output : String) :
    (c.spec.plan s frame output).Confined (c.MayAsk frame.types frame.mode s) :=
  (c.plan_parallel s frame frame.node rfl output).confined

end NodeClass

/-! ### Nodes of built-in classes -/

/-- A saved node as a node of its built-in class. -/
def Node.built? (node : Node) : Option ((c : NodeClass) × c.Settings) :=
  (NodeClass.ofName? node.className).bind fun c =>
    (c.spec.build node.settings).toOption.map (⟨c, ·⟩)

/-- The wires of a node of a built-in class. -/
def Node.wires (node : Node) : List (String × Wire) :=
  match node.built? with
  | some ⟨c, s⟩ => c.spec.connections s
  | none => []

/-- Whether a wire leads to a node, or through it. -/
def Wire.RefersTo (w : Wire) (id : NodeId) : Prop :=
  w.isConnected = true ∧ (w.node = id ∨ id ∈ w.path)

instance (w : Wire) (id : NodeId) : Decidable (w.RefersTo id) :=
  inferInstanceAs (Decidable (_ ∧ _))

theorem Node.built?_eq_some {node : Node} {c : NodeClass} {s : c.Settings}
    (hname : node.className = c.name) (hs : c.spec.build node.settings = .ok s) :
    node.built? = some ⟨c, s⟩ := by
  rw [built?, hname, c.ofName?_name, Option.bind_some, hs]
  rfl

theorem Node.className_of_built? {node : Node} {c : NodeClass} {s : c.Settings}
    (h : node.built? = some ⟨c, s⟩) : node.className = c.name := by
  unfold Node.built? at h
  obtain ⟨c', hname, h⟩ := Option.bind_eq_some_iff.mp h
  obtain ⟨s', hs, h⟩ := Option.map_eq_some_iff.mp h
  cases h
  have hc := List.find?_some hname
  rw [beq_iff_eq] at hc
  exact hc.symm

namespace Environment

/-- The node that an identifier stands for where a scope leads. -/
def nodeAt? (env : Environment) (scope : Scope) (id : NodeId) : Option Node :=
  (env.documentAt scope).bind (·.find? id)

variable {env : Environment} {node : Node} {c : NodeClass}

/-- A saved node of a built-in class is made by its class. -/
theorem find?_of_built? (hc : env.catalog = .builtin) {s : c.Settings}
    (h : node.built? = some ⟨c, s⟩) :
    env.catalog.find? node.className = some c.kind ∧
      c.kind.build node.settings = .ok (c.spec.behavior s) := by
  unfold Node.built? at h
  obtain ⟨c', hname, h⟩ := Option.bind_eq_some_iff.mp h
  obtain ⟨s', hs, h⟩ := Option.map_eq_some_iff.mp h
  cases h
  refine ⟨?_, ?_⟩
  · rw [hc]
    unfold Catalog.find? Catalog.builtin
    rw [List.find?_map]
    exact congrArg (Option.map NodeClass.kind) hname
  · show (c.spec.build node.settings).map c.spec.behavior = _
    cases hbuild : c.spec.build node.settings with
    | error m =>
      rw [hbuild] at hs
      cases hs
    | ok s'' =>
      rw [hbuild] at hs
      cases hs
      rfl

theorem stateOf_of_built? (hc : env.catalog = .builtin) {s : c.Settings}
    (h : node.built? = some ⟨c, s⟩) :
    env.stateOf node = .ready (c.spec.behavior s) := by
  obtain ⟨hkind, hbuild⟩ := find?_of_built? hc h
  unfold stateOf
  rw [hkind]
  dsimp only
  rw [hbuild]

theorem remarks_of_built? (hc : env.catalog = .builtin) {s : c.Settings}
    (h : node.built? = some ⟨c, s⟩) :
    env.remarks node = c.kind.remarks node ++ (c.spec.behavior s).remarks node.id := by
  obtain ⟨hkind, hbuild⟩ := find?_of_built? hc h
  unfold remarks
  rw [hkind]
  dsimp only
  rw [hbuild]

/-- A node that a pass can ask is one of a built-in class. -/
theorem stateOf_builtin (hc : env.catalog = .builtin) {b : Behavior}
    (h : env.stateOf node = .ready b) :
    ∃ (c : NodeClass) (s : c.Settings), node.built? = some ⟨c, s⟩ ∧ b = c.spec.behavior s := by
  obtain ⟨kind, hf, hb⟩ := stateOf_eq_ready h
  rw [hc] at hf
  obtain ⟨c, s, hname, hs, rfl⟩ := Catalog.builtin_build hf hb
  exact ⟨c, s, Node.built?_eq_some hname hs, rfl⟩

end Environment

/-- At a site stands a node of a built-in class whose settings are acceptable. -/
def Environment.Stands (env : Environment) (site : Site) (c : NodeClass) (st : c.Settings) :
    Prop :=
  ∃ node, env.nodeAt? site.scope site.node = some node ∧ node.built? = some ⟨c, st⟩ ∧
    c.spec.errors st = []

/-- A pass asks the nodes that stand where the scopes lead. -/
theorem Pass.Arrives.stands {env : Environment} (hc : env.catalog = .builtin) {site : Site}
    {s s' : Pass} {b : Behavior} (ha : Arrives env site s (.node b) s') (h : Faithful env s) :
    ∃ (c : NodeClass) (st : c.Settings), env.Stands site c st ∧ b = c.spec.behavior st := by
  cases ha with
  | node g s' b hn hf hg he =>
    obtain ⟨d, hd, rfl⟩ := documentAt_of_follow h hf
    rw [Environment.state?_instanceOf, Option.map_eq_some_iff] at hg
    obtain ⟨node, hnode, hstate⟩ := hg
    obtain ⟨c, st, hbuilt, rfl⟩ := Environment.stateOf_builtin hc hstate
    refine ⟨c, st, ⟨node, ?_, hbuilt, he⟩, rfl⟩
    rw [Environment.nodeAt?, hd]
    exact hnode

end MaterialGraph
