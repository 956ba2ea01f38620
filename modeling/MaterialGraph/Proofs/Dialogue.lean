import Mathlib.Data.List.Forall2
import MaterialGraph.Proofs.World

/-!
# Plans side by side

A built-in node treats what it is told in a uniform way. It compares types, it passes values on,
and what it makes of them it makes by the operations of its class. So if two plans of a class are
told related things, they go on to ask for related things and give related results, whatever the
relation is, as long as those operations respect it. Here this is shown once, class by class, for
settings that differ in their wires at most.

One relation then says that plans never look at texts, another that they make good values of good
values, a third that it does not matter where wires lead, and a fourth that constants stay closed.

## Main definitions

* `Matched` — results that are related, or faults that are.
* `NodeClass.MayAsk` — what a node of a class may ask for.
* `NodeClass.Moved` — the settings of a class with other wires.
* `Bond`, `Bond.Lawful` — what relates two plans, and that the operations respect it.
* `Plan.Linked` — plans that ask for related things and give related results.

## Main results

* `Plan.Linked.bind` — one plan after another.
* `NodeClass.plan_linked` — the plans of the built-in nodes.
-/

namespace MaterialGraph

/-! ### Results that may be faults -/

/-- Results related by `Q`, or faults related by `F`. -/
def Matched {α β : Type} (F : Fault → Fault → Prop) (Q : α → β → Prop) :
    Except Fault α → Except Fault β → Prop
  | .ok a, .ok b => Q a b
  | .error f, .error g => F f g
  | _, _ => False

namespace Matched

variable {α β α' β' : Type} {F : Fault → Fault → Prop} {Q : α → β → Prop} {R : α' → β' → Prop}

theorem ok {a : α} {b : β} (h : Q a b) : Matched F Q (.ok a) (.ok b) := h

theorem error {f g : Fault} (h : F f g) :
    Matched F Q (.error f : Except Fault α) (.error g : Except Fault β) := h

theorem refl {Q : α → α → Prop} (hF : ∀ f, F f f) (hQ : ∀ a, Q a a) (x : Except Fault α) :
    Matched F Q x x := by
  cases x with
  | ok a => exact hQ a
  | error f => exact hF f

theorem bind {x : Except Fault α} {y : Except Fault β} {k : α → Except Fault α'}
    {l : β → Except Fault β'} (h : Matched F Q x y) (hk : ∀ a b, Q a b → Matched F R (k a) (l b)) :
    Matched F R (x >>= k) (y >>= l) := by
  cases x with
  | ok a =>
    cases y with
    | ok b => exact hk a b h
    | error g => exact h.elim
  | error f =>
    cases y with
    | ok b => exact h.elim
    | error g => exact h

theorem imp {Q' : α → β → Prop} {x : Except Fault α} {y : Except Fault β} (h : Matched F Q x y)
    (hQ : ∀ a b, Q a b → Q' a b) : Matched F Q' x y := by
  cases x <;> cases y <;> first | exact hQ _ _ h | exact h

theorem map {x : Except Fault α} {y : Except Fault β} {k : α → α'} {l : β → β'}
    (h : Matched F Q x y) (hk : ∀ a b, Q a b → R (k a) (l b)) :
    Matched F R (x.map k) (y.map l) := by
  cases x with
  | ok a =>
    cases y with
    | ok b => exact hk a b h
    | error g => exact h.elim
  | error f =>
    cases y with
    | ok b => exact h.elim
    | error g => exact h

end Matched

namespace World.Yields

variable {W : World} {α : Type} {Q : α → Prop} {x x' : Except MaterialGraph.Fault α}

/-- A result that a world accounts for, beside itself. -/
theorem matched {R : α → α → Prop} (h : W.Yields Q x) (hR : ∀ a, Q a → R a a) :
    Matched (fun f g => g = f ∧ W.Fault f) R x x := by
  cases x with
  | ok a => exact hR a h
  | error f => exact ⟨rfl, h⟩

theorem both (h : x' = x ∧ W.Yields Q x) :
    Matched (fun f g => g = f ∧ W.Fault f) (fun a b => b = a ∧ Q a) x x' := by
  obtain ⟨rfl, h⟩ := h
  exact h.matched fun _ ha => ⟨rfl, ha⟩

end World.Yields

/-! ### What the classes ask for -/

/-- The attribute that stands for the feature of a switch. -/
def SwitchSettings.toggle (s : SwitchSettings) : ParameterSpec where
  name := s.name
  type := .bool
  initial := some (.bool s.previewValue)
  isAttribute := true

/-- The attribute of a matrix. -/
def MatrixSettings.parameter (s : MatrixSettings) : ParameterSpec where
  name := s.name
  type := .matrix4
  isAttribute := true

namespace NodeClass

/-- The settings of a switch. -/
def switch? : (c : NodeClass) → c.Settings → Option SwitchSettings
  | .staticSwitch, s => some s
  | _, _ => none

/-- The settings of a function. -/
def function? : (c : NodeClass) → c.Settings → Option FunctionSettings
  | .function, s => some s
  | _, _ => none

/-- The parameter that a named constant declares. -/
def constant? : (c : NodeClass) → c.Settings → Option ParameterSpec
  | .literal k, s => if s.name.isEmpty then none else some (Literal.parameter k s)
  | .bool, s => if s.name.isEmpty then none else some s.parameter
  | _, _ => none

/-- The parameter that a node declares for itself: that of a named constant, or of a matrix
that game code sets. -/
def parameter? : (c : NodeClass) → c.Settings → Option ParameterSpec
  | .matrix, s => if s.origin.global? = none then some s.parameter else none
  | c, s => c.constant? s

/-- The functions that a node registers. -/
def sources (types : TypeTable) : (c : NodeClass) → c.Settings → List String
  | .function, s => [FunctionSettings.declaration types s]
  | .fresnel, _ => [FresnelSettings.source]
  | _, _ => []

/-- The classes whose nodes may have a texture of their own. -/
def IsTextured : NodeClass → Prop
  | .textureObject => True
  | .sample _ => True
  | _ => False

/-- What a node may ask for, with given types and in a mode. -/
def MayAsk (types : TypeTable) (mode : Mode) (c : NodeClass) (s : c.Settings) : Command → Prop
  | .read input wire => (input, wire) ∈ c.spec.connections s
  | .own _ => True
  | .call _ => ∃ path, c.spec.role s = .subgraphCall path
  | .argument name => c.spec.role s = .subgraphInput name
  | .parameter spec => c.parameter? s = some spec
  | .declare _ => False
  | .function source => source ∈ c.sources types s
  | .texture _ _ _ => c.IsTextured
  | .sampler _ => True
  | .feature name group => mode = .final ∧
      ∃ sw, c.switch? s = some sw ∧ name = sw.name ∧ group = sw.group
  | .toggle name initial => mode = .preview ∧
      ∃ sw, c.switch? s = some sw ∧ name = sw.name ∧ initial = sw.previewValue
  | .select _ _ _ _ => mode = .final ∧ ∃ sw, c.switch? s = some sw
  | .warn _ => False
  | .reportMissing _ => True
  | .note _ => False

/-- The settings `s'` are the settings `s` with other wires, each related by `R` to the one in
its place. -/
def Moved (R : Wire → Wire → Prop) : (c : NodeClass) → c.Settings → c.Settings → Prop
  | .binary _, s, s' => ∃ a b, R s.a a ∧ R s.b b ∧ s' = { s with a, b }
  | .lerp, s, s' => ∃ a b t, R s.a a ∧ R s.b b ∧ R s.t t ∧ s' = { s with a, b, t }
  | .clamp, s, s' => ∃ input min max, R s.input input ∧ R s.min min ∧ R s.max max ∧
      s' = { s with input, min, max }
  | .remap, s, s' => ∃ input, R s.input input ∧ s' = { s with input }
  | .unary _, s, s' => ∃ input, R s.input input ∧ s' = { s with input }
  | .split, s, s' => ∃ input, R s.input input ∧ s' = { s with input }
  | .combine, s, s' => ∃ x y z w, R s.x x ∧ R s.y y ∧ R s.z z ∧ R s.w w ∧
      s' = { s with x, y, z, w }
  | .swizzle, s, s' => ∃ input, R s.input input ∧ s' = { s with input }
  | .transform, s, s' => ∃ matrix vector, R s.matrix matrix ∧ R s.vector vector ∧
      s' = { s with matrix, vector }
  | .sample _, s, s' => ∃ texture sampler coords, R s.texture texture ∧ R s.sampler sampler ∧
      R s.coords coords ∧ s' = { s with texture, sampler, coords }
  | .branch, s, s' => ∃ a b onTrue onFalse, R s.a a ∧ R s.b b ∧ R s.onTrue onTrue ∧
      R s.onFalse onFalse ∧ s' = { s with a, b, onTrue, onFalse }
  | .staticSwitch, s, s' => ∃ onTrue onFalse, R s.onTrue onTrue ∧ R s.onFalse onFalse ∧
      s' = { s with onTrue, onFalse }
  | .function, s, s' => ∃ arguments, List.Forall₂
      (fun x y : FunctionArgument => ∃ input, R x.input input ∧ y = { x with input })
      s.arguments arguments ∧ s' = { s with arguments }
  | .fresnel, s, s' => ∃ normal view power, R s.normal normal ∧ R s.view view ∧
      R s.power power ∧ s' = { s with normal, view, power }
  | .subgraphOutput, s, s' => ∃ value, R s.value value ∧ s' = { s with value }
  | .subgraphCall, s, s' => ∃ inputs, List.Forall₂
      (fun x y : String × Wire => y.1 = x.1 ∧ R x.2 y.2) s.inputs inputs ∧ s' = { s with inputs }
  | .materialResult, s, s' => ∀ channel, R (s.wire channel) (s'.wire channel)
  | .reroute, s, s' => R s.input s'.input
  | _, s, s' => s' = s

theorem Moved.refl {R : Wire → Wire → Prop} (hR : ∀ x, R x x) (c : NodeClass) (s : c.Settings) :
    Moved R c s s := by
  cases c with
  | remap | unary op | split | swizzle | subgraphOutput => exact ⟨_, hR _, rfl⟩
  | binary op | transform | staticSwitch => exact ⟨_, _, hR _, hR _, rfl⟩
  | lerp | clamp | sample k | fresnel => exact ⟨_, _, _, hR _, hR _, hR _, rfl⟩
  | combine | branch => exact ⟨_, _, _, _, hR _, hR _, hR _, hR _, rfl⟩
  | function => exact ⟨_, List.forall₂_same.mpr fun a _ => ⟨_, hR _, rfl⟩, rfl⟩
  | subgraphCall => exact ⟨_, List.forall₂_same.mpr fun x _ => ⟨rfl, hR _⟩, rfl⟩
  | materialResult => exact fun channel => hR _
  | reroute => exact hR _
  | _ => rfl

end NodeClass

/-! ### Bonds -/

/-- What relates two plans that are carried out side by side. -/
structure Bond where
  value : Expr → Expr → Prop
  fault : Fault → Fault → Prop
  /-- The wires that an input is read along. -/
  reads : String → Wire → Wire → Prop
  /-- What is read along such wires. -/
  told : String → Wire → Outcome → Outcome → Prop
  /-- The requests that both may make, beside inputs. -/
  asks : Command → Prop
  /-- What such requests are answered with. -/
  answers : (c : Command) → c.Reply → c.Reply → Prop
  /-- Names of functions. -/
  name : String → String → Prop
  feature : Feature → Feature → Prop
  /-- Attributes that stand for features. -/
  toggle : Expr → Expr → Prop
  /-- Pairs of values that are selected from, with their type. -/
  choice : ShaderType × Expr × Expr → ShaderType × Expr × Expr → Prop
  /-- What functions may return. -/
  returns : ShaderType → Prop

/-- What a plan makes of related outcomes for an input. -/
inductive Bond.Heard (B : Bond) (input : String) : Outcome → Outcome → Prop where
  | valid {e e' : Expr} (h : B.value e e') : Heard B input (.valid e) (.valid e')
  | error (text text' : String) (h : B.fault (.brokenInput input) (.brokenInput input)) :
      Heard B input (.error text) (.error text')
  | missingInput (text text' : String) : Heard B input (.missingInput text) (.missingInput text')

/-- The operations of the classes respect the bond. -/
structure Bond.Lawful (B : Bond) (types : TypeTable) : Prop where
  /-- Both wires are connected, or none is. -/
  connected {input : String} {x x' : Wire} : B.reads input x x' → x'.isConnected = x.isConnected
  /-- The faults of the classes. -/
  reported {f : Fault} : f.IsReported → B.fault f f
  /-- Answers. -/
  told {input : String} {x : Wire} {o o' : Outcome} : B.told input x o o' → B.Heard input o o'
  own {output : String} {o o' : Outcome} : B.answers (.own output) o o' → B.Heard output o o'
  argument {name : String} {x x' : Option Outcome} :
    B.answers (.argument name) x x' → Option.Rel (B.Heard name) x x'
  call {output : String} {x x' : Except Fault Expr} :
    B.answers (.call output) x x' → Matched B.fault B.value x x'
  parameter {spec : ParameterSpec} {x x' : Except Fault Expr} :
    B.answers (.parameter spec) x x' → Matched B.fault B.value x x'
  function {source : String} {x x' : Except Fault String} :
    B.answers (.function source) x x' → Matched B.fault B.name x x'
  texture {spec : TextureSpec} {name : String} {fallback : Vec4} {x x' : Except Fault Expr} :
    B.answers (.texture spec name fallback) x x' → Matched B.fault B.value x x'
  sampler {state : SamplerState} {e e' : Expr} : B.answers (.sampler state) e e' → B.value e e'
  feature {name group : String} {x x' : Except Fault Feature} :
    B.answers (.feature name group) x x' → Matched B.fault B.feature x x'
  toggle {name : String} {initial : Bool} {x x' : Except Fault Expr} :
    B.answers (.toggle name initial) x x' → Matched B.fault B.toggle x x'
  type {e e' : Expr} : B.value e e' → e'.type = e.type
  /-- Values that do not depend on others. -/
  constant (c : Constant) : B.value (c.expr types) (c.expr types)
  surface (i : SurfaceInput) (stage : Stage) : Matched B.fault B.value (i.expr stage) (i.expr stage)
  matrix {o : MatrixOrigin} {code : String} : o.global? = some code →
    B.value { type := .matrix4, code } { type := .matrix4, code }
  /-- Changes of width and of type. -/
  cast {e e' : Expr} (n : Nat) :
    B.value e e' → Matched B.fault B.value (e.cast types n) (e'.cast types n)
  castTo {e e' : Expr} (t : ShaderType) :
    B.value e e' → Matched B.fault B.value (e.castTo types t) (e'.castTo types t)
  binary {a a' b b' : Expr} (op : BinaryOp) : B.value a a' → B.value b b' →
    Matched B.fault
      (fun p q => B.value
        { type := p.1, code := p.2, isConstant := a.isConstant && b.isConstant }
        { type := q.1, code := q.2, isConstant := a'.isConstant && b'.isConstant })
      (op.emit types a b) (op.emit types a' b')
  unary {e e' : Expr} (op : UnaryOp) : B.value e e' →
    Matched B.fault
      (fun p q => B.value { type := p.1, code := p.2, isConstant := e.isConstant }
        { type := q.1, code := q.2, isConstant := e'.isConstant })
      (op.emit e) (op.emit e')
  lerp {a a' b b' t t' : Expr} : B.value a a' → B.value b b' → B.value t t' →
    Matched B.fault B.value (LerpSettings.emit types a b t) (LerpSettings.emit types a' b' t')
  clamp {e e' a a' b b' : Expr} : B.value e e' → B.value a a' → B.value b b' →
    Matched B.fault B.value (ClampSettings.emit e a b) (ClampSettings.emit e' a' b')
  remap {e e' : Expr} (s : RemapSettings) :
    B.value e e' → Matched B.fault B.value (s.emit e) (s.emit e')
  transform {a a' b b' : Expr} (s : TransformSettings) : B.value a a' → B.value b b' →
    Matched B.fault B.value (s.emit a b) (s.emit a' b')
  split {letter : String} {e e' : Expr} (index : Nat) :
    letter ∈ componentLetters → B.value e e' →
      Matched B.fault B.value (SplitSettings.emit e letter index)
        (SplitSettings.emit e' letter index)
  swizzle {e e' : Expr} (indices : List Nat) : B.value e e' →
    Matched B.fault B.value (SwizzleSettings.emit e indices) (SwizzleSettings.emit e' indices)
  combine {n : Nat} {type : ShaderType} {es es' : List Expr} :
    ShaderType.vector? n = some type → List.Forall₂ B.value es es' →
      B.value
        { type
          code := types.name type ++ "( " ++ ", ".intercalate (es.map (·.code)) ++ " )"
          isConstant := es.all (·.isConstant) }
        { type
          code := types.name type ++ "( " ++ ", ".intercalate (es'.map (·.code)) ++ " )"
          isConstant := es'.all (·.isConstant) }
  /-- Samples of textures. -/
  sample {t t' s s' c c' : Expr} (stage : Stage) : B.value t t' → B.value s s' → B.value c c' →
    B.value { type := .vector4, code := SampleSettings.code stage t s c }
      { type := .vector4, code := SampleSettings.code stage t' s' c' }
  channel {output : String} {e e' : Expr} :
    output ∈ SampleSettings.channelOutputs → B.value e e' →
      B.value { type := .float, code := e.operand ++ "." ++ output }
        { type := .float, code := e'.operand ++ "." ++ output }
  branch {a a' b b' c c' d d' : Expr} (s : BranchSettings) :
    B.value a a' → B.value b b' → B.value c c' → B.value d d' →
      Matched B.fault B.value (s.emit types a b c d) (s.emit types a' b' c' d')
  choose {a a' b b' : Expr} : B.value a a' → B.value b b' →
    Matched B.fault (fun p q => q.1 = p.1 ∧ B.choice p q) (selectOperands types a b)
      (selectOperands types a' b')
  preview {e e' : Expr} {type : ShaderType} {a a' b b' : Expr} :
    B.toggle e e' → B.choice (type, a, b) (type, a', b') →
      B.value { type, code := e.code ++ " ? " ++ a.operand ++ " : " ++ b.operand }
        { type, code := e'.code ++ " ? " ++ a'.operand ++ " : " ++ b'.operand }
  ofCall {name name' : String} {es es' : List Expr} {type : ShaderType} :
    B.name name name' → List.Forall₂ B.value es es' → B.returns type →
      B.value (.ofCall name es type) (.ofCall name' es' type)
  returns_float : B.returns .float

theorem Bond.Heard.toExpr {B : Bond} {types : TypeTable} (hB : B.Lawful types) {input : String}
    {o o' : Outcome} (h : B.Heard input o o') :
    Matched B.fault B.value (o.toExpr input) (o'.toExpr input) := by
  cases h with
  | valid h => exact h
  | error text text' h => exact h
  | missingInput text text' => exact hB.reported trivial

/-! ### Plans -/

/-- Requests other than for an input or for a selection. -/
def Command.isPlain : Command → Bool
  | .read _ _ => false
  | .select _ _ _ _ => false
  | _ => true

/-- Two plans that ask for related things, as long as they are told related things, and in the
end give results related by `Q`. What follows a selection in the first is as `ends` says. -/
inductive Plan.Linked {α β : Type} (B : Bond) (ends : Expr → Plan α → Prop) (Q : α → β → Prop) :
    Plan α → Plan β → Prop where
  | done {a : α} {b : β} (h : Q a b) : Linked B ends Q (.done a) (.done b)
  | fail {f g : Fault} (h : B.fault f g) : Linked B ends Q (.fail f) (.fail g)
  | read (input : String) {x x' : Wire} (hx : B.reads input x x') {next : Outcome → Plan α}
      {next' : Outcome → Plan β}
      (h : ∀ o o', B.told input x o o' → Linked B ends Q (next o) (next' o')) :
      Linked B ends Q (.ask (.read input x) next) (.ask (.read input x') next')
  | ask (c : Command) (hplain : c.isPlain = true) (hc : B.asks c) {next : c.Reply → Plan α}
      {next' : c.Reply → Plan β}
      (h : ∀ r r', B.answers c r r' → Linked B ends Q (next r) (next' r')) :
      Linked B ends Q (.ask c next) (.ask c next')
  /-- Both have a value selected by a feature. -/
  | select {f f' : Feature} (hf : B.feature f f') {type : ShaderType} {a a' b b' : Expr}
      (hab : B.choice (type, a, b) (type, a', b')) (hc : B.asks (.select f type a b))
      {next : Expr → Plan α} {next' : Expr → Plan β} (hends : ∀ e, ends e (next e))
      (h : ∀ e e', B.value e e' → Linked B ends Q (next e) (next' e')) :
      Linked B ends Q (.ask (.select f type a b) next) (.ask (.select f' type a' b') next')

namespace Plan

variable {α β α' β' : Type} {B : Bond} {Q : α → β → Prop} {R : α' → β' → Prop}
  {ends : Expr → Plan α → Prop}

theorem Linked.bind {ends : Expr → Plan α' → Prop} {p : Plan α} {q : Plan β} {k : α → Plan α'}
    {l : β → Plan β'} (h : p.Linked B noSelection Q q)
    (hk : ∀ a b, Q a b → (k a).Linked B ends R (l b)) :
    (p >>= k).Linked B ends R (q >>= l) := by
  induction h with
  | done h => exact hk _ _ h
  | fail h => exact .fail h
  | read input hx h ih => exact .read input hx ih
  | ask c hplain hc h ih => exact .ask c hplain hc ih
  | select hf hab hc hends h ih => exact (hends default).elim

theorem linked_ofExcept {x : Except Fault α} {y : Except Fault β} (h : Matched B.fault Q x y) :
    (ofExcept x).Linked B ends Q (ofExcept y) := by
  cases x with
  | ok a =>
    cases y with
    | ok b => exact .done h
    | error g => exact h.elim
  | error f =>
    cases y with
    | ok b => exact h.elim
    | error g => exact .fail h

theorem linked_result {c : Command} (hplain : c.isPlain = true) (hc : B.asks c)
    {x : c.Reply → Except Fault α} {y : c.Reply → Except Fault β}
    (h : ∀ r r', B.answers c r r' → Matched B.fault Q (x r) (y r')) :
    (request c >>= fun r => ofExcept (x r)).Linked B ends Q
      (request c >>= fun r => ofExcept (y r)) :=
  .ask c hplain hc fun r r' hr => linked_ofExcept (h r r' hr)

section Inputs

variable {types : TypeTable} (hB : B.Lawful types)
include hB

theorem linked_own {ends : Expr → Plan Expr → Prop} {output : String} (h : B.asks (.own output)) :
    (own output).Linked B ends B.value (own output) :=
  linked_result rfl h fun _ _ ho => (hB.own ho).toExpr hB

theorem linked_onlyResult {ends : Expr → Plan Expr → Prop} {p q : Plan Expr}
    (h : p.Linked B ends B.value q) (className output : String) :
    (onlyResult className output p).Linked B ends B.value (onlyResult className output q) := by
  unfold onlyResult
  split
  · exact h
  · exact .fail (hB.reported trivial)

variable {input : String} {x x' : Wire} (hx : B.reads input x x')
include hx

theorem linked_required {ends : Expr → Plan Expr → Prop} :
    (required input x).Linked B ends B.value (required input x') :=
  .read input hx fun _ _ ho => linked_ofExcept ((hB.told ho).toExpr hB)

theorem linked_optional {ends : Expr → Plan (Option Expr) → Prop} :
    (optional input x).Linked B ends (Option.Rel B.value) (optional input x') := by
  unfold optional
  rw [hB.connected hx]
  split
  · exact (linked_required hB hx).bind fun _ _ he => .done (.some he)
  · exact .done .none

theorem linked_orDefault {ends : Expr → Plan Expr → Prop} (hm : B.asks (.reportMissing input))
    (c : Constant) :
    (orDefault types input x c).Linked B ends B.value (orDefault types input x' c) := by
  refine .read input hx fun o o' ho => ?_
  cases hB.told ho with
  | valid h => exact .done h
  | error text text' h => exact .done (hB.constant c)
  | missingInput text text' =>
    rw [hB.connected hx]
    split
    · exact .ask (.reportMissing input) rfl hm fun _ _ _ => .done (hB.constant c)
    · exact .done (hB.constant c)

end Inputs

end Plan

/-! ### The plans of the classes -/

/-- The bond admits what a node asks for: along its wires, and otherwise. -/
structure NodeClass.Admitted (B : Bond) (types : TypeTable) (mode : Mode) (c : NodeClass)
    (s s' : c.Settings) : Prop where
  /-- The inputs are read along related wires. -/
  reads : List.Forall₂ (fun x y => B.reads x.1 x.2 y.2) (c.spec.connections s)
    (c.spec.connections s')
  /-- The other requests may be made. -/
  asks (cmd : Command) : c.MayAsk types mode s cmd → B.asks cmd
  /-- A custom function may return what it does. -/
  returns {f : FunctionSettings} : c.function? s = some f → B.returns f.resultType

namespace NodeClass.Admitted

open Plan

variable {B : Bond} {types : TypeTable} {mode : Mode} {c : NodeClass} {s s' : c.Settings}

theorem read (h : c.Admitted B types mode s s') {x y : String × Wire}
    (hxy : (x, y) ∈ (c.spec.connections s).zip (c.spec.connections s')) : B.reads x.1 x.2 y.2 :=
  (List.forall₂_iff_zip.mp h.reads).2 hxy

theorem missing (h : c.Admitted B types mode s s') (input : String) :
    B.asks (.reportMissing input) :=
  h.asks (.reportMissing input) trivial

/-- An input that a constant stands in for. -/
theorem orDefault (h : c.Admitted B types mode s s') (hB : B.Lawful types) {x y : String × Wire}
    (hxy : (x, y) ∈ (c.spec.connections s).zip (c.spec.connections s')) (constant : Constant)
    {ends : Expr → Plan Expr → Prop} :
    (Plan.orDefault types x.1 x.2 constant).Linked B ends B.value
      (Plan.orDefault types x.1 y.2 constant) :=
  linked_orDefault hB (h.read hxy) (h.missing _) constant

end NodeClass.Admitted

/-- What does not depend on the wires of arguments. -/
theorem FunctionArgument.map_eq {β : Type} {R : Wire → Wire → Prop} {f : FunctionArgument → β}
    {l l' : List FunctionArgument}
    (h : List.Forall₂ (fun x y => ∃ input, R x.input input ∧ y = { x with input }) l l')
    (hf : ∀ (a : FunctionArgument) input, f { a with input } = f a) : l'.map f = l.map f := by
  induction h with
  | nil => rfl
  | cons ha _ ih =>
    obtain ⟨input, -, rfl⟩ := ha
    rw [List.map_cons, List.map_cons, hf, ih]

section Plans

open Plan NodeClass

variable {B : Bond} {frame : Frame} (hB : B.Lawful frame.types) {mode : Mode}
  {ends : Expr → Plan Expr → Prop} {output : String} {R : Wire → Wire → Prop}
include hB

theorem Literal.plan_linked {k : LiteralKind} {s : LiteralSettings k.Carrier}
    (h : (literal k).Admitted B frame.types mode s s) :
    ((Literal.spec k).plan s frame output).Linked B ends B.value
      ((Literal.spec k).plan s frame output) := by
  refine linked_onlyResult hB ?_ _ _
  split
  · exact .done (hB.constant _)
  · next hname =>
    have hask := h.asks (.parameter (Literal.parameter k s)) (if_neg hname)
    exact linked_result rfl hask fun _ _ => hB.parameter

theorem BoolSettings.plan_linked {s : BoolSettings}
    (h : NodeClass.bool.Admitted B frame.types mode s s) :
    (BoolSettings.spec.plan s frame output).Linked B ends B.value
      (BoolSettings.spec.plan s frame output) := by
  refine linked_onlyResult hB ?_ _ _
  split
  · exact .done (hB.constant _)
  · next hname =>
    have hask := h.asks (.parameter s.parameter) (if_neg hname)
    exact linked_result rfl hask fun _ _ => hB.parameter

theorem BinaryOp.plan_linked {op : BinaryOp} {s s' : BinarySettings}
    (hs : Moved R (binary op) s s') (h : (binary op).Admitted B frame.types mode s s') :
    (op.spec.plan s frame output).Linked B ends B.value (op.spec.plan s' frame output) := by
  obtain ⟨a, b, -, -, rfl⟩ := hs
  refine linked_onlyResult hB ?_ _ _
  refine (h.orDefault hB (.head _) _).bind fun a a' ha => ?_
  refine (h.orDefault hB (.tail _ (.head _)) _).bind fun b b' hb => ?_
  exact (linked_ofExcept (hB.binary op ha hb)).bind fun _ _ => .done

theorem UnaryOp.plan_linked {op : UnaryOp} {s s' : UnarySettings} (hs : Moved R (unary op) s s')
    (h : (unary op).Admitted B frame.types mode s s') :
    (op.spec.plan s frame output).Linked B ends B.value (op.spec.plan s' frame output) := by
  obtain ⟨input, -, rfl⟩ := hs
  refine linked_onlyResult hB ?_ _ _
  refine (h.orDefault hB (.head _) _).bind fun e e' he => ?_
  exact (linked_ofExcept (hB.unary op he)).bind fun _ _ => .done

theorem LerpSettings.plan_linked {s s' : LerpSettings} (hs : Moved R lerp s s')
    (h : lerp.Admitted B frame.types mode s s') :
    (spec.plan s frame output).Linked B ends B.value (spec.plan s' frame output) := by
  obtain ⟨a, b, t, -, -, -, rfl⟩ := hs
  refine linked_onlyResult hB ?_ _ _
  refine (h.orDefault hB (.head _) _).bind fun a a' ha => ?_
  refine (h.orDefault hB (.tail _ (.head _)) _).bind fun b b' hb => ?_
  refine (h.orDefault hB (.tail _ (.tail _ (.head _))) _).bind fun t t' ht => ?_
  exact linked_ofExcept (hB.lerp ha hb ht)

theorem ClampSettings.plan_linked {s s' : ClampSettings} (hs : Moved R clamp s s')
    (h : clamp.Admitted B frame.types mode s s') :
    (spec.plan s frame output).Linked B ends B.value (spec.plan s' frame output) := by
  obtain ⟨input, min, max, -, -, -, rfl⟩ := hs
  refine linked_onlyResult hB ?_ _ _
  refine (h.orDefault hB (.head _) _).bind fun e e' he => ?_
  refine (h.orDefault hB (.tail _ (.head _)) _).bind fun a a' ha => ?_
  refine (h.orDefault hB (.tail _ (.tail _ (.head _))) _).bind fun b b' hb => ?_
  exact linked_ofExcept (hB.clamp he ha hb)

theorem RemapSettings.plan_linked {s s' : RemapSettings} (hs : Moved R remap s s')
    (h : remap.Admitted B frame.types mode s s') :
    (spec.plan s frame output).Linked B ends B.value (spec.plan s' frame output) := by
  obtain ⟨input, -, rfl⟩ := hs
  refine linked_onlyResult hB ?_ _ _
  refine (h.orDefault hB (.head _) _).bind fun e e' he => ?_
  exact linked_ofExcept (hB.remap s he)

theorem SplitSettings.plan_linked {s s' : SplitSettings} (hs : Moved R split s s')
    (h : split.Admitted B frame.types mode s s') :
    (spec.plan s frame output).Linked B ends B.value (spec.plan s' frame output) := by
  obtain ⟨input, -, rfl⟩ := hs
  unfold spec
  dsimp only
  split
  · exact .fail (hB.reported trivial)
  · next index hi =>
    -- the output that is asked for is the letter of a component
    have hl : output ∈ componentLetters := by
      obtain ⟨hlt, he, -⟩ := List.findIdx?_eq_some_iff_getElem.mp hi
      rw [beq_iff_eq] at he
      exact he ▸ List.getElem_mem hlt
    refine (h.orDefault hB (.head _) _).bind fun e e' he => ?_
    exact linked_ofExcept (hB.split index hl he)

theorem CombineSettings.parts_linked (hm : ∀ input, B.asks (.reportMissing input)) :
    ∀ {l l' : List ((String × Wire) × Number.Single)},
      List.Forall₂ (fun x y => y.1.1 = x.1.1 ∧ B.reads x.1.1 x.1.2 y.1.2 ∧ y.2 = x.2) l l' →
      (parts frame.types l).Linked B noSelection (List.Forall₂ B.value)
        (parts frame.types l') := by
  intro l l' h
  induction h with
  | nil => exact .done .nil
  | @cons x y l l' hxy _ ih =>
    obtain ⟨⟨input, wire⟩, fallback⟩ := x
    obtain ⟨⟨input', wire'⟩, fallback'⟩ := y
    obtain ⟨rfl, hwire, rfl⟩ := hxy
    refine (linked_orDefault hB hwire (hm _) _).bind fun e e' he => ?_
    refine (linked_ofExcept (hB.cast 1 he)).bind fun e e' he => ?_
    exact ih.bind fun _ _ hes => .done (.cons he hes)

theorem CombineSettings.plan_linked {s s' : CombineSettings} (hs : Moved R combine s s')
    (h : combine.Admitted B frame.types mode s s') :
    (spec.plan s frame output).Linked B ends B.value (spec.plan s' frame output) := by
  obtain ⟨x, y, z, w, -, -, -, -, rfl⟩ := hs
  refine linked_onlyResult hB ?_ _ _
  have htype : type? { s with x, y, z, w } = s.type? := rfl
  rw [htype]
  split
  · exact .fail (hB.reported trivial)
  · next type htype =>
    have hvector : ShaderType.vector? s.components.toNat = some type := by
      unfold CombineSettings.type? at htype
      split at htype
      · exact htype
      · cases htype
    have hwires : List.Forall₂ (fun x y : (String × Wire) × Number.Single =>
        y.1.1 = x.1.1 ∧ B.reads x.1.1 x.1.2 y.1.2 ∧ y.2 = x.2)
        (s.connections.zip s.fallback.toList)
        ((connections { s with x, y, z, w }).zip s.fallback.toList) :=
      .cons ⟨rfl, h.read (.head _), rfl⟩ (.cons ⟨rfl, h.read (.tail _ (.head _)), rfl⟩
        (.cons ⟨rfl, h.read (.tail _ (.tail _ (.head _))), rfl⟩
          (.cons ⟨rfl, h.read (.tail _ (.tail _ (.tail _ (.head _)))), rfl⟩ .nil)))
    refine (parts_linked hB h.missing (List.forall₂_take _ hwires)).bind fun es es' hes => ?_
    exact .done (hB.combine hvector hes)

theorem SwizzleSettings.plan_linked {s s' : SwizzleSettings} (hs : Moved R swizzle s s')
    (h : swizzle.Admitted B frame.types mode s s') :
    (spec.plan s frame output).Linked B ends B.value (spec.plan s' frame output) := by
  obtain ⟨input, -, rfl⟩ := hs
  refine linked_onlyResult hB ?_ _ _
  have hindices : indices? { s with input } = s.indices? := rfl
  rw [hindices]
  split
  · exact .fail (hB.reported trivial)
  · refine (h.orDefault hB (.head _) _).bind fun e e' he => ?_
    exact linked_ofExcept (hB.swizzle _ he)

theorem MatrixSettings.plan_linked {s : MatrixSettings}
    (h : NodeClass.matrix.Admitted B frame.types mode s s) :
    (spec.plan s frame output).Linked B ends B.value (spec.plan s frame output) := by
  refine linked_onlyResult hB ?_ _ _
  split
  · next hglobal => exact .done (hB.matrix hglobal)
  · next hname =>
    have hask := h.asks (.parameter s.parameter) (if_pos hname)
    exact linked_result rfl hask fun _ _ => hB.parameter

theorem TransformSettings.plan_linked {s s' : TransformSettings} (hs : Moved R transform s s')
    (h : transform.Admitted B frame.types mode s s') :
    (spec.plan s frame output).Linked B ends B.value (spec.plan s' frame output) := by
  obtain ⟨matrix, vector, -, -, rfl⟩ := hs
  refine linked_onlyResult hB ?_ _ _
  refine (linked_required hB (h.read (.head _))).bind fun a a' ha => ?_
  refine (h.orDefault hB (.tail _ (.head _)) _).bind fun b b' hb => ?_
  refine (linked_ofExcept (hB.cast 3 hb)).bind fun b b' hb => ?_
  exact linked_ofExcept (hB.transform s ha hb)

theorem ImageSettings.plan_linked (s : ImageSettings) (cube : Bool)
    (h : ∀ spec name fallback, B.asks (.texture spec name fallback)) :
    (s.plan cube).Linked B ends B.value (s.plan cube) :=
  linked_result rfl (h _ _ _) fun _ _ => hB.texture

section Samples

variable {k : SampleKind} {s : SampleSettings} {texture sampler coords : Wire}

theorem SampleSettings.texturePlan_linked (hx : B.reads "texture" s.texture texture)
    (h : ∀ spec name fallback, B.asks (.texture spec name fallback)) :
    (s.texturePlan k).Linked B noSelection B.value
      (texturePlan k { s with texture, sampler, coords }) := by
  have hcheck (t t' : Expr) (ht : B.value t t') : Plan.Linked B noSelection B.value
      (if t.type = k.textureType then return t else .fail (.typeMismatch
        ("expected " ++ k.textureType.text ++ ", got " ++ t.type.text)))
      (if t'.type = k.textureType then return t' else .fail (.typeMismatch
        ("expected " ++ k.textureType.text ++ ", got " ++ t'.type.text))) := by
    rw [hB.type ht]
    split
    · exact .done ht
    · exact .fail (hB.reported trivial)
  refine (linked_optional hB hx).bind fun x x' hx => ?_
  cases hx with
  | none => exact (s.source.plan_linked hB _ h).bind hcheck
  | some he => exact hcheck _ _ he

theorem SampleSettings.samplerPlan_linked (hx : B.reads "sampler" s.sampler sampler)
    (h : B.asks (.sampler s.state)) :
    s.samplerPlan.Linked B noSelection B.value
      (samplerPlan { s with texture, sampler, coords }) := by
  refine (linked_optional hB hx).bind fun x x' hx => ?_
  cases hx with
  | none => exact .ask (.sampler s.state) rfl h fun _ _ he => .done (hB.sampler he)
  | @some e e' he =>
    dsimp only
    rw [hB.type he]
    split
    · exact .done he
    · exact .fail (hB.reported trivial)

theorem SampleSettings.coordsPlan_linked (hx : B.reads k.coordsKey s.coords coords) :
    (s.coordsPlan k frame).Linked B noSelection B.value
      (coordsPlan k { s with texture, sampler, coords } frame) := by
  refine (linked_optional hB hx).bind fun x x' hx => ?_
  cases hx with
  | none => exact linked_ofExcept (hB.surface _ _)
  | some he => exact linked_ofExcept (hB.cast _ he)

end Samples

theorem SampleSettings.plan_linked {k : SampleKind} {s s' : SampleSettings}
    (hs : Moved R (sample k) s s') (h : (sample k).Admitted B frame.types mode s s') :
    ((spec k).plan s frame output).Linked B ends B.value ((spec k).plan s' frame output) := by
  obtain ⟨texture, sampler, coords, -, -, -, rfl⟩ := hs
  show Plan.Linked B ends B.value (SampleSettings.plan k s frame output)
    (SampleSettings.plan k _ frame output)
  unfold SampleSettings.plan
  split
  · next ho =>
    -- a single channel is a component of the colour that the same node gives
    refine (linked_own hB (h.asks (.own _) trivial)).bind fun e e' he => ?_
    exact .done (hB.channel ho he)
  · refine linked_onlyResult hB ?_ _ _
    refine (texturePlan_linked hB (h.read (.head _)) fun spec name fallback =>
      h.asks (.texture spec name fallback) trivial).bind fun t t' ht => ?_
    refine (samplerPlan_linked hB (h.read (.tail _ (.head _)))
      (h.asks (.sampler _) trivial)).bind fun p p' hp => ?_
    refine (coordsPlan_linked hB (h.read (.tail _ (.tail _ (.head _))))).bind fun c c' hc => ?_
    exact .done (hB.sample _ ht hp hc)

theorem BranchSettings.plan_linked {s s' : BranchSettings} (hs : Moved R branch s s')
    (h : branch.Admitted B frame.types mode s s') :
    (spec.plan s frame output).Linked B ends B.value (spec.plan s' frame output) := by
  have hfault : ∀ a b fault, (scalarFault? a <|> scalarFault? b) = some fault →
      fault.IsReported := by
    intro a b fault h
    unfold scalarFault? at h
    split at h <;> split at h <;> cases h <;> trivial
  have hsame {e e' : Expr} (he : B.value e e') : scalarFault? e' = scalarFault? e := by
    unfold scalarFault? Expr.components
    rw [hB.type he]
  obtain ⟨a, b, onTrue, onFalse, -, -, -, -, rfl⟩ := hs
  refine linked_onlyResult hB ?_ _ _
  refine (h.orDefault hB (.head _) _).bind fun a a' ha => ?_
  refine (h.orDefault hB (.tail _ (.head _)) _).bind fun b b' hb => ?_
  rw [hsame ha, hsame hb]
  split
  · next fault hf => exact .fail (hB.reported (hfault a b fault hf))
  · refine (h.orDefault hB (.tail _ (.tail _ (.head _))) _).bind fun c c' hc => ?_
    refine (h.orDefault hB (.tail _ (.tail _ (.tail _ (.head _)))) _).bind fun d d' hd => ?_
    exact linked_ofExcept (hB.branch s ha hb hc hd)

/-- A switch is the one node that has a value selected by a feature, and this is the last
thing it does. -/
theorem SwitchSettings.plan_linked {s s' : SwitchSettings} (hs : Moved R staticSwitch s s')
    (h : staticSwitch.Admitted B frame.types frame.mode s s') :
    (spec.plan s frame output).Linked B selectionLast B.value (spec.plan s' frame output) := by
  obtain ⟨onTrue, onFalse, -, -, rfl⟩ := hs
  refine linked_onlyResult hB ?_ _ _
  refine (h.orDefault hB (.head _) _).bind fun a a' ha => ?_
  refine (h.orDefault hB (.tail _ (.head _)) _).bind fun b b' hb => ?_
  refine (linked_ofExcept (hB.choose ha hb)).bind fun p q hpq => ?_
  obtain ⟨type, on, off⟩ := p
  obtain ⟨type', on', off'⟩ := q
  obtain ⟨rfl, hpq⟩ := hpq
  cases hmode : frame.mode with
  | preview =>
    -- a preview decides while it runs
    have hask := h.asks (.toggle s.name s.previewValue) ⟨hmode, s, rfl, rfl, rfl⟩
    exact .ask _ rfl hask fun x x' hx => (linked_ofExcept (hB.toggle hx)).bind
      fun e e' he => .done (hB.preview he hpq)
  | final =>
    have hask := h.asks (.feature s.name s.group) ⟨hmode, s, rfl, rfl, rfl⟩
    refine .ask _ rfl hask fun x x' hx => (linked_ofExcept (hB.feature hx)).bind
      fun f f' hf => ?_
    exact .select hf hpq (h.asks _ ⟨hmode, s, rfl⟩) (fun _ => rfl) fun _ _ => .done

theorem FunctionSettings.argumentPlan_linked (hm : ∀ input, B.asks (.reportMissing input)) :
    ∀ {l l' : List FunctionArgument},
      List.Forall₂ (fun x y => B.reads x.name x.input y.input ∧ ∃ input, y = { x with input }) l
        l' →
      (argumentPlan frame.types l).Linked B noSelection (List.Forall₂ B.value)
        (argumentPlan frame.types l') := by
  intro l l' h
  induction h with
  | nil => exact .done .nil
  | @cons a a' l l' ha _ ih =>
    obtain ⟨hx, input, rfl⟩ := ha
    -- the plan goes on in one way, whether the argument has a default or not
    have hgo (e e' : Expr) (he : B.value e e') :
        Plan.Linked B noSelection (List.Forall₂ B.value)
        (do
          let e ← Plan.ofExcept (e.castTo frame.types a.type)
          return e :: (← argumentPlan frame.types l))
        (do
          let e ← Plan.ofExcept (e'.castTo frame.types a.type)
          return e :: (← argumentPlan frame.types l')) := by
      refine (linked_ofExcept (hB.castTo a.type he)).bind fun e e' he => ?_
      exact ih.bind fun _ _ hes => .done (.cons he hes)
    rw [argumentPlan, argumentPlan]
    dsimp only
    split
    · exact (linked_orDefault hB hx (hm _) _).bind hgo
    · exact (linked_required hB hx).bind hgo

theorem FunctionSettings.plan_linked {s s' : FunctionSettings}
    (hs : Moved R NodeClass.function s s')
    (h : NodeClass.function.Admitted B frame.types mode s s') :
    (spec.plan s frame output).Linked B ends B.value (spec.plan s' frame output) := by
  obtain ⟨arguments, harguments, rfl⟩ := hs
  have hdeclaration : declaration frame.types { s with arguments } = s.declaration frame.types := by
    unfold declaration signature
    rw [FunctionArgument.map_eq harguments fun _ _ => rfl]
  have hreads : List.Forall₂ (fun x y : FunctionArgument => B.reads x.name x.input y.input)
      s.arguments arguments :=
    List.forall₂_map_left_iff.mp (List.forall₂_map_right_iff.mp h.reads)
  have hwires := List.Forall₂.mp (fun x y hx hy => And.intro hx
    (Exists.imp (fun _ h => And.right h) hy)) hreads harguments
  refine linked_onlyResult hB ?_ _ _
  rw [hdeclaration]
  refine .ask _ rfl (h.asks (.function _) List.mem_cons_self) fun x x' hx => ?_
  refine (linked_ofExcept (hB.function hx)).bind fun name name' hname => ?_
  refine (argumentPlan_linked hB h.missing hwires).bind fun es es' hes => ?_
  exact .done (hB.ofCall hname hes (h.returns rfl))

theorem FresnelSettings.direction_linked {input : String} {x x' : Wire} (hx : B.reads input x x')
    (i : SurfaceInput) :
    (direction frame input x i).Linked B noSelection B.value (direction frame input x' i) := by
  refine (linked_optional hB hx).bind fun x x' hx => ?_
  cases hx with
  | none => exact linked_ofExcept (hB.surface _ _)
  | some he => exact linked_ofExcept (hB.cast _ he)

theorem FresnelSettings.plan_linked {s s' : FresnelSettings} (hs : Moved R fresnel s s')
    (h : fresnel.Admitted B frame.types mode s s') :
    (spec.plan s frame output).Linked B ends B.value (spec.plan s' frame output) := by
  obtain ⟨normal, view, power, -, -, -, rfl⟩ := hs
  refine linked_onlyResult hB ?_ _ _
  refine .ask _ rfl (h.asks (.function source) List.mem_cons_self) fun x x' hx => ?_
  refine (linked_ofExcept (hB.function hx)).bind fun name name' hname => ?_
  refine (direction_linked hB (h.read (.head _)) _).bind fun n n' hn => ?_
  refine (direction_linked hB (h.read (.tail _ (.head _))) _).bind fun v v' hv => ?_
  refine (h.orDefault hB (.tail _ (.tail _ (.head _))) _).bind fun e e' he => ?_
  refine (linked_ofExcept (hB.cast 1 he)).bind fun e e' he => ?_
  exact .done (hB.ofCall hname (.cons hn (.cons hv (.cons he .nil))) hB.returns_float)

/-- The one class that looks at its scope only asks whether there is a call. -/
theorem InputSettings.plan_linked {s : InputSettings} {scope : Scope} {node : NodeId}
    (hscope : scope.isEmpty = frame.scope.isEmpty)
    (h : subgraphInput.Admitted B frame.types mode s s) :
    (spec.plan s frame output).Linked B ends B.value
      (spec.plan s { frame with scope, node } output) := by
  have hcast (e e' : Expr) (he : B.value e e') :
      (ofExcept (e.castTo frame.types s.type)).Linked B ends B.value
        (ofExcept (e'.castTo frame.types s.type)) :=
    linked_ofExcept (hB.castTo _ he)
  refine linked_onlyResult hB ?_ _ _
  unfold InputSettings.plan
  rw [hscope]
  refine .ask (.argument s.name) rfl (h.asks (.argument s.name) rfl) fun x x' hx => ?_
  cases hB.argument hx with
  | some ho => exact (linked_ofExcept (ho.toExpr hB)).bind hcast
  | none =>
    split
    · exact .fail (hB.reported trivial)
    · exact hcast _ _ (hB.constant _)

theorem OutputSettings.plan_linked {s s' : OutputSettings} (hs : Moved R subgraphOutput s s')
    (h : subgraphOutput.Admitted B frame.types mode s s') :
    (spec.plan s frame output).Linked B ends B.value (spec.plan s' frame output) := by
  obtain ⟨value, -, rfl⟩ := hs
  show Plan.Linked B ends B.value (if output = valueOutput then _ else _)
    (if output = valueOutput then _ else _)
  split
  · refine (linked_required hB (h.read (.head _))).bind fun e e' he => ?_
    exact linked_ofExcept (hB.castTo _ he)
  · exact .fail (hB.reported trivial)

theorem MaterialSettings.plan_linked {s s' : MaterialSettings}
    (h : materialResult.Admitted B frame.types mode s s') :
    (spec.plan s frame output).Linked B ends B.value (spec.plan s' frame output) := by
  have hwire (c : Channel) : ((c.key, s.wire c), (c.key, s'.wire c)) ∈
      (materialResult.spec.connections s).zip (materialResult.spec.connections s') := by
    have hzip : (materialResult.spec.connections s).zip (materialResult.spec.connections s') =
        Channel.all.map fun c => ((c.key, s.wire c), (c.key, s'.wire c)) := rfl
    rw [hzip]
    exact List.mem_map.mpr ⟨c, by cases c <;> decide, rfl⟩
  unfold spec
  dsimp only
  split
  · exact .fail (hB.reported trivial)
  · next c _ =>
    refine (h.orDefault hB (hwire c) _).bind fun e e' he => ?_
    exact linked_ofExcept (hB.castTo _ he)

end Plans

namespace NodeClass

open Plan

/-- **Plans of built-in nodes stay related.** If a bond is respected by the operations of the
classes and admits what a node asks for, then its plan is linked with the plan of the node with
other wires, at another place that is inside of a call if the first one is. -/
theorem plan_linked {B : Bond} {frame : Frame} (hB : B.Lawful frame.types)
    {R : Wire → Wire → Prop} {c : NodeClass} {s s' : c.Settings} (hs : Moved R c s s')
    (h : c.Admitted B frame.types frame.mode s s') {scope : Scope} (node : NodeId)
    (hscope : scope.isEmpty = frame.scope.isEmpty) (output : String) :
    (c.spec.plan s frame output).Linked B selectionLast B.value
      (c.spec.plan s' { frame with scope, node } output) := by
  cases c with
  | literal k =>
    obtain rfl : s' = s := hs
    exact Literal.plan_linked hB h
  | bool =>
    obtain rfl : s' = s := hs
    exact BoolSettings.plan_linked hB h
  | binary op => exact BinaryOp.plan_linked hB hs h
  | lerp => exact LerpSettings.plan_linked hB hs h
  | clamp => exact ClampSettings.plan_linked hB hs h
  | remap => exact RemapSettings.plan_linked hB hs h
  | unary op => exact UnaryOp.plan_linked hB hs h
  | split => exact SplitSettings.plan_linked hB hs h
  | combine => exact CombineSettings.plan_linked hB hs h
  | swizzle => exact SwizzleSettings.plan_linked hB hs h
  | surface i => exact linked_onlyResult hB (linked_ofExcept (hB.surface i _)) _ _
  | matrix =>
    obtain rfl : s' = s := hs
    exact MatrixSettings.plan_linked hB h
  | transform => exact TransformSettings.plan_linked hB hs h
  | textureObject =>
    obtain rfl : s' = s := hs
    refine linked_onlyResult hB (s'.source.plan_linked hB _ fun spec name fallback => ?_) _ _
    exact h.asks (.texture spec name fallback) trivial
  | samplerState =>
    obtain rfl : s' = s := hs
    refine linked_onlyResult hB ?_ _ _
    exact .ask (.sampler s') rfl (h.asks (.sampler s') trivial) fun _ _ he => .done (hB.sampler he)
  | sample k => exact SampleSettings.plan_linked hB hs h
  | branch => exact BranchSettings.plan_linked hB hs h
  | staticSwitch => exact SwitchSettings.plan_linked hB hs h
  | function => exact FunctionSettings.plan_linked hB hs h
  | fresnel => exact FresnelSettings.plan_linked hB hs h
  | subgraphInput =>
    obtain rfl : s' = s := hs
    exact InputSettings.plan_linked hB hscope h
  | subgraphOutput => exact OutputSettings.plan_linked hB hs h
  | subgraphCall =>
    obtain ⟨inputs, -, rfl⟩ := hs
    exact linked_result rfl (h.asks (.call output) ⟨s.path, rfl⟩) fun _ _ => hB.call
  | materialResult => exact MaterialSettings.plan_linked hB h
  | reroute => exact linked_onlyResult hB (linked_required hB (h.read (.head _))) _ _
  | comment => exact .fail (hB.reported trivial)

end NodeClass

end MaterialGraph
