import MaterialGraph.Proofs.Evaluation

/-!
# Names that are taken

Tables that a pass fills can refuse a name that something else has, and evaluation has no
tables. This is all that can be different: a registration gives what evaluation gives, or a
name is taken. And a node of a built-in class that learns this fails at once and says so.

## Main results

* `NodeClass.plan_strict` — the plans of the built-in nodes.
* `Globals.addParameter_of_no_fault`, `Pass.bindTexture_result`, `Pass.bindToggle_answer` and
  others — what is registered, unless a name is taken.
-/

namespace MaterialGraph

open Text

/-! ### Plans that fail if a name is taken -/

/-- The answer says that a name is taken. -/
def Command.Clashes : (c : Command) → c.Reply → Prop
  | .parameter _, x => ∃ name, x = .error (.duplicateName name)
  | .function _, x => ∃ name, x = .error (.duplicateName name)
  | .texture _ _ _, x => ∃ name, x = .error (.duplicateName name)
  | .toggle _ _, x => ∃ name, x = .error (.duplicateName name)
  | _, _ => False

/-- If the plan is answered that a name is taken, it fails and says so. -/
def Plan.Strict {α : Type} : Plan α → Prop
  | .done _ => True
  | .fail _ => True
  | .ask c next =>
    (∀ reply, c.Clashes reply → ∃ name, next reply = .fail (.duplicateName name)) ∧
      ∀ reply, (next reply).Strict

namespace Plan

variable {α β : Type}

theorem Strict.bind {plan : Plan α} {k : α → Plan β} (h : plan.Strict) (hk : ∀ a, (k a).Strict) :
    (plan >>= k).Strict := by
  induction plan with
  | done a => exact hk a
  | fail fault => trivial
  | ask c next ih =>
    refine ⟨fun reply hclash => ?_, fun reply => ih reply (h.2 reply)⟩
    obtain ⟨name, hfail⟩ := h.1 reply hclash
    refine ⟨name, ?_⟩
    dsimp only
    rw [hfail]
    rfl

theorem strict_ofExcept (x : Except Fault α) : (ofExcept x).Strict := by
  cases x with
  | ok a => trivial
  | error fault => trivial

/-- A plan that never asks for a name. -/
theorem strict_of_parallel {A : Command → Prop} (hA : ∀ c, A c → ∀ reply, ¬c.Clashes reply)
    {Q : α → α → Prop} {plan : Plan α} (h : plan.Parallel A Q plan) : plan.Strict := by
  have hconfined := h.confined
  clear h
  induction plan with
  | done a => trivial
  | fail fault => trivial
  | ask c next ih =>
    exact ⟨fun reply hclash => (hA c hconfined.1 reply hclash).elim,
      fun reply => ih reply (hconfined.2 reply)⟩

theorem strict_onlyResult {plan : Plan Expr} (h : plan.Strict) (className output : String) :
    (onlyResult className output plan).Strict := by
  unfold onlyResult
  split
  · exact h
  · trivial

theorem strict_parameter (spec : ParameterSpec) :
    (request (.parameter spec) >>= ofExcept).Strict := by
  refine ⟨?_, fun x => strict_ofExcept x⟩
  rintro x ⟨name, rfl⟩
  exact ⟨name, rfl⟩

theorem strict_function (source : String) {k : String → Plan α} (hk : ∀ a, (k a).Strict) :
    (request (.function source) >>= fun x => ofExcept x >>= k).Strict := by
  refine ⟨?_, fun x => (strict_ofExcept x).bind hk⟩
  rintro x ⟨name, rfl⟩
  exact ⟨name, rfl⟩

theorem strict_image (s : ImageSettings) (cube : Bool) : (s.plan cube).Strict := by
  refine ⟨?_, fun x => strict_ofExcept x⟩
  rintro x ⟨name, rfl⟩
  exact ⟨name, rfl⟩

end Plan

section Registering

open Plan

variable {frame : Frame} (output : String)

/-- Requests that have nothing to do with names. -/
def Command.Unnamed (c : Command) : Prop := ∀ reply, ¬c.Clashes reply

theorem strict_of_unnamed {α : Type} {Q : α → α → Prop} {plan : Plan α}
    (h : plan.Linked (.alike Command.Unnamed) noSelection Q plan) : plan.Strict :=
  strict_of_parallel (fun _ hc => hc) h.parallel

theorem strict_orDefault (types : TypeTable) (input : String) (wire : Wire) (c : Constant) :
    (orDefault types input wire c).Strict :=
  strict_of_unnamed
    (linked_orDefault (Bond.alike_lawful Command.Unnamed types) ⟨rfl, fun _ h => h⟩ (fun _ h => h)
      c)

theorem SampleSettings.plan_strict (k : SampleKind) (s : SampleSettings) :
    ((SampleSettings.spec k).plan s frame output).Strict := by
  show (SampleSettings.plan k s frame output).Strict
  unfold SampleSettings.plan
  have hread (input : String) (wire : Wire) : (Plan.optional input wire).Strict :=
    strict_of_unnamed (linked_optional (Bond.alike_lawful _ frame.types) ⟨rfl, fun _ h => h⟩)
  -- the texture is of the right type, wherever it comes from
  have hcheck (e : Expr) : Strict
      (if e.type = k.textureType then return e else .fail (.typeMismatch
        ("expected " ++ k.textureType.text ++ ", got " ++ e.type.text)) : Plan Expr) := by
    split
    · trivial
    · trivial
  have htexture : (s.texturePlan k).Strict := by
    refine (hread _ _).bind fun x => ?_
    cases x with
    | none => exact (strict_image _ _).bind hcheck
    | some e => exact hcheck e
  have hsampler : s.samplerPlan.Strict := by
    refine (hread _ _).bind fun x => ?_
    cases x with
    | none => exact ⟨fun _ h => h.elim, fun _ => trivial⟩
    | some e =>
      dsimp only
      split
      · trivial
      · trivial
  have hcoords : (s.coordsPlan k frame).Strict := by
    refine (hread _ _).bind fun x => ?_
    cases x with
    | none => exact strict_ofExcept _
    | some e => exact strict_ofExcept _
  split
  · have hown : (own resultOutput).Strict :=
      strict_of_unnamed (linked_own (Bond.alike_lawful Command.Unnamed frame.types) fun _ h => h)
    exact hown.bind fun _ => trivial
  · refine strict_onlyResult ?_ _ _
    refine htexture.bind fun texture => hsampler.bind fun sampler => hcoords.bind fun coords => ?_
    trivial

theorem SwitchSettings.plan_strict (s : SwitchSettings) :
    (SwitchSettings.spec.plan s frame output).Strict := by
  refine strict_onlyResult ?_ _ _
  refine (strict_orDefault _ _ _ _).bind fun a => (strict_orDefault _ _ _ _).bind fun b => ?_
  refine (strict_ofExcept _).bind fun x => ?_
  cases frame.mode with
  | preview =>
    refine ⟨?_, fun x => (strict_ofExcept x).bind fun _ => trivial⟩
    rintro x ⟨name, rfl⟩
    exact ⟨name, rfl⟩
  | final =>
    refine ⟨fun _ h => h.elim, fun x => (strict_ofExcept x).bind fun _ => ?_⟩
    exact ⟨fun _ h => h.elim, fun _ => trivial⟩

theorem FunctionSettings.plan_strict (s : FunctionSettings) :
    (FunctionSettings.spec.plan s frame output).Strict := by
  refine strict_onlyResult (strict_function _ fun name => ?_) _ _
  have harguments := FunctionSettings.argumentPlan_linked
    (Bond.alike_lawful Command.Unnamed frame.types) (fun _ _ h => h)
    (List.forall₂_same.mpr fun a (_ : a ∈ s.arguments) => ⟨⟨rfl, fun _ h => h⟩, a.input, rfl⟩)
  exact (strict_of_unnamed harguments).bind fun _ => trivial

theorem FresnelSettings.plan_strict (s : FresnelSettings) :
    (FresnelSettings.spec.plan s frame output).Strict := by
  have hdirection (input : String) (wire : Wire) (i : SurfaceInput) :
      (FresnelSettings.direction frame input wire i).Strict :=
    strict_of_unnamed
      (FresnelSettings.direction_linked (Bond.alike_lawful _ _) ⟨rfl, fun _ h => h⟩ i)
  refine strict_onlyResult (strict_function _ fun name => ?_) _ _
  refine (hdirection _ _ _).bind fun _ => (hdirection _ _ _).bind fun _ => ?_
  refine (strict_orDefault _ _ _ _).bind fun _ => ?_
  exact (strict_ofExcept _).bind fun _ => trivial

end Registering

namespace NodeClass

open Plan

/-- The classes whose nodes register names. -/
def registers : NodeClass → Bool
  | .literal _ => true
  | .bool => true
  | .matrix => true
  | .textureObject => true
  | .sample _ => true
  | .staticSwitch => true
  | .function => true
  | .fresnel => true
  | _ => false

theorem MayAsk.unnamed {types : TypeTable} {mode : Mode} {c : NodeClass} {s : c.Settings}
    (hc : c.registers = false) {cmd : Command} (h : c.MayAsk types mode s cmd) :
    cmd.Unnamed := by
  intro reply hclash
  have habsurd (hr : c.registers = true) : False := by
    rw [hc] at hr
    cases hr
  cases cmd with
  | parameter spec =>
    have h : c.parameter? s = some spec := h
    refine habsurd ?_
    cases c <;> first | rfl | cases h
  | function source =>
    have h : source ∈ c.sources types s := h
    refine habsurd ?_
    cases c <;> first | rfl | cases h
  | texture spec name fallback =>
    have h : c.IsTextured := h
    refine habsurd ?_
    cases c <;> first | rfl | cases h
  | toggle name initial =>
    obtain ⟨-, sw, h, -⟩ := h
    refine habsurd ?_
    cases c <;> first | rfl | cases h
  | _ => exact hclash

/-- **A built-in node fails if a name that it needs is taken.** -/
theorem plan_strict (c : NodeClass) (s : c.Settings) (frame : Frame) (output : String) :
    (c.spec.plan s frame output).Strict := by
  cases hc : c.registers with
  | false =>
    exact strict_of_parallel (fun _ h => MayAsk.unnamed hc h)
      (c.plan_parallel s frame frame.node rfl output)
  | true =>
    cases c with
    | literal k | bool | matrix =>
      refine strict_onlyResult ?_ _ _
      split
      · trivial
      · exact strict_parameter _
    | textureObject => exact strict_onlyResult (strict_image _ _) _ _
    | sample k => exact SampleSettings.plan_strict _ k s
    | staticSwitch => exact SwitchSettings.plan_strict _ s
    | function => exact FunctionSettings.plan_strict _ s
    | fresnel => exact FresnelSettings.plan_strict _ s
    | _ => cases hc

end NodeClass

/-! ### Registration -/

namespace Globals

variable {g g' : Globals}

/-- A parameter that cannot be registered is refused, whatever the tables are. -/
theorem addParameter_of_fault? {types : TypeTable} {r : ParameterSpec} {fault : Fault}
    (h : r.fault? types = some fault) (node : NodeId) (g : Globals) :
    (g.addParameter types r node).1 = .error fault := by
  have hregisters := g.addParameter_registers types r node
  generalize (g.addParameter types r node).1 = x at hregisters ⊢
  generalize (g.addParameter types r node).2 = g' at hregisters
  cases hregisters with
  | refused fault' h' =>
    rw [h] at h'
    cases h'
    rfl
  | taken h' | shared _ _ _ _ h' | fresh _ _ h' =>
    rw [h] at h'
    cases h'

/-- Any other parameter is registered, unless its name is taken. -/
theorem addParameter_of_no_fault {types : TypeTable} {r : ParameterSpec}
    (h : r.fault? types = none) (node : NodeId) (g : Globals) :
    (∃ name, (g.addParameter types r node).1 = .error (.duplicateName name)) ∨
      ∃ p, (g.addParameter types r node).1 = .ok p := by
  have hregisters := g.addParameter_registers types r node
  generalize (g.addParameter types r node).1 = x at hregisters ⊢
  generalize (g.addParameter types r node).2 = g' at hregisters
  cases hregisters with
  | refused fault h' =>
    rw [h] at h'
    cases h'
  | taken _ _ => exact .inl ⟨_, rfl⟩
  | shared p _ _ _ => exact .inr ⟨p, rfl⟩
  | fresh _ _ _ => exact .inr ⟨_, rfl⟩

end Globals

namespace Pass

open Globals

variable {env : Environment} {s : Pass}

theorem bindTexture_result (env : Environment) (spec : TextureSpec) (name : String)
    (fallback : Vec4) (s : Pass) :
    (∃ name', (s.bindTexture env spec name fallback).1 = .error (.duplicateName name')) ∨
      ∃ t : Texture, (s.bindTexture env spec name fallback).1 = .ok t.expr ∧ t.spec = spec := by
  have hadds := s.globals.addTexture_adds env.types spec name fallback s.currentNode
  unfold bindTexture
  dsimp only
  generalize s.globals.addTexture env.types spec name fallback s.currentNode = x at hadds ⊢
  cases hadds with
  | taken _ => exact .inl ⟨_, rfl⟩
  | stored _ hspec => exact .inr ⟨_, rfl, hspec⟩
  | @fresh word _ _ _ =>
    refine .inr ⟨spec.texture env.types word fallback s.currentNode, ?_, rfl⟩
    dsimp only
    split
    · split
      · rfl
      · rfl
    · rfl

theorem bindToggle_answer (name : String) (initial : Bool) :
    (Command.toggle name initial).Clashes (s.bindToggle env name initial).1 ∨
      Paired (fun _ _ => True) (s.bindToggle env name initial).1
        (env.answer s.currentNode (.toggle name initial)) := by
  unfold bindToggle Environment.answer
  dsimp only
  split
  · exact .inr (.error rfl)
  · rw [bindParameter_eq]
    split
    · next fault hfault =>
      rw [addParameter_of_fault? hfault]
      exact .inr (.error rfl)
    · next hfault =>
      rcases addParameter_of_no_fault hfault
        (assignOwner s.globals.toggles (Identifier.screaming name) s.currentNode).1
        { s.globals with toggles :=
            (assignOwner s.globals.toggles (Identifier.screaming name) s.currentNode).2 }
        with ⟨taken, he⟩ | ⟨p, he⟩
      · rw [he]
        exact .inl ⟨taken, rfl⟩
      · rw [he]
        exact .inr trivial

theorem addFunction_answer (source : String) (node : NodeId) (g : Globals) :
    (Command.function source).Clashes (g.addFunction source).1 ∨
      Paired (fun _ _ => True) (g.addFunction source).1 (env.answer node (.function source)) := by
  unfold addFunction Environment.answer
  dsimp only
  split
  · next hname =>
    rw [hname]
    exact .inr (.error rfl)
  · next name hname =>
    rw [hname]
    split
    · split
      · exact .inr trivial
      · exact .inl ⟨_, rfl⟩
    · exact .inr trivial

theorem addFeature_answer (name group : String) (node : NodeId) (g : Globals) :
    Paired (fun _ _ => True) (g.addFeature name group).1
      (env.answer node (.feature name group)) := by
  unfold addFeature Environment.answer
  dsimp only
  split
  · exact .error rfl
  · trivial

end Pass

end MaterialGraph
