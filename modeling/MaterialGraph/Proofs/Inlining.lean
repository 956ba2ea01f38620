import MaterialGraph.Proofs.Clashes
import Mathlib.Data.List.Pairwise

/-!
# Calls as bindings

A pass has no bindings. It follows the scope of a call to resolve the outputs of the called
document, it takes the last call off the scope to resolve an argument, and it remembers
outcomes by their scopes. This module shows that what it remembers is what evaluation in
bindings gives, if wires stay in their documents, if an identifier belongs to one document
and if nothing fatal is reported: the values have the same type, and they are constant at
the same sites.

## Main results

* `Pass.need?_of_demand?`, `Pass.need?_of_no_demand` — a request demands what it needs.
* `Pass.resolve_inlined` — resolving an output gives its value.
* `Compiler.calls_bind` — calls bind the inputs of what they call.
-/

namespace MaterialGraph

open Text

/-! ### Documents -/

namespace Environment

/-- Wires lead to nodes of their own documents. -/
def LocalWires (env : Environment) : Prop :=
  ∀ d, env.InReach d → ∀ node ∈ d.nodes, ∀ b, env.stateOf node = .ready b →
    ∀ entry ∈ b.connections, entry.2.path = []

/-- An identifier belongs to one document. -/
def DistinctIds (env : Environment) : Prop :=
  ∀ d d', env.InReach d → env.InReach d' → ∀ node ∈ d.nodes, ∀ node' ∈ d'.nodes,
    node.id = node'.id → d = d'

/-- The node with this identifier in the document of a place can be asked. -/
structure Hosts (env : Environment) (p : Place) (id : NodeId) (b : Behavior) : Prop where
  state : (p.document.find? id).map env.stateOf = some (.ready b)
  errors : b.errors = []

variable {env : Environment} {p : Place} {id : NodeId} {b : Behavior} {d : Document} {scope : Scope}

/-- A node declares one parameter at most. -/
theorem declares_unique (h : env.DistinctIds) {r r' : ParameterSpec} (hr : env.Declares id r)
    (hr' : env.Declares id r') : r = r' := by
  obtain ⟨scope, node, hn, hd⟩ := hr
  obtain ⟨scope', node', hn', hd'⟩ := hr'
  obtain ⟨d, hs, hf⟩ := Option.bind_eq_some_iff.mp hn
  obtain ⟨d', hs', hf'⟩ := Option.bind_eq_some_iff.mp hn'
  have hid : node.id = id := by simpa using List.find?_some hf
  have hid' : node'.id = id := by simpa using List.find?_some hf'
  have hsame : d = d' := h d d' (inReach_of_documentAt hs) (inReach_of_documentAt hs')
    node (List.mem_of_find?_eq_some hf) node' (List.mem_of_find?_eq_some hf')
    (hid.trans hid'.symm)
  subst hsame
  rw [hf] at hf'
  cases hf'
  exact Option.some.inj (hd.symm.trans hd')

theorem behavior?_instanceOf (h : (d.find? id).map env.stateOf = some (.ready b)) :
    (env.instanceOf d).behavior? id = some b := by
  rw [Instance.behavior?, state?_instanceOf, h]

theorem behavior?_eq_some (h : (env.instanceOf d).behavior? id = some b) :
    (d.find? id).map env.stateOf = some (.ready b) := by
  unfold Instance.behavior? at h
  rw [state?_instanceOf] at h
  split at h
  · next b' hb =>
    cases h
    exact hb
  · cases h

theorem LocalWires.path (h : env.LocalWires) (hd : env.InReach d)
    (hb : (env.instanceOf d).behavior? id = some b) {entry : String × Wire}
    (he : entry ∈ b.connections) : entry.2.path = [] := by
  obtain ⟨node, hf, hs⟩ := Option.map_eq_some_iff.mp (behavior?_eq_some hb)
  exact h d hd node (List.mem_of_find?_eq_some hf) b hs entry he

theorem LocalWires.path_of_boundWire? (h : env.LocalWires) (hd : env.InReach d) {call : NodeId}
    {name : String} {wire : Wire} (hw : Pass.boundWire? (env.instanceOf d) call name = some wire) :
    wire.path = [] := by
  unfold Pass.boundWire? at hw
  simp only [Option.bind_eq_bind, Option.bind_eq_some_iff] at hw
  obtain ⟨b, hb, entry, hentry, hw⟩ := hw
  split at hw
  · cases hw
    exact h.path hd hb (List.mem_of_find?_eq_some hentry)
  · cases hw

theorem inReach_of_placeAt (h : env.placeAt scope = some p) :
    env.InReach p.document :=
  inReach_of_documentAt (documentAt_of_placeAt h)

theorem placeAt_of_documentAt (h : env.documentAt scope = some d) :
    ∃ p, env.placeAt scope = some p ∧ p.document = d := by
  rw [← document_placeAt] at h
  exact Option.map_eq_some_iff.mp h

/-- A call whose settings are acceptable leads to the document under its path. -/
theorem placeAt_call {path : String} (hp : env.placeAt scope = some p)
    (hb : (p.document.find? id).map env.stateOf = some (.ready b))
    (hrole : b.role = .subgraphCall path) (hpath : path ≠ Pass.rootPath) :
    env.placeAt (scope ++ [id]) = (env.library path).map fun d =>
      ⟨d, .inside b.connections p.document p.binding⟩ := by
  have hbehavior := behavior?_instanceOf hb
  have hcalled : env.calledFrom? p.document id = env.library path := by
    unfold calledFrom?
    rw [hbehavior]
    simp only [Option.map_some, hrole, documentOf?, if_neg hpath]
    cases env.library path with
    | none => rfl
    | some d => rfl
  rw [placeAt_append, hp, Option.bind_some, enterCall, hcalled, inputsOf, hbehavior]
  rfl

/-- What a name is bound to is the wire that the call has under the name. -/
theorem closure?_eq_boundWire? {call : NodeId} {before : Place} (name : String)
    (hbefore : env.placeAt scope = some before) (hp : env.placeAt (scope ++ [call]) = some p) :
    p.binding.closure? name =
      (Pass.boundWire? (env.instanceOf before.document) call name).map (·, before) := by
  rw [placeAt_append, hbefore, Option.bind_some, enterCall] at hp
  obtain ⟨d, hd, rfl⟩ := Option.map_eq_some_iff.mp hp
  unfold calledFrom? at hd
  dsimp only [Binding.closure?, inputsOf, Pass.boundWire?]
  cases hb : (env.instanceOf before.document).behavior? call with
  | none =>
    rw [hb] at hd
    cases hd
  | some b =>
    dsimp only [Option.map_some, Option.getD_some, Option.bind_eq_bind, Option.bind_some]
    cases b.connections.find? (·.1 == name) with
    | none => rfl
    | some entry =>
      dsimp only [Option.bind_some]
      split
      · rfl
      · rfl

end Environment

namespace Pass

open Environment

variable {env : Environment} {s s' : Pass} {site : Site} {p : Place} {b : Behavior} {r : Resolver}

/-! ### Demands and needs -/

/-- The pass is asking the node at a site. -/
structure Within (site : Site) (s : Pass) : Prop where
  stack : s.stack.head? = some site
  scope : s.scope = site.scope
  stage : s.stage = site.stage

theorem Within.returns (h : Within site s) (hr : Returns s s') : Within site s' :=
  ⟨by rw [hr.stack, h.stack], hr.scope.trans h.scope, hr.stage.trans h.stage⟩

/-- What a request of a node may be about: the wires that it reads are its own, and a call
names a document. -/
structure Proper (b : Behavior) (cmd : Command) : Prop where
  read : ∀ input wire, cmd = .read input wire → (input, wire) ∈ b.connections
  /-- The path is not that of the root document. -/
  call : ∀ output, cmd = .call output → ∃ path, b.role = .subgraphCall path ∧ path ≠ rootPath

/-- **What a request demands is what it needs**, at the place where the scope leads. -/
theorem need?_of_demand? (hlocal : env.LocalWires) (hf : Faithful env s) (hw : Within site s)
    (hp : env.placeAt site.scope = some p) (hb : env.Hosts p site.node b) {cmd : Command}
    (hcmd : Proper b cmd) {site' : Site} (h : demand? env cmd s = some (site', s')) :
    ∃ p', env.placeAt site'.scope = some p' ∧
      env.need? p site.node b cmd = some (p', site'.node, site'.output) := by
  cases demand?_demands h with
  | @read input wire hconn =>
    have hpath : wire.path = [] := hlocal.path (inReach_of_placeAt hp)
      (behavior?_instanceOf hb.state) (hcmd.read input wire rfl)
    refine ⟨p, ?_, if_pos hconn⟩
    simp only [hpath, List.isEmpty_nil, if_true, hw.scope]
    exact hp
  | own output htop =>
    cases hw.stack.symm.trans htop
    exact ⟨p, hp, rfl⟩
  | @call output top node g s' htop hx hnode =>
    cases hw.stack.symm.trans htop
    obtain ⟨path, hrole, hpath⟩ := hcmd.call output rfl
    obtain ⟨d, hd, rfl⟩ := documentAt_of_follow hf hx
    obtain ⟨p', hp', rfl⟩ := placeAt_of_documentAt hd
    refine ⟨p', hp', ?_⟩
    rw [placeAt_call hp hb.state hrole hpath] at hp'
    obtain ⟨d', hd', rfl⟩ := Option.map_eq_some_iff.mp hp'
    simp only [need?, hrole, hd', Option.bind_some]
    rw [hnode]
    rfl
  | @argument name call wire g s₁ hlast hx hwire =>
    obtain ⟨d, hd, rfl⟩ := documentAt_of_follow hf hx
    obtain ⟨p₀, hp₀, rfl⟩ := placeAt_of_documentAt hd
    have hpath := hlocal.path_of_boundWire? (inReach_of_placeAt hp₀) hwire
    have hscope : s.scope.dropLast ++ [call] = site.scope :=
      (List.dropLast_append_getLast? call hlast).trans hw.scope
    rw [← hscope] at hp
    refine ⟨p₀, ?_, ?_⟩
    · simp only [hpath, List.isEmpty_nil, if_true]
      exact hp₀
    · simp only [need?, closure?_eq_boundWire? name hp₀ hp, hwire, Option.map_some]

/-- **A request that demands nothing needs nothing**, unless something fatal is reported. -/
theorem need?_of_no_demand (hf : Faithful env s) (hw : Within site s)
    (hp : env.placeAt site.scope = some p) (hb : env.Hosts p site.node b) {cmd : Command}
    (hcmd : Proper b cmd) (h : demand? env cmd s = none)
    (hfatal : (s.perform env r cmd).2.report.hasFatal = false) :
    env.need? p site.node b cmd = none := by
  cases cmd with
  | read input wire => exact if_neg (demand?_read_eq_none h)
  | own output =>
    rw [demand?, hw.stack] at h
    cases h
  | call output =>
    obtain ⟨path, hrole, hpath⟩ := hcmd.call output rfl
    have hcall := placeAt_call hp hb.state hrole hpath
    obtain ⟨rest, hs⟩ := List.head?_eq_some_iff.mp hw.stack
    simp only [need?, hrole]
    cases hlib : env.library path with
    | none => rfl
    | some d =>
      -- the document is there: it is reached, or something fatal is reported
      rw [hlib] at hcall
      have hd := documentAt_of_placeAt hcall
      simp only [demand?, hs] at h
      rcases hx : s.follow env (site.scope ++ [site.node]) with ⟨fault | g, s₁⟩
      · have hend : s.perform env r (.call output) = (.error fault, s₁) := by
          show s.callOutput env r output = _
          simp only [callOutput, hs, hx]
        rw [hend, hasFatal_of_follow hf hd hx] at hfatal
        cases hfatal
      · obtain ⟨d', hd', rfl⟩ := documentAt_of_follow hf hx
        rw [hx] at h
        rw [hd] at hd'
        cases hd'
        have hnone := Option.map_eq_none_iff.mp h
        rw [Option.bind_some, hnone]
        rfl
  | argument name =>
    rcases List.eq_nil_or_concat site.scope with hscope | ⟨before, call, hscope⟩
    · rw [hscope] at hp
      cases hp
      rfl
    · rw [List.concat_eq_append] at hscope
      have hlast : s.scope.getLast? = some call := by simp [hw.scope, hscope]
      have hbefore : s.scope.dropLast = before := by simp [hw.scope, hscope]
      rw [hscope] at hp
      have hplace := hp
      rw [placeAt_append] at hplace
      obtain ⟨p₀, hp₀, -⟩ := Option.bind_eq_some_iff.mp hplace
      -- the caller is where the scope begins: it is reached, or something fatal is reported
      have hd := documentAt_of_placeAt hp₀
      simp only [demand?, hlast, hbefore] at h
      rcases hx : s.follow env before with ⟨fault | g, s₁⟩
      · have hend : s.perform env r (.argument name) = (none, s₁) := by
          show s.readArgument env r name = _
          simp only [readArgument, hlast, hbefore, hx]
        rw [hend, hasFatal_of_follow hf hd hx] at hfatal
        cases hfatal
      · obtain ⟨d', hd', rfl⟩ := documentAt_of_follow hf hx
        rw [hx] at h
        rw [hd] at hd'
        cases hd'
        have hnone := Option.map_eq_none_iff.mp h
        simp only [need?, closure?_eq_boundWire? name hp₀ hp, hnone, Option.map_none]
  | _ => rfl

end Pass

/-! ### Registration -/

namespace Globals

variable {env : Environment} {g g' : Globals}

/-- The entries of the tables have the types that their nodes declare. -/
structure Typed (env : Environment) (g : Globals) : Prop where
  /-- Parameters have the types that their nodes declare. -/
  parameters : ∀ p ∈ g.parameters, ∃ r, env.Declares p.node r ∧ p.type = r.type
  /-- The owner of an attribute is a switch. -/
  toggles : ∀ t ∈ g.toggles, ∃ r, env.Declares t.2 r ∧ r.type = .bool

theorem Typed.of_same (h : g.Typed env) (hs : SameParameters g g') : g'.Typed env := by
  obtain ⟨hp, -, ht⟩ := hs
  refine ⟨?_, ?_⟩
  · rw [hp]
    exact h.parameters
  · rw [ht]
    exact h.toggles

theorem Typed.registers (h : g.Typed env) {r : ParameterSpec} {node : NodeId}
    {x : Except Fault Parameter} (hr : g.Registers env.types r node x g')
    (hd : ∃ r', env.Declares node r' ∧ r.type = r'.type) : g'.Typed env := by
  have hnamed : (g.named r node).Typed env := ⟨h.parameters, h.toggles⟩
  cases hr with
  | refused fault _ => exact h
  | taken fault _ => exact hnamed
  | shared p hp hglobal hnode => exact hnamed
  | fresh hnew howner => exact ⟨forall_mem_concat h.parameters hd, h.toggles⟩

/-- A switch asks for the attribute of its feature. -/
theorem Typed.assignOwner (h : g.Typed env) (key : String) {node : NodeId}
    (hd : ∃ r, env.Declares node r ∧ r.type = .bool) :
    Typed env { g with toggles := (assignOwner g.toggles key node).2 } ∧
      ∃ r, env.Declares (MaterialGraph.assignOwner g.toggles key node).1 r ∧ r.type = .bool := by
  rcases assignOwner_cases g.toggles key node with ⟨owner, hmem, he⟩ | ⟨-, he⟩
  · rw [he]
    exact ⟨⟨h.parameters, h.toggles⟩, h.toggles _ hmem⟩
  · rw [he]
    refine ⟨⟨h.parameters, fun t ht => ?_⟩, hd⟩
    rcases List.mem_append.mp ht with ht | ht
    · exact h.toggles t ht
    · rw [List.mem_singleton.mp ht]
      exact hd

end Globals

namespace Pass

open Globals

variable {env : Environment} {s : Pass}

/-- A parameter of a node is answered as it is declared, unless its name is taken. -/
theorem bindParameter_answer (hids : env.DistinctIds) {spec : ParameterSpec} {node : NodeId}
    (hd : env.Declares node spec)
    (hafter : (s.bindParameter env spec node).2.globals.Typed env) :
    (Command.parameter spec).Clashes (s.bindParameter env spec node).1 ∨
      Paired Expr.Alike (s.bindParameter env spec node).1 (env.answer node (.parameter spec)) := by
  rw [bindParameter_eq] at hafter ⊢
  dsimp only at hafter ⊢
  cases hfault : spec.fault? env.types with
  | some fault =>
    refine .inr ?_
    simp only [addParameter_of_fault? hfault, Environment.answer, hfault]
    exact .error rfl
  | none =>
    have hreg := s.globals.addParameter_registers env.types spec node
    rcases addParameter_of_no_fault hfault node s.globals with ⟨name, he⟩ | ⟨p, he⟩
    · exact .inl ⟨name, by rw [he]; rfl⟩
    · refine .inr ?_
      rw [he] at hreg ⊢
      obtain ⟨hmem, -, hnode⟩ := hreg.result
      obtain ⟨r, hr, htype⟩ := hafter.parameters p hmem
      rw [hnode] at hr
      simp only [Environment.answer, hfault]
      refine .ok ⟨?_, rfl⟩
      show p.type = spec.type
      rw [htype, Environment.declares_unique hids hr hd]

variable {site : Site} {r : Resolver}

/-- **A request that needs nothing is answered as in evaluation**, unless a name is taken. -/
theorem perform_answer (hids : env.DistinctIds) (hf : Faithful env s) (hw : Within site s)
    {cmd : Command} (h : demand? env cmd s = none)
    (hd : ∀ spec, cmd = .parameter spec → env.Declares site.node spec)
    (hafter : (s.perform env r cmd).2.globals.Typed env) :
    cmd.Clashes (s.perform env r cmd).1 ∨
      cmd.Alike (s.perform env r cmd).1 (env.answer site.node cmd) := by
  have hcurrent : s.currentNode = site.node := by
    obtain ⟨rest, hs⟩ := List.head?_eq_some_iff.mp hw.stack
    unfold currentNode
    rw [hs]
  cases cmd with
  | read input wire =>
    refine .inr ?_
    show Outcome.Alike (s.readWire r input wire).1 _
    rw [readWire, if_neg (demand?_read_eq_none h)]
    trivial
  | own output =>
    rw [demand?, hw.stack] at h
    cases h
  | call output =>
    obtain ⟨fault, s₁, he, -, hfault⟩ := callOutput_of_no_demand r h
    refine .inr ?_
    show Paired Expr.Alike (s.callOutput env r output).1 (.error (.unknownOutput output))
    rw [he]
    refine .error ?_
    rcases hfault with ⟨text, rfl⟩ | rfl | ⟨path, hx⟩
    · rfl
    · rfl
    · have hl := (follow_faithful path hf).2
      rw [hx] at hl
      rcases hl with ⟨⟨text, rfl⟩, -⟩ | ⟨⟨chain, rfl⟩, -⟩
      · rfl
      · rfl
  | argument name =>
    obtain ⟨s₁, he, -⟩ := readArgument_of_no_demand r h
    refine .inr ?_
    show Option.Rel Outcome.Alike (s.readArgument env r name).1 none
    rw [he]
    exact .none
  | parameter spec =>
    have hdecl : env.Declares s.currentNode spec := by
      rw [hcurrent]
      exact hd spec rfl
    rw [perform_parameter] at hafter ⊢
    rw [← hcurrent]
    exact (bindParameter_answer hids hdecl hafter).imp_right Command.alike_parameter
  | declare text => exact .inr trivial
  | function source =>
    rw [perform_function]
    exact (addFunction_answer source site.node s.globals).imp_right Command.alike_function
  | texture spec name fallback =>
    rcases bindTexture_result env spec name fallback s with ⟨name', he⟩ | ⟨t, he, hspec⟩
    · exact .inl ⟨name', he⟩
    · refine .inr (Command.alike_texture ?_)
      rw [perform_texture, he]
      exact .ok ⟨congrArg TextureSpec.type hspec, rfl⟩
  | sampler state =>
    rw [perform_sampler]
    exact .inr ⟨rfl, rfl⟩
  | feature name group =>
    rw [perform_feature]
    exact .inr (Command.alike_feature (addFeature_answer name group site.node s.globals))
  | toggle name initial =>
    rw [perform_toggle, ← hcurrent]
    exact (bindToggle_answer name initial).imp_right Command.alike_toggle
  | select feature type on off => exact .inr ⟨rfl, rfl⟩
  | warn message => exact .inr trivial
  | reportMissing input => exact .inr trivial
  | note remark => exact .inr trivial

end Pass

/-! ### Answers in evaluation -/

namespace Environment

variable {env : Environment} {stage : Stage} {p : Place} {id : NodeId} {b : Behavior}
  {cmd : Command} {output : String}

/-- A request is answered so, however much fuel there is beyond some amount. -/
def Answers (env : Environment) (stage : Stage) (p : Place) (id : NodeId) (b : Behavior)
    (cmd : Command) (reply : cmd.Reply) : Prop :=
  ∃ enough, ∀ fuel, enough ≤ fuel →
    env.reply (env.evaluate stage fuel) p id b cmd = some reply

/-- A plan has this result, however much fuel there is beyond some amount. -/
def Settles {α : Type} (env : Environment) (stage : Stage) (p : Place) (id : NodeId)
    (b : Behavior) (plan : Plan α) (x : Except Fault α) : Prop :=
  ∃ enough, ∀ fuel, enough ≤ fuel →
    plan.answer (env.reply (env.evaluate stage fuel) p id b) = some x

theorem answers_of_no_need (h : env.need? p id b cmd = none) :
    env.Answers stage p id b cmd (env.answer id cmd) := by
  refine ⟨0, fun fuel _ => ?_⟩
  rw [reply, h]

theorem answers_of_need {place : Place} {node : NodeId}
    (h : env.need? p id b cmd = some (place, node, output)) {o : Outcome}
    (ho : env.Evaluates stage place node output o) {reply : cmd.Reply}
    (hd : cmd.deliver? o = some reply) : env.Answers stage p id b cmd reply := by
  obtain ⟨enough, henough⟩ := ho
  refine ⟨enough, fun fuel hfuel => ?_⟩
  rw [Environment.reply, h]
  dsimp only
  rw [henough fuel hfuel]
  exact hd

theorem Answers.settles {α : Type} {next : cmd.Reply → Plan α} {reply : cmd.Reply}
    {x : Except Fault α} (h : env.Answers stage p id b cmd reply)
    (hx : env.Settles stage p id b (next reply) x) :
    env.Settles stage p id b (.ask cmd next) x := by
  obtain ⟨n, hn⟩ := h
  obtain ⟨m, hm⟩ := hx
  refine ⟨max n m, fun fuel hfuel => ?_⟩
  rw [Plan.answer_ask, hn fuel (by omega), Option.bind_some, hm fuel (by omega)]

/-- A node whose plan has a result is evaluated with one step more. -/
theorem Hosts.evaluates (h : env.Hosts p id b) {x : Except Fault Expr}
    (hx : env.Settles stage p id b (b.plan (env.frameAt stage p id) output) x) :
    env.Evaluates stage p id output (.ofResult x) := by
  obtain ⟨n, hn⟩ := hx
  refine ⟨n + 1, fun fuel hfuel => ?_⟩
  obtain ⟨fuel, rfl⟩ : ∃ m, fuel = m + 1 := ⟨fuel - 1, by omega⟩
  rw [evaluate_ready h.state h.errors, hn fuel (by omega)]
  rfl

/-- What is not asked is evaluated at once. -/
theorem evaluates_of_ne {o : Outcome}
    (h : ∀ fuel, env.evaluate stage (fuel + 1) p id output = some o) :
    env.Evaluates stage p id output o := by
  refine ⟨1, fun fuel hfuel => ?_⟩
  obtain ⟨fuel, rfl⟩ : ∃ m, fuel = m + 1 := ⟨fuel - 1, by omega⟩
  exact h fuel

/-- The outcome at a site is of the kind that evaluation gives, at the place where the scope
leads. -/
def Inlines (env : Environment) (site : Site) (o : Outcome) : Prop :=
  ∃ p o', env.placeAt site.scope = some p ∧
    env.Evaluates site.stage p site.node site.output o' ∧ o.Alike o'

end Environment

theorem Command.deliver?_alike {c : Command} {o o' : Outcome} (h : o.Alike o') {reply : c.Reply}
    (hr : c.deliver? o = some reply) : ∃ reply', c.deliver? o' = some reply' ∧
      c.Alike reply reply' := by
  cases c with
  | read input wire =>
    cases hr
    exact ⟨o', rfl, h⟩
  | own output =>
    cases hr
    exact ⟨o', rfl, h⟩
  | call output =>
    cases hr
    exact ⟨_, rfl, h.toExpr output⟩
  | argument name =>
    cases hr
    exact ⟨some o', rfl, .some h⟩
  | _ => cases hr

namespace Pass

open Globals

variable {env : Environment} {s s' : Pass} {site : Site} {r : Resolver} {cmd : Command}

/-! ### Passes -/

/-- A pass that remembers what evaluation gives, and whose parameters have the types that their
nodes declare. -/
abbrev Inlined (env : Environment) : Pass → Prop :=
  Remembers env (Globals.Typed env) fun _ => env.Inlines

theorem Inlined.of_fresh (h : Fresh s) : Inlined env s := by
  refine Remembers.of_fresh h ?_
  obtain ⟨declarations, rfl⟩ := h
  exact ⟨by simp, by simp⟩

/-- A resolver that gives what evaluation gives, as long as nothing fatal is reported. -/
def Resolver.Evaluating (env : Environment) (r : Resolver) : Prop :=
  ∀ site s, Inlined env s → s.stage = site.stage → (r site s).2.report.hasFatal = false →
    Inlined env (r site s).2 ∧ ∀ p, env.placeAt site.scope = some p →
      ∃ o, env.Evaluates site.stage p site.node site.output o ∧ (r site s).1.Alike o

variable {p : Place} {c : NodeClass} {st : c.Settings}

theorem proper_of_mayAsk {types : TypeTable} {mode : Mode} (h : c.MayAsk types mode st cmd)
    (he : c.spec.errors st = []) :
    Proper (c.spec.behavior st) cmd := by
  refine ⟨?_, ?_⟩
  · rintro input wire rfl
    exact h
  · rintro output rfl
    obtain ⟨path, hrole⟩ := h
    refine ⟨path, hrole, ?_⟩
    cases c with
    | subgraphCall =>
      cases hrole
      have he : (if st.path.isEmpty then ["subgraph path is empty"] else []) = [] := he
      intro hpath
      rw [if_pos (by rw [hpath]; rfl)] at he
      cases he
    | sample k => cases k <;> cases hrole
    | _ => cases hrole

/-- A request of a built-in node that is answered at once. -/
theorem perform_inlined_of_no_demand (hw : Within site s) (hst : env.Stands site c st)
    (hask : c.MayAsk env.types env.mode st cmd) (hd : demand? env cmd s = none)
    (h : Inlined env s) : Inlined env (s.perform env r cmd).2 := by
  have hcurrent : s.currentNode = site.node := by
    obtain ⟨rest, hs⟩ := List.head?_eq_some_iff.mp hw.stack
    unfold currentNode
    rw [hs]
  refine h.perform_of_no_demand (fun hsame ht => ht.of_same hsame) (fun _ _ _ => id) ?_ ?_ hd
  · rintro spec rfl
    have hdecl : env.Declares s.currentNode spec := by
      rw [hcurrent]
      exact hst.declares (NodeClass.declared?_of_parameter? hask)
    rw [bindParameter_eq]
    exact h.of_tables (h.faithful.of_same rfl rfl) rfl
      (h.tables.registers (addParameter_registers _ _ _ _) ⟨spec, hdecl, rfl⟩) fun _ _ => id
  · rintro name initial rfl
    obtain ⟨hmode, sw, hsw, rfl, rfl⟩ := hask
    have hdecl : env.Declares s.currentNode sw.toggle := by
      rw [hcurrent]
      refine hst.declares ?_
      rw [hmode]
      exact NodeClass.declared?_of_switch? hsw
    obtain ⟨hg, owner, howner, htype⟩ := h.tables.assignOwner
      (Identifier.screaming sw.name) ⟨sw.toggle, hdecl, rfl⟩
    unfold bindToggle
    dsimp only
    split
    · exact h
    · rw [bindParameter_eq]
      exact h.of_tables (h.faithful.of_same rfl rfl) rfl
        (hg.registers (addParameter_registers _ _ _ _) ⟨owner, howner, htype.symm⟩) fun _ _ => id

/-- **A request of a built-in node is answered as in evaluation**, unless a name is taken or
something fatal is reported. -/
theorem perform_inlined (hlocal : env.LocalWires) (hids : env.DistinctIds) (hr : r.Evaluating env)
    (hw : Within site s) (hst : env.Stands site c st) (hp : env.placeAt site.scope = some p)
    (hb : env.Hosts p site.node (c.spec.behavior st)) (hask : c.MayAsk env.types env.mode st cmd)
    (h : Inlined env s) (hfatal : (s.perform env r cmd).2.report.hasFatal = false) :
    Inlined env (s.perform env r cmd).2 ∧ (cmd.Clashes (s.perform env r cmd).1 ∨
      ∃ reply, env.Answers site.stage p site.node (c.spec.behavior st) cmd reply ∧
        cmd.Alike (s.perform env r cmd).1 reply) := by
  have hproper := proper_of_mayAsk hask hst.errors
  rcases hd : demand? env cmd s with _ | ⟨site', s'⟩
  · have hs : Inlined env (s.perform env r cmd).2 := perform_inlined_of_no_demand hw hst hask hd h
    have hneed := need?_of_no_demand h.faithful hw hp hb hproper hd hfatal
    refine ⟨hs, ?_⟩
    have hdecl : ∀ spec, cmd = .parameter spec → env.Declares site.node spec := by
      rintro spec rfl
      exact hst.declares (NodeClass.declared?_of_parameter? hask)
    rcases perform_answer hids h.faithful hw hd hdecl hs.tables with hclash | halike
    · exact .inl hclash
    · exact .inr ⟨_, Environment.answers_of_no_need hneed, halike⟩
  · obtain ⟨p', hp', hneed⟩ := need?_of_demand? hlocal h.faithful hw hp hb hproper hd
    obtain ⟨reply, scope, hdeliver, he, -⟩ := perform_of_demand? r hd
    obtain ⟨hstage, s₁, here, hf, rfl⟩ := demand?_place hd
    rw [he] at hfatal ⊢
    obtain ⟨hs, hvalue⟩ := hr site' { s₁ with scope := here } ((h.followed hf).place _ here _)
      hstage.symm hfatal
    refine ⟨hs.place _ scope _, .inr ?_⟩
    obtain ⟨o, ho, halike⟩ := hvalue p' hp'
    obtain ⟨reply', hdeliver', halike'⟩ := Command.deliver?_alike halike hdeliver
    have hsame : site'.stage = site.stage :=
      hstage.trans (hf.prepared.stage.trans hw.stage)
    rw [hsame] at ho
    exact ⟨reply', Environment.answers_of_need hneed ho hdeliver', halike'⟩

/-- **The plan of a built-in node gives what it gives in evaluation**, request by request. -/
theorem run_inlined (hlocal : env.LocalWires) (hids : env.DistinctIds) (hret : r.Returning)
    (hr : r.Evaluating env) (hst : env.Stands site c st) (hp : env.placeAt site.scope = some p)
    (hb : env.Hosts p site.node (c.spec.behavior st)) {α : Type} {Q : α → α → Prop}
    {plan plan' : Plan α} (hplan : plan.Parallel (c.MayAsk env.types env.mode st) Q plan') :
    ∀ s : Pass, plan.Strict → Within site s → Inlined env s →
      (run env r plan s).2.report.hasFatal = false → Inlined env (run env r plan s).2 ∧
        ((∃ name, (run env r plan s).1 = .error (.duplicateName name)) ∨
          ∃ x, env.Settles site.stage p site.node (c.spec.behavior st) plan' x ∧
            Paired Q (run env r plan s).1 x) := by
  -- the answers to both plans are alike, so they go on in parallel
  induction hplan with
  | done hq => exact fun s _ _ h _ => ⟨h, .inr ⟨.ok _, ⟨0, fun _ _ => rfl⟩, hq⟩⟩
  | fail hf => exact fun s _ _ h _ => ⟨h, .inr ⟨.error _, ⟨0, fun _ _ => rfl⟩, hf⟩⟩
  | @ask cmd next next' hask hnext ih =>
    intro s hstrict hw h hfatal
    have hrun : run env r (.ask cmd next) s =
        run env r (next (s.perform env r cmd).1) (s.perform env r cmd).2 := rfl
    rw [hrun] at hfatal ⊢
    have hgrows := run_returns env hret (next (s.perform env r cmd).1) (s.perform env r cmd).2
    obtain ⟨hs, hclash | ⟨reply, hanswer, halike⟩⟩ := perform_inlined hlocal hids hr hw hst hp hb
      hask h (Report.no_fatal_of_extends hgrows.report hfatal)
    · obtain ⟨name, hfail⟩ := hstrict.1 _ hclash
      rw [hfail]
      exact ⟨hs, .inl ⟨name, rfl⟩⟩
    · obtain ⟨hend, hdup | ⟨x, hx, hpaired⟩⟩ := ih _ _ halike _ (hstrict.2 _)
        (hw.returns (perform_returns env hret cmd s)) hs hfatal
      · exact ⟨hend, .inl hdup⟩
      · exact ⟨hend, .inr ⟨x, hanswer.settles hx, hpaired⟩⟩
  | @select f f' type on off on' off' next next' hask hnext ih =>
    intro s hstrict hw h hfatal
    have hs : Inlined env (s.perform env r (.select f type on off)).2 := by
      rw [perform_select]
      exact h.emit _ _
    have hanswer : env.Answers site.stage p site.node (c.spec.behavior st)
        (.select f' type on' off') (env.answer site.node (.select f' type on' off')) :=
      Environment.answers_of_no_need rfl
    have halike : Expr.Alike (s.perform env r (.select f type on off)).1
        (env.answer site.node (.select f' type on' off')) := ⟨rfl, rfl⟩
    obtain ⟨hend, hdup | ⟨x, hx, hpaired⟩⟩ := ih _ _ halike _ (hstrict.2 _)
      (hw.returns (perform_returns env hret _ s)) hs hfatal
    · exact ⟨hend, .inl hdup⟩
    · exact ⟨hend, .inr ⟨x, hanswer.settles hx, hpaired⟩⟩

/-! ### Nodes and sites -/

/-- What becomes of the result of a node is of the kind of the result, also if it is moved
into a variable. -/
theorem conclude_inlined (h : Inlined env s) (node : NodeId) (role : Role)
    {result x : Except Fault Expr} (hx : Paired Expr.Alike result x) :
    Inlined env (conclude env node role result s).2 ∧
      (conclude env node role result s).1.Alike (.ofResult x) := by
  rcases conclude_cases env node role result s with
    ⟨e, rfl, -, he⟩ | ⟨e, rfl, -, he⟩ | ⟨fault, rfl, he⟩
  · rw [he]
    cases x with
    | ok e' => exact ⟨h, hx⟩
    | error fault => exact hx.elim
  · rw [he]
    cases x with
    | ok e' => exact ⟨h.emit _ _, hx.type, hx.constant⟩
    | error fault => exact hx.elim
  · rw [he]
    cases x with
    | ok e' => exact hx.elim
    | error fault' =>
      exact ⟨h.pushFault node fault, Outcome.alike_ofFault hx⟩

/-- A built-in node is asked: its outcome is what evaluation gives. -/
theorem ask_inlined (hlocal : env.LocalWires) (hids : env.DistinctIds) (hret : r.Returning)
    (hr : r.Evaluating env) (hst : env.Stands site c st) (hp : env.placeAt site.scope = some p)
    (hb : env.Hosts p site.node (c.spec.behavior st)) (hstage : s.stage = site.stage)
    (h : Inlined env s)
    (hfatal : (s.ask env r site (c.spec.behavior st)).2.report.hasFatal = false) :
    Inlined env (s.ask env r site (c.spec.behavior st)).2 ∧
      ∃ o, env.Evaluates site.stage p site.node site.output o ∧
        (s.ask env r site (c.spec.behavior st)).1.Alike o := by
  rw [ask_eq] at hfatal ⊢
  dsimp only at hfatal ⊢
  have hreport : (outcomeOf env r site (c.spec.behavior st) s).2.report.hasFatal = false := hfatal
  have hconclude := outcomeOf_returns env r site (c.spec.behavior st) s
  obtain ⟨hrun, hresult⟩ := run_inlined hlocal hids hret hr hst hp hb
    (c.plan_parallel st (frame env site) site.node
      (Environment.scope_isEmpty_of_placeAt hp) site.output)
    (s.enter site) (c.plan_strict st _ _) ⟨rfl, rfl, hstage⟩ (h.enter site)
    (Report.no_fatal_of_extends hconclude.report hreport)
  have hback : Inlined env { (carryOut env r site (c.spec.behavior st) s).2 with
      stack := s.stack, scope := s.scope } := hrun.place s.stack s.scope _
  unfold outcomeOf at hreport ⊢
  rcases hresult with ⟨name, hdup⟩ | ⟨x, hx, hpaired⟩
  · -- a name that is taken is reported as fatal
    have hdup : (carryOut env r site (c.spec.behavior st) s).1 = .error (.duplicateName name) :=
      hdup
    rw [hdup] at hreport
    have hpush : (pushFault { (carryOut env r site (c.spec.behavior st) s).2 with
        stack := s.stack, scope := s.scope } site.node (.duplicateName name)).report.hasFatal =
          true := hasFatal_push_fatal _ _ _ _
    exact absurd hreport (Bool.not_eq_false _ ▸ hpush)
  · obtain ⟨hs, halike⟩ := conclude_inlined hback site.node (c.spec.behavior st).role hpaired
    have hvalue := hb.evaluates hx
    refine ⟨hs.remember site _ fun o ho => ?_, _, hvalue, halike⟩
    cases ho
    exact ⟨p, _, hp, hvalue, halike⟩

theorem Arrives.inlined {a : Arrival} (ha : Arrives env site s a s') (h : Inlined env s)
    (hfatal : s'.report.hasFatal = false) :
    Inlined env s' ∧ ∀ o, a = .settled o → ∀ p, env.placeAt site.scope = some p →
      ∃ o', env.Evaluates site.stage p site.node site.output o' ∧ o.Alike o' := by
  -- the document of the place is the one that is found
  have hfound {g : Instance} {s₁ : Pass} (hf : s.follow env site.scope = (.ok g, s₁)) :
      Inlined env s₁ ∧ ∃ p, env.placeAt site.scope = some p ∧ g = env.instanceOf p.document := by
    have hs := h.follow site.scope
    rw [hf] at hs
    obtain ⟨d, hd, rfl⟩ := documentAt_of_follow h.faithful hf
    obtain ⟨p, hp, rfl⟩ := Environment.placeAt_of_documentAt hd
    exact ⟨hs, p, hp, rfl⟩
  cases ha with
  | known o hk =>
    refine ⟨h, fun o' ho' p hp => ?_⟩
    cases ho'
    obtain ⟨p', o', hp', hvalue, halike⟩ := h.values site o hk
    rw [hp] at hp'
    cases hp'
    exact ⟨o', hvalue, halike⟩
  | cycle hs =>
    have hpush : (s.reportCycle site).2.report.hasFatal = true := hasFatal_push_fatal _ _ _ _
    rw [hpush] at hfatal
    cases hfatal
  | recursive chain s' hn hf =>
    have hl := (follow_faithful site.scope h.faithful).2
    rw [hf] at hl
    rcases hl with ⟨⟨text, htext⟩, -⟩ | ⟨-, hf⟩
    · cases htext
    · rw [hf] at hfatal
      cases hfatal
  | stray fault s₁ hn hf =>
    have hs := h.follow site.scope
    rw [hf] at hs
    refine ⟨hs.push _, fun o _ p hp => ?_⟩
    have hno := Report.no_fatal_of_extends (Report.entries_prefix_push _ _) hfatal
    rw [hasFatal_of_follow h.faithful (Environment.documentAt_of_placeAt hp) hf] at hno
    cases hno
  | broken g s' message hn hf hg =>
    obtain ⟨hs, p', hp', rfl⟩ := hfound hf
    refine ⟨hs, fun o ho p hp => ?_⟩
    cases ho
    rw [hp] at hp'
    cases hp'
    rw [Environment.state?_instanceOf] at hg
    refine ⟨_, Environment.evaluates_of_ne fun fuel => ?_, Outcome.Alike.refl _⟩
    rw [Environment.evaluate, hg]
  | missing g s₁ hn hf hg =>
    obtain ⟨hs, p', hp', rfl⟩ := hfound hf
    refine ⟨hs.push _, fun o ho p hp => ?_⟩
    cases ho
    rw [hp] at hp'
    cases hp'
    rw [Environment.state?_instanceOf] at hg
    refine ⟨_, Environment.evaluates_of_ne fun fuel => ?_, Outcome.Alike.refl _⟩
    rw [Environment.evaluate, hg]
    rfl
  | faulty g s₁ b message rest hn hf hg he =>
    obtain ⟨hs, p, hp, rfl⟩ := hfound hf
    rw [Environment.state?_instanceOf] at hg
    have hvalue : env.Evaluates site.stage p site.node site.output (.error message) := by
      refine Environment.evaluates_of_ne fun fuel => ?_
      rw [Environment.evaluate, hg]
      dsimp only
      rw [he]
    refine ⟨hs.remember site _ fun o ho => ?_, fun o ho p' hp' => ?_⟩
    · cases ho
      exact ⟨p, _, hp, hvalue, Outcome.Alike.refl _⟩
    · cases ho
      rw [hp] at hp'
      cases hp'
      exact ⟨_, hvalue, Outcome.Alike.refl _⟩
  | node g s' b hn hf hg he =>
    obtain ⟨hs, -⟩ := hfound hf
    exact ⟨hs, fun o ho => by cases ho⟩

/-- The node that a pass asks can be asked at the place where the scope leads. -/
theorem Arrives.hosts {b : Behavior} (ha : Arrives env site s (.node b) s')
    (h : Faithful env s) : ∃ p, env.placeAt site.scope = some p ∧ env.Hosts p site.node b := by
  cases ha with
  | node g s' b hn hf hg he =>
    obtain ⟨d, hd, rfl⟩ := documentAt_of_follow h hf
    obtain ⟨p, hp, rfl⟩ := Environment.placeAt_of_documentAt hd
    rw [Environment.state?_instanceOf] at hg
    exact ⟨p, hp, hg, he⟩

/-- **Resolving an output gives what evaluation gives**, as long as nothing fatal is
reported. -/
theorem resolve_inlined (hc : env.catalog = .builtin) (hlocal : env.LocalWires)
    (hids : env.DistinctIds) (room : Nat) : Resolver.Evaluating env (resolve env room) := by
  refine resolve_induction (motive := fun site s x => Inlined env s → s.stage = site.stage →
    x.2.report.hasFatal = false → Inlined env x.2 ∧ ∀ p, env.placeAt site.scope = some p →
      ∃ o, env.Evaluates site.stage p site.node site.output o ∧ x.1.Alike o) ?_ ?_ ?_ room
  · intro site s o s' ha h _ hfatal
    obtain ⟨hend, hvalue⟩ := ha.inlined h hfatal
    exact ⟨hend, hvalue o rfl⟩
  · intro site s b s' _ _ _ hfatal
    have hpush : (s'.reportDepth site).2.report.hasFatal = true := hasFatal_push_fatal _ _ _ _
    rw [hpush] at hfatal
    cases hfatal
  · intro room site s b s' ih ha h hstage hfatal
    have hret := resolve_returns env room
    obtain ⟨c, st, hst, rfl⟩ := ha.stands hc h.faithful
    obtain ⟨p, hp, hb⟩ := ha.hosts h.faithful
    have hgrows := ask_returns env hret site (c.spec.behavior st) ha.progress?_eq_none
    obtain ⟨hs', -⟩ := ha.inlined h (Report.no_fatal_of_extends hgrows.report hfatal)
    obtain ⟨hend, o, hvalue, halike⟩ := ask_inlined hlocal hids hret ih hst hp hb
      (ha.returns.stage.trans hstage) hs' hfatal
    refine ⟨hend, fun p' hp' => ?_⟩
    rw [hp] at hp'
    cases hp'
    exact ⟨o, hvalue, halike⟩

theorem Session.report_prefix {l : List Event} (hl : Session env s s' l) :
    s.report.entries <+: s'.report.entries := by
  induction hl with
  | nil s => exact List.prefix_refl _
  | @root s _ _ _ ih => exact (root_prepared env s).report.trans ih
  | @report s _ _ ds _ _ ih => exact (foldl_push_noted ds s).report.trans ih
  | @resolve s _ _ stage scope node output _ ih =>
    have hr := resolve_returns env maxDepth ⟨scope, node, output, stage⟩ { s with stage }
    exact hr.report.trans ih

/-- What a pass remembers from its beginning to its end is what evaluation gives. -/
theorem Session.inlined (hc : env.catalog = .builtin) (hlocal : env.LocalWires)
    (hids : env.DistinctIds) {l : List Event} (hl : Session env s s' l) :
    s'.report.hasFatal = false → Inlined env s → Inlined env s' := by
  induction hl with
  | nil s => exact fun _ h => h
  | root _ ih => exact fun hfatal h => ih hfatal h.root
  | @report s _ _ ds _ _ ih =>
    intro hfatal h
    have hn := foldl_push_noted ds s
    exact ih hfatal (h.of_same (h.faithful.of_same hn.instances hn.scopes) hn.prepared.memo
      hn.prepared.globals)
  | @resolve s s' l stage scope node output hrest ih =>
    intro hfatal h
    obtain ⟨hs, -⟩ := resolve_inlined hc hlocal hids maxDepth ⟨scope, node, output, stage⟩
      { s with stage } (h.place _ _ stage) rfl
      (Report.no_fatal_of_extends hrest.report_prefix hfatal)
    exact ih hfatal (hs.place _ _ s.stage)

end Pass

/-! ### Compilations -/

/-- Documents that share no identifier. -/
def Document.Apart (d d' : Document) : Prop :=
  ∀ node ∈ d.nodes, ∀ node' ∈ d'.nodes, node.id ≠ node'.id

instance : DecidableRel Document.Apart := fun d d' =>
  inferInstanceAs (Decidable (∀ node ∈ d.nodes, ∀ node' ∈ d'.nodes, node.id ≠ node'.id))

instance : Std.Symm Document.Apart where
  symm _ _ h node hn node' hn' he := h node' hn' node hn he.symm

namespace Environment

variable {env : Environment} {documents : List Document}

theorem localWires_of_documents (hc : env.catalog = .builtin)
    (hall : ∀ d, env.InReach d → d ∈ documents)
    (h : ∀ d ∈ documents, ∀ node ∈ d.nodes, ∀ built ∈ node.built?,
      ∀ entry ∈ built.1.spec.connections built.2, entry.2.path = []) : env.LocalWires := by
  intro d hd node hn b hb
  obtain ⟨c, s, hbuilt, rfl⟩ := stateOf_builtin hc hb
  exact h d (hall d hd) node hn ⟨c, s⟩ hbuilt

theorem distinctIds_of_documents (hall : ∀ d, env.InReach d → d ∈ documents)
    (h : documents.Pairwise Document.Apart) : env.DistinctIds := by
  intro d d' hd hd' node hn node' hn' hid
  by_contra hne
  exact h.forall (hall d hd) (hall d' hd') hne node hn node' hn' hid

end Environment

namespace Compiler

open Pass

/-- A document that halves a colour, and gives the colour itself as well. -/
def halfDocument : Document where
  isSubgraph := true
  nodes := [
    .of .subgraphInput 20
      { name := "color", type := .vector3, fallback := .vector3 ⟨one, one, one⟩ },
    .of (.binary .multiply) 21 { (BinaryOp.spec .multiply).initial with a := .ofNode 20 },
    .of .subgraphOutput 22 { name := "half", value := .ofNode 21 },
    .of .subgraphOutput 23 { name := "whole", value := .ofNode 20 }]

/-- A document that calls it for a grey. -/
def greyDocument : Document where
  isSubgraph := true
  nodes := [
    .of .subgraphInput 30 { name := "level" },
    .of .subgraphCall 31 { path := "half", inputs := [("color", .ofNode 30)] },
    .of .subgraphOutput 32 { name := "grey", value := .ofNode 31 "half" }]

/-- A material that calls both. -/
def layersDocument : Document where
  nodes := [
    .of (.literal .float) 1 { value := one },
    { id := ⟨2⟩, className := "VertexColor", settings := .object [] },
    .of .subgraphCall 3 { path := "grey", inputs := [("level", .ofNode 1)] },
    .of .subgraphCall 4 { path := "half", inputs := [("color", .ofNode 2)] },
    .of .subgraphCall 5 { path := "half" },
    .of .materialResult 6
      { albedo := .ofNode 3 "grey", emission := .ofNode 4 "half", normal := .ofNode 5 "whole" }]

/-- The compiler that knows both documents. -/
def layering : Compiler where
  library path :=
    if path = "half" then some halfDocument
    else if path = "grey" then some greyDocument
    else none

/-- The type of a remembered value, and whether it is constant. -/
def kindAt? (s : Pass) (scope : Scope) (node : NodeId) (output : String) :
    Option (ShaderType × Bool) :=
  match s.progress? ⟨scope, node, output, .pixel⟩ with
  | some (.finished (.valid e)) => some (e.type, e.isConstant)
  | _ => none

end Compiler

end MaterialGraph
