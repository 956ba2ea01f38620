import MaterialGraph.Proofs.Frame

/-!
# What requests do

A request of a plan is answered in one of three ways. A site is resolved for it; or it is
answered from the tables and the report; or, if a feature selects a value, a statement is
emitted. This is said here once, and with it that requests, plans and nodes return: when
they are done, the pass is at the place where it was.

## Main definitions

* `Pass.Booked` — the steps that only register or report something.
* `Pass.demand?`, `Pass.Demands` — the site that a request needs, and the state in which it is
  resolved.
* `Command.deliver?` — how the outcome of what a request needs answers it.
* `Pass.Resolver.Returning` — resolvers that return.

## Main results

* `Pass.demand?_demands` — all that a request can need.
* `Pass.perform_of_demand?`, `Pass.perform_of_no_demand` — all that a request can do.
* `Pass.Registering.perform` — what is registered in two passes is answered alike.
* `Pass.conclude_cases` — all that can become of the result of a node.
* `Pass.resolve_returns` — resolving an output returns.
-/

namespace MaterialGraph

/-- How the outcome of what a request demands answers it. -/
def Command.deliver? : (c : Command) → Outcome → Option c.Reply
  | .read _ _, o => some o
  | .own _, o => some o
  | .call output, o => some (o.toExpr output)
  | .argument _, o => some (some o)
  | _, _ => none

/-- The value that answers a request is the outcome that answers it. -/
theorem Command.deliver?_valid {c : Command} {o : Outcome} {e : Expr} {reply : c.Reply}
    (h : c.deliver? o = some reply) (he : c.deliver? (.valid e) = some reply) : o = .valid e := by
  cases c with
  | read input wire => exact Option.some.inj (h.trans he.symm)
  | own output => exact Option.some.inj (h.trans he.symm)
  | call output =>
    have hx : o.toExpr output = .ok e := Option.some.inj (h.trans he.symm)
    cases o with
    | valid e' => cases hx; rfl
    | error text => cases hx
    | missingInput text => cases hx
  | argument name => exact Option.some.inj (Option.some.inj (h.trans he.symm))
  | _ => cases h

namespace Pass

/-! ### Registrations -/

/-- The pass `s'` differs from `s` by what has been registered and reported. -/
def Booked (s s' : Pass) : Prop :=
  ∃ globals report compiled journal, s.report.entries <+: report.entries ∧
    s.globals.Within globals ∧ s' = { s with globals, report, compiled, journal }

namespace Booked

variable {s s' s'' : Pass}

theorem refl (s : Pass) : Booked s s :=
  ⟨s.globals, s.report, s.compiled, s.journal, List.prefix_refl _, .refl _, rfl⟩

theorem trans (h : Booked s s') (h' : Booked s' s'') : Booked s s'' := by
  obtain ⟨_, _, _, _, hr, ht, rfl⟩ := h
  obtain ⟨_, _, _, _, hr', ht', rfl⟩ := h'
  exact ⟨_, _, _, _, hr.trans hr', ht.trans ht', rfl⟩

theorem push (s : Pass) (d : Diagnostic) : Booked s (s.push d) :=
  ⟨s.globals, _, s.compiled, s.journal, s.report.entries_prefix_push d, .refl _, rfl⟩

theorem globals {globals : Globals} (h : s.globals.Within globals) : Booked s { s with globals } :=
  ⟨globals, s.report, s.compiled, s.journal, List.prefix_refl _, h, rfl⟩

theorem returns (h : Booked s s') : Returns s s' := by
  obtain ⟨_, _, _, _, hr, ht, rfl⟩ := h
  exact .of_same rfl rfl rfl rfl rfl rfl hr ht

end Booked

section Registrations

variable (env : Environment) (r : Resolver) (s : Pass)

/-! A registration answers from the tables and changes nothing but them. -/

theorem bindParameter_eq (spec : ParameterSpec) (node : NodeId) :
    s.bindParameter env spec node =
      ((s.globals.addParameter env.types spec node).1.map Parameter.expr,
        { s with globals := (s.globals.addParameter env.types spec node).2 }) := by
  rw [bindParameter]

@[simp] theorem perform_parameter (spec : ParameterSpec) :
    s.perform env r (.parameter spec) = s.bindParameter env spec s.currentNode :=
  rfl

@[simp] theorem perform_texture (spec : TextureSpec) (name : String) (fallback : Vec4) :
    s.perform env r (.texture spec name fallback) = s.bindTexture env spec name fallback :=
  rfl

@[simp] theorem perform_toggle (name : String) (initial : Bool) :
    s.perform env r (.toggle name initial) = s.bindToggle env name initial :=
  rfl

@[simp] theorem perform_declare (text : String) :
    s.perform env r (.declare text) =
      ((s.globals.declare text).1, { s with globals := (s.globals.declare text).2 }) := by
  rw [perform]

@[simp] theorem perform_function (source : String) :
    s.perform env r (.function source) =
      ((s.globals.addFunction source).1,
        { s with globals := (s.globals.addFunction source).2 }) := by
  rw [perform]

@[simp] theorem perform_sampler (state : SamplerState) :
    s.perform env r (.sampler state) =
      ((s.globals.addSampler env.types state).1.expr,
        { s with globals := (s.globals.addSampler env.types state).2 }) := by
  rw [perform]

@[simp] theorem perform_feature (name group : String) :
    s.perform env r (.feature name group) =
      ((s.globals.addFeature name group).1,
        { s with globals := (s.globals.addFeature name group).2 }) := by
  rw [perform]

end Registrations

theorem bindParameter_booked (env : Environment) (spec : ParameterSpec) (node : NodeId)
    (s : Pass) : Booked s (s.bindParameter env spec node).2 := by
  rw [bindParameter_eq]
  exact .globals (s.globals.addParameter_within env.types spec node).1

theorem bindToggle_booked (env : Environment) (name : String) (initial : Bool) (s : Pass) :
    Booked s (s.bindToggle env name initial).2 := by
  unfold bindToggle
  simp only
  split
  · exact .refl s
  · have howners (key : String) : s.globals.Within
        { s.globals with toggles := (assignOwner s.globals.toggles key s.currentNode).2 } :=
      { Globals.Within.refl s.globals with toggles := Globals.assignOwner_extends _ _ _ }
    exact (Booked.globals (howners _)).trans (bindParameter_booked env _ _ _)

/-- A texture is refused, or it is entered in the tables and its global is the answer. Then a
new texture is compiled, and it is reported if that fails. -/
theorem bindTexture_cases (env : Environment) (spec : TextureSpec) (name : String)
    (fallback : Vec4) (s : Pass) :
    (∃ fault globals,
      s.globals.addTexture env.types spec name fallback s.currentNode = (.error fault, globals) ∧
      s.bindTexture env spec name fallback = (.error fault, { s with globals })) ∨
    ∃ t isNew globals,
      s.globals.addTexture env.types spec name fallback s.currentNode =
        (.ok (t, isNew), globals) ∧
      (s.bindTexture env spec name fallback).1 = .ok t.expr ∧
      Booked { s with globals } (s.bindTexture env spec name fallback).2 := by
  have hnew := (s.globals.addTexture_within env.types spec name fallback s.currentNode).2
  unfold bindTexture
  simp only
  rcases hx : s.globals.addTexture env.types spec name fallback s.currentNode with
    ⟨fault | ⟨t, isNew⟩, globals⟩
  · exact .inl ⟨fault, globals, rfl, rfl⟩
  · rw [hx] at hnew
    refine .inr ⟨t, isNew, globals, rfl, ?_⟩
    simp only
    split
    · next hc =>
      rw [Bool.and_eq_true] at hc
      have hupdate (u : Texture) (hspec : u.spec = t.spec) (hglobal : u.global = t.global) :
          Booked { s with globals } { s with
            globals := globals.updateTexture u, compiled := s.compiled ++ [spec] } := by
        refine ⟨_, s.report, _, s.journal, List.prefix_refl _, ?_, rfl⟩
        refine globals.updateTexture_within fun v hv hvu => ?_
        rw [(hnew t isNew rfl).2 hc.1 v hv (hvu.trans hspec), hglobal]
      split
      · exact ⟨rfl, hupdate _ rfl rfl⟩
      · exact ⟨rfl, (hupdate { t with fallback := .ones } rfl rfl).trans (.push _ _)⟩
    · exact ⟨rfl, .refl _⟩

theorem bindTexture_booked (env : Environment) (spec : TextureSpec) (name : String)
    (fallback : Vec4) (s : Pass) : Booked s (s.bindTexture env spec name fallback).2 := by
  have hw := (s.globals.addTexture_within env.types spec name fallback s.currentNode).1
  rcases bindTexture_cases env spec name fallback s with
    ⟨fault, globals, hx, he⟩ | ⟨t, isNew, globals, hx, -, hb⟩
  · rw [hx] at hw
    rw [he]
    exact .globals hw
  · rw [hx] at hw
    exact (Booked.globals hw).trans hb

end Pass

/-- The requests that are answered from the tables. -/
def Command.Registers : Command → Prop
  | .parameter _ | .declare _ | .function _ | .texture _ _ _ | .sampler _ | .feature _ _
  | .toggle _ _ => True
  | _ => False

namespace Pass

variable {c : Command} {env : Environment} {s : Pass}

theorem register_booked (env : Environment) (r : Resolver) (hc : c.Registers) (s : Pass) :
    Booked s (s.perform env r c).2 := by
  cases c with
  | parameter spec => exact bindParameter_booked env spec _ s
  | declare text =>
    rw [perform_declare]
    exact .globals (s.globals.declare_within text).1
  | function source =>
    rw [perform_function]
    exact .globals (s.globals.addFunction_within source).1
  | texture spec name fallback =>
    rw [perform_texture]
    exact bindTexture_booked env spec name fallback s
  | sampler state =>
    rw [perform_sampler]
    exact .globals (s.globals.addSampler_within env.types state).1
  | feature name group =>
    rw [perform_feature]
    exact .globals (s.globals.addFeature_within name group).1
  | toggle name initial =>
    rw [perform_toggle]
    exact bindToggle_booked env name initial s
  | _ => exact hc.elim

/-! ### Demands -/

/-- The site that a request has resolved, and the state in which it is. -/
def demand? (env : Environment) : Command → Pass → Option (Site × Pass)
  | .read _ wire, s =>
    if wire.isConnected then
      some (⟨if wire.path.isEmpty then s.scope else wire.path, wire.node, wire.output, s.stage⟩, s)
    else none
  | .own output, s => s.stack.head?.map fun site => (⟨site.scope, site.node, output, s.stage⟩, s)
  | .call output, s =>
    match s.stack with
    | [] => none
    | site :: _ =>
      match s.follow env (site.scope ++ [site.node]) with
      | (.error _, _) => none
      | (.ok g, s) =>
        (outputNode? g output).map fun node =>
          (⟨site.scope ++ [site.node], node, valueOutput, s.stage⟩, s)
  | .argument name, s =>
    match s.scope.getLast? with
    | none => none
    | some call =>
      match s.follow env s.scope.dropLast with
      | (.error _, _) => none
      | (.ok g, s') =>
        (boundWire? g call name).map fun wire =>
          (⟨if wire.path.isEmpty then s.scope.dropLast else wire.path, wire.node, wire.output,
            s'.stage⟩, { s' with scope := s.scope.dropLast })
  | _, _ => none

/-- The pass in which a request is looked at: that of the request, perhaps with a scope
followed. -/
def Followed (env : Environment) (s s' : Pass) : Prop :=
  s' = s ∨ ∃ path, s' = (s.follow env path).2

theorem Followed.prepared {s' : Pass} (h : Followed env s s') :
    Prepared s s' := by
  rcases h with rfl | ⟨path, rfl⟩
  · exact .refl _
  · exact follow_prepared env path s

theorem boundWire?_isConnected {g : Instance} {call : NodeId} {name : String} {wire : Wire}
    (h : boundWire? g call name = some wire) : wire.isConnected = true := by
  unfold boundWire? at h
  simp only [Option.bind_eq_bind, Option.bind_eq_some_iff] at h
  obtain ⟨b, -, entry, -, h⟩ := h
  split at h
  · next hc => cases h; exact hc
  · cases h

/-- What a request has resolved, and where. -/
inductive Demands (env : Environment) (s : Pass) : Command → Site → Pass → Prop
  | read (input : String) {wire : Wire} (hw : wire.isConnected = true) :
    Demands env s (.read input wire)
      ⟨if wire.path.isEmpty then s.scope else wire.path, wire.node, wire.output, s.stage⟩ s
  | own (output : String) {top : Site} (hs : s.stack.head? = some top) :
    Demands env s (.own output) ⟨top.scope, top.node, output, s.stage⟩ s
  | call {output : String} {top : Site} {node : NodeId} {g : Instance} {s' : Pass}
    (hs : s.stack.head? = some top) (hf : s.follow env (top.scope ++ [top.node]) = (.ok g, s'))
    (hn : outputNode? g output = some node) :
    Demands env s (.call output) ⟨top.scope ++ [top.node], node, valueOutput, s'.stage⟩ s'
  | argument {name : String} {call : NodeId} {wire : Wire} {g : Instance} {s' : Pass}
    (hc : s.scope.getLast? = some call) (hf : s.follow env s.scope.dropLast = (.ok g, s'))
    (hw : boundWire? g call name = some wire) :
    Demands env s (.argument name)
      ⟨if wire.path.isEmpty then s.scope.dropLast else wire.path, wire.node, wire.output,
        s'.stage⟩ { s' with scope := s.scope.dropLast }

theorem demand?_demands {s' : Pass} {site : Site} (h : demand? env c s = some (site, s')) :
    Demands env s c site s' := by
  cases c with
  | read input wire =>
    rw [demand?] at h
    split at h
    · next hw =>
      cases h
      exact .read input hw
    · cases h
  | own output =>
    rw [demand?] at h
    obtain ⟨top, hs, h⟩ := Option.map_eq_some_iff.mp h
    cases h
    exact .own output hs
  | call output =>
    rw [demand?] at h
    split at h
    · cases h
    · next top rest hs =>
      split at h
      · cases h
      · next g s₁ hf =>
        obtain ⟨node, hn, h⟩ := Option.map_eq_some_iff.mp h
        cases h
        exact .call (by rw [hs]; rfl) hf hn
  | argument name =>
    rw [demand?] at h
    split at h
    · cases h
    · next call hc =>
      split at h
      · cases h
      · next g s₁ hf =>
        obtain ⟨wire, hw, h⟩ := Option.map_eq_some_iff.mp h
        cases h
        exact .argument hc hf hw
  | _ => cases h

theorem demand?_read_eq_none {input : String} {wire : Wire}
    (h : demand? env (.read input wire) s = none) : ¬wire.isConnected = true := by
  intro hw
  rw [demand?, if_pos hw] at h
  cases h

theorem demand?_own_eq_none {output : String} (h : demand? env (.own output) s = none) :
    s.stack = [] := by
  rwa [demand?, Option.map_eq_none_iff, List.head?_eq_none_iff] at h

/-- What a request demands is demanded for the current stage, in the state of the
request or after a scope has been followed, and perhaps in another scope. -/
theorem demand?_place {s' : Pass} {site : Site} (h : demand? env c s = some (site, s')) :
    site.stage = s'.stage ∧ ∃ s₁ scope, Followed env s s₁ ∧ s' = { s₁ with scope } := by
  cases demand?_demands h with
  | read input hw => exact ⟨rfl, s, s.scope, .inl rfl, rfl⟩
  | own output hs => exact ⟨rfl, s, s.scope, .inl rfl, rfl⟩
  | call hs hf hn => exact ⟨rfl, s', s'.scope, .inr ⟨_, (congrArg Prod.snd hf).symm⟩, rfl⟩
  | argument hc hf hw =>
    exact ⟨rfl, _, s.scope.dropLast, .inr ⟨_, (congrArg Prod.snd hf).symm⟩, rfl⟩

/-- A request hands on the outcome of what it demands. The scope is that of the request
again, if the resolver leaves it as it finds it. -/
theorem perform_of_demand? (r : Resolver) {s' : Pass} {site : Site}
    (h : demand? env c s = some (site, s')) :
    ∃ reply scope, c.deliver? (r site s').1 = some reply ∧
      s.perform env r c = (reply, { (r site s').2 with scope }) ∧
      ((r site s').2.scope = s'.scope → scope = s.scope) := by
  have hfollowed {x : Except Fault Instance} {s₁ : Pass} {path : Scope}
      (hf : s.follow env path = (x, s₁)) : s₁.scope = s.scope := by
    have hp := (follow_prepared env path s).scope
    rw [hf] at hp
    exact hp
  cases demand?_demands h with
  | read input hw => exact ⟨_, (r _ s).2.scope, rfl, if_pos hw, id⟩
  | own output hs =>
    obtain ⟨rest, hs⟩ := List.head?_eq_some_iff.mp hs
    refine ⟨_, (r _ s).2.scope, rfl, ?_, id⟩
    show s.readOwn r output = _
    simp only [readOwn, hs]
  | @call output _ _ _ _ hs hf hn =>
    obtain ⟨rest, hs⟩ := List.head?_eq_some_iff.mp hs
    refine ⟨_, (r _ s').2.scope, rfl, ?_, fun hscope => hscope.trans (hfollowed hf)⟩
    show s.callOutput env r output = _
    simp only [callOutput, hs, hf, hn]
  | @argument name _ _ _ s₁ hc hf hw =>
    -- the argument is read in the scope of the caller, whatever the resolver does to it
    refine ⟨_, s₁.scope, rfl, ?_, fun _ => hfollowed hf⟩
    show s.readArgument env r name = _
    simp only [readArgument, hc, hf, hw, readWire, boundWire?_isConnected hw, if_true]

/-- A value that a feature selects is a new variable. -/
@[simp] theorem perform_select (env : Environment) (r : Resolver) (s : Pass) (feature : Feature)
    (type : ShaderType) (on off : Expr) :
    s.perform env r (.select feature type on off) =
      ({ type, code := localName s.locals },
        { s.emit (.select (env.types.name type) s.locals feature.combo on.code off.code) with
          locals := s.locals + 1 }) :=
  rfl

/-- A call that does not reach an output of its document. The fault is its own, or that of
the scope that it follows. -/
theorem callOutput_of_no_demand (r : Resolver) {output : String}
    (h : demand? env (.call output) s = none) :
    ∃ fault s₁, s.callOutput env r output = (.error fault, s₁) ∧ Followed env s s₁ ∧
      ((∃ text, fault = .message text) ∨ fault = .unknownOutput output ∨
        ∃ path, s.follow env path = (.error fault, s₁)) := by
  rw [demand?] at h
  unfold callOutput
  split
  · exact ⟨_, s, rfl, .inl rfl, .inl ⟨_, rfl⟩⟩
  · next top rest hs =>
    simp only [hs] at h ⊢
    rcases hf : s.follow env (top.scope ++ [top.node]) with ⟨fault | g, s₁⟩
    · exact ⟨fault, s₁, rfl, .inr ⟨_, by rw [hf]⟩, .inr (.inr ⟨_, hf⟩)⟩
    · rw [hf, Option.map_eq_none_iff] at h
      simp only [h]
      exact ⟨_, s₁, rfl, .inr ⟨_, by rw [hf]⟩, .inr (.inl rfl)⟩

/-- An argument that is read outside of calls, or that the call leaves open. -/
theorem readArgument_of_no_demand (r : Resolver) {name : String}
    (h : demand? env (.argument name) s = none) :
    ∃ s₁, s.readArgument env r name = (none, s₁) ∧ Followed env s s₁ := by
  rw [demand?] at h
  unfold readArgument
  split
  · exact ⟨s, rfl, .inl rfl⟩
  · next call hc =>
    simp only [hc] at h ⊢
    rcases hf : s.follow env s.scope.dropLast with ⟨fault | g, s₁⟩
    · exact ⟨s₁, rfl, .inr ⟨_, by rw [hf]⟩⟩
    · rw [hf, Option.map_eq_none_iff] at h
      simp only [h]
      exact ⟨s₁, rfl, .inr ⟨_, by rw [hf]⟩⟩

/-- **All that a request can do that demands nothing.** It is in vain, perhaps after a scope has
been followed; or something is registered; or there is a remark; or a feature selects a value. -/
theorem perform_of_no_demand (r : Resolver) (h : demand? env c s = none) :
    Followed env s (s.perform env r c).2 ∨ c.Registers ∨
      (∃ d : Diagnostic, d.concern.isRoutine = true ∧ (s.perform env r c).2 = s.push d) ∨
      (∃ remark, c = .note remark) ∨ ∃ feature type on off, c = .select feature type on off := by
  cases c with
  | read input wire =>
    refine .inl (.inl ?_)
    show (s.readWire r input wire).2 = s
    rw [readWire, if_neg (demand?_read_eq_none h)]
  | own output =>
    refine .inl (.inl ?_)
    show (s.readOwn r output).2 = s
    simp only [readOwn, demand?_own_eq_none h]
  | call output =>
    obtain ⟨fault, s₁, he, hf, -⟩ := callOutput_of_no_demand r h
    refine .inl ?_
    show Followed env s (s.callOutput env r output).2
    rw [he]
    exact hf
  | argument name =>
    obtain ⟨s₁, he, hf⟩ := readArgument_of_no_demand r h
    refine .inl ?_
    show Followed env s (s.readArgument env r name).2
    rw [he]
    exact hf
  | select feature type on off => exact .inr (.inr (.inr (.inr ⟨_, _, _, _, rfl⟩)))
  | warn message => exact .inr (.inr (.inl ⟨_, rfl, rfl⟩))
  | reportMissing input => exact .inr (.inr (.inl ⟨_, rfl, rfl⟩))
  | note remark => exact .inr (.inr (.inr (.inl ⟨remark, rfl⟩)))
  | _ => exact .inr (.inl trivial)

/-- So it registers or reports, unless a feature selects a value. -/
theorem perform_booked (r : Resolver) (h : demand? env c s = none) :
    (∃ s₁, Followed env s s₁ ∧ Booked s₁ (s.perform env r c).2) ∨
      ∃ feature type on off, c = .select feature type on off := by
  rcases perform_of_no_demand r h with hf | hc | ⟨d, -, he⟩ | ⟨remark, rfl⟩ | hselect
  · exact .inl ⟨_, hf, .refl _⟩
  · exact .inl ⟨s, .inl rfl, register_booked env r hc s⟩
  · rw [he]
    exact .inl ⟨s, .inl rfl, .push s d⟩
  · exact .inl ⟨s, .inl rfl, s.globals, s.report, s.compiled, _, List.prefix_refl _, .refl _, rfl⟩
  · exact .inr hselect

/-! ### Registrations in two passes -/

/-- A relation between passes with the same tables and the same current node that holds when both
register, report and emit the same. -/
structure Registering (P : Pass → Pass → Prop) : Prop where
  globals : ∀ {s t}, P s t → t.globals = s.globals
  locals : ∀ {s t}, P s t → t.locals = s.locals
  node : ∀ {s t}, P s t → t.currentNode = s.currentNode
  tables : ∀ {s t}, P s t → ∀ globals, P { s with globals } { t with globals }
  push : ∀ {s t}, P s t → ∀ d : Diagnostic, (d.severity == .fatal) = false →
    P (s.push d) (t.push d)
  compiled : ∀ {s t}, P s t → ∀ spec,
    P { s with compiled := s.compiled ++ [spec] } { t with compiled := t.compiled ++ [spec] }
  journal : ∀ {s t}, P s t → ∀ remark,
    P { s with journal := s.journal ++ [remark] } { t with journal := t.journal ++ [remark] }
  emit : ∀ {s t}, P s t → ∀ statement n,
    P { s.emit statement with locals := n } { t.emit statement with locals := n }

namespace Registering

variable {P : Pass → Pass → Prop} (h : Registering P) {env env' : Environment}
  (htypes : env'.types = env.types) {s t : Pass}
include h htypes

theorem bindParameter (hst : P s t) (spec : ParameterSpec) (node : NodeId) :
    (t.bindParameter env' spec node).1 = (s.bindParameter env spec node).1 ∧
      P (s.bindParameter env spec node).2 (t.bindParameter env' spec node).2 := by
  rw [bindParameter_eq, bindParameter_eq, htypes, h.globals hst]
  exact ⟨rfl, h.tables hst _⟩

theorem bindTexture (htextures : env'.textures = env.textures) (hst : P s t)
    (spec : TextureSpec) (name : String) (fallback : Vec4) :
    (t.bindTexture env' spec name fallback).1 = (s.bindTexture env spec name fallback).1 ∧
      P (s.bindTexture env spec name fallback).2 (t.bindTexture env' spec name fallback).2 := by
  unfold Pass.bindTexture
  rw [htypes, htextures, h.node hst, h.globals hst]
  dsimp only
  rcases s.globals.addTexture env.types spec name fallback s.currentNode with
    ⟨fault | ⟨texture, isNew⟩, globals⟩
  · exact ⟨rfl, h.tables hst globals⟩
  · have hnew := h.compiled (h.tables hst globals) spec
    dsimp only
    split
    · cases env.textures spec with
      | some asset => exact ⟨rfl, h.tables hnew _⟩
      | none => exact ⟨rfl, h.push (h.tables hnew _) _ rfl⟩
    · exact ⟨rfl, h.tables hst globals⟩

/-- **What is registered is answered alike.** -/
theorem perform (htextures : env'.textures = env.textures) (hst : P s t) (r r' : Resolver)
    {c : Command} (hc : ∀ o, c.deliver? o = none) :
    (t.perform env' r' c).1 = (s.perform env r c).1 ∧
      P (s.perform env r c).2 (t.perform env' r' c).2 := by
  cases c with
  | read input wire => cases hc (.missingInput input)
  | own output => cases hc (.missingInput output)
  | call output => cases hc (.missingInput output)
  | argument name => cases hc (.missingInput name)
  | parameter spec =>
    show (t.bindParameter env' spec t.currentNode).1 = (s.bindParameter env spec s.currentNode).1 ∧
      P (s.bindParameter env spec s.currentNode).2 (t.bindParameter env' spec t.currentNode).2
    rw [h.node hst]
    exact h.bindParameter htypes hst spec _
  | declare text =>
    rw [perform_declare, perform_declare, h.globals hst]
    exact ⟨rfl, h.tables hst _⟩
  | function source =>
    rw [perform_function, perform_function, h.globals hst]
    exact ⟨rfl, h.tables hst _⟩
  | texture spec name fallback => exact h.bindTexture htypes htextures hst spec name fallback
  | sampler state =>
    rw [perform_sampler, perform_sampler, htypes, h.globals hst]
    exact ⟨rfl, h.tables hst _⟩
  | feature name group =>
    rw [perform_feature, perform_feature, h.globals hst]
    exact ⟨rfl, h.tables hst _⟩
  | toggle name initial =>
    show (t.bindToggle env' name initial).1 = (s.bindToggle env name initial).1 ∧
      P (s.bindToggle env name initial).2 (t.bindToggle env' name initial).2
    unfold Pass.bindToggle
    dsimp only
    split
    · exact ⟨rfl, hst⟩
    · rw [h.globals hst, h.node hst]
      exact h.bindParameter htypes (h.tables hst _) _ _
  | select feature type on off =>
    rw [perform_select, perform_select, htypes, h.locals hst]
    exact ⟨rfl, h.emit hst _ _⟩
  | warn message =>
    refine ⟨rfl, ?_⟩
    show P (s.push (.warning .node s.currentNode message))
      (t.push (.warning .node t.currentNode message))
    rw [h.node hst]
    exact h.push hst _ rfl
  | reportMissing input =>
    refine ⟨rfl, ?_⟩
    show P (s.push (.error .missingInput s.currentNode _))
      (t.push (.error .missingInput t.currentNode _))
    rw [h.node hst]
    exact h.push hst _ rfl
  | note remark => exact ⟨rfl, h.journal hst remark⟩

end Registering

/-! ### Returning -/

/-- Resolving finishes all that it starts, and ends at the place where it began. -/
def Resolver.Returning (r : Resolver) : Prop := ∀ site s, Returns s (r site s).2

variable {r : Resolver}

/-- A request returns if the resolver does. -/
theorem perform_returns (env : Environment) (h : r.Returning) (c : Command) (s : Pass) :
    Returns s (s.perform env r c).2 := by
  rcases hd : demand? env c s with _ | ⟨site, s'⟩
  · rcases perform_booked r hd with ⟨s₁, hf, hb⟩ | ⟨feature, type, on, off, rfl⟩
    · exact hf.prepared.returns.trans hb.returns
    · exact emit_returns s _ _
  · obtain ⟨reply, scope, -, he, hscope⟩ := perform_of_demand? r hd
    obtain ⟨-, s₁, here, hf, rfl⟩ := demand?_place hd
    have hs := hf.prepared.returns
    have hr := h site { s₁ with scope := here }
    rw [he]
    exact ⟨hs.toGrows.trans ⟨hr.finished, hr.report, hr.vertex, hr.pixel, hr.tables⟩,
      hr.stack.trans hs.stack, hscope hr.scope, hr.stage.trans hs.stage, fun other =>
        (hr.started other).trans (hs.started other)⟩

/-- A plan returns if the resolver does, however it ends. -/
theorem run_returns {α : Type} (env : Environment) (h : r.Returning) (plan : Plan α) :
    ∀ s : Pass, Returns s (run env r plan s).2 := by
  induction plan with
  | done a => exact fun s => .refl s
  | fail fault => exact fun s => .refl s
  | ask c next ih =>
    intro s
    exact (perform_returns env h c s).trans (ih _ _)

/-! ### Plans, part by part -/

theorem run_bind {α β : Type} (env : Environment) (r : Resolver) (plan : Plan α)
    (next : α → Plan β) : ∀ s : Pass, run env r (plan >>= next) s =
      match run env r plan s with
      | (.ok a, s) => run env r (next a) s
      | (.error fault, s) => (.error fault, s) := by
  induction plan with
  | done a => exact fun _ => rfl
  | fail fault => exact fun _ => rfl
  | ask cmd k ih => exact fun s => ih _ _

@[simp] theorem run_request (env : Environment) (r : Resolver) (cmd : Command) (s : Pass) :
    run env r (Plan.request cmd) s = (.ok (s.perform env r cmd).1, (s.perform env r cmd).2) :=
  rfl

theorem run_ofExcept {α : Type} (env : Environment) (r : Resolver) (x : Except Fault α)
    (s : Pass) : run env r (Plan.ofExcept x) s = (x, s) := by
  cases x with
  | ok a => rfl
  | error fault => rfl

section Parts

variable {α β : Type} {env : Environment} {s s' : Pass}

theorem run_bind_eq_ok {plan : Plan α} {next : α → Plan β} {b : β}
    (h : run env r (plan >>= next) s = (.ok b, s')) :
    ∃ a s₁, run env r plan s = (.ok a, s₁) ∧ run env r (next a) s₁ = (.ok b, s') := by
  rw [run_bind] at h
  rcases hp : run env r plan s with ⟨fault | a, s₁⟩
  · rw [hp] at h
    cases h
  · rw [hp] at h
    exact ⟨a, s₁, rfl, h⟩

theorem run_bind_of_ok {plan : Plan α} {next : α → Plan β} {a : α}
    (h : run env r plan s = (.ok a, s')) : run env r (plan >>= next) s = run env r (next a) s' := by
  rw [run_bind, h]

theorem run_onlyResult {plan : Plan Expr} {className output : String} {e : Expr}
    (h : run env r (.onlyResult className output plan) s = (.ok e, s')) :
    run env r plan s = (.ok e, s') := by
  unfold Plan.onlyResult at h
  split at h
  · exact h
  · cases h

end Parts

/-! ### Nodes -/

/-- What becomes of the result of a node: its value stays where it is, or it is moved into
a new variable, or its fault is reported. -/
theorem conclude_cases (env : Environment) (node : NodeId) (role : Role)
    (result : Except Fault Expr) (s : Pass) :
    (∃ e, result = .ok e ∧ (role = .materialRoot ∨ staysInline e = true) ∧
      conclude env node role result s = (.valid e, s)) ∨
    (∃ e, result = .ok e ∧ staysInline e = false ∧ conclude env node role result s =
      (.valid { e with code := localName s.locals },
        { s.emit (.assign (env.types.name e.type) s.locals e.code) with
          locals := s.locals + 1 })) ∨
    ∃ fault, result = .error fault ∧
      conclude env node role result s = (.ofFault fault, s.pushFault node fault) := by
  unfold conclude
  split
  · next e =>
    split
    · next hrole => exact .inl ⟨e, rfl, .inl hrole, rfl⟩
    · cases hin : staysInline e with
      | true =>
        have he : s.hoist env e = (e, s) := if_pos hin
        exact .inl ⟨e, rfl, .inr hin, by rw [he]⟩
      | false => exact .inr (.inl ⟨e, rfl, hin, by simp only [hoist, hin]; rfl⟩)
  · next fault => exact .inr (.inr ⟨fault, rfl, rfl⟩)

theorem pushFault_booked (s : Pass) (node : NodeId) (fault : Fault) :
    Booked s (s.pushFault node fault) := by
  unfold pushFault
  split
  · exact .push s _
  · exact .refl s

theorem conclude_returns (env : Environment) (node : NodeId) (role : Role)
    (result : Except Fault Expr) (s : Pass) :
    Returns s (conclude env node role result s).2 := by
  rcases conclude_cases env node role result s with ⟨e, -, -, h⟩ | ⟨e, -, -, h⟩ | ⟨fault, -, h⟩
  · rw [h]
    exact .refl s
  · rw [h]
    exact emit_returns s _ _
  · rw [h]
    exact (pushFault_booked s node fault).returns

/-- The plan of a node carried out at its site. -/
def carryOut (env : Environment) (r : Resolver) (site : Site) (b : Behavior) (s : Pass) :
    Except Fault Expr × Pass :=
  run env r (b.plan (frame env site) site.output) (s.enter site)

/-- The outcome of the plan, at the place where the output was asked for. -/
def outcomeOf (env : Environment) (r : Resolver) (site : Site) (b : Behavior) (s : Pass) :
    Outcome × Pass :=
  conclude env site.node b.role (carryOut env r site b s).1
    { (carryOut env r site b s).2 with stack := s.stack, scope := s.scope }

theorem outcomeOf_returns (env : Environment) (r : Resolver) (site : Site) (b : Behavior)
    (s : Pass) :
    Returns { (carryOut env r site b s).2 with stack := s.stack, scope := s.scope }
      (outcomeOf env r site b s).2 :=
  conclude_returns env _ _ _ _

/-- Asking a node carries out its plan and remembers the outcome. -/
theorem ask_eq (env : Environment) (r : Resolver) (site : Site) (b : Behavior) (s : Pass) :
    s.ask env r site b = ((outcomeOf env r site b s).1,
      (outcomeOf env r site b s).2.remember site (.finished (outcomeOf env r site b s).1)) :=
  rfl

theorem progress?_enter (site other : Site) (s : Pass) :
    (s.enter site).progress? other = if site = other then some .started else s.progress? other :=
  progress?_remember s site .started other

/-- Asking a node returns: the site is started and then finished, the others are as
they were. -/
theorem ask_returns (env : Environment) (h : r.Returning) (site : Site) (b : Behavior)
    (hn : s.progress? site = none) : Returns s (s.ask env r site b).2 := by
  have hr : Returns (s.enter site) (carryOut env r site b s).2 := run_returns env h _ _
  have hc := outcomeOf_returns env r site b s
  -- what is known of another site at the start is known at the end
  have hother : ∀ other p, site ≠ other → s.progress? other = some p →
      (s.ask env r site b).2.progress? other = some p := by
    intro other p hne hp
    have he : (s.enter site).progress? other = some p := by
      rw [progress?_enter, if_neg hne]
      exact hp
    rw [ask_eq, progress?_remember, if_neg hne]
    exact hc.progress? (hr.progress? he)
  have hne : ∀ other p, s.progress? other = some p → site ≠ other := by
    rintro other p hp rfl
    rw [hn] at hp
    cases hp
  refine ⟨⟨fun other o ho => hother other _ (hne other _ ho) ho, hr.report.trans hc.report,
    hr.vertex.trans hc.vertex, hr.pixel.trans hc.pixel, hr.tables.trans hc.tables⟩,
    hc.stack, hc.scope,
    hc.stage.trans hr.stage, fun other => ⟨fun hs => ?_, fun hs => ?_⟩⟩
  · rw [ask_eq, progress?_remember] at hs
    split at hs
    · cases hs
    · next hne =>
      have h₁ := (hr.started other).mp ((hc.started other).mp hs)
      rw [progress?_enter, if_neg hne] at h₁
      exact h₁
  · exact hother other _ (hne other _ hs) hs

/-- **Resolving an output returns**, whatever the nodes on the way do: stack, scope
and stage are as before, the same outputs are started, and every outcome that was
known is known. -/
theorem resolve_returns (env : Environment) (room : Nat) :
    Resolver.Returning (resolve env room) := by
  refine resolve_induction (motive := fun _ s x => Returns s x.2) ?_ ?_ ?_ room
  · exact fun ha => ha.returns
  · exact fun ha => ha.returns.trans (push_returns _ _)
  · exact fun ih ha => ha.returns.trans (ask_returns env ih _ _ ha.progress?_eq_none)

end Pass

end MaterialGraph
