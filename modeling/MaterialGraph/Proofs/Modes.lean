import MaterialGraph.Proofs.Lockstep
import MaterialGraph.Proofs.Ownership
import MaterialGraph.Proofs.Sharing

/-!
# The two modes side by side

A switch registers a feature if features are decided when the program is built, and an
attribute if they are decided when it runs. Everything else is done alike in both modes. So
two passes over one document, one in each mode, differ in their tables and statements only,
as long as the attributes of features get the names that they ask for. They report the same.

## Main results

* `Globals.Twin.addParameter`, `Globals.Twin.addToggle` — registration in both modes.
* `Pass.modes_companions` — the passes of both modes keep together.
* `Pass.selection_agrees` — a switch in both modes.
* `Pass.resolve_agrees` — resolving an output in both modes.
* `Compiler.modes_agree` — both modes report the same.
* `Compiler.modes_differ_of_taken_name` — they do not if a feature is called like a parameter.
-/

namespace MaterialGraph

open Text

/-! ### Features and parameters -/

namespace Environment

/-- Some node is a switch with these settings. -/
def HasSwitch (env : Environment) (sw : SwitchSettings) : Prop :=
  ∃ (site : Site) (c : NodeClass) (st : c.Settings), env.Stands site c st ∧ c.switch? st = some sw

/-- Some node declares this parameter for itself. -/
def HasParameter (env : Environment) (r : ParameterSpec) : Prop :=
  ∃ (site : Site) (c : NodeClass) (st : c.Settings),
    env.Stands site c st ∧ c.parameter? st = some r

/-- The name belongs to a feature. -/
def IsFeature (env : Environment) (key : String) : Prop :=
  ∃ sw, env.HasSwitch sw ∧ sw.toggle.identifier = key

/-- No feature is called like a parameter, and features that are called alike are one
feature. -/
structure FeaturesApart (env : Environment) : Prop where
  /-- Features are not called like parameters. -/
  parameters : ∀ r, env.HasParameter r → ¬env.IsFeature r.identifier
  /-- Features that are called alike are one feature. -/
  features : ∀ sw sw', env.HasSwitch sw → env.HasSwitch sw' →
    sw.toggle.identifier = sw'.toggle.identifier →
    Identifier.screaming sw.name = Identifier.screaming sw'.name

end Environment

/-- The settings of a node that is a switch. -/
def Node.switch? (node : Node) : Option SwitchSettings := node.built?.bind fun b => b.1.switch? b.2

/-- The parameter that a saved node declares for itself. -/
def Node.parameter? (node : Node) : Option ParameterSpec :=
  node.built?.bind fun b => b.1.parameter? b.2

/-- Features are apart if they are among the nodes that stand in documents in reach. -/
theorem Environment.featuresApart_of_nodes {env : Environment} (nodes : List Node)
    (hnodes : ∀ d, env.InReach d → d.nodes ⊆ nodes)
    (hparameters : ∀ n ∈ nodes, ∀ n' ∈ nodes, ∀ r ∈ n.parameter?, ∀ sw ∈ n'.switch?,
      sw.toggle.identifier ≠ r.identifier)
    (hfeatures : ∀ n ∈ nodes, ∀ n' ∈ nodes, ∀ sw ∈ n.switch?, ∀ sw' ∈ n'.switch?,
      sw.toggle.identifier = sw'.toggle.identifier →
        Identifier.screaming sw.name = Identifier.screaming sw'.name) : env.FeaturesApart := by
  have hmem {site : Site} {c : NodeClass} {st : c.Settings} (hst : env.Stands site c st) :
      ∃ n ∈ nodes, n.built? = some ⟨c, st⟩ := by
    obtain ⟨node, hn, hbuilt, -⟩ := hst
    obtain ⟨d, hd, hf⟩ := Option.bind_eq_some_iff.mp hn
    exact ⟨node, hnodes d (inReach_of_documentAt hd) (List.mem_of_find?_eq_some hf), hbuilt⟩
  have hswitch {sw : SwitchSettings} (h : env.HasSwitch sw) : ∃ n ∈ nodes, sw ∈ n.switch? := by
    obtain ⟨site, c, st, hst, hsw⟩ := h
    obtain ⟨n, hn, hbuilt⟩ := hmem hst
    exact ⟨n, hn, Option.bind_eq_some_iff.mpr ⟨_, hbuilt, hsw⟩⟩
  refine ⟨?_, ?_⟩
  · rintro r ⟨site, c, st, hst, hr⟩ ⟨sw, hsw, hsame⟩
    obtain ⟨n, hn, hbuilt⟩ := hmem hst
    obtain ⟨n', hn', hsw⟩ := hswitch hsw
    exact hparameters n hn n' hn' r (Option.bind_eq_some_iff.mpr ⟨_, hbuilt, hr⟩) sw hsw hsame
  · intro sw sw' hsw hsw'
    obtain ⟨n, hn, hsw⟩ := hswitch hsw
    obtain ⟨n', hn', hsw'⟩ := hswitch hsw'
    exact hfeatures n hn n' hn' sw hsw sw' hsw'

/-- The owner of a name. -/
def ownerOf? (owners : List (String × NodeId)) (key : String) : Option NodeId :=
  (owners.find? (·.1 == key)).map (·.2)

section Owners

variable (owners : List (String × NodeId)) (key : String) (node : NodeId)

theorem assignOwner_fst : (assignOwner owners key node).1 = (ownerOf? owners key).getD node := by
  unfold assignOwner ownerOf?
  cases owners.find? (·.1 == key) with
  | none => rfl
  | some entry => rfl

/-- A key has its owner once it has been asked for, the other keys are as they were. -/
theorem ownerOf?_assignOwner (other : String) :
    ownerOf? (assignOwner owners key node).2 other =
      if key = other then some ((ownerOf? owners key).getD node) else ownerOf? owners other := by
  unfold assignOwner ownerOf?
  cases hf : owners.find? (·.1 == key) with
  | some entry =>
    dsimp only
    split
    · next heq =>
      rw [← heq, hf]
      rfl
    · rfl
  | none =>
    rw [List.find?_append]
    split
    · next heq =>
      rw [← heq, hf]
      simp
    · next hne => simp [hne]

end Owners

namespace Globals

/-- The parameter with a global. -/
def parameterOf? (g : Globals) (global : String) : Option Parameter :=
  g.parameters.find? (·.global == global)

/-- The attribute of a feature that both its owner and its name know, or none. -/
def Switched (env : Environment) (g : Globals) (sw : SwitchSettings) : Prop :=
  (ownerOf? g.toggles (Identifier.screaming sw.name) = none ∧
    ownerOf? g.parameterNames sw.toggle.identifier = none ∧
    g.parameterOf? (env.types.globalStem .bool ++ sw.toggle.identifier) = none) ∨
  ∃ owner p, ownerOf? g.toggles (Identifier.screaming sw.name) = some owner ∧
    ownerOf? g.parameterNames sw.toggle.identifier = some owner ∧
    g.parameterOf? (env.types.globalStem .bool ++ sw.toggle.identifier) = some p ∧ p.node = owner

/-- The tables `g` of a pass that registers features and `g'` of one that registers
attributes for them. -/
structure Twin (env : Environment) (g g' : Globals) : Prop where
  samplers : g'.samplers = g.samplers
  textures : g'.textures = g.textures
  functions : g'.functions = g.functions
  /-- Names that belong to no feature have the same owners. -/
  owner : ∀ key, ¬env.IsFeature key →
    ownerOf? g'.parameterNames key = ownerOf? g.parameterNames key
  /-- Parameters whose names belong to no feature are the same. -/
  parameter : ∀ type key, ¬env.IsFeature key →
    g'.parameterOf? (env.types.globalStem type ++ key) =
      g.parameterOf? (env.types.globalStem type ++ key)
  /-- Features have their attributes. -/
  switched : ∀ sw, env.HasSwitch sw → g'.Switched env sw

variable {env : Environment} {g g' : Globals}

/-- The rest of the tables does not matter. -/
theorem Twin.of_same {h h' : Globals} (ht : Twin env g g') (hs : h'.samplers = h.samplers)
    (hx : h'.textures = h.textures) (hf : h'.functions = h.functions)
    (hn : h.parameterNames = g.parameterNames) (hn' : h'.parameterNames = g'.parameterNames)
    (hp : h.parameters = g.parameters) (hp' : h'.parameters = g'.parameters)
    (htog : h'.toggles = g'.toggles) : Twin env h h' := by
  refine ⟨hs, hx, hf, ?_, ?_, ?_⟩
  · rw [hn, hn']
    exact ht.owner
  · unfold parameterOf?
    rw [hp, hp']
    exact ht.parameter
  · unfold Switched parameterOf?
    rw [hn', hp', htog]
    exact ht.switched

/-- A new parameter is found under its global. -/
theorem parameterOf?_append {q : Parameter} (hp : g'.parameters = g.parameters ++ [q])
    (global : String) : g'.parameterOf? global =
      (g.parameterOf? global).or (if q.global = global then some q else none) := by
  unfold parameterOf?
  rw [hp, List.find?_append]
  by_cases h : q.global = global
  · simp [h]
  · simp [h]

/-- Registration of a parameter, by what it looks up. -/
theorem addParameter_eq (types : TypeTable) (r : ParameterSpec) (node : NodeId) (g : Globals) :
    g.addParameter types r node =
      match exposureFault? types r with
      | some fault => (.error fault, g)
      | none =>
        if r.identifier.isEmpty then
          (.error (.message ("invalid parameter name \"" ++ r.name ++ "\"")), g)
        else if (ownerOf? g.parameterNames r.identifier).getD node ≠ node then
          (.error (.duplicateName r.name), g.named r node)
        else
          match g.parameterOf? (types.globalStem r.type ++ r.identifier) with
          | some p =>
            if p.node ≠ node then (.error (.duplicateName r.name), g.named r node)
            else (.ok p, g.named r node)
          | none => (.ok (r.parameter types node),
              { g.named r node with parameters := g.parameters ++ [r.parameter types node] }) := by
  rw [← assignOwner_fst]
  rfl

section Registration

variable {r : ParameterSpec} (hkey : ¬env.IsFeature r.identifier)
include hkey

theorem Twin.named (h : Twin env g g') (node : NodeId) :
    Twin env (g.named r node) (g'.named r node) := by
  refine ⟨h.samplers, h.textures, h.functions, fun key hk => ?_, h.parameter, fun sw hsw => ?_⟩
  · unfold Globals.named
    rw [ownerOf?_assignOwner, ownerOf?_assignOwner, h.owner key hk, h.owner _ hkey]
  · have hne : r.identifier ≠ sw.toggle.identifier := fun heq => hkey ⟨sw, hsw, heq.symm⟩
    have hsame : ownerOf? (g'.named r node).parameterNames sw.toggle.identifier =
        ownerOf? g'.parameterNames sw.toggle.identifier := by
      unfold Globals.named
      rw [ownerOf?_assignOwner, if_neg hne]
    unfold Switched
    rw [hsame]
    exact h.switched sw hsw

theorem Twin.append (htypes : env.types = .builtin) (h : Twin env g g') (node : NodeId) :
    Twin env { g with parameters := g.parameters ++ [r.parameter env.types node] }
      { g' with parameters := g'.parameters ++ [r.parameter env.types node] } := by
  refine ⟨h.samplers, h.textures, h.functions, h.owner, fun type key hk => ?_, fun sw hsw => ?_⟩
  · refine ((parameterOf?_append (g := g') rfl _).trans ?_).trans
      (parameterOf?_append (g := g) rfl _).symm
    rw [h.parameter type key hk]
  · have hne : (r.parameter env.types node).global ≠
        env.types.globalStem .bool ++ sw.toggle.identifier := by
      intro heq
      have heq : env.types.globalStem r.type ++ r.identifier =
        env.types.globalStem .bool ++ sw.toggle.identifier := heq
      rw [htypes] at heq
      exact hkey ⟨sw, hsw, (TypeTable.globalStem_injective heq).2.symm⟩
    unfold Switched
    rw [parameterOf?_append (g := g') rfl, if_neg hne, Option.or_none]
    exact h.switched sw hsw

/-- A parameter whose name belongs to no feature is registered in both modes alike. -/
theorem Twin.addParameter (htypes : env.types = .builtin) (h : Twin env g g') (node : NodeId) :
    (g'.addParameter env.types r node).1 = (g.addParameter env.types r node).1 ∧
      Twin env (g.addParameter env.types r node).2 (g'.addParameter env.types r node).2 := by
  have hnamed := h.named hkey node
  rw [addParameter_eq, addParameter_eq, h.owner _ hkey, h.parameter _ _ hkey]
  cases exposureFault? env.types r with
  | some fault => exact ⟨rfl, h⟩
  | none =>
    by_cases hempty : r.identifier.isEmpty = true
    · rw [if_pos hempty, if_pos hempty]
      exact ⟨rfl, h⟩
    · rw [if_neg hempty, if_neg hempty]
      by_cases howner : (ownerOf? g.parameterNames r.identifier).getD node ≠ node
      · rw [if_pos howner, if_pos howner]
        exact ⟨rfl, hnamed⟩
      · rw [if_neg howner, if_neg howner]
        cases g.parameterOf? (env.types.globalStem r.type ++ r.identifier) with
        | none => exact ⟨rfl, hnamed.append hkey htypes node⟩
        | some p =>
          dsimp only
          by_cases hnode : p.node ≠ node
          · rw [if_pos hnode, if_pos hnode]
            exact ⟨rfl, hnamed⟩
          · rw [if_neg hnode, if_neg hnode]
            exact ⟨rfl, hnamed⟩

end Registration

/-- The tables once a switch has asked for the attribute of its feature. -/
def toggled (g : Globals) (sw : SwitchSettings) (node : NodeId) : Globals :=
  { g with toggles := (assignOwner g.toggles (Identifier.screaming sw.name) node).2 }

/-- Registration of the attribute of a feature, for the owner of the feature. -/
def addToggle (types : TypeTable) (sw : SwitchSettings) (node : NodeId) (g : Globals) :
    Except Fault Parameter × Globals :=
  (g.toggled sw node).addParameter types sw.toggle
    ((ownerOf? g.toggles (Identifier.screaming sw.name)).getD node)

/-- Tables that differ by the attribute of one feature. -/
theorem Twin.of_switched (hapart : env.FeaturesApart) (htypes : env.types = .builtin)
    (h : Twin env g g') {sw : SwitchSettings} (hsw : env.HasSwitch sw) {h' : Globals}
    {owner : NodeId} {q : Parameter} (hs : h'.samplers = g'.samplers)
    (hx : h'.textures = g'.textures) (hf : h'.functions = g'.functions)
    (ht : ∀ key, ownerOf? h'.toggles key =
      if Identifier.screaming sw.name = key then some owner else ownerOf? g'.toggles key)
    (hn : ∀ key, ownerOf? h'.parameterNames key =
      if sw.toggle.identifier = key then some owner else ownerOf? g'.parameterNames key)
    (hp : ∀ global, h'.parameterOf? global =
      if env.types.globalStem .bool ++ sw.toggle.identifier = global then some q
      else g'.parameterOf? global)
    (hq : q.node = owner) : Twin env g h' := by
  -- globals of other names are other globals
  have hglobal {type : ShaderType} {key : String} (hne : sw.toggle.identifier ≠ key) :
      env.types.globalStem .bool ++ sw.toggle.identifier ≠ env.types.globalStem type ++ key := by
    rw [htypes]
    exact fun heq => hne (TypeTable.globalStem_injective heq).2
  have hkey {key : String} (hk : ¬env.IsFeature key) : sw.toggle.identifier ≠ key :=
    fun heq => hk ⟨sw, hsw, heq⟩
  refine ⟨hs.trans h.samplers, hx.trans h.textures, hf.trans h.functions, fun key hk => ?_,
    fun type key hk => ?_, fun sw' hsw' => ?_⟩
  · rw [hn, if_neg (hkey hk)]
    exact h.owner key hk
  · rw [hp, if_neg (hglobal (hkey hk))]
    exact h.parameter type key hk
  · by_cases hsame : sw.toggle.identifier = sw'.toggle.identifier
    · refine .inr ⟨owner, q, ?_, ?_, ?_, hq⟩
      · rw [ht, if_pos (hapart.features sw sw' hsw hsw' hsame)]
      · rw [hn, if_pos hsame]
      · rw [hp, hsame, if_pos rfl]
    · have hscream : Identifier.screaming sw.name ≠ Identifier.screaming sw'.name :=
        fun heq => hsame (Identifier.ofText_eq_of_screaming_eq heq)
      unfold Switched
      rw [ht, if_neg hscream, hn, if_neg hsame, hp, if_neg (hglobal hsame)]
      exact h.switched sw' hsw'

/-- The attribute of a feature can be registered: it is new, or there already. -/
theorem Twin.addToggle (hapart : env.FeaturesApart) (htypes : env.types = .builtin)
    (h : Twin env g g') {sw : SwitchSettings} (hsw : env.HasSwitch sw)
    (hname : sw.toggle.identifier.isEmpty = false) (node : NodeId) :
    (∃ q, (g'.addToggle env.types sw node).1 = .ok q) ∧
      Twin env g (g'.addToggle env.types sw node).2 := by
  have hexposed : exposureFault? env.types sw.toggle = none := by
    rw [htypes]
    exact Pass.exposureFault?_toggle sw
  unfold Globals.addToggle
  rw [addParameter_eq, hexposed]
  rw [hname, if_neg (by decide)]
  have htoggles (key : String) := ownerOf?_assignOwner g'.toggles (Identifier.screaming sw.name)
    node key
  rcases h.switched sw hsw with ⟨ht, hn, hp⟩ | ⟨owner, q, ht, hn, hp, hq⟩
  · -- the first switch of the feature
    have hnames (key : String) := ownerOf?_assignOwner g'.parameterNames sw.toggle.identifier
      node key
    rw [ht, Option.getD_none] at htoggles ⊢
    rw [hn, Option.getD_none] at hnames
    have hn' : ownerOf? (g'.toggled sw node).parameterNames sw.toggle.identifier = none := hn
    have hp' : (g'.toggled sw node).parameterOf?
        (env.types.globalStem sw.toggle.type ++ sw.toggle.identifier) = none := hp
    rw [hn', Option.getD_none, if_neg (not_not_intro rfl), hp']
    refine ⟨⟨_, rfl⟩, h.of_switched hapart htypes hsw rfl rfl rfl htoggles hnames
      (q := sw.toggle.parameter env.types node) (fun global => ?_) rfl⟩
    refine (parameterOf?_append (g := g') rfl global).trans ?_
    by_cases heq : env.types.globalStem .bool ++ sw.toggle.identifier = global
    · rw [if_pos heq, ← heq, hp]
      exact if_pos rfl
    · have hother : (if (sw.toggle.parameter env.types node).global = global
          then some (sw.toggle.parameter env.types node) else none) = none := if_neg heq
      rw [if_neg heq, hother, Option.or_none]
  · have hnames (key : String) := ownerOf?_assignOwner g'.parameterNames sw.toggle.identifier
      owner key
    rw [ht, Option.getD_some] at htoggles ⊢
    rw [hn, Option.getD_some] at hnames
    have hn' : ownerOf? (g'.toggled sw node).parameterNames sw.toggle.identifier = some owner := hn
    have hp' : (g'.toggled sw node).parameterOf?
        (env.types.globalStem sw.toggle.type ++ sw.toggle.identifier) = some q := hp
    rw [hn', Option.getD_some, if_neg (not_not_intro rfl), hp']
    dsimp only
    rw [if_neg (not_not_intro hq)]
    refine ⟨⟨_, rfl⟩, h.of_switched hapart htypes hsw rfl rfl rfl htoggles hnames
      (fun global => ?_) hq⟩
    show g'.parameterOf? global = _
    split
    · next heq => rw [← heq, hp]
    · rfl

theorem Twin.addFunction (h : Twin env g g') (source : String) :
    (g'.addFunction source).1 = (g.addFunction source).1 ∧
      Twin env (g.addFunction source).2 (g'.addFunction source).2 := by
  unfold Globals.addFunction
  dsimp only
  rw [h.functions]
  cases declaredName? (String.ofList (trim source.toList)) with
  | none => exact ⟨rfl, h⟩
  | some name =>
    dsimp only
    cases g.functions.find? (·.name == name) with
    | none => exact ⟨rfl, h.of_same h.samplers h.textures rfl rfl rfl rfl rfl rfl⟩
    | some f =>
      dsimp only
      by_cases hbody : f.body = String.ofList (trim source.toList)
      · rw [if_pos hbody, if_pos hbody]
        exact ⟨rfl, h⟩
      · rw [if_neg hbody, if_neg hbody]
        exact ⟨rfl, h⟩

theorem Twin.addSampler (h : Twin env g g') (types : TypeTable) (state : SamplerState) :
    (g'.addSampler types state).1 = (g.addSampler types state).1 ∧
      Twin env (g.addSampler types state).2 (g'.addSampler types state).2 := by
  unfold Globals.addSampler
  rw [h.samplers]
  cases g.samplers.find? (·.state == state) with
  | none => exact ⟨rfl, h.of_same rfl h.textures h.functions rfl rfl rfl rfl rfl⟩
  | some x => exact ⟨rfl, h⟩

theorem Twin.addTexture (h : Twin env g g') (types : TypeTable) (spec : TextureSpec)
    (name : String) (fallback : Vec4) (node : NodeId) :
    (g'.addTexture types spec name fallback node).1 =
        (g.addTexture types spec name fallback node).1 ∧
      Twin env (g.addTexture types spec name fallback node).2
        (g'.addTexture types spec name fallback node).2 := by
  unfold Globals.addTexture
  rw [h.textures]
  cases g.textures.find? (·.spec == spec) with
  | some x => exact ⟨rfl, h⟩
  | none =>
    dsimp only
    generalize (if (Identifier.ofText name).isEmpty = true
      then "Texture" ++ toString g.textures.length else Identifier.ofText name) = word
    by_cases htaken : (g.textures.any (·.global == types.globalStem spec.type ++ word)) = true
    · rw [if_pos htaken, if_pos htaken]
      exact ⟨rfl, h⟩
    · rw [if_neg htaken, if_neg htaken]
      exact ⟨rfl, h.of_same h.samplers rfl h.functions rfl rfl rfl rfl rfl⟩

theorem Twin.updateTexture (h : Twin env g g') (x : Texture) :
    Twin env (g.updateTexture x) (g'.updateTexture x) := by
  refine h.of_same h.samplers ?_ h.functions rfl rfl rfl rfl rfl
  unfold Globals.updateTexture
  rw [h.textures]

/-- A feature that is registered in one mode only. -/
theorem Twin.addFeature (h : Twin env g g') (name group : String) :
    Twin env (g.addFeature name group).2 g' := by
  have hdeclare (g : Globals) (h : Twin env g g') (text : String) :
      Twin env (g.declare text).2 g' := by
    unfold declare
    split
    · exact h
    · exact h.of_same h.samplers h.textures h.functions rfl rfl rfl rfl rfl
  unfold Globals.addFeature
  dsimp only
  split
  · exact h
  · split
    · exact hdeclare _ h _
    · refine hdeclare _ ?_ _
      exact h.of_same h.samplers h.textures h.functions rfl rfl rfl rfl rfl

end Globals

namespace Pass

variable {env : Environment} {s t : Pass}

/-! ### Passes -/

/-- The environment in which features are decided when the program runs. -/
def running (env : Environment) : Environment := { env with mode := .preview }

/-- One document, in both modes. -/
def modes (env : Environment) : Mirror := .verbatim env (running env) (fun b b' => b' = b) id

/-- The pass with other tables and statements. -/
def retold (s : Pass) (globals : Globals) (vertex pixel : List Statement) : Pass :=
  { s with globals, vertex, pixel }

/-- The pass `s` that registers features and the pass `t` that registers attributes for
them: they differ in tables and statements only. -/
structure Twin (env : Environment) (s t : Pass) : Prop where
  beside : (modes env).Beside s t
  same : t = (s.reset t.instances t.scopes t.report t.metadata).retold t.globals t.vertex t.pixel
  faithful : Faithful env s
  globals : s.globals.Twin env t.globals

/-- The same result, in passes that belong together. -/
abbrev Agrees {α : Type} (env : Environment) : α × Pass → α × Pass → Prop := Mirror.Agree (Twin env)

/-- Resolvers that give the same results. -/
abbrev Resolver.Agree (env : Environment) : Resolver → Resolver → Prop :=
  (modes env).Resolvers (Twin env)

theorem Twin.agrees {α : Type} (h : Twin env s t) (a : α) : Agrees env (a, s) (a, t) := ⟨rfl, h⟩

theorem Twin.shape (h : Twin env s t) :
    ∃ i c r m g v p, t = (s.reset i c r m).retold g v p := ⟨_, _, _, _, _, _, _, h.same⟩

/-- A step that makes documents ready in both passes. -/
theorem Twin.prepared {s' t' : Pass} (h : Twin env s t) (hs : Prepared s s') (ht : Prepared t t')
    (hb : (modes env).Beside s' t') (hf : Faithful env s') : Twin env s' t' := by
  obtain ⟨i, c, r, m, g, v, p, rfl⟩ := h.shape
  obtain ⟨i₁, c₁, r₁, m₁, -, rfl⟩ := hs
  obtain ⟨i₂, c₂, r₂, m₂, -, rfl⟩ := ht
  exact ⟨hb, rfl, hf, h.globals⟩

theorem Twin.push (h : Twin env s t) (d : Diagnostic) : Twin env (s.push d) (t.push d) :=
  h.prepared (.push s d) (.push t d) (h.beside.push d) (h.faithful.of_same rfl rfl)

/-- Other tables that belong together, and other statements. -/
theorem Twin.retold (h : Twin env s t) {g g' : Globals} (hg : g.Twin env g')
    (v p v' p' : List Statement) : Twin env (s.retold g v p) (t.retold g' v' p') := by
  obtain ⟨⟨hr, hm⟩, hi, hc⟩ := h.beside
  refine ⟨⟨⟨hr, hm⟩, hi, hc⟩, ?_, h.faithful.of_same rfl rfl, hg⟩
  rw [h.same]
  rfl

/-- A step that has nothing to do with documents, remarks, tables and statements. -/
theorem Twin.map (h : Twin env s t) (f : Pass → Pass)
    (hf : ∀ s i c r m g v p, f ((s.reset i c r m).retold g v p) =
      ((f s).reset i c r m).retold g v p) : Twin env (f s) (f t) := by
  obtain ⟨i, c, r, m, g, v, p, rfl⟩ := h.shape
  obtain ⟨⟨hr, hm⟩, hi, hc⟩ := h.beside
  have hs : f s = ((f s).reset s.instances s.scopes s.report s.metadata).retold s.globals s.vertex
    s.pixel := hf s _ _ _ _ _ _ _
  rw [hf]
  generalize f s = s' at hs ⊢
  rw [hs]
  exact ⟨⟨⟨hr, hm⟩, hi, hc⟩, rfl, h.faithful.of_same rfl rfl, h.globals⟩

/-! The place does not matter. -/

theorem Twin.inScope (h : Twin env s t) (scope : Scope) :
    Twin env { s with scope } { t with scope } :=
  h.map (fun s => { s with scope }) fun _ _ _ _ _ _ _ _ => rfl

theorem Twin.onStack (h : Twin env s t) (stack : List Site) :
    Twin env { s with stack } { t with stack } :=
  h.map (fun s => { s with stack }) fun _ _ _ _ _ _ _ _ => rfl

theorem Twin.inStage (h : Twin env s t) (stage : Stage) :
    Twin env { s with stage } { t with stage } :=
  h.map (fun s => { s with stage }) fun _ _ _ _ _ _ _ _ => rfl

theorem Twin.remember (h : Twin env s t) (site : Site) (p : Progress) :
    Twin env (s.remember site p) (t.remember site p) :=
  h.map (fun s => s.remember site p) fun _ _ _ _ _ _ _ _ => rfl

theorem Twin.tables (h : Twin env s t) {g g' : Globals} (hg : g.Twin env g') :
    Twin env { s with globals := g } { t with globals := g' } :=
  h.retold hg s.vertex s.pixel t.vertex t.pixel

/-- Statements do not matter, as long as both passes declare one variable more. -/
theorem Twin.emit (h : Twin env s t) (x y : Statement) :
    Twin env { s.emit x with locals := s.locals + 1 } { t.emit y with locals := t.locals + 1 } := by
  obtain ⟨v, p, hx⟩ := s.emit_eq x
  obtain ⟨v', p', hy⟩ := t.emit_eq y
  rw [hx, hy]
  exact (h.retold h.globals v p v' p').map (fun s => { s with locals := s.locals + 1 })
    fun _ _ _ _ _ _ _ _ => rfl

/-- Both passes begin alike. -/
theorem Twin.of_fresh (h : Fresh s) : Twin env s s := by
  have hf : Faithful env s := h.faithful
  obtain ⟨ds, rfl⟩ := h
  exact ⟨⟨⟨rfl, rfl⟩, .nil, .nil⟩, rfl, hf, rfl, rfl, rfl, fun _ _ => rfl, fun _ _ _ => rfl,
    fun _ _ => .inl ⟨rfl, rfl, rfl⟩⟩

/-- **The passes of both modes keep together.** -/
theorem modes_companions (env : Environment) : (modes env).Companions (Twin env) := by
  have hmakes (d : Document) : (modes env).Makes d d :=
    .refl (fun _ => trivial) rfl (fun _ _ h => h) fun _ _ _ _ => rfl
  have hlib (path : String) :
      Option.Rel (modes env).Makes (env.library path) (env.library path) := by
    cases env.library path with
    | none => exact .none
    | some d => exact .some (hmakes d)
  exact {
    types := rfl
    same := fun h => h
    wires := fun _ entry _ _ => ⟨trivial, fun _ _ => trivial⟩
    stack := fun h => by rw [h.same]; rfl
    scope := fun h => by rw [h.same]; rfl
    stage := fun h => by rw [h.same]; rfl
    memo := fun h => by rw [h.same]; rfl
    named := fun _ => ⟨fun _ _ => trivial, fun _ _ => ⟨trivial, fun _ _ => trivial⟩⟩
    fresh := Twin.of_fresh
    push := Twin.push
    inScope := fun h scope _ => h.inScope scope
    inStage := Twin.inStage
    remember := Twin.remember
    root := fun {s t} h => by
      obtain ⟨hg, hb⟩ := Mirror.root_beside (M := modes env) (hmakes _) h.beside
      exact ⟨hg, h.prepared (root_prepared _ s) (root_prepared _ t) hb
        (root_faithful h.faithful).2.1⟩
    follow := fun {s t} h scope hscope => by
      obtain ⟨hg, hb⟩ := Mirror.follow_beside (M := modes env) (hmakes _) hlib scope hscope h.beside
      exact ⟨hg, h.prepared (follow_prepared _ scope s) (follow_prepared _ scope t) hb
        (follow_faithful scope h.faithful).1⟩ }

end Pass

/-- Requests that have nothing to do with features. -/
def Command.ModeFree : Command → Prop
  | .feature _ _ => False
  | .toggle _ _ => False
  | .select _ _ _ _ => False
  | _ => True

/-- A node that is no switch has nothing to do with features. -/
theorem NodeClass.MayAsk.modeFree {types : TypeTable} {mode : Mode} {c : NodeClass}
    {st : c.Settings} (hsw : c.switch? st = none) {cmd : Command}
    (h : c.MayAsk types mode st cmd) : cmd.ModeFree := by
  cases cmd with
  | feature name group =>
    obtain ⟨-, sw, hx, -⟩ := h
    cases hsw.symm.trans hx
  | toggle name initial =>
    obtain ⟨-, sw, hx, -⟩ := h
    cases hsw.symm.trans hx
  | select feature type on off =>
    obtain ⟨-, sw, hx⟩ := h
    cases hsw.symm.trans hx
  | _ => trivial

namespace Plan

variable {α β γ : Type}

theorem bind_assoc (plan : Plan α) (k : α → Plan β) (l : β → Plan γ) :
    (plan >>= k) >>= l = plan >>= fun a => k a >>= l := by
  induction plan with
  | done a => rfl
  | fail fault => rfl
  | ask cmd next ih => exact congrArg (Plan.ask cmd) (funext fun reply => ih reply)

end Plan

namespace SwitchSettings

/-- The values that a switch selects from. -/
def operands (s : SwitchSettings) (types : TypeTable) : Plan (Expr × Expr) := do
  let on ← .orDefault types "on_true" s.onTrue (.float zero)
  let off ← .orDefault types "on_false" s.onFalse (.float zero)
  return (on, off)

/-- The selection by the feature, or by the attribute that stands for it. -/
def selection (s : SwitchSettings) (mode : Mode) (x : ShaderType × Expr × Expr) : Plan Expr :=
  match mode with
  | .preview => do
    let toggle ← Plan.ofExcept (← Plan.request (.toggle s.name s.previewValue))
    return { type := x.1
             code := toggle.code ++ " ? " ++ x.2.1.operand ++ " : " ++ x.2.2.operand }
  | .final => do
    let feature ← Plan.ofExcept (← Plan.request (.feature s.name s.group))
    Plan.request (.select feature x.1 x.2.1 x.2.2)

theorem plan_eq (s : SwitchSettings) (frame : Frame) (output : String) :
    SwitchSettings.spec.plan s frame output = .onlyResult "StaticSwitch" output
      (s.operands frame.types >>= fun x =>
        Plan.ofExcept (selectOperands frame.types x.1 x.2) >>= s.selection frame.mode) := by
  unfold operands
  simp only [Plan.bind_assoc]
  cases hmode : frame.mode with
  | preview | final =>
    unfold SwitchSettings.spec
    dsimp only
    rw [hmode]
    rfl

/-- To read its operands, a switch needs no feature. -/
theorem operands_confined (s : SwitchSettings) (types : TypeTable) (mode : Mode) :
    (s.operands types).Confined fun cmd =>
      NodeClass.staticSwitch.MayAsk types mode s cmd ∧ cmd.ModeFree := by
  have hB := Bond.alike_lawful
    (fun cmd => NodeClass.staticSwitch.MayAsk types mode s cmd ∧ cmd.ModeFree) types
  have hm (input : String) : NodeClass.staticSwitch.MayAsk types mode s (.reportMissing input) ∧
      (Command.reportMissing input).ModeFree := ⟨trivial, trivial⟩
  have hplan : (s.operands types).Linked (.alike fun cmd =>
      NodeClass.staticSwitch.MayAsk types mode s cmd ∧ cmd.ModeFree) noSelection
      (fun _ _ => True) (s.operands types) := by
    refine (Plan.linked_orDefault hB ⟨rfl, .head _, trivial⟩ (hm _) _).bind fun _ _ _ => ?_
    refine (Plan.linked_orDefault hB ⟨rfl, .tail _ (.head _), trivial⟩ (hm _) _).bind
      fun _ _ _ => ?_
    exact .done trivial
  exact hplan.parallel.confined

end SwitchSettings

namespace Pass

variable {env : Environment} {s t : Pass}

/-! ### Requests in both modes -/

variable {r r' : Resolver} {site : Site} {c : NodeClass} {st : c.Settings}

theorem bindTexture_agrees (h : Twin env s t) (spec : TextureSpec) (name : String)
    (fallback : Vec4) : Agrees env (s.bindTexture env spec name fallback)
      (t.bindTexture (running env) spec name fallback) := by
  have hcurrent := (modes_companions env).currentNode h
  obtain ⟨hx, hg⟩ := h.globals.addTexture env.types spec name fallback s.currentNode
  have htypes : (running env).types = env.types := rfl
  have htextures : (running env).textures = env.textures := rfl
  unfold bindTexture
  dsimp only
  rw [hcurrent, htypes, htextures]
  rcases ha : s.globals.addTexture env.types spec name fallback s.currentNode with ⟨x, g⟩
  rcases hb : t.globals.addTexture env.types spec name fallback s.currentNode with ⟨y, g'⟩
  rw [ha, hb] at hx hg
  dsimp only at hx hg
  subst hx
  rcases y with fault | ⟨texture, isNew⟩
  · exact ⟨rfl, h.tables hg⟩
  · have hnew {g g' : Globals} (hg : g.Twin env g') :
        Twin env { s with globals := g, compiled := s.compiled ++ [spec] }
          { t with globals := g', compiled := t.compiled ++ [spec] } :=
      (h.tables hg).map (fun s => { s with compiled := s.compiled ++ [spec] })
        fun _ _ _ _ _ _ _ _ => rfl
    dsimp only
    split
    · cases env.textures spec with
      | some asset => exact ⟨rfl, hnew (hg.updateTexture _)⟩
      | none => exact ⟨rfl, (hnew (hg.updateTexture _)).push _⟩
    · exact ⟨rfl, h.tables hg⟩

/-- A request that has nothing to do with features is answered in both modes alike. -/
theorem perform_agrees (hapart : env.FeaturesApart) (htypes : env.types = .builtin)
    (hr : Resolver.Agree env r r') (hst : env.Stands site c st) {cmd : Command}
    (hask : c.MayAsk env.types env.mode st cmd) (hplain : cmd.ModeFree) (h : Twin env s t) :
    Agrees env (s.perform env r cmd) (t.perform (running env) r' cmd) := by
  have hcurrent := (modes_companions env).currentNode h
  cases cmd with
  | read input wire =>
    exact (modes_companions env).readWire hr h input fun _ => ⟨trivial, fun _ _ => trivial⟩
  | own output => exact (modes_companions env).readOwn hr h output
  | call output => exact (modes_companions env).callOutput hr h output
  | argument name => exact (modes_companions env).readArgument hr h name
  | parameter spec =>
    -- the parameter is not called like a feature, of which only one side has the attribute
    have hkey := hapart.parameters spec ⟨site, c, st, hst, hask⟩
    obtain ⟨hx, hg⟩ := h.globals.addParameter hkey htypes s.currentNode
    show Agrees env (s.bindParameter env spec s.currentNode)
      (t.bindParameter (running env) spec t.currentNode)
    rw [hcurrent, bindParameter_eq, bindParameter_eq]
    exact ⟨congrArg (Except.map Parameter.expr) hx, h.tables hg⟩
  | declare text => exact hask.elim
  | function source =>
    obtain ⟨hx, hg⟩ := h.globals.addFunction source
    rw [perform_function, perform_function, hx]
    exact (h.tables hg).agrees _
  | texture spec name fallback => exact bindTexture_agrees h spec name fallback
  | sampler state =>
    obtain ⟨hx, hg⟩ := h.globals.addSampler env.types state
    rw [perform_sampler, perform_sampler]
    exact ⟨congrArg Sampler.expr hx, h.tables hg⟩
  | feature name group => exact hplain.elim
  | toggle name initial => exact hplain.elim
  | select feature type on off => exact hplain.elim
  | warn message => exact hask.elim
  | reportMissing input =>
    refine ⟨rfl, ?_⟩
    show Twin env (s.push (.error .missingInput s.currentNode _))
      (t.push (.error .missingInput t.currentNode _))
    rw [hcurrent]
    exact h.push _
  | note remark => exact hask.elim

/-- A plan whose requests have nothing to do with features. -/
theorem run_agrees (hapart : env.FeaturesApart) (htypes : env.types = .builtin)
    (hr : Resolver.Agree env r r') (hst : env.Stands site c st) {α : Type} (plan : Plan α) :
    ∀ s t : Pass, plan.Confined (fun cmd => c.MayAsk env.types env.mode st cmd ∧ cmd.ModeFree) →
      Twin env s t → Agrees env (run env r plan s) (run (running env) r' plan t) := by
  induction plan with
  | done a => exact fun s t _ h => ⟨rfl, h⟩
  | fail fault => exact fun s t _ h => ⟨rfl, h⟩
  | ask cmd next ih =>
    intro s t hplan h
    obtain ⟨⟨hask, hplain⟩, hnext⟩ := hplan
    obtain ⟨hreply, hs⟩ := perform_agrees hapart htypes hr hst hask hplain h
    rw [run_ask, run_ask]
    rw [hreply]
    exact ih _ _ _ (hnext _) hs

/-! ### Switches in both modes -/

/-- The outcome of a plan, at the place where the output was asked for. -/
def settle (env : Environment) (node : NodeId) (role : Role) (stack : List Site) (scope : Scope)
    (x : Except Fault Expr × Pass) : Outcome × Pass :=
  conclude env node role x.1 { x.2 with stack, scope }

theorem outcomeOf_eq (env : Environment) (r : Resolver) (site : Site) (b : Behavior) (s : Pass) :
    outcomeOf env r site b s =
      settle env site.node b.role s.stack s.scope (carryOut env r site b s) :=
  rfl

theorem settle_agrees {x y : Except Fault Expr × Pass} (h : Agrees env x y) (node : NodeId)
    (role : Role) (stack : List Site) (scope : Scope) :
    Agrees env (settle env node role stack scope x)
      (settle (running env) node role stack scope y) := by
  obtain ⟨result, s, t, rfl, rfl, hs⟩ := h.split
  have hlocals : t.locals = s.locals := by rw [hs.same]; rfl
  have hback := (hs.onStack stack).inScope scope
  unfold settle conclude
  cases result with
  | error fault => exact ⟨rfl, (modes_companions env).pushFault hback node fault⟩
  | ok e =>
    dsimp only
    by_cases hrole : role = .materialRoot
    · rw [if_pos hrole, if_pos hrole]
      exact ⟨rfl, hback⟩
    · rw [if_neg hrole, if_neg hrole]
      unfold hoist
      by_cases hstays : staysInline e = true
      · rw [if_pos hstays, if_pos hstays]
        exact ⟨rfl, hback⟩
      · rw [if_neg hstays, if_neg hstays]
        refine ⟨?_, hback.emit _ _⟩
        rw [hlocals]

/-- A selection is no reference. -/
theorem staysInline_ternary {type : ShaderType} (htype : type.isNumeric = true) (a b c : String) :
    staysInline { type, code := a ++ " ? " ++ b ++ " : " ++ c } = false := by
  obtain ⟨hobject, hany⟩ := ShaderType.storable_of_isNumeric htype
  have hblank : ' ' ∈ (a ++ " ? " ++ b ++ " : " ++ c).toList := by simp
  have href : isReference (a ++ " ? " ++ b ++ " : " ++ c) = false := by
    rw [← Bool.not_eq_true]
    intro hr
    unfold isReference at hr
    split at hr
    · cases hr
    · next d ds hcode =>
      rw [Bool.and_eq_true, List.all_eq_true, ← hcode] at hr
      exact absurd (hr.2 ' ' hblank) (by decide)
  unfold staysInline
  rw [href, hobject]
  simpa using hany

theorem addFeature_ok {name : String} (hname : (Identifier.screaming name).isEmpty = false)
    (g : Globals) (group : String) : ∃ f, (g.addFeature name group).1 = .ok f := by
  unfold Globals.addFeature
  dsimp only
  rw [hname, if_neg (by decide)]
  split
  · exact ⟨_, rfl⟩
  · exact ⟨_, rfl⟩

theorem bindToggle_eq {sw : SwitchSettings}
    (hname : (Identifier.screaming sw.name).isEmpty = false) (env : Environment) (s : Pass) :
    s.bindToggle env sw.name sw.previewValue =
      ((s.globals.addToggle env.types sw s.currentNode).1.map Parameter.expr,
        { s with globals := (s.globals.addToggle env.types sw s.currentNode).2 }) := by
  unfold bindToggle Globals.addToggle
  dsimp only
  rw [← assignOwner_fst, hname, if_neg (by decide)]
  rfl

/-- The place may be left before or after the variable is declared. -/
theorem Twin.emit_at (h : Twin env s t) (x y : Statement) (stack : List Site) (scope : Scope) :
    Twin env { s.emit x with locals := s.locals + 1, stack, scope }
      { Pass.emit { t with stack, scope } y with locals := t.locals + 1 } := by
  have hmove : Pass.emit { t with stack, scope } y = { t.emit y with stack, scope } := by
    unfold Pass.emit
    cases t.stage with
    | vertex => rfl
    | pixel => rfl
  rw [hmove]
  exact ((h.emit x y).onStack stack).inScope scope

section Selection

variable {sw : SwitchSettings} {x : ShaderType × Expr × Expr}

theorem run_selection_final {f : Feature}
    (hf : (s.globals.addFeature sw.name sw.group).1 = .ok f) :
    run env r (sw.selection .final x) s =
      (.ok { type := x.1, code := localName s.locals },
        { emit { s with globals := (s.globals.addFeature sw.name sw.group).2 }
            (.select (env.types.name x.1) s.locals f.combo x.2.1.code x.2.2.code) with
          locals := s.locals + 1 }) := by
  unfold SwitchSettings.selection
  rw [run_bind, run_request, perform_feature, hf]
  dsimp only
  rw [run_bind, run_ofExcept]
  dsimp only
  rw [run_request, perform_select]

theorem run_selection_preview {q : Parameter}
    (hname : (Identifier.screaming sw.name).isEmpty = false)
    (hq : (s.globals.addToggle env.types sw s.currentNode).1 = .ok q) :
    run env r (sw.selection .preview x) s =
      (.ok { type := x.1
             code := q.expr.code ++ " ? " ++ x.2.1.operand ++ " : " ++ x.2.2.operand },
        { s with globals := (s.globals.addToggle env.types sw s.currentNode).2 }) := by
  have hperform : s.perform env r (.toggle sw.name sw.previewValue) = _ :=
    bindToggle_eq hname env s
  unfold SwitchSettings.selection
  rw [run_bind, run_request, hperform, hq]
  dsimp only
  rw [run_bind, run_ofExcept]
  rfl

/-- A variable that the feature selects in one mode is a variable in the other mode, with the
value that the attribute selects. -/
theorem selection_agrees (r r' : Resolver) (hapart : env.FeaturesApart)
    (htypes : env.types = .builtin) (hsw : env.HasSwitch sw)
    (hname : sw.toggle.identifier.isEmpty = false) (htype : x.1.isNumeric = true)
    (h : Twin env s t) (node : NodeId) {role : Role}
    (hrole : role ≠ .materialRoot) (stack : List Site) (scope : Scope) :
    Agrees env (settle env node role stack scope (run env r (sw.selection .final x) s))
      (settle (running env) node role stack scope
        (run (running env) r' (sw.selection .preview x) t)) := by
  have hlocals : t.locals = s.locals := by rw [h.same]; rfl
  have hscream : (Identifier.screaming sw.name).isEmpty = false := by
    rw [← Bool.not_eq_true]
    intro hempty
    have hnone : Identifier.screaming sw.name = Identifier.screaming "" :=
      String.isEmpty_iff.mp hempty
    have hname : (Identifier.ofText sw.name).isEmpty = false := hname
    rw [Identifier.ofText_eq_of_screaming_eq hnone] at hname
    cases hname
  obtain ⟨f, hf⟩ := addFeature_ok hscream s.globals sw.group
  obtain ⟨⟨q, hq⟩, hg⟩ := h.globals.addToggle hapart htypes hsw hname t.currentNode
  have hq : (t.globals.addToggle (running env).types sw t.currentNode).1 = .ok q := hq
  rw [run_selection_final hf, run_selection_preview hscream hq]
  unfold settle conclude
  dsimp only
  rw [if_neg hrole, if_neg hrole]
  unfold hoist
  rw [if_pos (staysInline_of_localName rfl), staysInline_ternary htype, if_neg (by decide)]
  refine ⟨?_, ?_⟩
  · rw [hlocals]
  · exact (h.tables (hg.addFeature sw.name sw.group)).emit_at _ _ stack scope

end Selection

/-- The plan of a node that is no switch is the same in both modes. -/
theorem plan_running {c : NodeClass} {st : c.Settings} (hsw : c.switch? st = none)
    (env : Environment) (site : Site) : c.spec.plan st (frame (running env) site) site.output =
      c.spec.plan st (frame env site) site.output := by
  cases c with
  | staticSwitch => cases hsw
  | _ => rfl

theorem Twin.enter (h : Twin env s t) (site : Site) : Twin env (s.enter site) (t.enter site) := by
  have hstack : t.enter site = { t.remember site .started with
      stack := site :: s.stack, scope := site.scope } := by
    rw [← (modes_companions env).stack h]
    rfl
  rw [hstack]
  exact ((h.remember site .started).onStack (site :: s.stack)).inScope site.scope

theorem isNumeric_of_selectOperands {types : TypeTable} {a b : Expr}
    {x : ShaderType × Expr × Expr} (h : selectOperands types a b = .ok x) :
    x.1.isNumeric = true := by
  unfold selectOperands at h
  split at h
  · cases h
  · next type htype =>
    cases ha : a.castTo types type with
    | error fault => rw [ha] at h; cases h
    | ok a' =>
      cases hb : b.castTo types type with
      | error fault => rw [ha, hb] at h; cases h
      | ok b' =>
        rw [ha, hb] at h
        cases h
        exact ShaderType.isNumeric_of_combine htype

/-- The outcome of a switch in both modes: the operands are read alike. -/
theorem outcomeOf_switch_agrees (hapart : env.FeaturesApart) (htypes : env.types = .builtin)
    (hmode : env.mode = .final) (hr : Resolver.Agree env r r') {sw : SwitchSettings}
    (hst : env.Stands site .staticSwitch sw) (h : Twin env s t) :
    Agrees env (outcomeOf env r site (NodeClass.staticSwitch.spec.behavior sw) s)
      (outcomeOf (running env) r' site (NodeClass.staticSwitch.spec.behavior sw) t) := by
  have hstack : t.stack = s.stack := by rw [h.same]; rfl
  have hscope : t.scope = s.scope := by rw [h.same]; rfl
  have hswitch : NodeClass.staticSwitch.switch? sw = some sw := rfl
  have hhas : env.HasSwitch sw := ⟨site, .staticSwitch, sw, hst, hswitch⟩
  have hname := NodeClass.identifier_of_switch? hswitch hst.errors
  have hrole : (NodeClass.staticSwitch.spec.behavior sw).role ≠ .materialRoot := by
    have hrole : (NodeClass.staticSwitch.spec.behavior sw).role = .expression := rfl
    rw [hrole]
    nofun
  have hfinal : (NodeClass.staticSwitch.spec.behavior sw).plan (frame env site) site.output = _ :=
    sw.plan_eq (frame env site) site.output
  have hpreview : (NodeClass.staticSwitch.spec.behavior sw).plan (frame (running env) site)
      site.output = _ := sw.plan_eq (frame (running env) site) site.output
  have hframe : (frame env site).mode = .final := hmode
  have hframe' : (frame (running env) site).mode = .preview := rfl
  rw [outcomeOf_eq, outcomeOf_eq, hstack, hscope]
  unfold carryOut
  rw [hfinal, hpreview, hframe, hframe']
  unfold Plan.onlyResult
  -- both plans read the operands first; the mode decides what is made of them
  by_cases hout : site.output = resultOutput
  · rw [if_pos hout, if_pos hout, run_bind, run_bind]
    obtain ⟨x, s₁, t₁, hx, hy, hs⟩ := (run_agrees hapart htypes hr hst _ _ _
      (sw.operands_confined env.types env.mode) (h.enter site)).split
    have htable : (frame (running env) site).types = env.types := rfl
    have htable' : (frame env site).types = env.types := rfl
    rw [htable, htable', hx, hy]
    cases x with
    | error fault => exact settle_agrees (hs.agrees _) _ _ _ _
    | ok x =>
      dsimp only
      rw [run_bind, run_bind, run_ofExcept, run_ofExcept]
      cases hsel : selectOperands env.types x.1 x.2 with
      | error fault => exact settle_agrees (hs.agrees _) _ _ _ _
      | ok x =>
        exact selection_agrees r r' hapart htypes hhas hname (isNumeric_of_selectOperands hsel) hs
          site.node hrole s.stack s.scope
  · rw [if_neg hout, if_neg hout]
    exact settle_agrees ((h.enter site).agrees _) _ _ _ _

/-- The outcome of a node in both modes. -/
theorem outcomeOf_agrees (hapart : env.FeaturesApart) (htypes : env.types = .builtin)
    (hmode : env.mode = .final) (hr : Resolver.Agree env r r') (hst : env.Stands site c st)
    (h : Twin env s t) :
    Agrees env (outcomeOf env r site (c.spec.behavior st) s)
      (outcomeOf (running env) r' site (c.spec.behavior st) t) := by
  have hstack : t.stack = s.stack := by rw [h.same]; rfl
  have hscope : t.scope = s.scope := by rw [h.same]; rfl
  cases hsw : c.switch? st with
  | none =>
    have hplan := (c.plan_confined st (frame env site) site.output).mono fun cmd hask =>
      And.intro hask (hask.modeFree hsw)
    have hrun : (c.spec.behavior st).plan (frame (running env) site) site.output = _ :=
      plan_running hsw env site
    rw [outcomeOf_eq, outcomeOf_eq, hstack, hscope]
    unfold carryOut
    rw [hrun]
    exact settle_agrees (run_agrees hapart htypes hr hst _ _ _ hplan (h.enter site)) _ _ _ _
  | some sw =>
    cases c with
    | staticSwitch => exact outcomeOf_switch_agrees hapart htypes hmode hr hst h
    | _ => cases hsw

/-! ### Whole passes -/

/-- **Resolving an output in both modes.** Where both passes arrive at a node, it is one of
a built-in class. -/
theorem resolve_agrees (hapart : env.FeaturesApart) (hc : env.catalog = .builtin)
    (htypes : env.types = .builtin) (hmode : env.mode = .final) (room : Nat) :
    Resolver.Agree env (resolve env room) (resolve (running env) room) := by
  refine (modes_companions env).resolve (fun {r r' site b b' s t s₀ t₀} hr _ h₀ hstands hb h => ?_)
    room
  obtain rfl : b' = b := hb
  obtain ⟨c, st, hst, rfl⟩ := Arrives.stands hc hstands h₀.faithful
  obtain ⟨ho, hs⟩ := outcomeOf_agrees hapart htypes hmode hr hst h
  show Agrees env (s.ask env r site _) (t.ask (running env) r' site _)
  rw [ask_eq, ask_eq, ho]
  exact ⟨rfl, hs.remember site _⟩

end Pass

namespace Compiler

open Pass

theorem materialDraft_modes {c : Compiler} (hc : c.catalog = .builtin) (ht : c.types = .builtin)
    {d : Document} (hapart : (c.environment .final d).FeaturesApart) (o : Options) :
    (∃ e, c.materialDraft d { o with mode := .final } = .error e ∧
      c.materialDraft d { o with mode := .preview } = .error e) ∨
    ∃ x y, c.materialDraft d { o with mode := .final } = .ok x ∧
      c.materialDraft d { o with mode := .preview } = .ok y ∧ y.pass.report = x.pass.report := by
  have hdrafts := (modes_companions (c.environment .final d)).materialDraft
    (resolve_agrees hapart hc ht rfl maxDepth) ⟨rfl, fun _ => rfl, fun _ _ => trivial⟩
    (o := { o with mode := .final }) rfl (rfl : _ = c.environment .preview d) rfl
  rcases hdrafts with hrejected | ⟨x, y, hx, hy, hdrafts⟩
  · exact .inl hrejected
  · exact .inr ⟨x, y, hx, hy, hdrafts.pass.beside.report⟩

/-- **Both modes report the same**, and so both have a program or none, if no feature is
called like a parameter and features that are called alike are one feature. -/
theorem modes_agree (c : Compiler) (hc : c.catalog = .builtin) (ht : c.types = .builtin)
    (d : Document) (hapart : (c.environment .final d).FeaturesApart) (o : Options) :
    (∃ e, c.compile d { o with mode := .final } = .error e ∧
      c.compile d { o with mode := .preview } = .error e) ∨
    ∃ x y, c.compile d { o with mode := .final } = .ok x ∧
      c.compile d { o with mode := .preview } = .ok y ∧ y.report = x.report ∧
      y.program.isSome = x.program.isSome ∧ y.isShippable = x.isShippable := by
  have hcompile (mode : Mode) : c.compile d { o with mode } = (do
      let t ← o.templateOr .material
      let draft ← c.materialDraft d { o with mode }
      return draft.compilation c.types { o with mode } t) := rfl
  rw [hcompile, hcompile]
  cases o.templateOr .material with
  | error e => exact .inl ⟨e, rfl, rfl⟩
  | ok t =>
    rcases materialDraft_modes hc ht hapart o with ⟨e, hx, hy⟩ | ⟨x, y, hx, hy, hreport⟩
    · rw [hx, hy]
      exact .inl ⟨e, rfl, rfl⟩
    · have hsome (draft : Draft) (o : Options) :
          (draft.compilation c.types o t).program.isSome = !draft.pass.report.hasFatal := by
        unfold Draft.compilation
        dsimp only
        cases draft.pass.report.hasFatal with
        | false => rfl
        | true => rfl
      rw [hx, hy]
      refine .inr ⟨_, _, rfl, rfl, hreport, ?_, ?_⟩
      · rw [hsome, hsome, hreport]
      · unfold Compilation.isShippable
        rw [hsome, hsome, hreport]
        show (_ && !y.pass.report.hasErrors) = (_ && !x.pass.report.hasErrors)
        rw [hreport]

/-- A material with two switches of one feature, one of which refers to no node. -/
def coatDocument : Document where
  nodes := [
    .of (.literal .float) 2 { value := one, name := "Strength" },
    .of .staticSwitch 3 { name := "Use Tint", onTrue := .ofNode 5 "tint", onFalse := .ofNode 2 },
    .of .staticSwitch 4 { name := "use tint", onTrue := .ofNode 2, onFalse := .ofNode 10 },
    .of .subgraphCall 5 { path := "tint" },
    .of .materialResult 9 { albedo := .ofNode 3, roughness := .ofNode 4 }]

/-- The reports of both modes, and whether there are programs. -/
def reports (c : Compiler) (d : Document) : List (Option (List (Concern × NodeId) × Bool)) :=
  [Mode.final, .preview].map fun mode => (c.compile d { mode }).toOption.map fun result =>
    (result.report.entries.map fun entry => (entry.concern, entry.node), result.program.isSome)

/-- Both modes have a program, and report the wire that leads nowhere. -/
theorem modes_agree_coat :
    ((withTint tintDocument).environment .final coatDocument).FeaturesApart ∧
    ∃ x y, (withTint tintDocument).compile coatDocument { mode := .final } = .ok x ∧
      (withTint tintDocument).compile coatDocument { mode := .preview } = .ok y ∧
      y.report = x.report ∧ y.program.isSome = x.program.isSome ∧
      y.isShippable = x.isShippable ∧
      x.report.entries.map (·.concern) = [.danglingReference, .missingInput] ∧
      x.program.isSome = true := by
  have hapart : ((withTint tintDocument).environment .final coatDocument).FeaturesApart := by
    refine Environment.featuresApart_of_nodes (coatDocument.nodes ++ tintDocument.nodes)
      (fun d hd => ?_) (by decide +kernel) (by decide +kernel)
    rcases inReach_withTint hd with rfl | rfl
    · exact List.subset_append_left _ _
    · exact List.subset_append_right _ _
  have hreports : ((withTint tintDocument).compile coatDocument { mode := .final }).toOption.map
      (fun x => (x.report.entries.map (·.concern), x.program.isSome)) =
        some ([.danglingReference, .missingInput], true) := by decide +kernel
  refine ⟨hapart, ?_⟩
  rcases modes_agree (withTint tintDocument) rfl rfl coatDocument hapart {} with
    ⟨e, hx, -⟩ | ⟨x, y, hx, hy, hreport, hsome, hship⟩
  · have hx : (withTint tintDocument).compile coatDocument { mode := .final } = .error e := hx
    rw [hx] at hreports
    cases hreports
  · refine ⟨x, y, hx, hy, hreport, hsome, hship, ?_⟩
    have hx : (withTint tintDocument).compile coatDocument { mode := .final } = .ok x := hx
    rw [hx] at hreports
    exact Prod.mk.inj (Option.some.inj hreports)

/-- A material with a switch and another node. -/
def namedDocument (name : String) (other : Node) : Document where
  nodes := [
    .of .materialResult 1 { roughness := .ofNode 2, metalness := .ofNode 3 },
    .of .staticSwitch 2 { name },
    other]

/-- **The modes do not agree about a feature that is called like a parameter**, and not about
two features that become one attribute: the attribute needs a name that is taken. -/
theorem modes_differ_of_taken_name :
    reports {} (namedDocument "Roughness"
      (.of (.literal .float) 3 { value := zero, name := "Roughness" })) =
      [some ([], true), some ([(.duplicateName, ⟨3⟩)], false)] ∧
    reports {} (namedDocument "a 1" (.of .staticSwitch 3 { name := "a1" })) =
      [some ([], true), some ([(.duplicateName, ⟨3⟩)], false)] := by
  decide +kernel

end Compiler

end MaterialGraph
