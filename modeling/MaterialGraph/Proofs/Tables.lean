import MaterialGraph.Globals.Table

/-!
# The tables only grow

Whatever is registered stays registered. Registering something more leaves the entries
in front as they are, and a texture that is replaced by a later state of it keeps its
name. What a registration gives is in the tables from then on.

## Main results

* `Globals.Within.names` — names stay.
* `Globals.addParameter_within`, `Globals.addSampler_within`, `Globals.addTexture_within`,
  `Globals.addFeature_within`, `Globals.addFunction_within` — each registration goes on
  from the tables before, and what it gives is entered.
-/

namespace MaterialGraph

open Text

/-! ### What is registered -/

/-- The identifier that a parameter is registered under. -/
def ParameterSpec.identifier (r : ParameterSpec) : String := Identifier.ofText r.name

/-- The parameter that a node asks for, as it is registered for a node. -/
def ParameterSpec.parameter (types : TypeTable) (r : ParameterSpec) (node : NodeId) :
    Parameter where
  name := r.identifier
  global := types.globalStem r.type ++ r.identifier
  type := r.type
  initial := r.initial
  range := r.range
  isAttribute := r.isAttribute
  hint := r.hint
  node := node

/-- Why a parameter cannot be registered, whatever is registered already. -/
def ParameterSpec.fault? (types : TypeTable) (r : ParameterSpec) : Option Fault :=
  match Globals.exposureFault? types r with
  | some fault => some fault
  | none =>
    if r.identifier.isEmpty then
      some (.message ("invalid parameter name \"" ++ r.name ++ "\""))
    else none

theorem ParameterSpec.fault?_eq_none {types : TypeTable} {r : ParameterSpec}
    (h : r.fault? types = none) :
    Globals.exposureFault? types r = none ∧ r.identifier.isEmpty = false := by
  unfold ParameterSpec.fault? at h
  split at h
  · cases h
  · next hexposed =>
    split at h
    · cases h
    · next hname => exact ⟨hexposed, Bool.eq_false_iff.mpr hname⟩

/-- The texture that a node asks for, as it is registered under a name. -/
def TextureSpec.texture (types : TypeTable) (spec : TextureSpec) (name : String) (fallback : Vec4)
    (node : NodeId) : Texture where
  name := name
  global := types.globalStem spec.type ++ name
  spec := spec
  asset := none
  fallback := fallback
  node := node

namespace Globals

/-! ### Tables that go on from others -/

/-- The tables `g'` go on from `g`. Textures may have changed, but not their names. -/
structure Within (g g' : Globals) : Prop where
  declarations : g.declarations <+: g'.declarations
  parameters : g.parameters <+: g'.parameters
  samplers : g.samplers <+: g'.samplers
  /-- The names of the textures go on. -/
  textures : g.textures.map Texture.global <+: g'.textures.map Texture.global
  features : g.features <+: g'.features
  functions : g.functions <+: g'.functions
  parameterNames : g.parameterNames <+: g'.parameterNames
  toggles : g.toggles <+: g'.toggles

namespace Within

variable {g g' g'' : Globals}

theorem refl (g : Globals) : g.Within g :=
  ⟨List.prefix_refl _, List.prefix_refl _, List.prefix_refl _, List.prefix_refl _,
    List.prefix_refl _, List.prefix_refl _, List.prefix_refl _, List.prefix_refl _⟩

theorem trans (h : g.Within g') (h' : g'.Within g'') : g.Within g'' :=
  ⟨h.declarations.trans h'.declarations, h.parameters.trans h'.parameters,
    h.samplers.trans h'.samplers, h.textures.trans h'.textures, h.features.trans h'.features,
    h.functions.trans h'.functions, h.parameterNames.trans h'.parameterNames,
    h.toggles.trans h'.toggles⟩

end Within

/-- The names that program text can refer to. -/
def names (g : Globals) : List String :=
  g.parameters.map Parameter.global ++ g.samplers.map Sampler.global ++
    g.textures.map Texture.global ++ g.functions.map Function.name

section Names

variable {g : Globals} {name : String}

theorem mem_names : name ∈ g.names ↔ name ∈ g.parameters.map Parameter.global ∨
    name ∈ g.samplers.map Sampler.global ∨ name ∈ g.textures.map Texture.global ∨
    name ∈ g.functions.map Function.name := by
  simp only [names, List.mem_append, or_assoc]

theorem Within.names {g' : Globals} (h : g.Within g') (hn : name ∈ g.names) : name ∈ g'.names := by
  rw [mem_names] at hn ⊢
  rcases hn with hn | hn | hn | hn
  · exact .inl ((h.parameters.map _).subset hn)
  · exact .inr (.inl ((h.samplers.map _).subset hn))
  · exact .inr (.inr (.inl (h.textures.subset hn)))
  · exact .inr (.inr (.inr ((h.functions.map _).subset hn)))

end Names

/-! ### Registration -/

variable (g : Globals) (types : TypeTable)

theorem declare_within (text : String) :
    g.Within (g.declare text).2 ∧ text ∈ (g.declare text).2.declarations := by
  unfold declare
  split
  · next h => exact ⟨.refl g, h⟩
  · exact ⟨{ Within.refl g with declarations := List.prefix_append _ _ }, by simp⟩

/-- Whoever owns a key goes on to own it. -/
theorem assignOwner_extends (owners : List (String × NodeId)) (key : String) (node : NodeId) :
    owners <+: (assignOwner owners key node).2 := by
  unfold assignOwner
  split
  · exact List.prefix_refl _
  · exact List.prefix_append _ _

/-- The tables once a node has asked for the name of a parameter. -/
def named (r : ParameterSpec) (node : NodeId) : Globals :=
  { g with parameterNames := (assignOwner g.parameterNames r.identifier node).2 }

/-- How a parameter is registered. -/
inductive Registers (r : ParameterSpec) (node : NodeId) :
    Except Fault Parameter → Globals → Prop where
  /-- The type cannot be exposed, or the name leaves nothing of an identifier. -/
  | refused (fault : Fault) (h : r.fault? types = some fault) : Registers r node (.error fault) g
  /-- The name belongs to another node, or the global does. -/
  | taken (hfault : r.fault? types = none)
      (h : (assignOwner g.parameterNames r.identifier node).1 = node →
        ∃ p ∈ g.parameters, p.global = (r.parameter types node).global) :
      Registers r node (.error (.duplicateName r.name)) (g.named r node)
  /-- The node has registered the global before. -/
  | shared (p : Parameter) (hp : p ∈ g.parameters)
      (hglobal : p.global = (r.parameter types node).global) (hnode : p.node = node)
      (hfault : r.fault? types = none) : Registers r node (.ok p) (g.named r node)
  | fresh (hnew : ∀ p ∈ g.parameters, p.global ≠ (r.parameter types node).global)
      (howner : (assignOwner g.parameterNames r.identifier node).1 = node)
      (hfault : r.fault? types = none) : Registers r node (.ok (r.parameter types node))
        { g.named r node with parameters := g.parameters ++ [r.parameter types node] }

theorem addParameter_registers (r : ParameterSpec) (node : NodeId) :
    g.Registers types r node (g.addParameter types r node).1 (g.addParameter types r node).2 := by
  unfold addParameter
  split
  · next fault hexposed => exact .refused fault (by rw [ParameterSpec.fault?, hexposed])
  · next hexposed =>
    dsimp only
    split
    · next hempty =>
      refine .refused _ ?_
      rw [ParameterSpec.fault?, hexposed]
      exact if_pos hempty
    · next hname =>
      have hfault : r.fault? types = none := by
        rw [ParameterSpec.fault?, hexposed]
        exact if_neg hname
      split
      · next hother => exact .taken hfault fun h => absurd h hother
      · next howner =>
        split
        · next p hp =>
          have hmem := List.mem_of_find?_eq_some hp
          have hglobal := List.find?_some hp
          rw [beq_iff_eq] at hglobal
          split
          · exact .taken hfault fun _ => ⟨p, hmem, hglobal⟩
          · next hnode => exact .shared p hmem hglobal (Decidable.not_not.mp hnode) hfault
        · next hnone =>
          refine .fresh (fun p hp hglobal => ?_) (Decidable.not_not.mp howner) hfault
          exact List.find?_eq_none.mp hnone p hp (beq_iff_eq.mpr hglobal)

theorem addParameter_within (spec : ParameterSpec) (node : NodeId) :
    g.Within (g.addParameter types spec node).2 ∧
      ∀ p, (g.addParameter types spec node).1 = .ok p →
        p ∈ (g.addParameter types spec node).2.parameters := by
  have hregisters := g.addParameter_registers types spec node
  have hnamed : g.Within (g.named spec node) :=
    { Within.refl g with parameterNames := assignOwner_extends _ _ _ }
  generalize (g.addParameter types spec node).1 = x at hregisters ⊢
  generalize (g.addParameter types spec node).2 = g' at hregisters ⊢
  cases hregisters with
  | refused fault _ => exact ⟨.refl g, fun p hp => by cases hp⟩
  | taken _ _ => exact ⟨hnamed, fun p hp => by cases hp⟩
  | shared p hmem =>
    refine ⟨hnamed, fun p' hp' => ?_⟩
    cases hp'
    exact hmem
  | fresh _ _ _ =>
    refine ⟨{ hnamed with parameters := List.prefix_append _ _ }, fun p hp => ?_⟩
    cases hp
    simp

theorem addSampler_within (state : SamplerState) :
    g.Within (g.addSampler types state).2 ∧
      (g.addSampler types state).1 ∈ (g.addSampler types state).2.samplers := by
  unfold addSampler
  split
  · next s hs => exact ⟨.refl g, List.mem_of_find?_eq_some hs⟩
  · exact ⟨{ Within.refl g with samplers := List.prefix_append _ _ }, by simp⟩

/-- The word in the name of a new texture: the name it is given, or a number. -/
def TextureWord (g : Globals) (name word : String) : Prop :=
  word = Identifier.ofText name ∧ word.isEmpty = false ∨
    word = "Texture" ++ toString g.textures.length

/-- A new texture cannot be entered under its name, because another one has it. -/
structure TextureTaken (types : TypeTable) (g : Globals) (spec : TextureSpec)
    (name word : String) : Prop where
  named : g.TextureWord name word
  new : ∀ t ∈ g.textures, t.spec ≠ spec
  taken : ∃ t ∈ g.textures, t.global = types.globalStem spec.type ++ word

/-- The ways in which the registration of a texture ends. -/
inductive AddsTexture (spec : TextureSpec) (name : String) (fallback : Vec4) (node : NodeId) :
    Except Fault (Texture × Bool) × Globals → Prop where
  | taken {word : String} (h : TextureTaken types g spec name word) :
      AddsTexture spec name fallback node (.error (.duplicateName word), g)
  | stored {t : Texture} (ht : t ∈ g.textures) (hspec : t.spec = spec) :
      AddsTexture spec name fallback node (.ok (t, false), g)
  /-- The texture and its name are new. -/
  | fresh {word : String} (hword : g.TextureWord name word) (hnew : ∀ t ∈ g.textures, t.spec ≠ spec)
      (hglobal : ∀ t ∈ g.textures, t.global ≠ types.globalStem spec.type ++ word) :
      AddsTexture spec name fallback node (.ok (spec.texture types word fallback node, true),
        { g with textures := g.textures ++ [spec.texture types word fallback node] })

theorem addTexture_adds (spec : TextureSpec) (name : String) (fallback : Vec4) (node : NodeId) :
    g.AddsTexture types spec name fallback node (g.addTexture types spec name fallback node) := by
  unfold addTexture
  split
  · next t ht =>
    have hspec := List.find?_some ht
    exact .stored (List.mem_of_find?_eq_some ht) (beq_iff_eq.mp hspec)
  · next hnone =>
    dsimp only
    generalize hword : (if (Identifier.ofText name).isEmpty = true
      then "Texture" ++ toString g.textures.length else Identifier.ofText name) = word
    have hgiven : g.TextureWord name word := by
      split at hword
      · exact .inr hword.symm
      · next hgiven => exact .inl ⟨hword.symm, hword ▸ Bool.eq_false_iff.mpr hgiven⟩
    have hnew (t : Texture) (ht : t ∈ g.textures) (hspec : t.spec = spec) : False :=
      List.find?_eq_none.mp hnone t ht (beq_iff_eq.mpr hspec)
    split
    · next htaken =>
      obtain ⟨t, ht, hglobal⟩ := List.any_eq_true.mp htaken
      exact .taken ⟨hgiven, hnew, t, ht, beq_iff_eq.mp hglobal⟩
    · next hfree =>
      rw [List.any_eq_true, not_exists] at hfree
      exact .fresh hgiven hnew fun t ht hglobal => hfree t ⟨ht, beq_iff_eq.mpr hglobal⟩

/-- A texture is entered, and a new one is the only one that is made from the same. -/
theorem addTexture_within (spec : TextureSpec) (name : String) (fallback : Vec4) (node : NodeId) :
    g.Within (g.addTexture types spec name fallback node).2 ∧
      ∀ t isNew, (g.addTexture types spec name fallback node).1 = .ok (t, isNew) →
        t ∈ (g.addTexture types spec name fallback node).2.textures ∧
        (isNew = true → ∀ u ∈ (g.addTexture types spec name fallback node).2.textures,
          u.spec = t.spec → u = t) := by
  have hadds := g.addTexture_adds types spec name fallback node
  generalize g.addTexture types spec name fallback node = x at hadds ⊢
  cases hadds with
  | taken _ => exact ⟨.refl g, fun t isNew h => by cases h⟩
  | stored ht _ =>
    refine ⟨.refl g, fun t isNew h => ?_⟩
    cases h
    exact ⟨ht, fun h => by cases h⟩
  | fresh _ hnew _ =>
    refine ⟨{ Within.refl g with textures := by simp }, fun t isNew h => ?_⟩
    cases h
    refine ⟨by simp, fun _ u hu hspec => ?_⟩
    rcases List.mem_append.mp hu with hu | hu
    · exact absurd hspec (hnew u hu)
    · exact List.mem_singleton.mp hu

/-- A later state of a texture keeps the names, if the texture keeps its own. -/
theorem updateTexture_within {t : Texture}
    (h : ∀ u ∈ g.textures, u.spec = t.spec → u.global = t.global) :
    g.Within (g.updateTexture t) := by
  have hnames : (g.updateTexture t).textures.map Texture.global =
      g.textures.map Texture.global := by
    unfold updateTexture
    rw [List.map_map, List.map_inj_left]
    intro u hu
    show (if u.spec = t.spec then t else u).global = u.global
    split
    · next hspec => exact (h u hu hspec).symm
    · rfl
  exact { Within.refl g with textures := hnames ▸ List.prefix_refl _ }

theorem addFeature_within (name group : String) :
    g.Within (g.addFeature name group).2 ∧ ∀ f, (g.addFeature name group).1 = .ok f →
      f ∈ (g.addFeature name group).2.features ∧
        f.comboDeclaration ∈ (g.addFeature name group).2.declarations := by
  have hdeclare (g : Globals) (f : Feature) (hf : f ∈ g.features) :
      f ∈ (g.declare f.comboDeclaration).2.features :=
    (g.declare_within _).1.features.subset hf
  unfold addFeature
  simp only
  split
  · exact ⟨.refl g, fun f hf => by cases hf⟩
  · split
    · next f hf =>
      refine ⟨(g.declare_within _).1, fun f' h => ?_⟩
      cases h
      exact ⟨hdeclare g f (List.mem_of_find?_eq_some hf), (g.declare_within _).2⟩
    · have hnew (f : Feature) : g.Within { g with features := g.features ++ [f] } :=
        { Within.refl g with features := List.prefix_append _ _ }
      refine ⟨(hnew _).trans (declare_within _ _).1, fun f h => ?_⟩
      cases h
      exact ⟨hdeclare _ _ (by simp), (declare_within _ _).2⟩

theorem addFunction_within (source : String) :
    g.Within (g.addFunction source).2 ∧ ∀ name, (g.addFunction source).1 = .ok name →
      name ∈ (g.addFunction source).2.functions.map Function.name := by
  unfold addFunction
  simp only
  split
  · exact ⟨.refl g, fun name h => by cases h⟩
  · next declared hd =>
    split
    · next f hf =>
      split
      · refine ⟨.refl g, fun name h => ?_⟩
        cases h
        have hname := List.find?_some hf
        rw [beq_iff_eq] at hname
        exact hname ▸ List.mem_map_of_mem (List.mem_of_find?_eq_some hf)
      · exact ⟨.refl g, fun name h => by cases h⟩
    · refine ⟨{ Within.refl g with functions := List.prefix_append _ _ }, fun name h => ?_⟩
      cases h
      simp

end Globals

end MaterialGraph
