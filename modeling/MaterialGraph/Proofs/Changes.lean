import MaterialGraph.Proofs.Requests

/-!
# Changes of the tables

Registrations change the tables in few ways: an entry is added at the end of one of them, or a
name gets an owner. Besides, the attribute of a feature gets an owner, and a texture learns what
became of its image. So a property of tables that each of these changes keeps is kept by every
request.

## Main results

* `Registration.register_keeps` — a registration keeps what its changes keep.
* `Globals.Stable.perform` — a request keeps what is stable.
-/

namespace MaterialGraph

open Text

/-! ### Registrations -/

/-- Something to register, for the node that asks for it where that matters. -/
inductive Registration where
  | declaration (text : String)
  | parameter (spec : ParameterSpec) (node : NodeId)
  | sampler (state : SamplerState)
  | texture (spec : TextureSpec) (name : String) (fallback : Vec4) (node : NodeId)
  | feature (name group : String)
  | function (source : String)

/-- What a registration designates. -/
inductive Entry where
  | declaration (text : String)
  | parameter (p : Parameter)
  | sampler (s : Sampler)
  | texture (t : Texture)
  | feature (f : Feature)
  | function (name : String)
  deriving DecidableEq

/-- Registers something. The flag tells whether the one who asks is told that the entry is new,
which declarations and textures do. -/
def Registration.register (types : TypeTable) :
    Registration → Globals → Except Fault (Entry × Bool) × Globals
  | .declaration text, g =>
    (.ok (.declaration text, (g.declare text).1), (g.declare text).2)
  | .parameter spec node, g =>
    ((g.addParameter types spec node).1.map fun p => (.parameter p, false),
      (g.addParameter types spec node).2)
  | .sampler state, g =>
    (.ok (.sampler (g.addSampler types state).1, false), (g.addSampler types state).2)
  | .texture spec name fallback node, g =>
    ((g.addTexture types spec name fallback node).1.map fun x => (.texture x.1, x.2),
      (g.addTexture types spec name fallback node).2)
  | .feature name group, g =>
    ((g.addFeature name group).1.map fun f => (.feature f, false), (g.addFeature name group).2)
  | .function source, g =>
    ((g.addFunction source).1.map fun name => (.function name, false), (g.addFunction source).2)

/-! ### One more entry -/

namespace Globals

theorem forall_mem_concat {α : Type} {P : α → Prop} {l : List α} {a : α} (h : ∀ x ∈ l, P x)
    (ha : P a) : ∀ x ∈ l ++ [a], P x :=
  List.forall_mem_append.mpr ⟨h, List.forall_mem_singleton.mpr ha⟩

theorem nodup_map_concat {α β : Type} {f : α → β} {l : List α} {a : α} (h : (l.map f).Nodup)
    (ha : ∀ b ∈ l, f b ≠ f a) : ((l ++ [a]).map f).Nodup := by
  rw [List.map_append, List.nodup_append]
  refine ⟨h, by simp, fun x hx y hy => ?_⟩
  obtain ⟨b, hb, rfl⟩ := List.mem_map.mp hx
  rw [List.map_singleton, List.mem_singleton] at hy
  rw [hy]
  exact ha b hb

end Globals

open Globals

/-! ### Owners -/

section Owners

variable (owners : List (String × NodeId)) (key : String) (node : NodeId)

/-- The first to ask for a key owns it. -/
theorem assignOwner_cases :
    (∃ owner, (key, owner) ∈ owners ∧ assignOwner owners key node = (owner, owners)) ∨
      key ∉ owners.map Prod.fst ∧
        assignOwner owners key node = (node, owners ++ [(key, node)]) := by
  unfold assignOwner
  split
  · next entry owner hf =>
    have hkey : entry = key := by simpa using List.find?_some hf
    exact .inl ⟨owner, hkey ▸ List.mem_of_find?_eq_some hf, rfl⟩
  · next hnone =>
    rw [List.find?_eq_none] at hnone
    refine .inr ⟨fun hmem => ?_, rfl⟩
    obtain ⟨entry, he, hk⟩ := List.mem_map.mp hmem
    exact hnone entry he (beq_iff_eq.mpr hk)

theorem assignOwner_subset : owners ⊆ (assignOwner owners key node).2 := by
  rcases assignOwner_cases owners key node with ⟨owner, -, h⟩ | ⟨-, h⟩
  · rw [h]
    exact List.Subset.refl _
  · rw [h]
    exact List.subset_append_left _ _

theorem assignOwner_mem :
    (key, (assignOwner owners key node).1) ∈ (assignOwner owners key node).2 := by
  rcases assignOwner_cases owners key node with ⟨owner, hmem, h⟩ | ⟨-, h⟩
  · rw [h]
    exact hmem
  · rw [h]
    exact List.mem_append_right _ (List.mem_singleton.mpr rfl)

theorem assignOwner_nodup {owners : List (String × NodeId)} (h : (owners.map Prod.fst).Nodup) :
    ((assignOwner owners key node).2.map Prod.fst).Nodup := by
  rcases assignOwner_cases owners key node with ⟨owner, -, he⟩ | ⟨hnew, he⟩
  · rw [he]
    exact h
  · rw [he]
    exact nodup_map_concat h fun entry hentry hkey =>
      hnew (List.mem_map.mpr ⟨entry, hentry, hkey⟩)

end Owners

/-! ### Changes -/

namespace Globals

/-- The name of the sampler that is registered after so many others. -/
def samplerName (types : TypeTable) (n : Nat) : String :=
  types.globalStem .sampler ++ "Sampler" ++ toString n

/-- One change that a registration makes. A parameter is entered once its name has an owner, and
a feature is entered before the declaration that is made for it. -/
inductive Change (types : TypeTable) : Registration → Globals → Globals → Prop where
  | declaration {r : Registration} {g : Globals} {text : String} (hnew : text ∉ g.declarations) :
      Change types r g { g with declarations := g.declarations ++ [text] }
  /-- The name of a parameter has an owner. -/
  | named {g : Globals} (spec : ParameterSpec) (node : NodeId) :
      Change types (.parameter spec node) g (g.named spec node)
  /-- A parameter that can be exposed is entered for the owner of its name. -/
  | parameter {g : Globals} {spec : ParameterSpec} {node : NodeId}
      (hfault : spec.fault? types = none) (howner : (spec.identifier, node) ∈ g.parameterNames)
      (hnew : ∀ p ∈ g.parameters, p.global ≠ (spec.parameter types node).global) :
      Change types (.parameter spec node) g
        { g with parameters := g.parameters ++ [spec.parameter types node] }
  /-- A sampler is numbered. -/
  | sampler {g : Globals} {state : SamplerState} (hnew : ∀ s ∈ g.samplers, s.state ≠ state) :
      Change types (.sampler state) g { g with
        samplers := g.samplers ++ [{ global := samplerName types g.samplers.length, state }] }
  /-- A texture has the given name, or a number. -/
  | texture {g : Globals} {spec : TextureSpec} {name : String} {fallback : Vec4} {node : NodeId}
      {word : String} (hword : g.TextureWord name word)
      (hnew : ∀ t ∈ g.textures, t.spec ≠ spec)
      (hglobal : ∀ t ∈ g.textures, t.global ≠ types.globalStem spec.type ++ word) :
      Change types (.texture spec name fallback node) g
        { g with textures := g.textures ++ [spec.texture types word fallback node] }
  /-- A feature has both spellings of its name. -/
  | feature {g : Globals} {name group : String}
      (hname : (Identifier.screaming name).isEmpty = false) :
      Change types (.feature name group) g { g with features := g.features ++
        [{ name := Identifier.ofText name, identifier := Identifier.screaming name, group }] }
  /-- A function has the name that its text declares. -/
  | function {g : Globals} {source name : String}
      (hname : declaredName? (String.ofList (trim source.toList)) = some name) :
      Change types (.function source) g { g with functions := g.functions ++
        [{ name, body := String.ofList (trim source.toList) }] }

end Globals

/-- **A registration keeps what its changes keep.** -/
theorem Registration.register_keeps {types : TypeTable} {G : Globals → Prop} {r : Registration}
    (h : ∀ {g g'}, Change types r g g' → G g → G g') {g : Globals} (hg : G g) :
    G (r.register types g).2 := by
  have hdeclare {g : Globals} (hg : G g) (text : String) : G (g.declare text).2 := by
    unfold declare
    split
    · exact hg
    · next hnew => exact h (.declaration hnew) hg
  cases r with
  | declaration text => exact hdeclare hg text
  | parameter spec node =>
    have hregisters := g.addParameter_registers types spec node
    rw [register]
    generalize (g.addParameter types spec node).1 = x at hregisters
    generalize (g.addParameter types spec node).2 = g' at hregisters ⊢
    -- unless it is refused at once, its identifier gets an owner before anything else
    have hnamed : G (g.named spec node) := h (.named spec node) hg
    cases hregisters with
    | refused fault _ => exact hg
    | taken _ _ => exact hnamed
    | shared _ _ _ _ => exact hnamed
    | fresh hnew howner hfault =>
      have hmem := assignOwner_mem g.parameterNames spec.identifier node
      rw [howner] at hmem
      exact h (.parameter hfault hmem hnew) hnamed
  | sampler state =>
    rw [register, addSampler]
    split
    · exact hg
    · next hnone =>
      refine h (.sampler fun s hs hstate => ?_) hg
      exact List.find?_eq_none.mp hnone s hs (beq_iff_eq.mpr hstate)
  | texture spec name fallback node =>
    have hadds := g.addTexture_adds types spec name fallback node
    rw [register]
    generalize g.addTexture types spec name fallback node = x at hadds ⊢
    cases hadds with
    | taken _ => exact hg
    | stored _ _ => exact hg
    | fresh hword hnew hglobal => exact h (.texture hword hnew hglobal) hg
  | feature name group =>
    rw [register, addFeature]
    split
    · exact hg
    · next hname =>
      -- the line of a feature is declared whether the feature is new or not
      refine hdeclare ?_ _
      split
      · exact hg
      · exact h (.feature (Bool.eq_false_iff.mpr hname)) hg
  | function source =>
    rw [register, addFunction]
    split
    · exact hg
    · next hname =>
      split
      · split
        · exact hg
        · exact hg
      · exact h (.function hname) hg

/-! ### Requests -/

/-- What a request registers. -/
def Command.Enters : Command → Registration → Prop
  | .parameter spec, r => ∃ node, r = .parameter spec node
  | .declare text, r => r = .declaration text
  | .function source, r => r = .function source
  | .texture spec name fallback, r => ∃ node, r = .texture spec name fallback node
  | .sampler state, r => r = .sampler state
  | .feature name group, r => r = .feature name group
  | .toggle name initial, r => ∃ node, r = .parameter
      { name, type := .bool, initial := some (.bool initial), isAttribute := true } node
  | _, _ => False

namespace Globals

/-- A property of tables that all their changes keep, if nothing is registered but what is
admitted. -/
structure Stable (types : TypeTable) (admits : Registration → Prop) (G : Globals → Prop) :
    Prop where
  /-- Something is registered. -/
  change : ∀ {r g g'}, admits r → Change types r g g' → G g → G g'
  /-- The attribute of a feature gets an owner. -/
  toggles : ∀ {spec node g}, admits (.parameter spec node) → G g → ∀ toggles, G { g with toggles }
  /-- A texture gets what became of its image. -/
  develop : ∀ {g}, G g → ∀ t ∈ g.textures, ∀ asset fallback,
    G (g.updateTexture { t with asset, fallback })

namespace Stable

variable {env : Environment} {admits : Registration → Prop} {G : Globals → Prop} {s : Pass}

theorem register {types : TypeTable} {g : Globals} (h : Stable types admits G) (hg : G g)
    {r : Registration} (hr : admits r) : G (r.register types g).2 :=
  Registration.register_keeps (h.change hr) hg

theorem bindTexture (h : Stable env.types admits G) (hs : G s.globals) {spec : TextureSpec}
    {name : String} {fallback : Vec4} (hr : admits (.texture spec name fallback s.currentNode)) :
    G (s.bindTexture env spec name fallback).2.globals := by
  have hadd := h.register hs hr
  have hmem := (s.globals.addTexture_within env.types spec name fallback s.currentNode).2
  rw [Registration.register] at hadd
  unfold Pass.bindTexture
  dsimp only
  rcases hx : s.globals.addTexture env.types spec name fallback s.currentNode with
    ⟨fault | ⟨t, isNew⟩, globals⟩
  · rw [hx] at hadd
    exact hadd
  · rw [hx] at hadd hmem
    have hmem := (hmem t isNew rfl).1
    dsimp only
    split
    · split
      · exact h.develop hadd t hmem _ t.fallback
      · exact h.develop hadd t hmem t.asset _
    · exact hadd

/-- A request keeps what is stable. -/
theorem perform (h : Stable env.types admits G) (hs : G s.globals) (r : Pass.Resolver)
    {c : Command} (hc : c.Registers) (ha : ∀ q, c.Enters q → admits q) :
    G (s.perform env r c).2.globals := by
  cases c with
  | parameter spec =>
    rw [Pass.perform_parameter, Pass.bindParameter_eq]
    exact h.register hs (ha (.parameter spec s.currentNode) ⟨_, rfl⟩)
  | declare text =>
    rw [Pass.perform_declare]
    exact h.register hs (ha (.declaration text) rfl)
  | function source =>
    rw [Pass.perform_function]
    have hregister := h.register hs (ha (.function source) rfl)
    rw [Registration.register] at hregister
    exact hregister
  | texture spec name fallback =>
    rw [Pass.perform_texture]
    exact h.bindTexture hs (ha _ ⟨_, rfl⟩)
  | sampler state =>
    rw [Pass.perform_sampler]
    exact h.register hs (ha (.sampler state) rfl)
  | feature name group =>
    rw [Pass.perform_feature]
    have hregister := h.register hs (ha (.feature name group) rfl)
    rw [Registration.register] at hregister
    exact hregister
  | toggle name initial =>
    rw [Pass.perform_toggle]
    unfold Pass.bindToggle
    dsimp only
    split
    · exact hs
    · rw [Pass.bindParameter_eq]
      exact h.register (h.toggles (ha (.parameter _ s.currentNode) ⟨_, rfl⟩) hs _)
        (ha (.parameter _ _) ⟨_, rfl⟩)
  | _ => exact hc.elim

end Stable

end Globals

end MaterialGraph
