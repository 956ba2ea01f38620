import MaterialGraph.Proofs.Ownership
import MaterialGraph.Proofs.Scoping
import MaterialGraph.Proofs.Sharing

/-!
# Variables that do not collide

A parameter, a sampler and a texture are declared in a program under a name of their own. The
name starts with a stem that the type gives. The stems of values, samplers and textures are
different, and within a table a name that is taken is not given again. So at every moment of a
pass all these names are different, and nothing is in the tables twice.

## Main results

* `Globals.Variables.stable` — registrations keep the names different.
* `Globals.Variables.distinct` — names of different tables are different.
* `Compiler.variables_distinct` — variables do not collide, at any moment of any pass.
-/

namespace MaterialGraph

open Text

theorem toString_injective {m n : Nat} (h : toString m = toString n) : m = n :=
  localName_injective (congrArg ("l_" ++ ·) h)

/-- The name starts with the stem of a type that has a property. -/
def TypeTable.Stemmed (types : TypeTable) (P : ShaderType → Prop) (name : String) : Prop :=
  ∃ t word, P t ∧ name = types.globalStem t ++ word

/-- Types of textures. -/
def ShaderType.IsTexture (t : ShaderType) : Prop := t = .texture2D ∨ t = .textureCube

theorem TextureSpec.isTexture_type (spec : TextureSpec) : spec.type.IsTexture := by
  unfold TextureSpec.type
  split
  · exact .inr rfl
  · exact .inl rfl

namespace Globals

/-- The names of all parameters, samplers and textures. -/
def variableNames (g : Globals) : List String :=
  g.parameters.map Parameter.global ++ g.samplers.map Sampler.global ++
    g.textures.map Texture.global

/-- Tables in which nothing is there twice, and every name has the stem of its type. -/
structure Variables (types : TypeTable) (g : Globals) : Prop where
  parameters : (g.parameters.map Parameter.global).Nodup
  /-- The names of parameters start like those of values. -/
  stored : ∀ p ∈ g.parameters, types.Stemmed ShaderType.Storable p.global
  /-- Samplers are numbered. -/
  samplers : g.samplers.map Sampler.global = (List.range g.samplers.length).map (samplerName types)
  states : (g.samplers.map Sampler.state).Nodup
  textures : (g.textures.map Texture.global).Nodup
  /-- The names of textures start like those of textures. -/
  drawn : ∀ t ∈ g.textures, types.Stemmed ShaderType.IsTexture t.global
  specs : (g.textures.map Texture.spec).Nodup

/-- Tables whose entries do not collide. -/
structure Distinct (g : Globals) : Prop where
  names : g.variableNames.Nodup
  specs : (g.textures.map Texture.spec).Nodup
  states : (g.samplers.map Sampler.state).Nodup

variable {types : TypeTable} {g : Globals}

/-! ### Registration -/

/-- What is new has another name than what is there. -/
theorem Variables.change {r : Registration} {g' : Globals} (h : g.Variables types)
    (hr : ∀ spec node, r = .parameter spec node → spec.type.Storable)
    (hchange : Change types r g g') : g'.Variables types := by
  obtain ⟨hparameters, hstored, hsamplers, hstates, htextures, hdrawn, hspecs⟩ := h
  cases hchange with
  | @parameter _ spec node _ _ hnew =>
    exact ⟨nodup_map_concat hparameters hnew,
      forall_mem_concat hstored ⟨spec.type, spec.identifier, hr spec node rfl, rfl⟩, hsamplers,
      hstates, htextures, hdrawn, hspecs⟩
  | sampler hnew =>
    refine ⟨hparameters, hstored, ?_, nodup_map_concat hstates hnew, htextures, hdrawn, hspecs⟩
    rw [List.map_append, hsamplers, List.length_append, List.length_singleton, List.range_succ,
      List.map_append]
    rfl
  | @texture _ spec _ _ _ word _ hnew hglobal =>
    exact ⟨hparameters, hstored, hsamplers, hstates, nodup_map_concat htextures hglobal,
      forall_mem_concat hdrawn ⟨spec.type, word, spec.isTexture_type, rfl⟩,
      nodup_map_concat hspecs hnew⟩
  | _ => exact ⟨hparameters, hstored, hsamplers, hstates, htextures, hdrawn, hspecs⟩

/-- A texture that is replaced by a later state of it. -/
theorem updateTexture_variables (h : g.Variables types) {t u : Texture} (ht : t ∈ g.textures)
    (hspec : u.spec = t.spec) (hglobal : u.global = t.global) :
    (g.updateTexture u).Variables types := by
  -- only one texture is made from that thing, so the entry that is replaced is known
  have hone : ∀ v ∈ g.textures, v.spec = u.spec → v = t := fun v hv heq =>
    List.inj_on_of_nodup_map h.specs hv ht (heq.trans hspec)
  have hmap {β : Type} (f : Texture → β) (hf : f u = f t) :
      (g.updateTexture u).textures.map f = g.textures.map f := by
    unfold updateTexture
    rw [List.map_map, List.map_inj_left]
    intro v hv
    show f (if v.spec = u.spec then u else v) = f v
    split
    · next heq => rw [hf, hone v hv heq]
    · rfl
  refine ⟨h.parameters, h.stored, h.samplers, h.states, ?_, fun v hv => ?_, ?_⟩
  · rw [hmap Texture.global hglobal]
    exact h.textures
  · obtain ⟨w, hw, rfl⟩ := List.mem_map.mp hv
    split
    · rw [hglobal]
      exact h.drawn t ht
    · exact h.drawn w hw
  · rw [hmap Texture.spec hspec]
    exact h.specs

/-- **Registrations keep the names different.** -/
theorem Variables.stable (types : TypeTable) :
    Stable types (fun r => ∀ spec node, r = .parameter spec node → spec.type.Storable)
      (Variables types) where
  change hr hchange h := h.change hr hchange
  toggles _ h _ := ⟨h.parameters, h.stored, h.samplers, h.states, h.textures, h.drawn, h.specs⟩
  develop h _ ht _ _ := updateTexture_variables h ht rfl rfl

end Globals

/-! ### Different names -/

/-- Names that start with different stems are different. -/
theorem TypeTable.Stemmed.ne {P Q : ShaderType → Prop} {a b : String} (ha : builtin.Stemmed P a)
    (hb : builtin.Stemmed Q b)
    (hPQ : ∀ t u, P t → Q u → builtin.globalStem t ≠ builtin.globalStem u) : a ≠ b := by
  obtain ⟨t, word, ht, rfl⟩ := ha
  obtain ⟨u, word', hu, rfl⟩ := hb
  exact fun heq => hPQ t u ht hu (globalStem_injective heq).1

/-- The stems of values are not those of samplers and textures. -/
theorem TypeTable.globalStem_ne_of_storable {t u : ShaderType} (ht : t.Storable)
    (hu : u.isObject = true) : builtin.globalStem t ≠ builtin.globalStem u := by
  have hall : ∀ t ∈ ShaderType.all, ∀ u ∈ ShaderType.all, t.isObject = false → t ≠ .any →
      u.isObject = true → builtin.globalStem t ≠ builtin.globalStem u := by decide
  exact hall t t.mem_all u u.mem_all ht.1 ht.2 hu

namespace Globals

theorem samplerName_stemmed (types : TypeTable) (n : Nat) :
    types.Stemmed (· = .sampler) (samplerName types n) := by
  refine ⟨.sampler, "Sampler" ++ toString n, rfl, ?_⟩
  rw [samplerName, String.append_assoc]

theorem samplerName_injective {m n : Nat}
    (h : samplerName .builtin m = samplerName .builtin n) : m = n := by
  rw [samplerName, samplerName, String.append_assoc, String.append_assoc] at h
  exact toString_injective (String.append_right_inj _ |>.mp (TypeTable.globalStem_injective h).2)

/-- **Names of different tables are different**, and so are the names in one table. -/
theorem Variables.distinct {g : Globals} (h : g.Variables .builtin) : g.Distinct := by
  have hstored : ∀ name ∈ g.parameters.map Parameter.global,
      TypeTable.builtin.Stemmed ShaderType.Storable name := List.forall_mem_map.mpr h.stored
  have hdrawn : ∀ name ∈ g.textures.map Texture.global,
      TypeTable.builtin.Stemmed ShaderType.IsTexture name := List.forall_mem_map.mpr h.drawn
  have hsampler : ∀ name ∈ g.samplers.map Sampler.global,
      TypeTable.builtin.Stemmed (· = .sampler) name := by
    rw [h.samplers]
    exact List.forall_mem_map.mpr fun n _ => samplerName_stemmed .builtin n
  have hsamplers : (g.samplers.map Sampler.global).Nodup := by
    rw [h.samplers]
    exact List.nodup_range.map_on fun m _ n _ heq => samplerName_injective heq
  refine ⟨?_, h.specs, h.states⟩
  -- within a table names are different, and between two tables the stems are
  unfold variableNames
  rw [List.nodup_append, List.nodup_append]
  refine ⟨⟨h.parameters, hsamplers, fun a ha b hb => ?_⟩, h.textures, fun a ha b hb => ?_⟩
  · refine (hstored a ha).ne (hsampler b hb) ?_
    rintro t u ht rfl
    exact TypeTable.globalStem_ne_of_storable ht rfl
  · rcases List.mem_append.mp ha with ha | ha
    · refine (hstored a ha).ne (hdrawn b hb) ?_
      rintro t u ht (rfl | rfl)
      · exact TypeTable.globalStem_ne_of_storable ht rfl
      · exact TypeTable.globalStem_ne_of_storable ht rfl
    · refine (hsampler a ha).ne (hdrawn b hb) ?_
      rintro t u rfl (rfl | rfl)
      · decide
      · decide

end Globals

/-! ### Passes -/

namespace Pass

variable {env : Environment} {s : Pass}

theorem World.Asks.storable {W : World} {c : Command} (ha : W.Asks c) {spec : ParameterSpec}
    {node : NodeId} (hc : c.Enters (.parameter spec node)) : spec.type.Storable := by
  cases c with
  | parameter spec' =>
    obtain ⟨_, he⟩ := hc
    cases he
    exact ha
  | toggle name initial =>
    obtain ⟨_, he⟩ := hc
    cases he
    exact ⟨rfl, by rintro ⟨⟩⟩
  | texture spec' name fallback =>
    obtain ⟨_, he⟩ := hc
    cases he
  | _ => cases hc

/-- The discipline of keeping names different. Every text is good for it. -/
def naming (types : TypeTable) : Discipline where
  world _ _ := .lax
  tables := Globals.Variables types
  extra _ := True

/-- **Every step keeps the names different.** -/
theorem naming_kept (hc : env.catalog = .builtin) : (naming env.types).Kept env where
  closed _ _ := lax_closed env.types
  mono _ _ := .refl _
  lost _ _ := trivial
  register {s c} h hreg ha r := by
    refine ⟨(Globals.Variables.stable env.types).perform h.tables r hreg ?_, lax_answers env r c s⟩
    rintro q hq spec node rfl
    exact World.Asks.storable ha hq
  same _ _ _ _ _ := trivial
  emit _ _ := ⟨trivial, trivial⟩
  plans hb he _ _ _ hW hle _ output hf :=
    hb.meets hc he (hf ▸ hW) (fun t => (hle.source t).mpr trivial) output

theorem Fresh.variables_of (h : Fresh s) (types : TypeTable) : s.globals.Variables types := by
  obtain ⟨declarations, rfl⟩ := h
  exact ⟨.nil, List.forall_mem_nil _, rfl, .nil, .nil, List.forall_mem_nil _, .nil⟩

/-- At every moment of a pass nothing collides. -/
theorem Session.distinct (hc : env.catalog = .builtin) (ht : env.types = .builtin) {s' : Pass}
    {l : List Event} (hl : Session env s s' l) (h : Fresh s) :
    s'.globals.Distinct ∧ ∀ e ∈ l, e.pass.globals.Distinct := by
  have hinv : (naming env.types).Inv s := .of_fresh h trivial (h.variables_of _)
  obtain ⟨hend, hevents⟩ := (naming_kept hc).session hl (h.stocked env) hinv
  have hdistinct {s : Pass} (h : (naming env.types).Inv s) : s.globals.Distinct := by
    have hvariables : s.globals.Variables env.types := h.tables
    rw [ht] at hvariables
    exact hvariables.distinct
  exact ⟨hdistinct hend, fun e he => hdistinct (hevents e he).inv⟩

end Pass

namespace Compiler

open Pass

/-- **Variables do not collide.** At every moment of every pass, and so in the end, the names of
all parameters, samplers and textures are different, no two textures are made from the same thing,
and no two samplers have the same state. -/
theorem variables_distinct (c : Compiler) (hc : c.catalog = .builtin) (ht : c.types = .builtin)
    (d : Document) :
    (∀ l, c.IsTrace d l → ∀ e ∈ l, e.pass.globals.Distinct) ∧
    (∀ o draft, c.materialDraft d o = .ok draft → draft.pass.globals.Distinct) ∧
    ∀ target, (c.previewDraft d target).pass.globals.Distinct := by
  refine ⟨fun l hl => ?_, fun o draft hdraft => ?_, fun target => ?_⟩
  · obtain ⟨mode, s, s', hfresh, hsession⟩ := hl.session
    exact (hsession.distinct hc ht hfresh).2
  · obtain ⟨s', hsession, hpass⟩ := materialTrace_session c d o
    rw [hpass draft hdraft]
    exact (hsession.distinct hc ht (firstPass_fresh o.blend)).1
  · exact ((previewTrace_session c d target).distinct hc ht ⟨[], rfl⟩).1

/-- A material in which a number, an image and a second use of the image have one name. -/
def woodDocument : Document where
  nodes := [
    .of .materialResult 1 { albedo := .ofNode 2, emission := .ofNode 3, roughness := .ofNode 4 },
    .of (.sample .flat) 2 { source := { image := "wood.png", name := "Wood" } },
    .of (.sample .flat) 3 { source := { image := "wood.png", name := "Grain" } },
    .of (.literal .float) 4 { value := one, name := "Wood" }]

/-- The number and the image are told apart by the stems of their types. -/
theorem variables_distinct_wood : ∃ draft, materialDraft {} woodDocument {} = .ok draft ∧
    draft.pass.globals.Distinct ∧
    draft.pass.globals.variableNames = ["g_flWood", "g_sSampler0", "g_tWood"] := by
  have hnames : (materialDraft {} woodDocument {}).toOption.map (·.pass.globals.variableNames) =
      some ["g_flWood", "g_sSampler0", "g_tWood"] := by decide +kernel
  cases hdraft : materialDraft {} woodDocument {} with
  | error e =>
    rw [hdraft] at hnames
    cases hnames
  | ok draft =>
    rw [hdraft] at hnames
    exact ⟨draft, rfl, (variables_distinct {} rfl rfl woodDocument).2.1 {} draft hdraft,
      Option.some.inj hnames⟩

end Compiler

end MaterialGraph
