import MaterialGraph.Proofs.Ownership

/-!
# One registration after another

Tables that are filled by registrations alone, in any number and in any order. A registration
that succeeds adds at the end of the tables at most, and designates an entry. To ask for the same
again gives the same entry, however much is registered in between, because what the lookup finds is
found first from then on. A registration that fails leaves the tables as they were. For parameters
this rests on the names of the globals: their owner is entered before the global is looked up, and a
global that another node has registered has an owner already.

## Main results

* `Registration.Settled.register`, `Registration.Settled.mono` — a settled registration changes
  nothing, and stays settled.
* `Registration.register_ends` — a registration fails without effect, or is settled afterwards.
* `Registration.registered_for_good` — this for every sequence of registrations.
-/

namespace MaterialGraph

open Text

namespace Globals

/-- The tables hold an entry. -/
def Holds (g : Globals) : Entry → Prop
  | .declaration text => text ∈ g.declarations
  | .parameter p => p ∈ g.parameters
  | .sampler s => s ∈ g.samplers
  | .texture t => t ∈ g.textures
  | .feature f => f ∈ g.features
  | .function name => name ∈ g.functions.map Function.name

/-- The tables `g'` have those of `g` in front, entry for entry. -/
structure Continues (g g' : Globals) : Prop where
  declarations : g.declarations <+: g'.declarations
  parameters : g.parameters <+: g'.parameters
  parameterNames : g.parameterNames <+: g'.parameterNames
  toggles : g.toggles <+: g'.toggles
  samplers : g.samplers <+: g'.samplers
  textures : g.textures <+: g'.textures
  features : g.features <+: g'.features
  functions : g.functions <+: g'.functions

theorem Continues.refl (g : Globals) : g.Continues g where
  declarations := List.prefix_refl _
  parameters := List.prefix_refl _
  parameterNames := List.prefix_refl _
  toggles := List.prefix_refl _
  samplers := List.prefix_refl _
  textures := List.prefix_refl _
  features := List.prefix_refl _
  functions := List.prefix_refl _

theorem Continues.trans {g g' g'' : Globals} (h : g.Continues g') (h' : g'.Continues g'') :
    g.Continues g'' where
  declarations := h.declarations.trans h'.declarations
  parameters := h.parameters.trans h'.parameters
  parameterNames := h.parameterNames.trans h'.parameterNames
  toggles := h.toggles.trans h'.toggles
  samplers := h.samplers.trans h'.samplers
  textures := h.textures.trans h'.textures
  features := h.features.trans h'.features
  functions := h.functions.trans h'.functions

theorem declare_continues (g : Globals) (text : String) : g.Continues (g.declare text).2 := by
  unfold declare
  split
  · exact .refl g
  · exact { Continues.refl g with declarations := List.prefix_append _ _ }

/-- Parameters are named by their globals and belong to the owners of their names. -/
structure Kept (types : TypeTable) (g : Globals) : Prop where
  names : (g.parameterNames.map Prod.fst).Nodup
  /-- A global is made from the type and the name. -/
  globals : ∀ p ∈ g.parameters, p.global = types.globalStem p.type ++ p.name
  owner : ∀ p ∈ g.parameters, (p.name, p.node) ∈ g.parameterNames

end Globals

namespace Registration

/-- The tables after one registration and another. -/
def registerAll (types : TypeTable) (rs : List Registration) (g : Globals) : Globals :=
  rs.foldl (fun g r => (r.register types g).2) g

@[simp] theorem registerAll_nil (types : TypeTable) (g : Globals) :
    registerAll types [] g = g := rfl

@[simp] theorem registerAll_cons (types : TypeTable) (r : Registration) (rs : List Registration)
    (g : Globals) : registerAll types (r :: rs) g = registerAll types rs (r.register types g).2 :=
  rfl

/-! ### Registrations that find all they ask for -/

/-- The registration finds the entry and whatever else it would add. -/
inductive Settled (types : TypeTable) (g : Globals) : Registration → Entry → Prop where
  | declaration {text : String} (h : text ∈ g.declarations) :
      Settled types g (.declaration text) (.declaration text)
  /-- The name belongs to the node, and so does the parameter with the global. -/
  | parameter {spec : ParameterSpec} {node : NodeId} {p : Parameter} {entry : String × NodeId}
      (hexposed : Globals.exposureFault? types spec = none)
      (hname : spec.identifier.isEmpty = false)
      (hentry : g.parameterNames.find? (·.1 == spec.identifier) = some entry)
      (howner : entry.2 = node)
      (hp : g.parameters.find? (·.global == types.globalStem spec.type ++ spec.identifier) =
        some p)
      (hnode : p.node = node) : Settled types g (.parameter spec node) (.parameter p)
  | sampler {state : SamplerState} {s : Sampler}
      (h : g.samplers.find? (·.state == state) = some s) :
      Settled types g (.sampler state) (.sampler s)
  | texture {spec : TextureSpec} {name : String} {fallback : Vec4} {node : NodeId} {t : Texture}
      (h : g.textures.find? (·.spec == spec) = some t) :
      Settled types g (.texture spec name fallback node) (.texture t)
  /-- There is a feature with the identifier, and what program text tests is declared. -/
  | feature {name group : String} {f : Feature}
      (hname : (Identifier.screaming name).isEmpty = false)
      (hf : g.features.find? (·.identifier == Identifier.screaming name) = some f)
      (hd : f.comboDeclaration ∈ g.declarations) :
      Settled types g (.feature name group) (.feature f)
  | function {source name : String} {f : Function}
      (hname : declaredName? (String.ofList (trim source.toList)) = some name)
      (hf : g.functions.find? (·.name == name) = some f)
      (hbody : f.body = String.ofList (trim source.toList)) :
      Settled types g (.function source) (.function name)

variable {types : TypeTable} {g g' : Globals} {r : Registration} {e : Entry}

/-- **A settled registration gives its entry and changes nothing.** -/
theorem Settled.register (h : Settled types g r e) :
    r.register types g = (.ok (e, false), g) := by
  cases h with
  | declaration h => simp only [Registration.register, Globals.declare, if_pos h]
  | @parameter spec node p entry hexposed hname hentry howner hp hnode =>
    have hassign : assignOwner g.parameterNames spec.identifier node =
        (node, g.parameterNames) := by
      simp only [assignOwner, hentry, howner]
    have hadd : g.addParameter types spec node = (.ok p, g) := by
      rw [ParameterSpec.identifier] at hname hassign hp
      simp only [Globals.addParameter, hexposed, hname, hassign, hp, hnode]
      simp
    simp only [Registration.register, hadd, Except.map]
  | sampler h => simp only [Registration.register, Globals.addSampler, h]
  | texture h => simp only [Registration.register, Globals.addTexture, h, Except.map]
  | feature hname hf hd =>
    simp only [Registration.register, Globals.addFeature, hname, hf, Globals.declare, if_pos hd,
      Except.map]
    simp
  | function hname hf hbody =>
    simp only [Registration.register, Globals.addFunction, hname, hf, if_pos hbody, Except.map]

/-- A settled registration stays settled, whatever is added behind. -/
theorem Settled.mono (h : Settled types g r e) (hg : g.Continues g') : Settled types g' r e := by
  cases h with
  | declaration h => exact .declaration (hg.declarations.subset h)
  | parameter hexposed hname hentry howner hp hnode =>
    exact .parameter hexposed hname (hg.parameterNames.find?_eq_some hentry) howner
      (hg.parameters.find?_eq_some hp) hnode
  | sampler h => exact .sampler (hg.samplers.find?_eq_some h)
  | texture h => exact .texture (hg.textures.find?_eq_some h)
  | feature hname hf hd =>
    exact .feature hname (hg.features.find?_eq_some hf) (hg.declarations.subset hd)
  | function hname hf hbody => exact .function hname (hg.functions.find?_eq_some hf) hbody

theorem Settled.holds (h : Settled types g r e) : g.Holds e := by
  cases h with
  | declaration h => exact h
  | parameter hexposed hname hentry howner hp hnode => exact List.mem_of_find?_eq_some hp
  | sampler h => exact List.mem_of_find?_eq_some h
  | texture h => exact List.mem_of_find?_eq_some h
  | feature hname hf hd => exact List.mem_of_find?_eq_some hf
  | @function source name f hname hf hbody =>
    have hfound := List.find?_some hf
    exact beq_iff_eq.mp hfound ▸ List.mem_map_of_mem (List.mem_of_find?_eq_some hf)

/-! ### What one registration does -/

/-- How a registration ends: without a change, or with an entry. -/
inductive Ends (types : TypeTable) (r : Registration) (g : Globals) :
    Except Fault (Entry × Bool) × Globals → Prop where
  | failed (fault : Fault) : Ends types r g (.error fault, g)
  /-- It designates an entry that it finds from then on. -/
  | settled {e : Entry} (new : Bool) {g' : Globals} (hg : g.Continues g')
      (hs : Settled types g' r e) : Ends types r g (.ok (e, new), g')

/-- What has just been added is found, if nothing was found before. -/
theorem find?_concat {α : Type} {l : List α} {p : α → Bool} {a : α} (h : l.find? p = none)
    (ha : p a = true) : (l ++ [a]).find? p = some a := by
  rw [List.find?_append, h, Option.none_or, List.find?_singleton, if_pos ha]

variable (types g)

theorem declaration_ends (text : String) :
    Ends types (.declaration text) g ((Registration.declaration text).register types g) :=
  .settled _ (g.declare_continues text) (.declaration (g.declare_within text).2)

theorem sampler_ends (state : SamplerState) :
    Ends types (.sampler state) g ((Registration.sampler state).register types g) := by
  rw [register, Globals.addSampler]
  split
  · next s hs => exact .settled _ (.refl g) (.sampler hs)
  · next hnone =>
    exact .settled _ { Globals.Continues.refl g with samplers := List.prefix_append _ _ }
      (.sampler (find?_concat hnone (beq_self_eq_true state)))

theorem texture_ends (spec : TextureSpec) (name : String) (fallback : Vec4) (node : NodeId) :
    Ends types (.texture spec name fallback node) g
      ((Registration.texture spec name fallback node).register types g) := by
  rw [register, Globals.addTexture]
  split
  · next t ht => exact .settled _ (.refl g) (.texture ht)
  · next hnone =>
    dsimp only
    -- whichever name it gets
    generalize (if (Identifier.ofText name).isEmpty = true
      then "Texture" ++ toString g.textures.length else Identifier.ofText name) = word
    split
    · exact .failed _
    · exact .settled _ { Globals.Continues.refl g with textures := List.prefix_append _ _ }
        (.texture (find?_concat hnone (beq_self_eq_true spec)))

theorem feature_ends (name group : String) :
    Ends types (.feature name group) g ((Registration.feature name group).register types g) := by
  rw [register, Globals.addFeature]
  dsimp only
  split
  · exact .failed _
  · next hempty =>
    -- the feature is found in front of the declaration that is made for it
    have hdeclared {g' : Globals} {f : Feature} (hg : g.Continues g')
        (hf : g'.features.find? (·.identifier == Identifier.screaming name) = some f) :
        Ends types (.feature name group) g
          (.ok (.feature f, false), (g'.declare f.comboDeclaration).2) :=
      .settled _ (hg.trans (g'.declare_continues _)) (.feature (Bool.eq_false_iff.mpr hempty)
        ((g'.declare_continues _).features.find?_eq_some hf) (g'.declare_within _).2)
    split
    · next f hf => exact hdeclared (.refl g) hf
    · next hnone =>
      exact hdeclared { Globals.Continues.refl g with features := List.prefix_append _ _ }
        (find?_concat hnone (beq_self_eq_true _))

theorem function_ends (source : String) :
    Ends types (.function source) g ((Registration.function source).register types g) := by
  rw [register, Globals.addFunction]
  split
  · exact .failed _
  · next name hname =>
    split
    · next f hf =>
      split
      · next hbody => exact .settled _ (.refl g) (.function hname hf hbody)
      · exact .failed _
    · next hnone =>
      exact .settled _ { Globals.Continues.refl g with functions := List.prefix_append _ _ }
        (.function hname (find?_concat hnone (beq_self_eq_true name)) rfl)

variable {types g}

/-- A global that is in the tables belongs to the owner of its name. -/
theorem node_eq_owner (h : g.Kept .builtin) {spec : ParameterSpec} {p : Parameter}
    (hp : p ∈ g.parameters)
    (hglobal : p.global = TypeTable.builtin.globalStem spec.type ++ spec.identifier)
    (node : NodeId) : (assignOwner g.parameterNames spec.identifier node).1 = p.node := by
  have hname : p.name = spec.identifier := by
    rw [h.globals p hp] at hglobal
    exact (TypeTable.globalStem_injective hglobal).2
  have hentry : (spec.identifier, p.node) ∈ g.parameterNames := hname ▸ h.owner p hp
  rcases assignOwner_cases g.parameterNames spec.identifier node with
    ⟨owner, howner, he⟩ | ⟨hnew, -⟩
  · rw [he]
    exact owner_unique h.names howner hentry
  · exact absurd (List.mem_map_of_mem hentry) hnew

/-- Once a node owns a name, the lookup finds it as the owner. -/
theorem find?_assignOwner {owners : List (String × NodeId)} {key : String} {node : NodeId}
    (h : (assignOwner owners key node).1 = node) :
    owners <+: (assignOwner owners key node).2 ∧
      ∃ entry, (assignOwner owners key node).2.find? (·.1 == key) = some entry ∧
        entry.2 = node := by
  unfold assignOwner at h ⊢
  split at h
  · next entry owner hf => exact ⟨List.prefix_refl _, _, hf, h⟩
  · next hnone =>
    exact ⟨List.prefix_append _ _, _, find?_concat hnone (beq_self_eq_true key), rfl⟩

theorem parameter_ends (h : g.Kept .builtin) (spec : ParameterSpec) (node : NodeId) :
    Ends .builtin (.parameter spec node) g
      ((Registration.parameter spec node).register .builtin g) := by
  rw [register, Globals.addParameter]
  split
  · exact .failed _
  · next hexposed =>
    dsimp only
    split
    · exact .failed _
    · next hempty =>
      have hname := Bool.eq_false_iff.mpr hempty
      split
      · next hother =>
        -- the name has an owner, so the owners are as they were
        rcases assignOwner_cases g.parameterNames spec.identifier node with
          ⟨owner, -, he⟩ | ⟨-, he⟩
        · rw [ParameterSpec.identifier] at he
          rw [he]
          exact .failed _
        · rw [ParameterSpec.identifier] at he
          rw [he] at hother
          exact absurd rfl hother
      · next howner =>
        have howner := Decidable.not_not.mp howner
        obtain ⟨hnames, entry, hentry, hnode⟩ := find?_assignOwner howner
        split
        · next p hp =>
          have hmem : p ∈ g.parameters := List.mem_of_find?_eq_some hp
          have hglobal := List.find?_some hp
          have hsame := node_eq_owner h hmem (beq_iff_eq.mp hglobal) node
          have hmine : p.node = node := hsame.symm.trans howner
          rw [if_neg (not_not.mpr hmine)]
          exact .settled _ { Globals.Continues.refl g with parameterNames := hnames }
            (.parameter hexposed hname hentry hnode hp hmine)
        · next hnone =>
          exact .settled _ { Globals.Continues.refl g with
              parameterNames := hnames, parameters := List.prefix_append _ _ }
            (.parameter hexposed hname hentry hnode
              (find?_concat hnone (beq_self_eq_true _)) rfl)

/-- **A registration fails without effect, or finds its entry from then on.** -/
theorem register_ends (h : g.Kept .builtin) (r : Registration) :
    Ends .builtin r g (r.register .builtin g) := by
  cases r with
  | declaration text => exact declaration_ends _ g text
  | parameter spec node => exact parameter_ends h spec node
  | sampler state => exact sampler_ends _ g state
  | texture spec name fallback node => exact texture_ends _ g spec name fallback node
  | feature name group => exact feature_ends _ g name group
  | function source => exact function_ends _ g source

/-! ### What is kept -/

theorem register_kept (h : g.Kept types) (r : Registration) :
    (r.register types g).2.Kept types := by
  refine register_keeps (fun hchange h => ?_) h
  cases hchange with
  | named spec node =>
    exact ⟨assignOwner_nodup _ _ h.names, h.globals,
      fun p hp => assignOwner_subset _ _ _ (h.owner p hp)⟩
  | parameter _ howner _ =>
    exact ⟨h.names, Globals.forall_mem_concat h.globals rfl,
      Globals.forall_mem_concat h.owner howner⟩
  | _ => exact ⟨h.names, h.globals, h.owner⟩

/-! ### Sequences of registrations -/

theorem registerAll_kept (rs : List Registration) (h : g.Kept types) :
    (registerAll types rs g).Kept types := by
  induction rs generalizing g with
  | nil => exact h
  | cons r rs ih => exact ih (register_kept h r)

theorem registerAll_continues (rs : List Registration) (h : g.Kept .builtin) :
    g.Continues (registerAll .builtin rs g) := by
  induction rs generalizing g with
  | nil => exact .refl g
  | cons r rs ih =>
    have hlater := ih (register_kept h r)
    have hends := register_ends h r
    rw [registerAll_cons]
    rcases hx : r.register .builtin g with ⟨x, g'⟩
    rw [hx] at hends hlater
    cases hends with
    | failed fault => exact hlater
    | settled new hg hs => exact hg.trans hlater

/-- **Registration adds behind what is there, for good.** In the tables that any sequence of
registrations has filled, with the standard types, a registration either fails and changes nothing,
or it leaves everything in front as it was and designates an entry of the tables. After any further
registrations the same one then designates the same entry, says that it is not new and changes
nothing. -/
theorem registered_for_good (rs : List Registration) (r : Registration) :
    (∃ fault, r.register .builtin (registerAll .builtin rs {}) =
        (.error fault, registerAll .builtin rs {})) ∨
      ∃ e new g', r.register .builtin (registerAll .builtin rs {}) = (.ok (e, new), g') ∧
        (registerAll .builtin rs {}).Continues g' ∧ g'.Holds e ∧
        ∀ later : List Registration, r.register .builtin (registerAll .builtin later g') =
          (.ok (e, false), registerAll .builtin later g') := by
  have hempty : Globals.Kept .builtin {} :=
    ⟨List.nodup_nil, List.forall_mem_nil _, List.forall_mem_nil _⟩
  have hkept := registerAll_kept rs hempty
  have hends := register_ends hkept r
  have hkept' := register_kept hkept r
  rcases hx : r.register .builtin (registerAll .builtin rs {}) with ⟨x, g'⟩
  rw [hx] at hends hkept'
  cases hends with
  | failed fault => exact .inl ⟨fault, rfl⟩
  | @settled e new g' hg hs =>
    refine .inr ⟨e, new, g', rfl, hg, hs.holds, fun later => ?_⟩
    exact (hs.mono (registerAll_continues later hkept')).register

end Registration

end MaterialGraph
