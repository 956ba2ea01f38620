import MaterialGraph.Catalog
import MaterialGraph.Proofs.Saving

/-!
# Saved settings

The settings of every built-in class are read back as they were written, as long as their
numbers are finite: a number that is not has no form in a document.

A class that takes over the fields of a smaller record reads them last but writes them where
the smaller record stands, so there the order of the fields is not that of the members.

## Main results

* `NodeClass.spec_restores` — every class does, for finite numbers.
* `saved_values_restored` — the same for documents, settings and all that is part of them.
-/

namespace MaterialGraph

open Number RecordReader

/-! ### Classes that read back what they have written -/

/-- A class writes settings as a record, out of which its reader gets them again. -/
def NodeSpec.Restores {σ : Type} (spec : NodeSpec σ) (s : σ) : Prop :=
  ∃ entries, spec.write s = .record entries ∧ (entries.map Prod.fst).Nodup ∧
    spec.fields.Restores entries s

theorem NodeSpec.Restores.build_write {σ : Type} {spec : NodeSpec σ} {s : σ}
    (h : spec.Restores s) : spec.build (spec.write s) = .ok s := by
  obtain ⟨entries, hwrite, hkeys, hfields⟩ := h
  have hnull : (Json.record entries).isNull = false := rfl
  rw [hwrite, build, hnull, if_neg Bool.false_ne_true]
  unfold NodeSpec.read
  split
  · exact Json.readNamedRecord_record hkeys hfields _
  · exact Json.readRecord_record hkeys hfields _

/-! ### The numbers in settings -/

/-- The numbers of a literal's value that are not integers. -/
def LiteralKind.floats : (k : LiteralKind) → k.Carrier → List Single
  | .float, x => [x]
  | .int, _ => []
  | .vector2, v => v.toList
  | .vector3, v => v.toList
  | .vector4, v => v.toList
  | .color, v => v.toList

namespace NodeClass

/-- The numbers in the settings of a class that are not integers. -/
def floats : (c : NodeClass) → c.Settings → List Single
  | .literal k, s =>
    k.floats s.value ++ s.range.toList.flatMap fun r => k.floats r.1 ++ k.floats r.2
  | .binary _, s => [s.defaultA, s.defaultB]
  | .lerp, s => [s.defaultA, s.defaultB, s.defaultT]
  | .clamp, s => [s.defaultMin, s.defaultMax]
  | .remap, s => [s.inMin, s.inMax, s.outMin, s.outMax]
  | .unary _, s => [s.fallback]
  | .split, s => s.fallback.toList
  | .combine, s => s.fallback.toList
  | .transform, s => [s.w]
  | .textureObject, s => s.source.fallback.toList
  | .sample _, s => s.source.fallback.toList
  | .branch, s => [s.defaultA, s.defaultB, s.defaultTrue, s.defaultFalse]
  | .fresnel, s => [s.defaultPower]
  | .subgraphInput, s => s.fallback.floats
  | .bool, _ | .swizzle, _ | .surface _, _ | .matrix, _ | .samplerState, _ | .staticSwitch, _
  | .function, _ | .subgraphOutput, _ | .subgraphCall, _ | .materialResult, _ | .reroute, _
  | .comment, _ => []

/-- The numbers in settings are finite. -/
def Finite (c : NodeClass) (s : c.Settings) : Prop := ∀ x ∈ c.floats s, x.isFinite = true

end NodeClass

/-! ### Fields of settings -/

theorem Carries.wire {fallback : Wire} (w : Wire) : Carries Wire.read fallback (some w.write) w :=
  .present w.read_write

theorem NodeClass.Finite.single {c : NodeClass} {s : c.Settings} (h : c.Finite s)
    {x fallback : Single} (hx : x ∈ c.floats s := by simp [NodeClass.floats]) :
    Carries Json.readSingle fallback (some (.ofSingle x)) x :=
  .present (Json.readSingle_ofSingle (h x hx))

theorem Channel.read_write (c : Channel) : read c.write = .ok c :=
  Json.readName_string (by cases c <;> rfl)

theorem Comparison.read_write (c : Comparison) : read c.write = .ok c :=
  Json.readName_string (by cases c <;> rfl)

theorem MatrixOrigin.read_write (o : MatrixOrigin) : read o.write = .ok o :=
  Json.readName_string (by cases o <;> rfl)

theorem FunctionArgument.read_write (a : FunctionArgument) : read a.write = .ok a := by
  refine Json.readRecord_record (by simp) ?_ _
  exact .field (.present rfl) <| .field (.present a.type.read_write) <| .field (.wire a.input) <|
    .pure a

theorem LiteralKind.read_write (k : LiteralKind) {value : k.Carrier}
    (h : ∀ x ∈ k.floats value, x.isFinite = true) : k.read (k.write value) = .ok value := by
  cases k with
  | float => exact Json.readSingle_ofSingle (h value (List.mem_singleton_self value))
  | int => exact Json.readInt32_int value
  | vector2 => exact Vec2.read_write h
  | vector3 => exact Vec3.read_write h
  | vector4 => exact Vec4.read_write h
  | color => exact Vec4.read_write h

/-- The fields of an image, also among those of a larger record. -/
theorem ImageSettings.restores {s : ImageSettings}
    (h : ∀ x ∈ s.fallback.toList, x.isFinite = true) : Restores fields s.entries s :=
  .field (.nonEmpty s.image) <| .field (.nonEmpty s.name) <|
    .field (.present s.colorSpace.read_write) <| .field (.present s.format.read_write) <|
    .field (.nonEmpty s.processor) <| .field (.present (Vec4.read_write h)) <| .pure s

/-- No field of an image is an object, so a larger record hands all of them on. -/
theorem ImageSettings.map_handedOn (s : ImageSettings) :
    ∀ entry ∈ s.entries, entry.2.map handedOn = entry.2 := by
  have htext : ∀ text, (Json.nonEmpty text).map handedOn = Json.nonEmpty text := by
    intro text
    unfold Json.nonEmpty
    split <;> rfl
  simp [entries, htext, ColorSpace.write, TextureFormat.write, Vec4.write, Json.ofList, handedOn]

/-! ### Every class -/

namespace NodeClass

theorem literal_restores (k : LiteralKind) {s : LiteralSettings k.Carrier}
    (h : (literal k).Finite s) : (Literal.spec k).Restores s := by
  have hvalue : k.read (k.write s.value) = .ok s.value :=
    k.read_write fun x hx => h x (List.mem_append_left _ hx)
  have hrange : ∀ r ∈ s.range,
      Json.readPair k.read (.array [k.write r.1, k.write r.2]) = .ok r := by
    intro r hr
    have hbounds : ∀ x ∈ k.floats r.1 ++ k.floats r.2, x.isFinite = true := fun x hx =>
      h x (List.mem_append_right _ (List.mem_flatMap.mpr ⟨r, Option.mem_toList.mpr hr, hx⟩))
    exact Json.readPair_array (k.read_write fun x hx => hbounds x (List.mem_append_left _ hx))
      (k.read_write fun x hx => hbounds x (List.mem_append_right _ hx))
  refine ⟨_, rfl, by simp, ?_⟩
  exact .field (.present hvalue) <| .field (.nonEmpty s.name) <|
    .field (.option hrange fun _ => rfl) <| .field (.whenTrue s.isAttribute) <|
    .field (.present s.hint.read_write) <| .pure s

theorem textureObject_restores {s : TextureObjectSettings} (h : textureObject.Finite s) :
    TextureObjectSettings.spec.Restores s := by
  -- The image is read last, though its fields are written first.
  have hfields : Restores TextureObjectSettings.fields
      (("cube", some (.bool s.cube)) :: s.source.entries) s :=
    .field (.present rfl) <| .map (.merged (ImageSettings.restores h) s.source.map_handedOn)
      fun source => { s with source }
  exact ⟨_, rfl, by simp [ImageSettings.entries],
    hfields.mono (List.perm_append_singleton _ _).symm.subset⟩

theorem samplerState_restores (s : SamplerState) : samplerStateSpec.Restores s := by
  refine ⟨_, rfl, by simp, ?_⟩
  apply Restores.merged s.restores
  simp [TextureFilter.write, AddressMode.write, handedOn]

theorem sample_restores (k : SampleKind) {s : SampleSettings} (h : (sample k).Finite s) :
    (SampleSettings.spec k).Restores s := by
  -- Here the image stands in the middle, before the state of the sampler.
  have hfields : Restores (SampleSettings.fields k)
      ([("texture", some s.texture.write), ("sampler", some s.sampler.write),
        (k.coordsKey, some s.coords.write), ("sampler_state", some s.state.write)] ++
          s.source.entries) s :=
    .field (.wire s.texture) <| .field (.wire s.sampler) <| .field (.wire s.coords) <|
      .field (.present s.state.read_write) <|
      .map (.merged (ImageSettings.restores h) s.source.map_handedOn) fun source =>
        { s with source }
  refine ⟨_, rfl, ?_, hfields.mono ?_⟩
  · cases k <;> simp [ImageSettings.entries, SampleKind.coordsKey]
  · intro entry
    simp only [List.mem_append, List.mem_cons, List.not_mem_nil, or_false]
    tauto

/-- Every class reads back what it has written, if the numbers are finite. -/
theorem spec_restores (c : NodeClass) {s : c.Settings} (h : c.Finite s) : c.spec.Restores s := by
  cases c with
  | literal k => exact literal_restores k h
  | bool =>
    refine ⟨_, rfl, by simp, ?_⟩
    exact .field (.present rfl) <| .field (.nonEmpty s.name) <| .field (.whenTrue s.isAttribute) <|
      .field (.present s.hint.read_write) <| .pure s
  | binary op =>
    refine ⟨_, rfl, by simp, ?_⟩
    exact .field (.wire s.a) <| .field (.wire s.b) <| .field h.single <| .field h.single <| .pure s
  | lerp =>
    refine ⟨_, rfl, by simp, ?_⟩
    exact .field (.wire s.a) <| .field (.wire s.b) <| .field (.wire s.t) <| .field h.single <|
      .field h.single <| .field h.single <| .pure s
  | clamp =>
    refine ⟨_, rfl, by simp, ?_⟩
    exact .field (.wire s.input) <| .field (.wire s.min) <| .field (.wire s.max) <|
      .field h.single <| .field h.single <| .pure s
  | remap =>
    refine ⟨_, rfl, by simp, ?_⟩
    exact .field (.wire s.input) <| .field h.single <| .field h.single <| .field h.single <|
      .field h.single <| .pure s
  | unary op =>
    refine ⟨_, rfl, by simp, ?_⟩
    exact .field (.wire s.input) <| .field h.single <| .pure s
  | split =>
    refine ⟨_, rfl, by simp, ?_⟩
    exact .field (.wire s.input) <| .field (.present (Vec4.read_write h)) <| .pure s
  | combine =>
    refine ⟨_, rfl, by simp, ?_⟩
    exact .field (.wire s.x) <| .field (.wire s.y) <| .field (.wire s.z) <| .field (.wire s.w) <|
      .field (.present (Json.readUInt8_int s.components)) <|
      .field (.present (Vec4.read_write h)) <| .pure s
  | swizzle =>
    refine ⟨_, rfl, by simp, ?_⟩
    exact .field (.wire s.input) <| .field (.present rfl) <| .pure s
  | surface i =>
    exact ⟨[], rfl, List.nodup_nil, .pure s⟩
  | matrix =>
    refine ⟨_, rfl, by simp, ?_⟩
    exact .field (.present s.origin.read_write) <| .field (.nonEmpty s.name) <| .pure s
  | transform =>
    refine ⟨_, rfl, by simp, ?_⟩
    exact .field (.wire s.matrix) <| .field (.wire s.vector) <| .field h.single <| .pure s
  | textureObject => exact textureObject_restores h
  | samplerState => exact samplerState_restores s
  | sample k => exact sample_restores k h
  | branch =>
    refine ⟨_, rfl, by simp, ?_⟩
    exact .field (.wire s.a) <| .field (.wire s.b) <| .field (.wire s.onTrue) <|
      .field (.wire s.onFalse) <| .field (.present s.comparison.read_write) <| .field h.single <|
      .field h.single <| .field h.single <| .field h.single <| .pure s
  | staticSwitch =>
    refine ⟨_, rfl, by simp, ?_⟩
    exact .field (.present rfl) <| .field (.nonEmpty s.group) <| .field (.wire s.onTrue) <|
      .field (.wire s.onFalse) <| .field (.present rfl) <| .pure s
  | function =>
    refine ⟨_, rfl, by simp, ?_⟩
    exact .field (.present rfl) <| .field (.present rfl) <|
      .field (.present s.resultType.read_write) <|
      .field (.present (Json.readList_ofList fun a _ => a.read_write)) <| .pure s
  | fresnel =>
    refine ⟨_, rfl, by simp, ?_⟩
    exact .field (.wire s.normal) <| .field (.wire s.view) <| .field (.wire s.power) <|
      .field h.single <| .pure s
  | subgraphInput =>
    refine ⟨_, rfl, by simp, ?_⟩
    exact .field (.present rfl) <| .field (.present s.type.read_write) <|
      .field (.present (Constant.read_write h)) <| .field (.whenTrue s.isRequired) <| .pure s
  | subgraphOutput =>
    refine ⟨_, rfl, by simp, ?_⟩
    exact .field (.present rfl) <| .field (.wire s.value) <| .field (.present s.type.read_write) <|
      .field (.option (fun c _ => c.read_write) fun _ => rfl) <| .pure s
  | subgraphCall =>
    refine ⟨_, rfl, by simp, ?_⟩
    exact .field (.present rfl) <| .field (.present (Json.readMap_object Wire.read_write)) <|
      .pure s
  | materialResult =>
    refine ⟨_, rfl, by simp [Channel.all, Channel.key], ?_⟩
    exact .field (.wire s.albedo) <| .field (.wire s.emission) <| .field (.wire s.opacity) <|
      .field (.wire s.normal) <| .field (.wire s.roughness) <| .field (.wire s.metalness) <|
      .field (.wire s.ambientOcclusion) <| .field (.wire s.positionOffset) <| .pure s
  | reroute =>
    refine ⟨_, rfl, by simp, ?_⟩
    exact .field (.wire s.input) <| .pure s
  | comment =>
    refine ⟨_, rfl, by simp, ?_⟩
    exact .field (.nonEmpty s.title) <| .field (.nonEmpty s.text) <| .pure s

/-- A pass makes the same node out of saved settings. -/
theorem kind_build_write (c : NodeClass) {s : c.Settings} (h : c.Finite s) :
    c.kind.build (c.spec.write s) = .ok (c.spec.behavior s) :=
  congrArg (Except.map c.spec.behavior) (c.spec_restores h).build_write

end NodeClass

/-- Saving loses nothing. A document is read as it was written, and so are the settings of
every built-in class and a constant, if their numbers are finite, and wires, textures,
samplers and the hints for the editor. -/
theorem saved_values_restored :
    (∀ d : Document, Document.read d.write = .ok d) ∧
    (∀ (c : NodeClass) (s : c.Settings), c.Finite s →
      c.spec.build (c.spec.write s) = .ok s ∧
        c.kind.build (c.spec.write s) = .ok (c.spec.behavior s)) ∧
    (∀ w : Wire, Wire.read w.write = .ok w) ∧
    (∀ v : Constant, (∀ x ∈ v.floats, x.isFinite = true) → Constant.read v.write = .ok v) ∧
    (∀ t : TextureSpec, TextureSpec.read t.write = .ok t) ∧
    (∀ s : SamplerState, SamplerState.read s.write = .ok s) ∧
    (∀ h : EditorHint, EditorHint.read h.write = .ok h) := by
  refine ⟨Document.read_write, ?_, Wire.read_write, ?_, TextureSpec.read_write,
    SamplerState.read_write, EditorHint.read_write⟩
  · intro c s hs
    exact ⟨(c.spec_restores hs).build_write, c.kind_build_write hs⟩
  · intro v hv
    exact Constant.read_write hv

/-- A named number with a range, which is read back from its document. -/
theorem saved_values_restored_speed :
    let s : NodeClass.Settings (.literal .float) :=
      { value := half, name := "Speed", range := some (zero, one) }
    NodeClass.Finite (.literal .float) s ∧
      (Literal.spec .float).build ((Literal.spec .float).write s) = .ok s := by
  intro s
  have hs : NodeClass.Finite (.literal .float) s := by
    show ∀ x ∈ [half, zero, one], x.isFinite = true
    decide
  exact ⟨hs, (saved_values_restored.2.1 (.literal .float) s hs).1⟩

end MaterialGraph
