import MaterialGraph.Proofs.Functions
import MaterialGraph.Proofs.Textures

/-!
# How entries get their names

Whatever is registered gets the names of its entry from a text, a type and perhaps a number, and
keeps them. So what holds of the names of an entry when it is made holds of all entries at every
moment, and in every program. Other changes of the tables are few: the attribute of a feature gets
an owner, and a texture learns what became of its image.

## Main results

* `Globals.Stable.invariant` — every step of a pass keeps a stable property of the tables.
* `Compiler.program_session` — a program is what the tables of a pass hold in the end.
* `Globals.spelled_stable` — how entries are spelled is stable.
* `Compiler.program_spelled` — the entries of every program are spelled so.
-/

namespace MaterialGraph

open Text

/-! ### Changes of the tables -/

namespace Globals.Stable

/-- **Every step of a pass keeps a property of the tables that every registration keeps.** -/
theorem invariant {env : Environment} {G : Globals → Prop}
    (h : Stable env.types (fun _ => True) G) : Pass.Invariant env fun s => G s.globals where
  place hs _ _ _ := hs
  push hs _ := hs
  root hs := by
    obtain ⟨_, _, _, _, -, he⟩ := Pass.root_prepared env _
    rw [he]
    exact hs
  follow hs scope := by
    obtain ⟨_, _, _, _, -, he⟩ := Pass.follow_prepared env scope _
    rw [he]
    exact hs
  register hs r _ hc := h.perform hs r hc fun _ _ => trivial
  note hs _ := hs
  emit hs _ _ _ := hs
  remember hs _ _ := hs

end Globals.Stable

namespace Compiler

open Pass

variable {c : Compiler} {d : Document} {o : Options} {result : Compilation} {p : Program}

/-- A program is made from what the tables of a pass hold in the end. -/
theorem program_session
    (h : c.compile d o = .ok result ∨ ∃ target, c.preview d o target = .ok result)
    (hp : result.program = some p) :
    ∃ (mode : Mode) (s : Pass) (draft : Draft) (t : Template) (l : List Event), Fresh s ∧
      Session (c.environment mode d) s draft.pass l ∧ p = draft.program c.types o t := by
  rcases h with h | ⟨target, h⟩
  · obtain ⟨t, draft, hd, rfl⟩ := compile_eq_ok h
    obtain ⟨s', hsession, hend⟩ := materialTrace_session c d o
    obtain rfl := hend draft hd
    exact ⟨o.mode, _, draft, t, _, firstPass_fresh o.blend, hsession,
      (Draft.program_of_compilation hp).symm⟩
  · obtain ⟨t, rfl⟩ := preview_eq_ok h
    exact ⟨.preview, {}, _, t, _, ⟨[], rfl⟩, previewTrace_session c d target,
      (Draft.program_of_compilation hp).symm⟩

/-- A compilation of which something is known about the program. -/
theorem exists_program {α : Type} {f : Compilation → Program → α} {a : α}
    (h : ((c.compile d o).toOption.bind fun r => r.program.map (f r)) = some a) :
    ∃ result p, c.compile d o = .ok result ∧ result.program = some p ∧ f result p = a := by
  cases hr : c.compile d o with
  | error rejection => rw [hr] at h; cases h
  | ok result =>
    rw [hr] at h
    obtain ⟨p, hp, hf⟩ := Option.map_eq_some_iff.mp h
    exact ⟨result, p, rfl, hp, hf⟩

/-- The tables of a program have every stable property. -/
theorem program_stable {G : Globals → Prop} (hG : Globals.Stable c.types (fun _ => True) G)
    (hfresh : ∀ declarations, G { declarations })
    (h : c.compile d o = .ok result ∨ ∃ target, c.preview d o target = .ok result)
    (hp : result.program = some p) :
    ∃ (draft : Draft) (t : Template), p = draft.program c.types o t ∧ G draft.pass.globals := by
  obtain ⟨mode, s, draft, t, l, ⟨declarations, rfl⟩, hsession, rfl⟩ := program_session h hp
  have hinvariant : Pass.Invariant (c.environment mode d) fun s => G s.globals := hG.invariant
  exact ⟨draft, t, rfl, (hinvariant.session hsession (hfresh declarations)).1⟩

end Compiler

/-! ### Entries -/

/-- A parameter has an identifier as its name, its type can be shown or bound as it asks, and the
global is the stem of the type and the name. -/
structure Parameter.Spelled (types : TypeTable) (p : Parameter) : Prop where
  name : ∃ text, p.name = Identifier.ofText text
  nonempty : p.name.isEmpty = false
  global : p.global = types.globalStem p.type ++ p.name
  /-- The type of an attribute can be bound, that of another parameter can be edited. -/
  exposed : (if p.isAttribute then (types.row p.type).bindable else (types.row p.type).editable) =
    true

/-- A sampler is numbered. -/
def Sampler.Spelled (types : TypeTable) (s : Sampler) : Prop :=
  ∃ n, s.global = Globals.samplerName types n

/-- A texture has an identifier as its name, or a number. -/
structure Texture.Spelled (types : TypeTable) (t : Texture) : Prop where
  /-- The name is an identifier or ends in a number. -/
  name : (∃ text, t.name = Identifier.ofText text ∧ t.name.isEmpty = false) ∨
    ∃ n : Nat, t.name = "Texture" ++ toString n
  global : t.global = types.globalStem t.spec.type ++ t.name

/-- A feature has both spellings of one text. -/
def Feature.Spelled (f : Feature) : Prop :=
  ∃ text, f.name = Identifier.ofText text ∧ f.identifier = Identifier.screaming text ∧
    f.identifier.isEmpty = false

/-- A function has the name that its text declares. -/
def Function.Spelled (f : Function) : Prop := Declares f.body f.name

theorem Parameter.Spelled.isWord {types : TypeTable} {p : Parameter} (h : p.Spelled types) :
    IsWord p.name := by
  obtain ⟨text, htext⟩ := h.name
  exact htext ▸ Identifier.isWord_ofText text

theorem Texture.Spelled.isWord {types : TypeTable} {t : Texture} (h : t.Spelled types) :
    IsWord t.name := by
  rcases h.name with ⟨text, htext, -⟩ | ⟨n, hn⟩
  · exact htext ▸ Identifier.isWord_ofText text
  · exact hn ▸ IsWord.append (.of_all (by decide)) (isWord_toString n)

namespace Globals

/-- Tables with entries that are spelled well. -/
structure Spelled (types : TypeTable) (g : Globals) : Prop where
  parameters : ∀ p ∈ g.parameters, p.Spelled types
  samplers : ∀ s ∈ g.samplers, s.Spelled types
  textures : ∀ t ∈ g.textures, t.Spelled types
  features : ∀ f ∈ g.features, f.Spelled
  functions : ∀ f ∈ g.functions, f.Spelled

theorem spelled_fresh (types : TypeTable) (declarations : List String) :
    Spelled types { declarations } :=
  ⟨List.forall_mem_nil _, List.forall_mem_nil _, List.forall_mem_nil _, List.forall_mem_nil _,
    List.forall_mem_nil _⟩

variable {types : TypeTable} {g : Globals}

/-- The globals of parameters, samplers and textures are a stem and a word. -/
theorem Spelled.stem_word (h : g.Spelled types) :
    ∀ name ∈ g.variableNames, ∃ t word, IsWord word ∧ name = types.globalStem t ++ word := by
  intro name hname
  rcases List.mem_append.mp hname with hname | hname
  · rcases List.mem_append.mp hname with hname | hname
    · obtain ⟨p, hp, rfl⟩ := List.mem_map.mp hname
      exact ⟨p.type, p.name, (h.parameters p hp).isWord, (h.parameters p hp).global⟩
    · obtain ⟨s, hs, rfl⟩ := List.mem_map.mp hname
      obtain ⟨n, hn⟩ := h.samplers s hs
      exact ⟨.sampler, "Sampler" ++ toString n,
        IsWord.append (.of_all (by decide)) (isWord_toString n),
        by rw [hn, samplerName, String.append_assoc]⟩
  · obtain ⟨t, ht, rfl⟩ := List.mem_map.mp hname
    exact ⟨t.spec.type, t.name, (h.textures t ht).isWord, (h.textures t ht).global⟩

theorem spelled_stable (types : TypeTable) : Stable types (fun _ => True) (Spelled types) where
  change _ hchange h := by
    obtain ⟨hparameters, hsamplers, htextures, hfeatures, hfunctions⟩ := h
    cases hchange with
    | @parameter _ spec node hfault _ _ =>
      obtain ⟨hexposed, hname⟩ := ParameterSpec.fault?_eq_none hfault
      refine ⟨forall_mem_concat hparameters ⟨⟨_, rfl⟩, hname, rfl, ?_⟩, hsamplers, htextures,
        hfeatures, hfunctions⟩
      -- no fault was found with the type
      unfold exposureFault? at hexposed
      unfold ParameterSpec.parameter
      dsimp only at hexposed ⊢
      cases hattribute : spec.isAttribute with
      | true => simpa [hattribute] using hexposed
      | false => simpa [hattribute] using hexposed
    | sampler _ =>
      exact ⟨hparameters, forall_mem_concat hsamplers ⟨_, rfl⟩, htextures, hfeatures, hfunctions⟩
    | @texture _ _ name _ _ _ hword _ _ =>
      refine ⟨hparameters, hsamplers, forall_mem_concat htextures ⟨?_, rfl⟩, hfeatures,
        hfunctions⟩
      rcases hword with hword | hword
      · exact .inl ⟨name, hword⟩
      · exact .inr ⟨_, hword⟩
    | @feature _ name _ hname =>
      exact ⟨hparameters, hsamplers, htextures,
        forall_mem_concat hfeatures ⟨name, rfl, rfl, hname⟩, hfunctions⟩
    | function hname =>
      exact ⟨hparameters, hsamplers, htextures, hfeatures,
        forall_mem_concat hfunctions (declaredName?_eq_some_iff.mp hname)⟩
    | _ => exact ⟨hparameters, hsamplers, htextures, hfeatures, hfunctions⟩
  toggles _ h _ := ⟨h.parameters, h.samplers, h.textures, h.features, h.functions⟩
  develop {g} h t ht asset fallback := by
    refine ⟨h.parameters, h.samplers, fun u hu => ?_, h.features, h.functions⟩
    obtain ⟨v, hv, rfl⟩ := List.mem_map.mp hu
    have hspelled := h.textures t ht
    split
    · exact ⟨hspelled.name, hspelled.global⟩
    · exact h.textures v hv

end Globals

/-- **The entries of every program are spelled so.** -/
theorem Compiler.program_spelled {c : Compiler} {d : Document} {o : Options}
    {result : Compilation} {p : Program}
    (h : c.compile d o = .ok result ∨ ∃ target, c.preview d o target = .ok result)
    (hp : result.program = some p) :
    ∃ (draft : Draft) (t : Template), p = draft.program c.types o t ∧
      draft.pass.globals.Spelled c.types :=
  program_stable (Globals.spelled_stable c.types) (Globals.spelled_fresh c.types) h hp

end MaterialGraph
