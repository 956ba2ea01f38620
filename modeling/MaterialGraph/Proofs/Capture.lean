import MaterialGraph.Proofs.Entries

/-!
# Names that users choose and names that are given

Programs name globals of the engine, variables that are numbered, and entries of their tables. What
users call their parameters, textures and functions is not checked against those names. Parameters
and textures are safe for the most part, because a global has a stem that tells its type and a word
that starts with a capital: only a number that is called `Time` and a vector that is called
`CameraPositionWs` get the name of something that the engine has. A function has the name that its
node gives it, whatever that is.

## Main results

* `Text.Identifier.ofText_head` — how an identifier starts.
* `TypeTable.globalStem_mem_engineGlobals` — the globals of the engine, taken apart.
* `Compiler.session_functions` — where the functions of a pass come from.
* `Compiler.names_captured_only_by_choice` — which names of users are those of something else.
* `Compiler.engine_global_captured` — some are.
-/

namespace MaterialGraph

open Text

/-! ### Identifiers and the engine -/

namespace Text.Identifier

/-- A letter or a digit in capitals is a capital or a digit. -/
theorem isUpper_or_isDigit_toUpper {c : Char} (hc : c.isAlphanum = true) :
    c.toUpper.isUpper = true ∨ c.toUpper.isDigit = true := by
  have h := of_isAlphanum (P := fun c => c.toUpper.isUpper || c.toUpper.isDigit)
    (by decide +kernel) hc
  exact Bool.or_eq_true_iff.mp h

theorem capitalized_head (cs : List Char) :
    ∀ c ∈ (capitalized true cs).head?, c.isUpper = true ∨ c.isDigit = true := by
  induction cs with
  | nil => exact fun c hc => by cases hc
  | cons d cs ih =>
    rw [capitalized_cons]
    split
    · next hd =>
      intro c hc
      obtain rfl : d.toUpper = c := Option.some.inj hc
      exact isUpper_or_isDigit_toUpper hd
    · exact ih

/-- **An identifier starts with a capital or an underscore.** -/
theorem ofText_head (text : String) :
    ∀ c ∈ (ofText text).toList.head?, c.isUpper = true ∨ c = '_' := by
  have hhead := capitalized_head text.toList
  rw [ofText, String.toList_ofList]
  cases hl : capitalized true text.toList with
  | nil => exact fun c hc => by cases hc
  | cons d ds =>
    rw [hl] at hhead
    intro c hc
    rw [guardDigit] at hc
    split at hc
    · exact .inr (Option.some.inj hc).symm
    · next hd =>
      obtain rfl : d = c := Option.some.inj hc
      exact .inl ((hhead d rfl).resolve_right hd)

end Text.Identifier

/-- **The globals of the engine** that start with the stem of a type. -/
theorem TypeTable.globalStem_mem_engineGlobals (t : ShaderType) (word : String) :
    builtin.globalStem t ++ word ∈ engineGlobals ↔
      t = .float ∧ word = "Time" ∨
      t ∈ [.vector2, .vector3, .vector4, .color, .any] ∧ word = "CameraPositionWs" ∨
      t ∈ [.matrix2, .matrix3, .matrix4] ∧
        word ∈ ["atObjectToWorld", "atWorldToView", "atViewToProjection"] := by
  -- each global of the engine is the stem of a type and a word
  have hsplit (u : ShaderType) (rest : String) :
      builtin.globalStem t ++ word = builtin.globalStem u ++ rest ↔
        builtin.globalStem t = builtin.globalStem u ∧ word = rest :=
    ⟨globalStem_injective, fun h => by rw [h.1, h.2]⟩
  have hengine : engineGlobals = [builtin.globalStem .float ++ "Time",
      builtin.globalStem .vector3 ++ "CameraPositionWs",
      builtin.globalStem .matrix4 ++ "atObjectToWorld",
      builtin.globalStem .matrix4 ++ "atWorldToView",
      builtin.globalStem .matrix4 ++ "atViewToProjection"] := by decide
  have hfloat : builtin.globalStem t = builtin.globalStem .float ↔ t = .float := by
    cases t <;> decide
  have hvector : builtin.globalStem t = builtin.globalStem .vector3 ↔
      t ∈ [.vector2, .vector3, .vector4, .color, .any] := by
    cases t <;> decide
  have hmatrix : builtin.globalStem t = builtin.globalStem .matrix4 ↔
      t ∈ [.matrix2, .matrix3, .matrix4] := by
    cases t <;> decide
  rw [hengine]
  simp only [List.mem_cons (a := builtin.globalStem t ++ word), List.not_mem_nil, or_false, hsplit,
    hfloat, hvector, hmatrix]
  simp only [List.mem_cons (a := word), List.not_mem_nil, or_false, and_or_left]

/-- The parameter is called like a global of the engine. -/
def Parameter.TakesEngineName (p : Parameter) : Prop :=
  p.type = .float ∧ p.name = "Time" ∨
    p.type ∈ [.vector2, .vector3, .vector4, .color] ∧ p.name = "CameraPositionWs"

theorem Parameter.Spelled.mem_engineGlobals_iff {p : Parameter} (h : p.Spelled .builtin) :
    p.global ∈ engineGlobals ↔ p.TakesEngineName := by
  have hany : p.type ≠ .any := by
    intro hany
    have hexposed := h.exposed
    rw [hany] at hexposed
    split at hexposed
    · cases hexposed
    · cases hexposed
  -- a name does not start with the letter that the matrices of the engine go on with
  have hmatrix : p.name ∉ ["atObjectToWorld", "atWorldToView", "atViewToProjection"] := by
    obtain ⟨text, htext⟩ := h.name
    have hhead := Identifier.ofText_head text
    rw [← htext] at hhead
    intro hmem
    have ha : p.name.toList.head? = some 'a' := by
      revert hmem
      generalize p.name = name
      rw [List.mem_cons, List.mem_cons, List.mem_singleton]
      rintro (rfl | rfl | rfl) <;> rfl
    rcases hhead 'a' ha with hupper | hscore
    · exact absurd hupper (by decide)
    · exact absurd hscore (by decide)
  rw [h.global, TypeTable.globalStem_mem_engineGlobals, TakesEngineName]
  simp only [hmatrix, and_false, or_false, List.mem_cons (a := p.type), List.not_mem_nil, hany]

theorem Sampler.Spelled.not_mem_engineGlobals {s : Sampler} (h : s.Spelled .builtin) :
    s.global ∉ engineGlobals := by
  obtain ⟨n, hn⟩ := h
  rw [hn, Globals.samplerName, String.append_assoc, TypeTable.globalStem_mem_engineGlobals]
  simp

theorem Texture.Spelled.not_mem_engineGlobals {t : Texture} (h : t.Spelled .builtin) :
    t.global ∉ engineGlobals := by
  rw [h.global, TypeTable.globalStem_mem_engineGlobals]
  rcases t.spec.isTexture_type with htype | htype
  · simp [htype]
  · simp [htype]

/-! ### The functions of a program -/

/-- A node of the document, or of one that can be called, gives its function the name. -/
def Compiler.NamesFunction (c : Compiler) (d : Document) (name : String) : Prop :=
  ∃ d' node s, (d' = d ∨ ∃ path, c.library path = some d') ∧ node ∈ d'.nodes ∧
    node.className = FunctionSettings.spec.name ∧
    FunctionSettings.spec.build node.settings = .ok s ∧ s.errors = [] ∧ s.name = name

/-- A registration is no function, or one with a text that is admitted. -/
def Registration.Admitted (source : String → Prop) (r : Registration) : Prop :=
  ∀ text, r = .function text → source text

/-- Nothing but the request for a function registers one. -/
theorem Command.Enters.function {c : Command} {text : String} (h : c.Enters (.function text)) :
    c = .function text := by
  cases c with
  | function source =>
    cases h
    rfl
  | parameter spec | toggle name initial | texture spec name fallback =>
    obtain ⟨_, h⟩ := h
    cases h
  | _ => cases h

namespace Pass

/-- The discipline of registering no functions but those that are admitted. -/
def sourcing (source : String → Prop) (G : Globals → Prop) : Discipline where
  world _ _ := { World.lax with source }
  tables := G
  extra _ := True

/-- The nodes of all documents in reach have functions that are admitted. -/
def Admits (env : Environment) (source : String → Prop) : Prop :=
  ∀ d node (c : NodeClass) (s : c.Settings), env.InReach d → node ∈ d.nodes →
    node.className = c.name → c.spec.build node.settings = .ok s → c.spec.errors s = [] →
    ∀ text ∈ c.sources env.types s, source text

variable {env : Environment} {source : String → Prop} {G : Globals → Prop}

/-- **Every step registers admitted functions alone**, so it keeps what is stable then. -/
theorem sourcing_kept (hc : env.catalog = .builtin)
    (hG : Globals.Stable env.types (Registration.Admitted source) G)
    (hsource : Admits env source) : (sourcing source G).Kept env where
  closed _ _ := ⟨⟨fun _ => trivial, fun _ _ _ => trivial⟩, fun _ => trivial⟩
  mono _ _ := .refl _
  lost _ _ := trivial
  register {s c} h hreg ha r := by
    refine ⟨hG.perform h.tables r hreg fun q hq text htext => ?_, lax_answers env r c s⟩
    subst htext
    rw [hq.function] at ha
    exact ha
  same _ _ _ _ _ := trivial
  emit _ _ := ⟨trivial, trivial⟩
  plans {b} hb he stage s W hW hle frame output hf := by
    obtain ⟨d, node, cl, settings, hd, hnode, hclass, hbuild, rfl⟩ := hb.builtin hc
    refine cl.plan_meets (hf ▸ hW) settings he (fun text htext => ?_) output
    rw [hf] at htext
    exact (hle.source _).mpr (hsource d node cl settings hd hnode hclass hbuild he text htext)

theorem Session.sourced (hc : env.catalog = .builtin)
    (hG : Globals.Stable env.types (Registration.Admitted source) G)
    (hsource : Admits env source) {s s' : Pass} {l : List Event} (hl : Session env s s' l)
    (hs : Fresh s) (hstart : G s.globals) : G s'.globals := by
  have hinv : (sourcing source G).Inv s := .of_fresh hs trivial hstart
  exact ((sourcing_kept hc hG hsource).session hl (hs.stocked env) hinv).1.tables

end Pass

namespace Globals

/-- The names of functions have a property if those of the admitted texts have it. -/
theorem named_stable (types : TypeTable) (P : String → Prop) :
    Stable types (Registration.Admitted fun text => ∀ name, Declares (trimmed text) name → P name)
      fun g => ∀ f ∈ g.functions, P f.name where
  change ha hchange h := by
    cases hchange with
    | @function _ source name hname =>
      exact forall_mem_concat h (ha source rfl name (declaredName?_eq_some_iff.mp hname))
    | _ => exact h
  toggles _ h _ := h
  develop h _ _ _ _ := h

end Globals

/-- The globals that a program declares. -/
def Program.globals (p : Program) : List String :=
  p.parameters.map Parameter.global ++ p.samplers.map Sampler.global ++
    p.textures.map Texture.global

namespace Compiler

variable {c : Compiler} {d : Document} {o : Options} {result : Compilation} {p : Program}

/-- Only two classes have functions: one has the user's, one its own. -/
theorem admits_named (ht : c.types = .builtin) (mode : Mode) :
    Pass.Admits (c.environment mode d) fun text =>
      ∀ name, Declares (trimmed text) name → name = "Fresnel" ∨ c.NamesFunction d name := by
  intro d' node cl settings hd' hnode hclass hbuild he text htext name hname
  have htypes : (c.environment mode d).types = .builtin := ht
  rw [← declaredName?_eq_some_iff, trimmed] at hname
  cases cl with
  | function =>
    rw [List.mem_singleton.mp htext, htypes,
      FunctionSettings.declaredName?_declaration (FunctionSettings.isIdentifier_name he)] at hname
    exact .inr ⟨d', node, settings, hd', hnode, hclass, hbuild, he, Option.some.inj hname⟩
  | fresnel =>
    rw [List.mem_singleton.mp htext, FresnelSettings.declaredName?_source] at hname
    exact .inl (Option.some.inj hname).symm
  | _ => cases htext

/-- **A function that a pass registers is that of the library, or a node names it.** -/
theorem session_functions (hc : c.catalog = .builtin) (ht : c.types = .builtin) {mode : Mode}
    {s s' : Pass} {l : List Pass.Event} (hl : Pass.Session (c.environment mode d) s s' l)
    (hfresh : Pass.Fresh s) :
    ∀ f ∈ s'.globals.functions, f.name = "Fresnel" ∨ c.NamesFunction d f.name := by
  refine hl.sourced hc (Globals.named_stable _ _) (admits_named ht mode) hfresh ?_
  obtain ⟨declarations, rfl⟩ := hfresh
  exact List.forall_mem_nil _

theorem program_functions (hc : c.catalog = .builtin) (ht : c.types = .builtin)
    (h : c.compile d o = .ok result ∨ ∃ target, c.preview d o target = .ok result)
    (hp : result.program = some p) :
    ∀ name ∈ p.functions, name = "Fresnel" ∨ c.NamesFunction d name := by
  obtain ⟨mode, s, draft, t, l, hfresh, hsession, rfl⟩ := program_session h hp
  exact List.forall_mem_map.mpr (session_functions hc ht hsession hfresh)

/-- The function of the library is called like nothing else: it starts with another letter. -/
theorem fresnel_apart {draft : Draft} {t : Template}
    (h : draft.pass.globals.Spelled .builtin) :
    "Fresnel" ∉ engineGlobals ∧ "Fresnel" ∉ (draft.program .builtin o t).globals ∧
      ∀ n, "Fresnel" ≠ localName n := by
  refine ⟨by decide, fun hmem => ?_, fun n heq => ?_⟩
  · obtain ⟨type, word, hword, heq⟩ := h.stem_word _ hmem
    obtain ⟨cs, hlist, -⟩ := TypeTable.builtin_global type hword
    rw [← heq] at hlist
    cases (List.cons.inj hlist).1
  · have hlist := congrArg String.toList heq
    rw [localName_toList] at hlist
    cases (List.cons.inj hlist).1

/-- **Names of the user are those of something else by choice alone.** In every program, no sampler
and no texture has the name of a global of the engine, and a parameter has it just if it is a number
called `Time` or a vector called `CameraPositionWs`. A function that is called like a global of the
engine, a global that is declared or a local variable has that name from its node. -/
theorem names_captured_only_by_choice (c : Compiler) (hc : c.catalog = .builtin)
    (ht : c.types = .builtin) (d : Document) (o : Options) (result : Compilation) (p : Program)
    (h : c.compile d o = .ok result ∨ ∃ target, c.preview d o target = .ok result)
    (hp : result.program = some p) :
    (∀ q ∈ p.parameters, q.global ∈ engineGlobals ↔ q.TakesEngineName) ∧
    (∀ s ∈ p.samplers, s.global ∉ engineGlobals) ∧
    (∀ t ∈ p.textures, t.global ∉ engineGlobals) ∧
    ∀ name ∈ p.functions, name ∈ engineGlobals ∨ name ∈ p.globals ∨ (∃ n, name = localName n) →
      c.NamesFunction d name := by
  have hfunctions := program_functions hc ht h hp
  obtain ⟨draft, t, rfl, hspelled⟩ := program_spelled h hp
  rw [ht] at hspelled hfunctions ⊢
  refine ⟨fun q hq => (hspelled.parameters q hq).mem_engineGlobals_iff,
    fun s hs => (hspelled.samplers s hs).not_mem_engineGlobals,
    fun u hu => (hspelled.textures u hu).not_mem_engineGlobals, fun name hname hother => ?_⟩
  rcases hfunctions name hname with rfl | hnode
  · obtain ⟨hengine, hglobal, hlocal⟩ := fresnel_apart (o := o) (t := t) hspelled
    rcases hother with hother | hother | ⟨n, hother⟩
    · exact absurd hother hengine
    · exact absurd hother hglobal
    · exact absurd hother (hlocal n)
  · exact hnode

/-- A clock with a number and a vector of its own. It shows the time twice, from the number and from
the engine, and has three functions: one is called like the vector, one like a matrix of the engine
and one like a local variable. -/
def clockDocument : Document where
  nodes := [
    .of .materialResult 1
      { albedo := .ofNode 3, emission := .ofNode 6, opacity := .ofNode 5, normal := .ofNode 7,
        roughness := .ofNode 2, metalness := .ofNode 4, ambientOcclusion := .ofNode 8 },
    .of (.literal .float) 2 { value := zero, name := "time" },
    .of (.literal .vector3) 3 { value := (⟨zero, zero, zero⟩ : Vec3), name := "hand" },
    .of (.surface .time) 4 (),
    .of .function 5 { name := "l_0", body := "return 1;" },
    .of .fresnel 6 {},
    .of .function 7 { name := "g_vHand", body := "return 1;" },
    .of .function 8 { name := "g_matWorldToView", body := "return 1;" }]

/-- What the program of the clock declares. Nothing is reported. -/
theorem clock_declares : ∃ result p,
    compile {} clockDocument {} = .ok result ∧ result.program = some p ∧
    result.report.entries = [] ∧ p.parameters.map Parameter.global = ["g_vHand", "g_flTime"] ∧
    p.functions = ["Fresnel", "l_0", "g_vHand", "g_matWorldToView"] := by
  obtain ⟨result, p, hr, hp, hf⟩ := exists_program (c := {}) (d := clockDocument) (o := {})
    (f := fun r p => (r.report.entries, p.parameters.map Parameter.global, p.functions))
    (a := ([], ["g_vHand", "g_flTime"], ["Fresnel", "l_0", "g_vHand", "g_matWorldToView"]))
    (by decide +kernel)
  obtain ⟨hreport, hrest⟩ := Prod.mk.inj hf
  obtain ⟨hparameters, hfunctions⟩ := Prod.mk.inj hrest
  exact ⟨result, p, hr, hp, hreport, hparameters, hfunctions⟩

theorem names_captured_only_by_choice_clock : ∃ result p,
    compile {} clockDocument {} = .ok result ∧ result.program = some p ∧
    p.functions = ["Fresnel", "l_0", "g_vHand", "g_matWorldToView"] ∧
    (∀ q ∈ p.parameters, q.global ∈ engineGlobals ↔ q.TakesEngineName) ∧
    NamesFunction {} clockDocument "l_0" ∧ NamesFunction {} clockDocument "g_matWorldToView" := by
  obtain ⟨result, p, hr, hp, -, -, hfunctions⟩ := clock_declares
  obtain ⟨hengine, -, -, hnames⟩ :=
    names_captured_only_by_choice {} rfl rfl clockDocument {} result p (.inl hr) hp
  rw [hfunctions] at hnames
  exact ⟨result, p, hr, hp, hfunctions, hengine, hnames _ (by simp) (.inr (.inr ⟨0, rfl⟩)),
    hnames _ (by simp) (.inl (by decide))⟩

/-- **Names of the user are not checked.** A number that is called `time` gets the global from which
the engine tells the time, and functions can be called like a global of the engine, like a global
that the program declares itself, and like a local variable. Nothing is reported. -/
theorem engine_global_captured : ∃ result p,
    compile {} clockDocument {} = .ok result ∧ result.program = some p ∧
    result.report.entries = [] ∧
    (∃ q ∈ p.parameters, q.global = "g_flTime" ∧ q.global ∈ engineGlobals) ∧
    ("g_matWorldToView" ∈ p.functions ∧ "g_matWorldToView" ∈ engineGlobals) ∧
    ("g_vHand" ∈ p.functions ∧ "g_vHand" ∈ p.globals) ∧ localName 0 ∈ p.functions := by
  obtain ⟨result, p, hr, hp, hreport, hparameters, hfunctions⟩ := clock_declares
  have hglobals : ∀ global ∈ ["g_vHand", "g_flTime"], ∃ q ∈ p.parameters, q.global = global := by
    rw [← hparameters]
    exact fun global => List.mem_map.mp
  have hnames : ∀ name ∈ ["l_0", "g_vHand", "g_matWorldToView"], name ∈ p.functions := by
    rw [hfunctions]
    exact fun name => List.mem_cons_of_mem _
  obtain ⟨q, hq, htime⟩ := hglobals "g_flTime" (by simp)
  obtain ⟨q', hq', hhand⟩ := hglobals "g_vHand" (by simp)
  refine ⟨result, p, hr, hp, hreport, ⟨q, hq, htime, ?_⟩, ⟨hnames _ (by simp), by decide⟩,
    ⟨hnames _ (by simp), ?_⟩, hnames _ List.mem_cons_self⟩
  · rw [htime]
    decide
  · rw [← hhand]
    exact List.mem_append_left _ (List.mem_append_left _ (List.mem_map_of_mem hq'))

end Compiler

end MaterialGraph
