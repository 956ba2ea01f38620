import MaterialGraph.Proofs.Cycles
import MaterialGraph.Proofs.Declared
import MaterialGraph.Proofs.Likeness

/-!
# Functions that are called

A node that calls a function registers it first, gets its name, and only then asks for the values
of the arguments. So when the call is written, into a variable of its own, the function is in the
tables. Together with what is known of globals and features this says that a program declares
whatever its stages refer to.

## Main results

* `Pass.carryOut_call` — a call is written after its function has been registered.
* `Pass.Course.headed` — this is so for all calls of a pass.
* `Compiler.globals_declared` — **a program declares what its stages refer to.**
-/

namespace MaterialGraph

open Text

/-! ### Plans that end with a call -/

/-- The name of the function that a node calls. -/
def NodeClass.head? : (c : NodeClass) → c.Settings → Option String
  | .function, st => some st.name
  | .fresnel, _ => some "Fresnel"
  | _, _ => none

/-- Whatever a plan is answered, what it ends with is as `Q` says. -/
def Plan.Gives {α : Type} (Q : α → Prop) : Plan α → Prop
  | .done a => Q a
  | .fail _ => True
  | .ask _ next => ∀ reply, (next reply).Gives Q

theorem Plan.gives_bind {α β : Type} {Q : β → Prop} (p : Plan α) {k : α → Plan β}
    (hk : ∀ a, (k a).Gives Q) : (p >>= k).Gives Q := by
  induction p with
  | done a => exact hk a
  | fail fault => trivial
  | ask c next ih => exact fun reply => ih reply

namespace Pass

variable {env : Environment} {r : Resolver} {s s' : Pass}

theorem run_gives {α : Type} {Q : α → Prop} {a : α} (plan : Plan α) : ∀ s : Pass, plan.Gives Q →
    run env r plan s = (.ok a, s') → Q a := by
  induction plan with
  | done a =>
    intro s hplan ha
    cases ha
    exact hplan
  | fail fault =>
    intro s _ ha
    cases ha
  | ask c next ih => exact fun s hplan => ih _ _ (hplan _)

/-- The function is registered when its call is written, whatever the arguments are. -/
theorem run_call (hr : r.Returning) {source : String} {rest : String → Plan Expr}
    {type : ShaderType}
    (hrest : ∀ name, (rest name).Gives fun e => ∃ arguments, e = .ofCall name arguments type)
    {e : Expr} (he : run env r (Plan.request (.function source) >>= fun x =>
      Plan.ofExcept x >>= rest) s = (.ok e, s')) :
    ∃ name arguments, declaredName? (String.ofList (trim source.toList)) = some name ∧
      e = .ofCall name arguments type ∧ name ∈ s'.globals.functions.map Function.name := by
  obtain ⟨x, s₁, hx, he⟩ := run_bind_eq_ok he
  rw [run_request, perform_function] at hx
  rcases hadd : s.globals.addFunction source with ⟨x', g'⟩
  rw [hadd] at hx
  obtain ⟨hreply, rfl⟩ := Prod.mk.inj hx
  rw [← Except.ok.inj hreply] at he
  obtain ⟨name, s₂, hname, he⟩ := run_bind_eq_ok he
  rw [run_ofExcept] at hname
  obtain ⟨rfl, rfl⟩ := Prod.mk.inj hname
  obtain ⟨hdeclared, hmem⟩ := Globals.addFunction_eq_ok hadd
  obtain ⟨arguments, rfl⟩ := run_gives (rest name) _ (hrest name) he
  -- what follows the registration only adds to the tables
  have hgrows := run_returns env hr (rest name) { s with globals := g' }
  rw [he] at hgrows
  exact ⟨name, arguments, hdeclared, rfl, (hgrows.tables.functions.map _).subset hmem⟩

end Pass

/-! ### Nodes that call -/

/-- A call with its parentheses does not only name something. -/
theorem Expr.isReference_ofCall (name : String) (arguments : List Expr) (type : ShaderType) :
    isReference (Expr.ofCall name arguments type).code = false := by
  have hmem : '(' ∈ (Expr.ofCall name arguments type).code.toList := by
    unfold Expr.ofCall
    split
    · simp [String.toList_append]
    · simp [String.toList_append]
  unfold isReference
  split
  · rfl
  · next c cs hcode =>
    rw [hcode] at hmem
    rw [Bool.and_eq_false_iff, List.all_eq_false]
    exact .inr ⟨'(', hmem, by decide⟩

namespace NodeClass

variable {c : NodeClass} {st : c.Settings} {head : String}

/-- A node that calls a function is no result of a material. -/
theorem role_of_head? (h : c.head? st = some head) : (c.spec.behavior st).role ≠ .materialRoot := by
  cases c with
  | function => rintro ⟨⟩
  | fresnel => rintro ⟨⟩
  | _ => cases h

/-- A node that calls a function registers it first, and ends with a call of what has been
registered. -/
theorem plan_of_head? (h : c.head? st = some head) (he : c.spec.errors st = []) {frame : Frame}
    (ht : frame.types = .builtin) (output : String) :
    ∃ className source rest type, (c.spec.behavior st).plan frame output =
        .onlyResult className output
          (Plan.request (.function source) >>= fun x => Plan.ofExcept x >>= rest) ∧
      declaredName? (String.ofList (trim source.toList)) = some head ∧ type.Storable ∧
      ∀ name, (rest name).Gives fun e => ∃ arguments, e = .ofCall name arguments type := by
  cases c with
  | function =>
    cases h
    refine ⟨_, _, _, st.resultType, rfl, ?_, FunctionSettings.storable_of_errors he, ?_⟩
    · rw [ht]
      exact FunctionSettings.declaredName?_declaration (FunctionSettings.isIdentifier_name he)
    · exact fun name => Plan.gives_bind _ fun es => ⟨es, rfl⟩
  | fresnel =>
    cases h
    refine ⟨_, _, _, .float, rfl, FresnelSettings.declaredName?_source, ⟨rfl, by decide⟩, ?_⟩
    intro name
    refine Plan.gives_bind _ fun normal => Plan.gives_bind _ fun view => ?_
    refine Plan.gives_bind _ fun power => Plan.gives_bind _ fun power' => ?_
    exact ⟨[normal, view, power'], rfl⟩
  | _ => cases h

end NodeClass

theorem Environment.Stands.unique {env : Environment} {site : Site} {c c' : NodeClass}
    {st : c.Settings} {st' : c'.Settings} (h : env.Stands site c st)
    (h' : env.Stands site c' st') :
    (⟨c, st⟩ : (c : NodeClass) × c.Settings) = ⟨c', st'⟩ := by
  obtain ⟨node, hnode, hbuilt, -⟩ := h
  obtain ⟨node', hnode', hbuilt', -⟩ := h'
  rw [hnode] at hnode'
  cases hnode'
  exact Option.some.inj (hbuilt.symm.trans hbuilt')

namespace Pass

variable {env : Environment} {r : Resolver} {s s' : Pass} {c : NodeClass} {st : c.Settings}
  {head : String} {site : Site}

/-- **A call is written after its function has been registered.** The value has to be moved into a
variable. -/
theorem carryOut_call (ht : env.types = .builtin) (hr : r.Returning)
    (hhead : c.head? st = some head) (herr : c.spec.errors st = []) {e : Expr}
    (he : carryOut env r site (c.spec.behavior st) s = (.ok e, s')) :
    ∃ arguments type, e = .ofCall head arguments type ∧ staysInline e = false ∧
      head ∈ s'.globals.functions.map Function.name := by
  have htypes : (frame env site).types = .builtin := ht
  obtain ⟨className, source, rest, type, hplan, hdeclared, htype, hrest⟩ :=
    NodeClass.plan_of_head? hhead herr htypes site.output
  unfold carryOut at he
  rw [hplan] at he
  obtain ⟨name, arguments, hname, rfl, hmem⟩ := run_call hr hrest (run_onlyResult he)
  cases hdeclared.symm.trans hname
  refine ⟨arguments, type, rfl, ?_, hmem⟩
  unfold staysInline
  rw [Expr.isReference_ofCall, show (Expr.ofCall head arguments type).type = type from rfl, htype.1]
  simpa [Expr.ofCall] using htype.2

/-! ### The calls of a pass -/

/-- The value is a variable of its stage that holds what a call of the function gives, and the
function is registered. -/
def Calls (types : TypeTable) (s : Pass) (site : Site) (head : String) (e : Expr) : Prop :=
  head ∈ s.globals.functions.map Function.name ∧
    ∃ index type arguments, e.code = localName index ∧
      Statement.assign (types.name type) index (Expr.ofCall head arguments type).code ∈
        s.statements site.stage

theorem Calls.mono {types : TypeTable} {e : Expr} (h : Calls types s site head e)
    (hg : Grows s s') : Calls types s' site head e := by
  obtain ⟨hmem, index, type, arguments, hcode, hstatement⟩ := h
  refine ⟨(hg.tables.functions.map _).subset hmem, index, type, arguments, hcode, ?_⟩
  cases hst : site.stage with
  | vertex =>
    rw [hst] at hstatement
    exact hg.vertex.subset hstatement
  | pixel =>
    rw [hst] at hstatement
    exact hg.pixel.subset hstatement

/-- Every call that has given a value has been written. -/
def Headed (env : Environment) (s : Pass) : Prop :=
  ∀ site (c : NodeClass) (st : c.Settings) head e, env.Stands site c st → c.head? st = some head →
    s.progress? site = some (.finished (.valid e)) → Calls env.types s site head e

namespace Headed

theorem of_fresh (h : Fresh s) : Headed env s := by
  intro site c st head e _ _ he
  rw [h.progress?] at he
  cases he

/-- A step that finishes nothing with a value. -/
theorem grows (h : Headed env s) (hg : Grows s s')
    (hm : ∀ site e, s'.progress? site = some (.finished (.valid e)) →
      s.progress? site = some (.finished (.valid e))) : Headed env s' :=
  fun site c st head e hst hhead he => (h site c st head e hst hhead (hm site e he)).mono hg

theorem quiet (h : Headed env s) (hq : Quiet s s') : Headed env s' :=
  h.grows hq.grows fun site e he => by rwa [hq.progress?] at he

theorem emit (h : Headed env s) (statement : Statement) (n : Nat) :
    Headed env { s.emit statement with locals := n } := by
  refine h.grows (emit_returns s statement n).toGrows fun site e he => ?_
  unfold progress? at he ⊢
  rw [← emit_memo s statement]
  exact he

theorem enter (h : Headed env s) (hn : s.progress? site = none) :
    Headed env (s.enter site) := by
  refine h.grows (enter_grows hn) fun other e he => ?_
  rw [progress?_enter] at he
  split at he
  · cases he
  · exact he

/-- Looking a site up finishes nothing with a value. -/
theorem arrive (h : Headed env s) {a : Arrival} (ha : Arrives env site s a s') :
    Headed env s' := by
  rcases ha.cases with hp | ⟨s₁, message, hp, hn, rfl⟩
  · exact h.quiet hp.quiet
  · refine (h.quiet hp.quiet).grows (Discipline.Kept.remember_grows _ fun o => by rw [hn]; simp)
      fun other e he => ?_
    rw [progress?_remember] at he
    split at he
    · cases he
    · exact he

end Headed

/-- The value of a call is moved into a variable. -/
theorem conclude_calls (env : Environment) (node : NodeId) {role : Role} {s : Pass}
    {arguments : List Expr} {type : ShaderType} (hrole : role ≠ .materialRoot)
    (hmoved : staysInline (.ofCall head arguments type) = false)
    (hmem : head ∈ s.globals.functions.map Function.name) (hstage : s.stage = site.stage) :
    ∃ e s', conclude env node role (.ok (.ofCall head arguments type)) s = (.valid e, s') ∧
      Calls env.types s' site head e := by
  rcases conclude_cases env node role (.ok (.ofCall head arguments type)) s
    with ⟨e, he, hin, -⟩ | ⟨e, he, -, hc⟩ | ⟨fault, he, -⟩
  · cases he
    rcases hin with hin | hin
    · exact absurd hin hrole
    · rw [hmoved] at hin
      cases hin
  · cases he
    refine ⟨_, _, hc, ?_, s.locals, type, arguments, rfl, ?_⟩
    · exact ((emit_returns s _ _).tables.functions.map _).subset hmem
    · rw [statements_emit, if_pos hstage]
      exact List.mem_append_right _ List.mem_cons_self
  · cases he

/-- A node that has been asked: if it calls a function, the call has been written. -/
theorem ask_calls (ht : env.types = .builtin) (hr : r.Returning) (hst : env.Stands site c st)
    (hstage : site.stage = s.stage) (hhead : c.head? st = some head) {e : Expr}
    (he : (s.ask env r site (c.spec.behavior st)).1 = .valid e) :
    Calls env.types (s.ask env r site (c.spec.behavior st)).2 site head e := by
  obtain ⟨node, -, -, herr⟩ := hst
  rcases hx : carryOut env r site (c.spec.behavior st) s with ⟨result, s₁⟩
  have hret : Returns (s.enter site) (carryOut env r site (c.spec.behavior st) s).2 :=
    run_returns env hr _ _
  rw [hx] at hret
  rw [ask_eq, outcomeOf, hx] at he ⊢
  cases result with
  | ok e' =>
    obtain ⟨arguments, type, rfl, hmoved, hmem⟩ := carryOut_call ht hr hhead herr hx
    have hstage₁ : s₁.stage = site.stage := hret.stage.trans hstage.symm
    obtain ⟨e', s₂, hc, hcalls⟩ := conclude_calls env site.node
      (s := { s₁ with stack := s.stack, scope := s.scope }) (NodeClass.role_of_head? hhead) hmoved
      hmem hstage₁
    dsimp only at he ⊢
    rw [hc] at he ⊢
    cases he
    exact hcalls
  | error fault => cases fault <;> cases he

/-- **Every call that has given a value has been written**, and its function is registered. -/
theorem Course.headed (hc : env.catalog = .builtin) (ht : env.types = .builtin) {l L : List Event}
    (h : Course env s s' l) (hl : l ⊆ L) (hs : Tracked env L s) (hh : Headed env s) :
    Headed env s' := by
  induction h with
  | append h h' ih ih' =>
    obtain ⟨hl, hl'⟩ := List.append_subset.mp hl
    exact ih' hl' (h.tracked hl hs).1 (ih hl hs hh)
  | silent h => exact hh.quiet h.toQuiet
  | rest h => exact hh
  | performed h => exact hh
  | emitted hi hst => exact hh.emit _ _
  | settled h => exact hh.arrive h
  | deep h hd => exact (hh.arrive h).quiet (.push _ _)
  | @node r site s s' b l hr h hd hst hrun ih =>
    -- what the plan asks for is done with its site on the stack
    have hin := hs.enter (hl List.mem_cons_self) h hd
    have hplan := ih (fun e he => hl (by simp [he])) hin
      ((hh.arrive h).enter h.progress?_eq_none)
    obtain ⟨c, st, hstands, rfl⟩ := h.stands hc hs.faithful
    intro other c' st' head e hother hhead he
    rw [progress?_ask] at he
    split at he
    · next heq =>
      -- the site itself, where the node that was asked stands
      subst heq
      cases hstands.unique hother
      rw [Option.some.injEq, Progress.finished.injEq] at he
      exact ask_calls ht hr hstands (hst.trans h.returns.stage.symm) hhead he
    · exact (hplan other c' st' head e hother hhead he).mono (ask_grows env hr site _ s')

theorem Session.headed (hc : env.catalog = .builtin) (ht : env.types = .builtin) {l : List Event}
    (h : Session env s s' l) (hfresh : Fresh s) : Headed env s' :=
  (h.course (hfresh.stocked _) hfresh.atRest).headed hc ht (List.Subset.refl l) (.of_fresh hfresh)
    (.of_fresh hfresh)

end Pass

/-! ### Programs -/

/-- A line of a program that refers to nothing but what the program declares. -/
structure Program.Declares (p : Program) (declarations : List String) (line : String) : Prop where
  single : '\n' ∉ line.toList
  globals : ∀ w ∈ words line, isGlobalWord w = true → w ∈ engineGlobals ∨
    w ∈ p.parameters.map Parameter.global ∨ w ∈ p.samplers.map Sampler.global ∨
    w ∈ p.textures.map Texture.global ∨ w ∈ p.functions
  /-- A test names the combo of a feature, and the combo is declared. -/
  tests : ∀ combo, line = "#if " ++ combo → ∃ f ∈ p.features, combo = f.combo ∧
    "StaticCombo( " ++ f.combo ++ ", " ++ f.feature ++ ", Sys( ALL ) );" ∈ declarations

/-- A draft of which the program declares whatever the stages refer to. -/
structure Draft.Declares (d : Draft) (env : Environment) (p : Program) : Prop where
  lines : ∀ stage, ∀ line ∈ d.stageLines stage, p.Declares d.pass.globals.declarations line
  /-- The calls of functions, each of which stands in a line of its stage. -/
  calls : ∀ site (c : NodeClass) (st : c.Settings) head e, env.Stands site c st →
    c.head? st = some head → d.pass.progress? site = some (.finished (.valid e)) →
    head ∈ p.functions ∧ ∃ index type arguments, e.code = localName index ∧
      env.types.name type ++ " " ++ localName index ++ " = " ++
        (Expr.ofCall head arguments type).code ++ ";" ∈ d.stageLines site.stage

namespace Draft

variable {d : Draft}

theorem mem_stageLines {stage : Stage} {statement : Statement} {line : String}
    (hs : statement ∈ d.pass.statements stage) (hl : line ∈ statement.lines) :
    line ∈ d.stageLines stage := by
  have hbody : line ∈ statementLines (d.pass.statements stage) := List.mem_flatMap.mpr ⟨_, hs, hl⟩
  cases stage with
  | vertex => exact List.mem_append_left _ hbody
  | pixel => exact List.mem_append_left _ (List.mem_append_right _ hbody)

/-- A program declares what its stages refer to if the tables have it. -/
theorem declares_program {env : Environment} (types : TypeTable) (o : Options) (t : Template)
    (hlines : ∀ stage, ∀ line ∈ d.stageLines stage, d.pass.globals.Closes line)
    (hcalls : d.pass.Headed env) : d.Declares env (d.program types o t) := by
  refine ⟨fun stage line hl => ?_, fun site c st head e hst hhead he => ?_⟩
  · have h := hlines stage line hl
    refine ⟨h.covers.single, fun w hw hglobal => ?_, fun combo hline => ?_⟩
    · exact (h.covers.globals w hw hglobal).imp_right Globals.mem_names.mp
    · obtain ⟨f, hf, hcombo⟩ := h.tests combo hline
      exact ⟨f, hf.1, hcombo, hf.2⟩
  · obtain ⟨hmem, index, type, arguments, hcode, hs⟩ := hcalls site c st head e hst hhead he
    exact ⟨hmem, index, type, arguments, hcode, mem_stageLines hs List.mem_cons_self⟩

theorem program_of_compilation {types : TypeTable} {o : Options} {t : Template} {p : Program}
    (h : (d.compilation types o t).program = some p) : d.program types o t = p := by
  unfold compilation at h
  split at h
  · cases h
  · exact Option.some.inj h

end Draft

namespace Compiler

open Pass

/-- **A program declares whatever its stages refer to**: globals, functions and features. -/
theorem globals_declared (c : Compiler) (hc : c.catalog = .builtin) (ht : c.types = .builtin)
    (d : Document) :
    (∀ o result p, c.compile d o = .ok result → result.program = some p →
      ∃ t draft, c.materialDraft d o = .ok draft ∧ draft.program c.types o t = p ∧
        draft.Declares (c.environment o.mode d) p) ∧
    ∀ o target result p, c.preview d o target = .ok result → result.program = some p →
      ∃ t, (c.previewDraft d target).program c.types o t = p ∧
        (c.previewDraft d target).Declares (c.environment .preview d) p := by
  refine ⟨fun o result p hr hp => ?_, fun o target result p hr hp => ?_⟩
  · obtain ⟨t, draft, hd, rfl⟩ := compile_eq_ok hr
    obtain rfl := Draft.program_of_compilation hp
    obtain ⟨s', hsession, hpass⟩ := materialTrace_session c d o
    refine ⟨t, draft, hd, rfl, Draft.declares_program _ _ _ (materialDraft_closes hc ht hd) ?_⟩
    rw [hpass draft hd]
    exact hsession.headed hc ht (firstPass_fresh o.blend)
  · obtain ⟨t, rfl⟩ := preview_eq_ok hr
    obtain rfl := Draft.program_of_compilation hp
    exact ⟨t, rfl, Draft.declares_program _ _ _ (previewDraft_closes hc ht target)
      ((previewTrace_session c d target).headed hc ht ⟨[], rfl⟩)⟩

/-- A lake that is smooth when it is frozen. Its ripple, a function that is named like a global,
is needed in both stages. -/
def lakeDocument : Document where
  nodes := [
    .of (.literal .float) 1 { value := one, name := "Depth" },
    .of .function 2
      { name := "g_ripple", body := "return sin( x );"
        arguments := [{ name := "x", type := .float, input := .ofNode 1 }] },
    .of .fresnel 3 { power := .ofNode 2 },
    .of .staticSwitch 4 { name := "Frozen", onTrue := .ofNode 1, onFalse := .ofNode 3 },
    .of .materialResult 5 { roughness := .ofNode 4, positionOffset := .ofNode 2 }]

/-- The lines of the two stages. -/
def lakeLines : Stage → List String
  | .vertex =>
    ["float l_3 = g_ripple( g_flDepth );", "o.vPositionWs += float3( l_3, l_3, l_3 );"]
  | .pixel =>
    ["Material m = Material::Init();", "float l_0 = g_ripple( g_flDepth );",
      "float l_1 = Fresnel( i.vNormalWs, " ++
        "normalize( g_vCameraPositionWs - i.vPositionWithOffsetWs.xyz ), l_0 );",
      "float l_2;", "#if S_FROZEN", "    l_2 = g_flDepth;", "#else", "    l_2 = l_1;", "#endif",
      "m.Roughness = l_2;", "return ShadingModelStandard::Shade( i, m );"]

/-- The program of the lake declares a parameter, two functions and the combo of a feature. -/
theorem globals_declared_lake : ∃ draft p, materialDraft {} lakeDocument {} = .ok draft ∧
    draft.program .builtin {} .material = p ∧ (∀ stage, draft.stageLines stage = lakeLines stage) ∧
    p.parameters.map Parameter.global = ["g_flDepth"] ∧ p.functions = ["Fresnel", "g_ripple"] ∧
    p.features.map (fun f => (f.combo, f.feature)) = [("S_FROZEN", "F_FROZEN")] ∧
    draft.pass.globals.declarations = ["StaticCombo( S_FROZEN, F_FROZEN, Sys( ALL ) );"] ∧
    draft.Declares (environment {} .final lakeDocument) p := by
  have hparts : (materialDraft {} lakeDocument {}).toOption.map (fun d =>
      (d.pass.report.hasFatal, [d.stageLines .vertex, d.stageLines .pixel,
        d.pass.globals.parameters.map Parameter.global, d.pass.globals.functions.map Function.name,
        d.pass.globals.declarations],
        d.pass.globals.features.map fun f => (f.combo, f.feature))) =
      some (false, [lakeLines .vertex, lakeLines .pixel, ["g_flDepth"], ["Fresnel", "g_ripple"],
        ["StaticCombo( S_FROZEN, F_FROZEN, Sys( ALL ) );"]], [("S_FROZEN", "F_FROZEN")]) := by
    decide +kernel
  cases hd : materialDraft {} lakeDocument {} with
  | error rejection => rw [hd] at hparts; cases hparts
  | ok draft =>
    rw [hd] at hparts
    rw [Except.toOption, Option.map_some, Option.some.injEq, Prod.mk.injEq, Prod.mk.injEq] at hparts
    obtain ⟨hfatal, hlists, hfeatures⟩ := hparts
    simp only [List.cons.injEq, and_true] at hlists
    obtain ⟨hvertex, hpixel, hparameters, hfunctions, hdeclarations⟩ := hlists
    have hr : compile {} lakeDocument {} = .ok (draft.compilation .builtin {} .material) := by
      unfold compile
      rw [hd]
      rfl
    have hp : (draft.compilation .builtin {} .material).program =
        some (draft.program .builtin {} .material) := by
      rw [Draft.compilation, hfatal]
      rfl
    obtain ⟨t, draft', hd', -, hdeclares⟩ :=
      (globals_declared {} rfl rfl lakeDocument).1 {} _ _ hr hp
    cases hd.symm.trans hd'
    refine ⟨draft, _, rfl, rfl, fun stage => ?_, hparameters, hfunctions, hfeatures, hdeclarations,
      hdeclares⟩
    cases stage with
    | vertex => exact hvertex
    | pixel => exact hpixel

end Compiler

end MaterialGraph
