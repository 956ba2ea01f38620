import MaterialGraph.Proofs.Locals

/-!
# Globals are declared

A registration gives the name of something that is in the tables from then on, and what a node
writes consists of such names and of texts that name no global but those of the engine. So
whatever a stage refers to is declared by the program, though the text of a value may be used long
after the registration, by other nodes and in the other stage. In the same way, what is tested in
front of a value that a feature selects belongs to a feature whose declaration is registered.

## Main results

* `Pass.declaring_register` — what a registration gives is in the tables.
* `Pass.declaring_kept` — every step keeps the discipline.
* `Compiler.materialDraft_closes`, `Compiler.previewDraft_closes` — the lines of both stages need
  nothing else than what the tables have.
-/

namespace MaterialGraph

open Text

variable {statement : Statement} {g : Globals}

theorem Text.isWord_of_declaredName? {body name : String} (h : declaredName? body = some name) :
    IsWord name := by
  unfold declaredName? at h
  simp only at h
  split at h
  · split at h
    · next word hword =>
      split at h
      · next hid =>
        cases h
        exact (isWord_of_isIdentifier hid).1
      · cases h
    · cases h
  · cases h

namespace Globals

variable {g g' : Globals} {text name : String}

/-! ### Texts and the tables -/

/-- A text on one line of which the globals are in the tables, or the engine has them. -/
structure Covers (g : Globals) (text : String) : Prop where
  single : '\n' ∉ text.toList
  globals : ∀ w ∈ words text, isGlobalWord w = true → w ∈ engineGlobals ∨ w ∈ g.names

theorem covers_spelling (g : Globals) : Spelling g.Covers where
  neutral h :=
    ⟨(Knows.of_isPlain (isPlain_of_isNeutral h) : Knows [] _).1,
      fun _ hw hg => .inl (mem_engineGlobals_of_isNeutral h hw hg)⟩
  append ha hb hopen := by
    refine ⟨fun hn => ?_, fun w hw => ?_⟩
    · rw [String.toList_append] at hn
      exact (List.mem_append.mp hn).elim ha.single hb.single
    · rw [words_append hopen] at hw
      exact (List.mem_append.mp hw).elim (ha.globals w) (hb.globals w)

theorem Covers.mono (h : g.Covers text) (hg : g.Within g') : g'.Covers text :=
  ⟨h.single, fun w hw hglobal => (h.globals w hw hglobal).imp_right hg.names⟩

/-- A word may be used if it names no global, or one that is in the tables. -/
theorem covers_of_word (hword : IsWord text) (h : isGlobalWord text = true → text ∈ g.names) :
    g.Covers text := by
  refine ⟨fun hn => ?_, fun w hw hglobal => ?_⟩
  · have hchar := hword _ hn
    cases hchar
  · by_cases hne : text.toList = []
    · rw [words, hne] at hw
      cases hw
    · rw [words_of_all hne hword] at hw
      cases List.mem_singleton.mp hw
      exact .inr (h hglobal)

/-- What is in the tables may be named. -/
theorem covers_of_mem (hword : IsWord text) (hmem : text ∈ g.names) : g.Covers text :=
  covers_of_word hword fun _ => hmem

/-- Local variables are no globals. -/
theorem covers_localName (g : Globals) (n : Nat) : g.Covers (localName n) := by
  refine covers_of_word (isWord_localName n) fun hglobal => ?_
  rw [isGlobalWord, localName_toList] at hglobal
  cases hglobal

/-- A function is registered under the name that its source declares. -/
theorem addFunction_eq_ok {source : String} (h : g.addFunction source = (.ok name, g')) :
    declaredName? (String.ofList (trim source.toList)) = some name ∧
      name ∈ g'.functions.map Function.name := by
  have hmem := (g.addFunction_within source).2 name
  rw [h] at hmem
  refine ⟨?_, hmem rfl⟩
  unfold addFunction at h
  simp only at h
  split at h
  · cases h
  · next declared hd =>
    split at h
    · split at h
      · cases h
        exact hd
      · cases h
    · cases h
      exact hd

/-- The feature is in the tables, and so is the declaration of what program text tests. -/
def Tests (g : Globals) (f : Feature) : Prop :=
  f ∈ g.features ∧ f.comboDeclaration ∈ g.declarations

theorem Tests.mono {f : Feature} (h : g.Tests f) (hg : g.Within g') : g'.Tests f :=
  ⟨hg.features.subset h.1, hg.declarations.subset h.2⟩

/-- The world in which texts name what is in the tables. -/
def world (g : Globals) : World where
  text := g.Covers
  shaped := False
  feature f := g.Tests f ∧ isNeutral f.combo = true
  source _ := True
  lost := True

theorem world_le (hg : g.Within g') : g.world.Le g'.world :=
  ⟨fun _ h => h.mono hg, id, fun _ h => ⟨h.1.mono hg, h.2⟩, fun _ => .rfl, id⟩

/-- The name of something in the tables is a good value. -/
theorem world_value {e : Expr} (hword : IsWord e.code) (hmem : e.code ∈ g.names) :
    g.world.Value e :=
  ⟨covers_of_mem hword hmem, False.elim⟩

/-- The name of a function that is registered may be used. -/
theorem covers_addFunction {source : String} (h : g.addFunction source = (.ok name, g')) :
    g'.Covers name := by
  obtain ⟨hname, hmem⟩ := addFunction_eq_ok h
  exact covers_of_mem (isWord_of_declaredName? hname) (mem_names.mpr (.inr (.inr (.inr hmem))))

theorem tests_addFeature {group : String} {f : Feature}
    (h : g.addFeature name group = (.ok f, g')) : g'.world.feature f := by
  have hmem := (g.addFeature_within name group).2 f
  have hname := addFeature_yields (W := .lax) (g := g) name group
  rw [h] at hmem hname
  have hword : IsWord f.identifier := by
    rw [show f.identifier = _ from hname]
    exact Identifier.isWord_screaming name
  exact ⟨hmem rfl, isNeutral_combo hword⟩

end Globals

theorem World.Le.admits {W W' : World} (h : W.Le W') {types : TypeTable} {n : Nat}
    (ha : W.Admits types n statement) : W'.Admits types n statement := by
  cases statement with
  | assign type index code => exact ⟨ha.1, ha.2.1, h.text _ ha.2.2⟩
  | select type index combo on off =>
    obtain ⟨htype, hn, ⟨f, hf, rfl⟩, hon, hoff⟩ := ha
    exact ⟨htype, hn, ⟨f, h.feature f hf, rfl⟩, h.text _ hon, h.text _ hoff⟩

/-! ### The discipline -/

namespace Pass

open Globals

/-- Texts name what is in the tables, and so do all statements. -/
def declaring : Discipline where
  world _ s := s.globals.world
  tables := Globals.Named IsWord
  extra s := ∀ stage, ∀ statement ∈ s.statements stage,
    ∃ n, s.globals.world.Admits .builtin n statement

variable {env : Environment} {s : Pass}

/-- A parameter that is registered is in the tables. -/
theorem bindParameter_declared (ht : env.types = .builtin) (spec : ParameterSpec) (node : NodeId) :
    (s.bindParameter env spec node).2.globals.world.Yields
      (s.bindParameter env spec node).2.globals.world.Value (s.bindParameter env spec node).1 := by
  have hmem := (s.globals.addParameter_within env.types spec node).2
  have hword := addParameter_yields (W := .lax) (g := s.globals)
    (ht ▸ TypeTable.builtin_isWord) spec node
  rw [bindParameter_eq]
  cases hx : (s.globals.addParameter env.types spec node).1 with
  | error fault => exact .inr trivial
  | ok p =>
    rw [hx] at hword
    exact world_value (e := p.expr) hword
      (mem_names.mpr (.inl (List.mem_map_of_mem (hmem p hx))))

theorem bindToggle_declared (ht : env.types = .builtin) (name : String) (initial : Bool) :
    (s.bindToggle env name initial).2.globals.world.Yields
      (s.bindToggle env name initial).2.globals.world.Value (s.bindToggle env name initial).1 := by
  unfold bindToggle
  simp only
  split
  · exact .inr trivial
  · exact bindParameter_declared ht _ _

/-- A texture that is registered is in the tables, also when it has been compiled. -/
theorem bindTexture_declared (ht : env.types = .builtin) (h : s.globals.Named IsWord)
    (spec : TextureSpec) (name : String) (fallback : Vec4) :
    (s.bindTexture env spec name fallback).2.globals.world.Yields
      (s.bindTexture env spec name fallback).2.globals.world.Value
      (s.bindTexture env spec name fallback).1 := by
  have hmem := (s.globals.addTexture_within env.types spec name fallback s.currentNode).2
  have hword := addTexture_yields (W := .lax) (ht ▸ TypeTable.builtin_isWord) h spec name fallback
    s.currentNode
  rcases bindTexture_cases env spec name fallback s with
    ⟨fault, globals, -, he⟩ | ⟨t, isNew, globals, hx, he, hbooked⟩
  · rw [he]
    exact .inr trivial
  · rw [hx] at hmem hword
    rw [he]
    have hname : t.global ∈ globals.names :=
      mem_names.mpr (.inr (.inr (.inl (List.mem_map_of_mem (hmem t isNew rfl).1))))
    exact world_value (e := t.expr) hword (hbooked.quiet.tables.names hname)

/-- **What a registration gives is in the tables.** -/
theorem declaring_register (ht : env.types = .builtin) {c : Command} (h : declaring.Inv s)
    (hc : c.Registers) (r : Resolver) :
    declaring.tables (s.perform env r c).2.globals ∧
      (declaring.world s.stage (s.perform env r c).2).Answers c (s.perform env r c).1 := by
  have hN : env.types.Naming IsWord := ht ▸ TypeTable.builtin_isWord
  refine ⟨(Named.stable hN).perform h.tables r hc fun _ _ => trivial, ?_⟩
  cases c with
  | parameter spec =>
    rw [perform_parameter]
    exact bindParameter_declared ht spec _
  | declare text => trivial
  | function source =>
    rw [perform_function]
    rcases hx : s.globals.addFunction source with ⟨fault | name, g'⟩
    · exact .inr trivial
    · exact covers_addFunction hx
  | texture spec name fallback =>
    rw [perform_texture]
    exact bindTexture_declared ht h.tables spec name fallback
  | sampler state =>
    have hmem := (s.globals.addSampler_within env.types state).2
    rw [perform_sampler]
    exact world_value (addSampler_named hN h.tables state)
      (mem_names.mpr (.inr (.inl (List.mem_map_of_mem hmem))))
  | feature name group =>
    rw [perform_feature]
    rcases hx : s.globals.addFeature name group with ⟨fault | f, g'⟩
    · exact .inr trivial
    · exact tests_addFeature hx
  | toggle name initial =>
    rw [perform_toggle]
    exact bindToggle_declared ht name initial
  | _ => exact hc.elim

/-- **Every step keeps to what is in the tables.** -/
theorem declaring_kept {c : Compiler} {d : Document} (hc : c.catalog = .builtin)
    (ht : c.types = .builtin) (mode : Mode) : declaring.Kept (c.environment mode d) where
  closed stage s := by
    refine ⟨covers_spelling _, fun t => (covers_spelling _).neutral ?_⟩
    show isNeutral (c.types.name t) = true
    rw [ht]
    exact (TypeTable.builtin_name t).1
  mono hg _ := world_le hg.tables
  lost _ _ := trivial
  register h hreg _ := declaring_register ht h hreg
  same h hg hv hp _ stage statement hm := by
    rw [statements_of_same hv hp] at hm
    obtain ⟨n, hn⟩ := h stage statement hm
    exact ⟨n, (world_le hg.tables).admits hn⟩
  emit {s statement} h ha := by
    -- the statements before stay good because the tables only grow
    have hg := (emit_returns s statement (s.locals + 1)).tables
    refine ⟨fun stage other hm => ?_, ?_⟩
    · rw [statements_emit] at hm
      rcases List.mem_append.mp hm with hm | hm
      · obtain ⟨n, hn⟩ := h stage other hm
        exact ⟨n, (world_le hg).admits hn⟩
      · split at hm
        · rw [List.mem_singleton.mp hm]
          exact ⟨s.locals, (world_le hg).admits (ht ▸ ha)⟩
        · cases hm
    · exact covers_localName _ _
  plans hb he _ _ _ hW hle _ output hf :=
    hb.meets hc he (hf ▸ hW) (fun t => (hle.source t).mpr trivial) output

end Pass

/-! ### Lines -/

/-- A line of a stage: the globals that it names are declared, and what it tests belongs to a
feature that is declared. -/
structure Globals.Closes (g : Globals) (line : String) : Prop where
  covers : g.Covers line
  tests : ∀ combo, line = "#if " ++ combo → ∃ f, g.Tests f ∧ combo = f.combo

namespace Globals.Closes

variable {g : Globals} {line : String}

/-- A line that does not start with a mark tests nothing. -/
theorem of_head (h : g.Covers line) (hhead : line.toList.head? ≠ some '#') : g.Closes line := by
  refine ⟨h, fun combo hline => (hhead ?_).elim⟩
  rw [hline, String.toList_append]
  rfl

theorem of_neutral (h : isNeutral line = true) (hhead : line.toList.head? ≠ some '#') :
    g.Closes line :=
  of_head (g.covers_spelling.neutral h) hhead

/-- A line that starts with another mark tests nothing. -/
theorem mark (h : isNeutral line = true) (hhead : line.toList[1]? = some 'e') :
    g.Closes line := by
  refine ⟨g.covers_spelling.neutral h, fun combo hline => ?_⟩
  rw [hline, String.toList_append] at hhead
  cases hhead

/-- The line in front of a value that a feature selects. -/
theorem test {f : Feature} (h : g.Tests f) (hf : isNeutral f.combo = true) :
    g.Closes ("#if " ++ f.combo) := by
  refine ⟨g.covers_spelling.lead (g.covers_spelling.neutral hf) (by decide), fun combo hline => ?_⟩
  refine ⟨f, h, ?_⟩
  rw [← String.toList_inj, String.toList_append, String.toList_append] at hline
  exact (String.toList_inj.mp (List.append_cancel_left hline)).symm

end Globals.Closes

/-- No type has a name that starts with a mark. -/
theorem TypeTable.head?_builtin_name (t : ShaderType) (rest : String) :
    (TypeTable.builtin.name t ++ rest).toList.head? ≠ some '#' := by
  have hname : ∃ c cs, (TypeTable.builtin.name t).toList = c :: cs ∧ c ≠ '#' := by
    cases t <;> exact ⟨_, _, rfl, by decide⟩
  obtain ⟨c, cs, hcs, hne⟩ := hname
  rw [String.toList_append, hcs]
  intro h
  exact hne (Option.some.inj h)

/-- The lines of a statement need nothing else than what the tables have. -/
theorem Statement.closes {n : Nat} (h : g.world.Admits .builtin n statement) :
    ∀ line ∈ statement.lines, g.Closes line := by
  have spell := g.covers_spelling
  have hname (t : ShaderType) : g.Covers (TypeTable.builtin.name t) :=
    spell.neutral (TypeTable.builtin_name t).1
  have hset {i : Nat} {code : String} (hcode : g.Covers code) :
      g.Closes ("    " ++ localName i ++ " = " ++ code ++ ";") := by
    have hleft : g.Covers ("    " ++ localName i) := spell.lead (g.covers_localName i) (by decide)
    refine .of_head (spell.trail (spell.join hleft hcode (by decide)) (by decide)) ?_
    simp [String.toList_append]
  intro line hl
  cases statement with
  | assign type index code =>
    obtain ⟨⟨t, rfl⟩, -, hcode⟩ := h
    rw [List.mem_singleton.mp hl]
    have hleft : g.Covers (TypeTable.builtin.name t ++ " " ++ localName index) :=
      spell.join (hname t) (g.covers_localName index) (by decide)
    refine .of_head (spell.trail (spell.join hleft hcode (by decide)) (by decide)) ?_
    simp only [String.append_assoc]
    exact TypeTable.head?_builtin_name t _
  | select type index combo on off =>
    obtain ⟨⟨t, rfl⟩, -, ⟨f, ⟨hf, hneutral⟩, rfl⟩, hon, hoff⟩ := h
    simp only [lines, List.mem_cons, List.not_mem_nil, or_false] at hl
    rcases hl with rfl | rfl | rfl | rfl | rfl | rfl
    · have hleft : g.Covers (TypeTable.builtin.name t ++ " " ++ localName index) :=
        spell.join (hname t) (g.covers_localName index) (by decide)
      refine .of_head (spell.trail hleft (by decide)) ?_
      simp only [String.append_assoc]
      exact TypeTable.head?_builtin_name t _
    · exact .test hf hneutral
    · exact hset hon
    · exact .mark (by decide) rfl
    · exact hset hoff
    · exact .mark (by decide) rfl

theorem Write.closes {w : Write} (h : g.Covers w.value.code) : g.Closes w.line := by
  have spell := g.covers_spelling
  unfold Write.line
  split
  · refine .of_head (spell.trail (spell.lead h (by decide)) (by decide)) ?_
    simp [String.toList_append]
  · have hfield : isNeutral ("m." ++ w.channel.fieldName ++ " = ") = true ∧
        endsOpen ("m." ++ w.channel.fieldName ++ " = ") = true := by
      cases w.channel <;> decide
    refine .of_head (spell.trail (spell.lead h hfield) (by decide)) ?_
    simp [String.toList_append]

theorem Globals.closes_writeLines {stage : Stage} {ws : List Write}
    (h : ∀ w ∈ ws, g.Covers w.value.code) : ∀ line ∈ writeLines stage ws, g.Closes line := by
  intro line hl
  obtain ⟨w, hw, rfl⟩ := List.mem_map.mp hl
  exact Write.closes (h w (List.mem_filter.mp hw).1)

theorem Globals.closes_return {color : String} (h : g.Covers color) :
    g.Closes ("return " ++ color ++ ";") := by
  have spell := g.covers_spelling
  refine .of_head (spell.trail (spell.lead h (by decide)) (by decide)) ?_
  simp [String.toList_append]

/-- The lines of a draft need nothing else than what the tables have, if that is so for its last
ones. -/
theorem Draft.closes {d : Draft} (h : Pass.declaring.extra d.pass)
    (hv : ∀ line ∈ d.vertexEnd, d.pass.globals.Closes line)
    (hp : ∀ line ∈ d.pixelEnd, d.pass.globals.Closes line) :
    ∀ stage, ∀ line ∈ d.stageLines stage, d.pass.globals.Closes line := by
  have hbody (stage : Stage) :
      ∀ line ∈ statementLines (d.pass.statements stage), d.pass.globals.Closes line := by
    intro line hl
    obtain ⟨statement, hs, hl⟩ := List.mem_flatMap.mp hl
    obtain ⟨n, hn⟩ := h stage statement hs
    exact Statement.closes hn line hl
  intro stage line hl
  cases stage with
  | vertex =>
    rcases List.mem_append.mp hl with hl | hl
    · exact hbody .vertex line hl
    · exact hv line hl
  | pixel =>
    rcases List.mem_append.mp hl with hl | hl
    · rcases List.mem_append.mp hl with hl | hl
      · -- the pixel stage of a material starts with a line of its own
        cases hd : d.purpose with
        | material =>
          rw [hd] at hl
          rw [List.mem_singleton.mp hl]
          exact .of_neutral (by decide) (by decide)
        | preview => rw [hd] at hl; cases hl
      · exact hbody .pixel line hl
    · exact hp line hl

namespace Compiler

open Pass

variable {c : Compiler} {d : Document}

theorem declaring_fresh {s : Pass} (h : Fresh s) : declaring.Inv s := by
  refine .of_fresh h (fun stage statement hm => ?_) (h.named _)
  rw [h.statements] at hm
  cases hm

/-- **The lines of a material need nothing else than what the tables have.** -/
theorem materialDraft_closes (hc : c.catalog = .builtin) (ht : c.types = .builtin) {o : Options}
    {draft : Draft} (h : c.materialDraft d o = .ok draft) :
    ∀ stage, ∀ line ∈ draft.stageLines stage, draft.pass.globals.Closes line := by
  obtain ⟨hpass, ws, hvertex, hpixel, hgood⟩ := (declaring_kept hc ht o.mode).materialDraft
    (declaring_fresh (firstPass_fresh o.blend)) h
  have hlines (stage : Stage) : ∀ line ∈ writeLines stage ws, draft.pass.globals.Closes line :=
    Globals.closes_writeLines fun w hw => (hgood w hw).1
  refine Draft.closes hpass.extra (hvertex ▸ hlines .vertex) fun line hl => ?_
  rw [hpixel] at hl
  rcases List.mem_append.mp hl with hl | hl
  · exact hlines .pixel line hl
  · rw [List.mem_singleton.mp hl]
    cases o.shading with
    | lit => exact .of_neutral (by decide) (by decide)
    | unlit => exact .of_neutral (by decide) (by decide)

/-- **The lines of a preview need nothing else than what the tables have.** -/
theorem previewDraft_closes (hc : c.catalog = .builtin) (ht : c.types = .builtin) (target : Wire) :
    ∀ stage, ∀ line ∈ (c.previewDraft d target).stageLines stage,
      (c.previewDraft d target).pass.globals.Closes line := by
  obtain ⟨hpass, color, hend, hcovers⟩ := (declaring_kept hc ht .preview).previewDraft
    (declaring_fresh ⟨[], rfl⟩) target
  refine Draft.closes hpass.extra (by simp [previewDraft]) fun line hl => ?_
  rw [hend] at hl
  rw [List.mem_singleton.mp hl]
  exact Globals.closes_return hcovers

end Compiler

end MaterialGraph
