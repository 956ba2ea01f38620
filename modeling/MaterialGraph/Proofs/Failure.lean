import MaterialGraph.Proofs.Channels
import MaterialGraph.Proofs.Discipline

/-!
# No failure is silent

An output without a value always has a cause, and the cause is in the report by the time
the output is returned. Some faults are not reported for the node that has them, because
an input of the node has failed or a chain of outputs has come back to itself; what is
shown here is that in each such case the report already has an error.

So a compilation that reports nothing above a warning has a value for everything it asked
for, and writes each channel that the document demands exactly once.

## Main results

* `Compiler.failures_reported` — no failure is silent.
-/

namespace MaterialGraph

namespace Pass

variable {env : Environment} {s : Pass}

/-! ### Failures -/

/-- An output is returned without a value, or a connected input has none, so that its
consumer fails or uses a default. -/
def Event.Fails : Event → Prop
  | .returned _ _ o _ => o.isValid = false
  | .performed (.read _ wire) _ o _ => wire.isConnected = true ∧ o.isValid = false
  | _ => False

/-- Every output without a value has an error in the report. -/
def reporting : Discipline where
  world _ s :=
    { text := fun _ => True, shaped := False, feature := fun _ => True, source := fun _ => True
      lost := s.report.hasErrors = true }
  tables := Globals.Named fun _ => True
  extra _ := True

theorem reporting_byName (env : Environment) : reporting.ByName env fun _ => True where
  tables := rfl
  mono hg _ := ⟨fun _ _ => trivial, id, fun _ _ => trivial, fun _ => .rfl, hg.hasErrors⟩
  naming _ _ _ := trivial
  named _ := ⟨trivial, False.elim⟩
  sources _ _ := trivial
  features _ := trivial

theorem reporting_kept (hc : env.catalog = .builtin) : reporting.Kept env where
  closed _ _ := ⟨⟨fun _ => trivial, fun _ _ _ => trivial⟩, fun _ => trivial⟩
  mono := (reporting_byName env).mono
  lost he _ := he
  register := (reporting_byName env).register
  same _ _ _ _ _ := trivial
  emit _ _ := ⟨trivial, trivial⟩
  plans hb he _ _ _ hW hle _ output hf :=
    hb.meets hc he (hf ▸ hW) (fun t => (hle.source t).mpr trivial) output

/-- A good outcome without a value has its cause in the report. -/
theorem reporting_good {stage : Stage} {o : Outcome} (h : (reporting.world stage s).Good o)
    (ho : o.isValid = false) :
    s.report.hasErrors = true := by
  cases o with
  | valid e => cases ho
  | error text => exact h
  | missingInput text => exact h

theorem Event.Fails.hasErrors {e : Event} (hf : e.Fails) (h : reporting.Holds e) :
    e.pass.report.hasErrors = true := by
  cases e with
  | returned site before o s => exact reporting_good h.2 hf
  | performed c before reply s =>
    cases c with
    | read input wire =>
      have hr : (reporting.world s.stage s).Reads input wire reply := h.2
      rw [World.Reads, if_pos hf.1] at hr
      exact reporting_good hr hf.2
    | _ => exact hf.elim
  | _ => exact hf.elim

/-! ### Sessions -/

theorem reporting_idle (env : Environment) (hs : Fresh s) : reporting.Idle env s :=
  ⟨hs.stocked env, hs.atRest, .of_fresh hs trivial (hs.named _)⟩

/-- From a failure on, the report has an error. -/
theorem Session.fails_hasErrors (hc : env.catalog = .builtin) {s' : Pass} {l : List Event}
    (hl : Session env s s' l) (hs : Fresh s) :
    (∀ before e after, l = before ++ e :: after → ∀ e' ∈ before ++ [e], e'.Fails →
      e.pass.report.hasErrors = true) ∧
    ∀ e ∈ l, e.Fails → s'.report.hasErrors = true := by
  have hheld := ((reporting_kept hc).session hl (hs.stocked env) (reporting_idle env hs).inv).2
  have horder := Between.stepwise.segmental.session hl (hs.stocked env) hs.atRest
  refine ⟨fun before e after he e' he' hf => ?_, fun e he hf => ?_⟩
  · -- the report only grows from the failure to the moment in question
    subst he
    rcases List.mem_append.mp he' with hb | hb
    · have hlater := (List.pairwise_append.mp horder.ordered).2.2 e' hb e List.mem_cons_self
      exact hlater.hasErrors (hf.hasErrors (hheld e' (List.mem_append_left _ hb)))
    · rw [List.mem_singleton] at hb
      subst hb
      exact hf.hasErrors (hheld e' (by simp))
  · exact (horder.before e he).hasErrors (hf.hasErrors (hheld e he))

/-! ### Writes -/

theorem writeSources_channels (hc : env.catalog = .builtin) (sources : List Write.Source) :
    ∀ s : Pass, reporting.Idle env s →
      (writeSources env sources s).2.report.hasErrors = false →
      (writeSources env sources s).1.map (·.channel) = sources.map (·.channel) := by
  induction sources with
  | nil => exact fun _ _ _ => rfl
  | cons source rest ih =>
    intro s hs h
    rw [writeSources] at h ⊢
    rcases hx : fit env source
      (s.resolveFor env source.channel.stage [] source.node source.output) with ⟨x, s'⟩
    rw [hx] at h
    obtain ⟨hs', hgood, hlost⟩ := hs.fit (reporting_kept hc) hx
    cases x with
    | none => exact absurd ((hs'.grows rest).hasErrors (hlost rfl)) (by simp [h])
    | some w =>
      rw [List.map_cons, ← (hgood w rfl).1]
      exact congrArg (w.channel :: ·) (ih s' hs' h)

theorem materialWrites_channels (hc : env.catalog = .builtin) {p : Pass} (hs : Fresh s)
    {ws : List Write} (hw : s.materialWrites env = .ok (ws, p)) (h : p.report.hasErrors = false) :
    (ws.map (·.channel)).Nodup ∧ ∀ channel, channel ∈ ws.map (·.channel) ↔
      ∃ node, env.root.nodes.find? (·.className == MaterialSettings.spec.name) = some node ∧
        ∃ m, MaterialSettings.spec.build node.settings = .ok m ∧
          (m.wire channel).isConnected = true := by
  have hidle := (reporting_idle env hs).root (reporting_kept hc)
  unfold materialWrites at hw
  simp only at hw
  split at hw
  · cases hw
  · next id b further hres =>
    rw [Except.ok.injEq, writeChannels_eq, reportFurther_eq] at hw
    generalize further.map _ = ds at hw
    have hidle' := hidle.remarks (reporting_kept hc) ds
    have hgrows := hidle'.grows (channelSources id b.connections)
    have hchannels := writeSources_channels hc (channelSources id b.connections) _ hidle'
    rw [hw] at hgrows hchannels
    -- if there is no error at the end, there was none when the nodes were made
    have hroot := Report.no_errors_of_extends
      ((foldl_push_noted ds (s.root env).2).report.trans hgrows.report) h
    obtain ⟨hall, hready⟩ := root_behaviors hs hroot
    unfold resultNodes at hres
    rw [hready] at hres
    obtain ⟨node, m, hnode, hm, he⟩ := resultNodes_first hc hall hres
    cases he
    have hsources : (channelSources node.id
        (Channel.all.map fun c => (c.key, m.wire c))).map (·.channel) =
          Channel.all.filter fun c => (m.wire c).isConnected := by
      have hkey (c : Channel) : Channel.ofKey? c.key = some c := by
        cases c <;> decide
      simp [channelSources, List.filter_map, List.filterMap_map, Function.comp_def, hkey]
    rw [hchannels h]
    refine hsources ▸ ?_
    have hnodup : Channel.all.Nodup := by decide
    refine ⟨hnodup.filter _, fun channel => ?_⟩
    rw [List.mem_filter]
    constructor
    · rintro ⟨-, hcon⟩
      exact ⟨node, hnode, m, hm, hcon⟩
    · rintro ⟨node', hnode', m', hm', hcon⟩
      cases hnode.symm.trans hnode'
      cases hm.symm.trans hm'
      exact ⟨channel.mem_all, hcon⟩

theorem subgraphWrites_channels (hc : env.catalog = .builtin) {p : Pass} (hs : Fresh s)
    {ws : List Write} (hw : s.subgraphWrites env = .ok (ws, p)) (h : p.report.hasErrors = false) :
    (ws.map (·.channel)).Nodup ∧ ∀ channel, channel ∈ ws.map (·.channel) ↔
      ∃ node ∈ env.root.nodes, node.className = OutputSettings.spec.name ∧
        ∃ o, OutputSettings.spec.build node.settings = .ok o ∧ o.channel = some channel := by
  have hidle := (reporting_idle env hs).root (reporting_kept hc)
  obtain ⟨ds, -, hds⟩ := channelOutputs_eq (s.root env).1.behaviors [] (s.root env).2
  have hnames := channelOutputs_channels (s.root env).1.behaviors [] (s.root env).2
  have hcomplete := channelOutputs_complete (s.root env).1.behaviors [] (s.root env).2
  unfold subgraphWrites at hw
  simp only at hw
  split at hw
  · cases hw
  · next outputs s' _ hx =>
    rw [hx] at hds hnames hcomplete
    obtain rfl : s' = ds.foldl Pass.push (s.root env).2 := hds
    rw [Except.ok.injEq, writeOutputs_eq] at hw
    have hidle' := hidle.remarks (reporting_kept hc) ds
    have hgrows := hidle'.grows (outputSources outputs)
    have hchannels := writeSources_channels hc (outputSources outputs) _ hidle'
    rw [hw] at hgrows hchannels
    have hout := Report.no_errors_of_extends hgrows.report h
    obtain ⟨hall, hready⟩ := root_behaviors hs
      (Report.no_errors_of_extends (foldl_push_noted ds (s.root env).2).report hout)
    have hsources : (outputSources outputs).map (·.channel) = outputs.map (·.2) := by
      simp [outputSources]
    rw [hchannels h, hsources]
    refine ⟨hnames.1, fun channel => ?_⟩
    rw [← names_channel_iff hc hall, ← hready]
    constructor
    · exact fun hm => (hnames.2 channel hm).2
    · rintro ⟨entry, hentry, name, hrole⟩
      exact hcomplete hout entry hentry name channel hrole

end Pass

namespace Compiler

open Pass

/-- If no error is reported, a draft writes what the document demands, once. -/
theorem materialDraft_writes {c : Compiler} (hc : c.catalog = .builtin) {d : Document}
    {o : Options} {draft : Draft} (hd : c.materialDraft d o = .ok draft)
    (h : draft.pass.report.hasErrors = false) (channel : Channel) :
    (d.Demands channel → draft.writes channel = 1) ∧
      (¬d.Demands channel → draft.writes channel = 0) := by
  have hfresh := firstPass_fresh o.blend
  have key {ws : List Write} (hnodup : (ws.map (·.channel)).Nodup)
      (hmem : channel ∈ ws.map (·.channel) ↔ d.Demands channel) :
      (d.Demands channel → (ws.map (·.channel)).count channel = 1) ∧
        (¬d.Demands channel → (ws.map (·.channel)).count channel = 0) := by
    rw [hnodup.count, ← hmem]
    exact ⟨fun hm => if_pos hm, fun hm => if_neg hm⟩
  obtain ⟨ws, hw, -, hvertex, hpixel⟩ := materialDraft_eq_ok hd
  have hcount : draft.writes channel = (ws.map (·.channel)).count channel := by
    rw [← Draft.writes_eq draft.purpose draft.pass ws o.shading channel, ← hvertex, ← hpixel]
  rw [hcount]
  by_cases hsub : d.isSubgraph = true
  · rw [if_pos hsub] at hw
    obtain ⟨hnodup, hmem⟩ := subgraphWrites_channels hc hfresh hw h
    refine key hnodup ?_
    rw [hmem, Document.Demands, if_pos hsub]
    rfl
  · rw [if_neg hsub] at hw
    obtain ⟨hnodup, hmem⟩ := materialWrites_channels hc hfresh hw h
    refine key hnodup ?_
    rw [hmem, Document.Demands, if_neg hsub]
    rfl

/-- Nothing above a warning has been reported by a pass whose program can be used. -/
theorem no_errors_of_isShippable {draft : Draft} {types : TypeTable} {o : Options}
    {t : Template} (h : (draft.compilation types o t).isShippable = true) :
    draft.pass.report.hasErrors = false := by
  unfold Compilation.isShippable at h
  rw [Bool.and_eq_true, Bool.not_eq_true'] at h
  exact h.2

/-- **No failure is silent.** Over the built-in classes, from the moment at which an output
is returned without a value, or a connected input has none, the report has an error. So if
a program can be used as it is, every output that was asked for has its value, no connected
input has been replaced by its default, and the last lines write each channel that the
document demands once, and no other. -/
theorem failures_reported (c : Compiler) (hc : c.catalog = .builtin) (d : Document) :
    (∀ l, c.IsTrace d l → ∀ before e after, l = before ++ e :: after →
      (∃ e' ∈ before ++ [e], e'.Fails) → e.pass.report.hasErrors = true) ∧
    (∀ o result, c.compile d o = .ok result → result.isShippable = true →
      (∀ e ∈ c.materialTrace d o, ¬e.Fails) ∧
      ∃ draft, c.materialDraft d o = .ok draft ∧ ∀ channel,
        (d.Demands channel → draft.writes channel = 1) ∧
        (¬d.Demands channel → draft.writes channel = 0)) ∧
    ∀ o target result, c.preview d o target = .ok result → result.isShippable = true →
      ∀ e ∈ c.previewTrace d target, ¬e.Fails := by
  refine ⟨fun l hl before e after he hf => ?_, fun o result hr hship => ?_,
    fun o target result hr hship e he hf => ?_⟩
  · obtain ⟨mode, s, s', hfresh, hs⟩ := hl.session
    obtain ⟨e', he', hfails⟩ := hf
    exact (hs.fails_hasErrors hc hfresh).1 before e after he e' he' hfails
  · obtain ⟨t, draft, hd, rfl⟩ := compile_eq_ok hr
    have hno := no_errors_of_isShippable hship
    obtain ⟨s', hs, hend⟩ := materialTrace_session c d o
    refine ⟨fun e he hf => ?_, draft, hd, materialDraft_writes hc hd hno⟩
    have herr := (hs.fails_hasErrors hc (firstPass_fresh o.blend)).2 e he hf
    rw [← hend draft hd, hno] at herr
    cases herr
  · have herr := ((previewTrace_session c d target).fails_hasErrors hc ⟨[], rfl⟩).2 e he hf
    obtain ⟨t, rfl⟩ := preview_eq_ok hr
    rw [no_errors_of_isShippable hship] at herr
    cases herr

/-- A material of which nothing but the roughness is connected, to a number. -/
def roughDocument : Document where
  nodes := [
    { id := ⟨1⟩, className := "Float" },
    .of .materialResult 2 { roughness := .ofNode 1 }]

/-- A node that is not in the document. -/
def strayTarget : Wire where
  node := ⟨3⟩
  output := "result"

/-- The program for the roughness can be used and writes the roughness only; a preview of a
node that is not there returns an output without a value, and reports it. -/
theorem failures_reported_rough :
    (∃ result draft, Compiler.compile {} roughDocument {} = .ok result ∧
      result.isShippable = true ∧ roughDocument.Demands .roughness ∧
      (∀ e ∈ Compiler.materialTrace {} roughDocument {}, ¬e.Fails) ∧
      Compiler.materialDraft {} roughDocument {} = .ok draft ∧ draft.writes .roughness = 1) ∧
    ∃ e ∈ Compiler.previewTrace {} roughDocument strayTarget,
      e.Fails ∧ e.pass.report.hasErrors = true := by
  have hreported := failures_reported {} rfl roughDocument
  have hdemands : roughDocument.Demands .roughness :=
    ⟨_, rfl, { roughness := { node := ⟨1⟩, output := "result" } }, rfl, rfl⟩
  constructor
  · have hship : (match Compiler.compile {} roughDocument {} with
        | .ok result => result.isShippable
        | .error _ => false) = true := by decide +kernel
    cases hr : Compiler.compile {} roughDocument {} with
    | error rejection => rw [hr] at hship; cases hship
    | ok result =>
      rw [hr] at hship
      obtain ⟨hvalid, draft, hdraft, hwrites⟩ := hreported.2.1 {} result hr hship
      exact ⟨result, draft, rfl, hship, hdemands, hvalid, hdraft, (hwrites _).1 hdemands⟩
  · have hstray : ((Compiler.previewTrace {} roughDocument strayTarget).any fun
        | .returned _ _ o _ => !o.isValid
        | _ => false) = true := by decide +kernel
    obtain ⟨e, he, hf⟩ := List.any_eq_true.mp hstray
    obtain ⟨before, after, hl⟩ := List.append_of_mem he
    have hfails : e.Fails := by
      cases e with
      | returned site s o s' =>
        show o.isValid = false
        simpa using hf
      | _ => cases hf
    exact ⟨e, he, hfails, hreported.1 _ (.inr ⟨_, rfl⟩) before e after hl ⟨e, by simp, hfails⟩⟩

end Compiler

end MaterialGraph
