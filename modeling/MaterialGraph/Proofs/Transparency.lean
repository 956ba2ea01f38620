import MaterialGraph.Proofs.Bystanders
import MaterialGraph.Proofs.Reroutes

/-!
# Reroutes are transparent

A reroute may be put on any wire of a document: the program is the same. This holds for the
document that is compiled and for those that it calls, for every node whose input is led through
the reroute, and whatever becomes of the value there.

## Main results

* `Detour.materialDraft` — materials are drafted alike with the reroute and without.
* `Compiler.reroute_transparent` — a reroute changes no program.
-/

namespace MaterialGraph

open Pass

namespace Detour

variable {D : Detour} {s t : Pass} {l l' : List (NodeId × Behavior)} {x : List Write × Pass}

/-! ### What is written -/

theorem resolveFor_report (env : Environment) (stage : Stage) (scope : Scope) (node : NodeId)
    (output : String) (s : Pass) :
    s.report.entries <+: (s.resolveFor env stage scope node output).2.report.entries :=
  (resolve_returns env maxDepth ⟨scope, node, output, stage⟩ { s with stage }).report

theorem fit_report (env : Environment) (source : Write.Source) (x : Outcome × Pass) :
    x.2.report.entries <+: (fit env source x).2.report.entries := by
  obtain ⟨ds, -, he⟩ := fit_eq env source x
  rw [he]
  exact (foldl_push_noted ds x.2).report

theorem writeSources_report (env : Environment) (sources : List Write.Source) :
    ∀ s : Pass, s.report.entries <+: (Pass.writeSources env sources s).2.report.entries := by
  induction sources with
  | nil => exact fun s => List.prefix_refl _
  | cons source rest ih =>
    exact fun s => (resolveFor_report _ _ _ _ _ _).trans ((fit_report env source _).trans (ih _))

/-- An output of the document that is compiled is resolved alike. -/
theorem resolveFor (h : D.Pair s t) (hawaits : D.Awaits none s t) (stage : Stage) {node : NodeId}
    (hnode : node ≠ D.stop.id) (output : String) :
    D.Sim Outcome.Kin (s.resolveFor D.left stage [] node output)
        (t.resolveFor D.right stage [] node output) ∧
      D.Awaits none (s.resolveFor D.left stage [] node output).2
        (t.resolveFor D.right stage [] node output).2 := by
  have hs := resolve_returns D.left maxDepth ⟨[], node, output, stage⟩ { s with stage }
  have ht := resolve_returns D.right maxDepth ⟨[], node, output, stage⟩ { t with stage }
  have hawaits : D.Awaits none { s with stage } { t with stage } := hawaits
  have hafter := hawaits.returns hs ht
  refine ⟨?_, hafter⟩
  have hsite : D.Names ⟨[], node, output, stage⟩ := ⟨hnode, List.not_mem_nil⟩
  refine ((partners maxDepth maxDepth).simulates hsite (h.inStage stage) hawaits
    (asked_none _)).bind (List.prefix_refl _) (List.prefix_refl _) fun hkin hp => .inr ⟨hkin, ?_⟩
  unfold Pass.resolveFor
  rw [h.stage_eq]
  exact hp.inStage s.stage

theorem writeSources (sources : List Write.Source)
    (hsources : ∀ source ∈ sources, source.node ≠ D.stop.id) :
    ∀ s t : Pass, D.Pair s t → D.Awaits none s t → D.Sim (fun x y => y = x)
      (Pass.writeSources D.left sources s) (Pass.writeSources D.right sources t) := by
  induction sources with
  | nil => exact fun s t h _ => .inr ⟨rfl, h⟩
  | cons source rest ih =>
    obtain ⟨hnode, hrest⟩ := List.forall_mem_cons.mp hsources
    intro s t h hawaits
    obtain ⟨hsim, hnext⟩ := resolveFor h hawaits source.channel.stage hnode source.output
    rw [Pass.writeSources, Pass.writeSources]
    refine hsim.bind ((fit_report D.left source _).trans (writeSources_report _ _ _))
      ((fit_report D.right source _).trans (writeSources_report _ _ _)) fun hkin hp => ?_
    generalize s.resolveFor D.left source.channel.stage [] source.node source.output = x at *
    generalize t.resolveFor D.right source.channel.stage [] source.node source.output = y at *
    obtain ⟨o, s₁⟩ := x
    obtain ⟨o', t₁⟩ := y
    dsimp only at hkin hp hnext
    cases hkin with
    | valid e =>
      dsimp only [fit]
      rw [D.types]
      cases source.value D.left.types e with
      | error fault =>
        have hfault := pushFault_booked s₁ source.node fault
        have hfault' := pushFault_booked t₁ source.node fault
        rcases hp.pushFault source.node fault with hescaped | hp
        · exact .inl (hescaped.mono (writeSources_report _ _ _) (writeSources_report _ _ _))
        · exact ih hrest _ _ hp (hnext.returns hfault.returns hfault'.returns)
      | ok value =>
        refine (ih hrest s₁ t₁ hp hnext).imp_right fun hnext => ⟨?_, hnext.2⟩
        rw [hnext.1]
    | _ => exact ih hrest s₁ t₁ hp hnext

/-- Wires that lead through the reroute or not are connected alike. -/
theorem channelSources (node : NodeId) {l l' : List (String × Wire)}
    (hl : List.Forall₂ (fun x y => y.1 = x.1 ∧ D.Through x.2 y.2) l l') :
    Pass.channelSources node l' = Pass.channelSources node l := by
  unfold Pass.channelSources
  induction hl with
  | nil => rfl
  | @cons x y l l' hxy _ ih =>
    rw [List.filter_cons, List.filter_cons, through_isConnected D hxy.2]
    split
    · rw [List.filterMap_cons, List.filterMap_cons, hxy.1, ih]
    · exact ih

/-! ### Whole compilations -/

/-- Passes that begin alike. -/
theorem Pair.of_fresh (h : Fresh s) : D.Pair s s := by
  have hnone := h.progress?
  obtain ⟨declarations, rfl⟩ := h
  refine ⟨rfl, rfl, rfl, .of_fresh ⟨rfl, rfl⟩, .of_fresh ⟨rfl, rfl⟩, .nil, fun site p hp => ?_,
    fun _ _ => rfl, fun scope stage o ho => ?_⟩
  · rw [hnone] at hp
    cases hp
  · rw [hnone] at ho
    cases ho

/-- The document that is compiled is made ready alike, unless something fatal is said about it. -/
theorem root_fresh (h : Fresh s) : Escaped (s.root D.left).2 (s.root D.right).2 ∨
    D.Pair (s.root D.left).2 (s.root D.right).2 ∧
      D.Awaits none (s.root D.left).2 (s.root D.right).2 := by
  have hpair : D.Pair s s := .of_fresh h
  cases hcalm : (s.root D.left).2.report.hasFatal with
  | true => exact .inl (.inl hcalm)
  | false =>
    obtain ⟨-, hremarked, htables⟩ := Mirror.prepare_along (M := D.mirror) rootPath
      (makes docs_root) ⟨rfl, rfl⟩ hpair.tables
    refine .inr ⟨hpair.prepared (root_prepared _ _) (root_prepared _ _)
      (hpair.kept.prepare rfl).2 (hpair.kept'.prepare rfl).2
      (prepare_widens _ _ _ _) hremarked htables hcalm, fun scope stage hstop => ?_⟩
    rw [(root_prepared D.right s).progress?, h.progress?] at hstop
    cases hstop

variable {d d' : Document}

/-- The nodes of documents that differ in the reroute at most. -/
theorem behaviors (h : D.Docs d d') : D.mirror.Behaviors (D.left.instanceOf d).behaviors
    (D.right.instanceOf d').behaviors :=
  (Mirror.entries_instanceOf (interleaved h).1 (interleaved h).2).behaviors

theorem resultNodes (h : D.Docs d d') :
    List.Forall₂ (fun x y => y.1 = x.1 ∧ D.mirror.names x.1 ∧ D.mirror.alike x.2 y.2)
      (Pass.resultNodes (D.left.instanceOf d)) (Pass.resultNodes (D.right.instanceOf d')) := by
  refine (behaviors h).filter (fun x y hxy => ?_) fun y hy => decide_eq_false fun hrole => ?_
  · rw [D.mirror.role hxy.2.2]
  · have hinner := hy.inner y.2 rfl
    rw [hrole] at hinner
    cases hinner

theorem reportFurther {R : NodeId × Behavior → NodeId × Behavior → Prop}
    (hl : List.Forall₂ R l l') : ∀ s t : Pass, D.Pair s t → D.Awaits none s t →
      D.Pair (s.reportFurther l) (t.reportFurther l') ∧
        D.Awaits none (s.reportFurther l) (t.reportFurther l') := by
  induction hl with
  | nil => exact fun s t h hawaits => ⟨h, hawaits⟩
  | cons _ _ ih => exact fun s t h hawaits => ih _ _ (h.push _ _ rfl rfl) hawaits

theorem channelOutputs (hl : D.mirror.Behaviors l l') :
    ∀ (taken : List Channel) (s t : Pass),
      (Pass.channelOutputs taken l' t).1 = (Pass.channelOutputs taken l s).1 ∧
      (∀ entry ∈ (Pass.channelOutputs taken l s).1, entry.1 ≠ D.stop.id) ∧
      (D.Pair s t ∧ D.Awaits none s t →
        D.Pair (Pass.channelOutputs taken l s).2 (Pass.channelOutputs taken l' t).2 ∧
          D.Awaits none (Pass.channelOutputs taken l s).2 (Pass.channelOutputs taken l' t).2) := by
  induction hl with
  | nil => exact fun _ s t => ⟨rfl, List.forall_mem_nil _, id⟩
  | @both x y l l' hxy _ ih =>
    obtain ⟨id, b⟩ := x
    obtain ⟨id', b'⟩ := y
    obtain ⟨hid, hname, halike⟩ := hxy
    obtain rfl : id' = id := hid
    have hrole : b'.role = b.role := D.mirror.role halike
    intro taken s t
    rw [Pass.channelOutputs, Pass.channelOutputs, hrole]
    split
    · next channel _ =>
      split
      · obtain ⟨houtputs, hnames, hp⟩ := ih taken (s.push _) (t.push _)
        exact ⟨houtputs, hnames, fun h => hp ⟨h.1.push _ _ rfl rfl, h.2⟩⟩
      · obtain ⟨houtputs, hnames, hp⟩ := ih (channel :: taken) s t
        exact ⟨congrArg (List.cons _) houtputs, List.forall_mem_cons.mpr ⟨hname, hnames⟩, hp⟩
    · exact ih taken s t
  | @right y l l' hy _ ih =>
    obtain ⟨id, b⟩ := y
    have hinner := hy.inner b rfl
    intro taken s t
    rw [Pass.channelOutputs]
    split
    · next hrole =>
      rw [hrole] at hinner
      cases hinner
    · exact ih taken s t

theorem channelOutputs_report (taken : List Channel) (l : List (NodeId × Behavior)) (s : Pass) :
    s.report.entries <+: (Pass.channelOutputs taken l s).2.report.entries := by
  obtain ⟨ds, -, hds⟩ := channelOutputs_eq l taken s
  rw [hds]
  exact (foldl_push_noted ds s).report

theorem reportFurther_report (l : List (NodeId × Behavior)) (s : Pass) :
    s.report.entries <+: (s.reportFurther l).report.entries := by
  rw [reportFurther_eq]
  exact (foldl_push_noted _ s).report

/-- **The channels of a material are written alike.** -/
theorem materialWrites (h : Fresh s) (hx : s.materialWrites D.left = .ok x) :
    ∃ y, s.materialWrites D.right = .ok y ∧ D.Sim (fun ws ws' => ws' = ws) x y := by
  have hresults := resultNodes (D := D) docs_root
  unfold Pass.materialWrites at hx ⊢
  dsimp only at hx ⊢
  rw [Mirror.root_of_fresh D.left h] at hx
  rw [Mirror.root_of_fresh D.right h]
  generalize Pass.resultNodes (D.left.instanceOf D.left.root) = l at hresults hx
  generalize Pass.resultNodes (D.right.instanceOf D.right.root) = l' at hresults
  cases hresults with
  | nil => cases hx
  | @cons entry entry' further further' hentry hfurther =>
    obtain ⟨node, b⟩ := entry
    obtain ⟨node', b'⟩ := entry'
    obtain ⟨hid, hname, c, settings, settings', rfl, rfl, hmoved, -⟩ := hentry
    obtain rfl : node' = node := hid
    cases hx
    refine ⟨_, rfl, ?_⟩
    have hsources : Pass.channelSources node' (c.spec.behavior settings').connections =
        Pass.channelSources node' (c.spec.behavior settings).connections :=
      channelSources node' hmoved.connections
    rw [writeChannels_eq, writeChannels_eq, hsources]
    rcases root_fresh (D := D) h with hescaped | ⟨hp, hawaits⟩
    · exact .inl (hescaped.mono
        ((reportFurther_report _ _).trans (writeSources_report _ _ _))
        ((reportFurther_report _ _).trans (writeSources_report _ _ _)))
    · obtain ⟨hp, hawaits⟩ := reportFurther hfurther _ _ hp hawaits
      exact writeSources _ (fun source hsource => mem_channelSources hsource ▸ hname) _ _ hp hawaits

/-- **The outputs of a subgraph are written alike.** -/
theorem subgraphWrites (h : Fresh s) (hx : s.subgraphWrites D.left = .ok x) :
    ∃ y, s.subgraphWrites D.right = .ok y ∧ D.Sim (fun ws ws' => ws' = ws) x y := by
  have hroot := root_fresh (D := D) h
  unfold Pass.subgraphWrites at hx ⊢
  dsimp only at hx ⊢
  rw [Mirror.root_of_fresh D.left h] at hx
  rw [Mirror.root_of_fresh D.right h]
  generalize (s.root D.left).2 = s₁ at hroot hx
  generalize (s.root D.right).2 = t₁ at hroot ⊢
  obtain ⟨houtputs, hnames, hnext⟩ := channelOutputs (D := D) (behaviors docs_root) [] s₁ t₁
  have hs := channelOutputs_report [] (D.left.instanceOf D.left.root).behaviors s₁
  have ht := channelOutputs_report [] (D.right.instanceOf D.right.root).behaviors t₁
  generalize Pass.channelOutputs [] (D.left.instanceOf D.left.root).behaviors s₁ = x at *
  generalize Pass.channelOutputs [] (D.right.instanceOf D.right.root).behaviors t₁ = y at *
  obtain ⟨outputs, s₂⟩ := x
  obtain ⟨outputs', t₂⟩ := y
  obtain rfl : outputs' = outputs := houtputs
  cases outputs' with
  | nil => cases hx
  | cons output outputs =>
    cases hx
    refine ⟨_, rfl, ?_⟩
    rw [writeOutputs_eq, writeOutputs_eq]
    rcases hroot with hescaped | hroot
    · exact .inl (hescaped.mono (hs.trans (writeSources_report _ _ _))
        (ht.trans (writeSources_report _ _ _)))
    · obtain ⟨hp, hawaits⟩ := hnext hroot
      refine writeSources _ (fun source hsource => ?_) _ _ hp hawaits
      obtain ⟨entry, hentry, rfl⟩ := List.mem_map.mp hsource
      exact hnames entry hentry

theorem writes (h : Fresh s) (isSubgraph : Bool)
    (hx : (if isSubgraph then s.subgraphWrites D.left else s.materialWrites D.left) = .ok x) :
    ∃ y, (if isSubgraph then s.subgraphWrites D.right else s.materialWrites D.right) = .ok y ∧
      D.Sim (fun ws ws' => ws' = ws) x y := by
  cases isSubgraph with
  | true => exact subgraphWrites h hx
  | false => exact materialWrites h hx

/-- **A material is drafted alike with the reroute and without.** -/
theorem materialDraft {c c' : Compiler} {o : Options} (hleft : D.left = c.environment o.mode d)
    (hright : D.right = c'.environment o.mode d') (hsub : d'.isSubgraph = d.isSubgraph) {x : Draft}
    (hx : c.materialDraft d o = .ok x) :
    ∃ y, c'.materialDraft d' o = .ok y ∧ (Escaped x.pass y.pass ∨
      y = { x with pass := y.pass } ∧ D.Pair x.pass y.pass) := by
  obtain ⟨ws, hw, hpurpose, hvertex, hpixel⟩ := Compiler.materialDraft_eq_ok hx
  rw [← hleft] at hw
  obtain ⟨⟨ws', t⟩, hy, hsim⟩ := writes (Compiler.firstPass_fresh o.blend) d.isSubgraph hw
  rw [hright, ← hsub] at hy
  refine ⟨_, Compiler.materialDraft_of_writes hy, hsim.imp_right fun hpair => ⟨?_, hpair.2⟩⟩
  obtain rfl : ws' = ws := hpair.1
  rw [hpurpose, hvertex, hpixel]

end Detour

/-! ### Documents with a reroute -/

/-- Compilers and documents to compile that differ in a reroute of the wire `w`. It is in the
document that is compiled, or in one that can be called. -/
structure Compiler.Detoured (c c' : Compiler) (root root' : Document) (w : Wire) (r : Node) :
    Prop where
  /-- The compilers differ in the documents that can be called only. -/
  same : c' = { c with library := c'.library }
  /-- The reroute may be in the document that is compiled. -/
  atRoot : root' = root ∨ root.Rerouted w r root'
  /-- It may be in those that can be called. -/
  inLibrary : ∀ path, Option.Rel (fun d d' => d' = d ∨ d.Rerouted w r d') (c.library path)
    (c'.library path)
  connected : w.isConnected = true
  named : r.id.isNil = false
  fresh : ∀ d, (c.environment .final root).InReach d → ∀ node ∈ d.nodes, node.id ≠ r.id
  /-- No wire leads to it or through it. -/
  unreferenced : ∀ d, (c.environment .final root).InReach d → ∀ node ∈ d.nodes,
    ∀ entry ∈ node.wires, ¬entry.2.RefersTo r.id
  /-- Nor does the wire that is led through the reroute. -/
  outward : ¬w.RefersTo r.id
  /-- Where the reroute is put in, the wire does not come from the result of a material. -/
  source : ∀ d d', (c.environment .final root).Faces (c'.environment .final root') d d' →
    d.Rerouted w r d' → ∀ node, (c.environment .final root).source? d w = some node →
      node.className ≠ NodeClass.materialResult.name

/-- The two environments of a compilation. -/
def Compiler.Detoured.detour {c c' : Compiler} {root root' : Document} {w : Wire} {r : Node}
    (h : c.Detoured c' root root' w r) (hc : c.catalog = .builtin) (mode : Mode) : Detour where
  left := c.environment mode root
  right := c'.environment mode root'
  wire := w
  stop := r
  builtin := hc
  catalog := by rw [h.same]; rfl
  types := by rw [h.same]; rfl
  textures := by rw [h.same]; rfl
  mode := rfl
  root := h.atRoot
  library := h.inLibrary
  connected := h.connected
  named := h.named
  fresh := h.fresh
  unreferenced := h.unreferenced
  outward := h.outward
  source := h.source

/-- **A reroute changes no program.** If some inputs that carry a wire are led through a reroute
of that wire, wherever that is done, a compilation that gave a program gives the same program,
unless a chain of outputs is now too long. -/
theorem Compiler.reroute_transparent (c c' : Compiler) (hc : c.catalog = .builtin)
    (root root' : Document) (w : Wire) (r : Node) (h : c.Detoured c' root root' w r) (o : Options)
    (x : Compilation) (p : Program) (hx : c.compile root o = .ok x) (hp : x.program = some p) :
    ∃ y, c'.compile root' o = .ok y ∧
      ((∀ d ∈ y.report.entries, d.concern ≠ .depthExceeded) → y.program = some p) := by
  have hsub : root'.isSubgraph = root.isSubgraph := by
    rcases h.atRoot with rfl | hroot
    · rfl
    · exact hroot.isSubgraph
  unfold compile at hx ⊢
  cases htemplate : o.templateOr .material with
  | error e =>
    rw [htemplate] at hx
    cases hx
  | ok t =>
    rw [htemplate] at hx
    cases hdraft : c.materialDraft root o with
    | error e =>
      rw [hdraft] at hx
      cases hx
    | ok draft =>
      rw [hdraft] at hx
      cases hx
      obtain ⟨draft', hdraft', hdrafts⟩ := (h.detour hc o.mode).materialDraft rfl rfl hsub hdraft
      rw [hdraft']
      refine ⟨_, rfl, fun hdepth => ?_⟩
      have hprogram : (if draft.pass.report.hasFatal then none
          else some (draft.program c.types o t)) = some p := hp
      show (if draft'.pass.report.hasFatal then none
        else some (draft'.program c'.types o t)) = some p
      rcases hdrafts with (hescaped | ⟨d, hd, hconcern⟩) | ⟨hsame, hpair⟩
      · rw [hescaped] at hprogram
        cases hprogram
      · exact (hdepth d hd hconcern).elim
      · rw [hpair.calm] at hprogram
        rw [hpair.calm', ← hprogram, hsame, hpair.same, h.same]
        rfl

namespace Compiler

/-- A reroute of the tint. -/
def tintStop : Node where
  id := ⟨11⟩
  className := "Reroute"
  settings := RerouteSettings.spec.write { input := { node := ⟨7⟩, output := "result" } }

/-- The tint with the reroute before its output. -/
def detouredTint : Document where
  isSubgraph := true
  nodes := tintDocument.nodes.take 1 ++ tintStop :: (tintDocument.nodes.drop 1).take 2 ++ [
    .of .subgraphOutput 8 { name := "tint", value := .ofNode 11 }]

theorem tint_rerouted :
    tintDocument.Rerouted { node := ⟨7⟩, output := "result" } tintStop detouredTint := by
  refine ⟨rfl, ⟨tintDocument.nodes.take 1, detouredTint.nodes.drop 2, rfl, ?_⟩, rfl⟩
  refine .cons (.inl rfl) (.cons (.inl rfl) (.cons (.inl rfl) (.cons (.inr ?_) .nil)))
  exact ⟨_, .subgraphOutput, _, _, rfl, rfl, rfl, _, .inr ⟨rfl, rfl⟩, rfl⟩

/-- A reroute before the output of a document that is called. The value there is in a variable. -/
theorem reroute_transparent_tint :
    (withTint tintDocument).Detoured (withTint detouredTint) coatDocument coatDocument
      { node := ⟨7⟩, output := "result" } tintStop ∧
    ∃ x p y, (withTint tintDocument).compile coatDocument {} = .ok x ∧ x.program = some p ∧
      (withTint detouredTint).compile coatDocument {} = .ok y ∧ y.program = some p := by
  have hdetoured : (withTint tintDocument).Detoured (withTint detouredTint) coatDocument
      coatDocument { node := ⟨7⟩, output := "result" } tintStop := by
    have hnodes {d : Document}
        (hd : ((withTint tintDocument).environment .final coatDocument).InReach d) :
        d.nodes ⊆ coatDocument.nodes ++ tintDocument.nodes := by
      rcases inReach_withTint hd with rfl | rfl
      · exact List.subset_append_left _ _
      · exact List.subset_append_right _ _
    have hfresh : ∀ node ∈ coatDocument.nodes ++ tintDocument.nodes, node.id ≠ tintStop.id := by
      decide +kernel
    have hunreferenced : ∀ node ∈ coatDocument.nodes ++ tintDocument.nodes,
        ∀ entry ∈ node.wires, ¬entry.2.RefersTo tintStop.id := by
      decide +kernel
    refine ⟨rfl, .inl rfl, fun path => ?_, rfl, rfl,
      fun d hd node hnode => hfresh node (hnodes hd hnode),
      fun d hd node hnode => hunreferenced node (hnodes hd hnode), by decide, ?_⟩
    · show Option.Rel _ (if path = "tint" then some tintDocument else none)
        (if path = "tint" then some detouredTint else none)
      split
      · exact .some (.inr tint_rerouted)
      · exact .none
    · intro d d' hfaces _ node hsource
      have hclass : ∀ node ∈ coatDocument.nodes ++ tintDocument.nodes, node.id = ⟨7⟩ →
          node.className ≠ NodeClass.materialResult.name := by decide +kernel
      have hfind : d.find? ⟨7⟩ = some node := hsource
      have hid := List.find?_some (p := fun node : Node => node.id == ⟨7⟩) hfind
      exact hclass node (hnodes hfaces.inReach (List.mem_of_find?_eq_some hfind))
        (beq_iff_eq.mp hid)
  refine ⟨hdetoured, ?_⟩
  have hprogram : (((withTint tintDocument).compile coatDocument {}).toOption.bind
      (·.program)).isSome = true := by decide +kernel
  have hdepth : ((withTint detouredTint).compile coatDocument {}).toOption.map
      (fun y => y.report.entries.map (·.concern)) = some [.danglingReference, .missingInput] := by
    decide +kernel
  cases hx : (withTint tintDocument).compile coatDocument {} with
  | error e =>
    rw [hx] at hprogram
    cases hprogram
  | ok x =>
    rw [hx] at hprogram
    obtain ⟨p, hp⟩ := Option.isSome_iff_exists.mp hprogram
    obtain ⟨y, hy, hsame⟩ := reroute_transparent _ _ rfl _ _ _ _ hdetoured {} x p hx hp
    refine ⟨x, p, y, rfl, hp, hy, hsame fun d hd heq => ?_⟩
    rw [hy] at hdepth
    have hmem : d.concern ∈ [Concern.danglingReference, .missingInput] := by
      rw [← Option.some.inj hdepth]
      exact List.mem_map.mpr ⟨d, hd, rfl⟩
    rw [heq] at hmem
    revert hmem
    decide

end Compiler

end MaterialGraph
