import MaterialGraph.Proofs.Builtin
import MaterialGraph.Proofs.Trace

/-!
# The channels that a document demands

Which channels a material should write can be said from the document alone: those
whose input on the first result node is connected, and for a subgraph on its own those
that some output names. How often a channel is written can be read off the last lines
of the stages.

## Main results

* `countP_writeLines` — every write has its line.
* `Pass.resultNodes_first` — the result node of a pass is the first one of the document.
* `Pass.channelOutputs_channels` — the outputs of a pass are those that name a channel.
-/

namespace MaterialGraph

/-! ### Lines -/

/-- How the lines start that write a channel. -/
def Channel.writeStem (channel : Channel) : String :=
  match channel.stage with
  | .vertex => "o.vPositionWs += "
  | .pixel => "m." ++ channel.fieldName ++ " = "

/-- Whether a line writes a channel. -/
def Channel.isWrittenBy (channel : Channel) (line : String) : Bool :=
  channel.writeStem.toList.isPrefixOf line.toList

/-- How many of the last lines of its stage write a channel. -/
def Draft.writes (draft : Draft) (channel : Channel) : Nat :=
  (match channel.stage with
    | .vertex => draft.vertexEnd
    | .pixel => draft.pixelEnd).countP channel.isWrittenBy

theorem Channel.mem_all (channel : Channel) : channel ∈ all := by
  cases channel <;> decide

/-- Lines that write different channels start differently. -/
theorem Channel.writeStem_apart {a b : Channel} (h : a ≠ b) :
    ¬a.writeStem.toList <+: b.writeStem.toList := by
  have hall : ∀ a ∈ all, ∀ b ∈ all, a ≠ b →
      a.writeStem.toList.isPrefixOf b.writeStem.toList = false := by decide
  rw [← List.isPrefixOf_iff_prefix, hall a a.mem_all b b.mem_all h]
  simp

theorem Write.line_eq (w : Write) : w.line = w.channel.writeStem ++ w.value.code ++ ";" := by
  unfold Write.line Channel.writeStem
  cases w.channel.stage with
  | vertex => rfl
  | pixel => rfl

theorem Write.isWrittenBy_line (w : Write) (channel : Channel) :
    channel.isWrittenBy w.line = (w.channel == channel) := by
  rw [Bool.eq_iff_iff, Channel.isWrittenBy, List.isPrefixOf_iff_prefix, beq_iff_eq, w.line_eq,
    String.toList_append, String.toList_append, List.append_assoc]
  constructor
  · intro h
    by_cases hne : w.channel = channel
    · exact hne
    · rcases List.prefix_or_prefix_of_prefix h (List.prefix_append _ _) with hp | hp
      · exact absurd hp (Channel.writeStem_apart (Ne.symm hne))
      · exact absurd hp (Channel.writeStem_apart hne)
  · rintro rfl
    exact List.prefix_append _ _

/-- Every write of a channel has its line in the stage of the channel. -/
theorem countP_writeLines (ws : List Write) (channel : Channel) :
    (writeLines channel.stage ws).countP channel.isWrittenBy =
      (ws.map (·.channel)).count channel := by
  unfold writeLines
  rw [List.countP_map, List.countP_filter, List.count, List.countP_map]
  refine List.countP_congr fun w _ => ?_
  simp only [Function.comp, Write.isWrittenBy_line, Bool.and_eq_true, beq_iff_eq]
  constructor
  · exact fun h => h.1
  · rintro rfl
    exact ⟨rfl, rfl⟩

/-- The line that returns the colour writes no channel. -/
theorem isWrittenBy_shadingLine (channel : Channel) (shading : Shading) :
    channel.isWrittenBy shading.line = false := by
  cases channel <;> cases shading <;> decide

/-- How often a draft writes a channel is how often the channel is among its writes. -/
theorem Draft.writes_eq (purpose : Purpose) (pass : Pass) (ws : List Write) (shading : Shading)
    (channel : Channel) :
    Draft.writes ⟨purpose, pass, writeLines .vertex ws, writeLines .pixel ws ++ [shading.line]⟩
      channel = (ws.map (·.channel)).count channel := by
  rw [← countP_writeLines]
  unfold Draft.writes
  split
  · next h => rw [h]
  · next h =>
    rw [h, List.countP_append, List.countP_singleton, isWrittenBy_shadingLine]
    rfl

/-! ### Demands -/

/-- The channels that a document demands: those connected on the first result node of a
material, those that outputs of a subgraph name. -/
def Document.Demands (d : Document) (channel : Channel) : Prop :=
  if d.isSubgraph then
    ∃ node ∈ d.nodes, node.className = OutputSettings.spec.name ∧
      ∃ s, OutputSettings.spec.build node.settings = .ok s ∧ s.channel = some channel
  else
    ∃ node, d.nodes.find? (·.className == MaterialSettings.spec.name) = some node ∧
      ∃ s, MaterialSettings.spec.build node.settings = .ok s ∧ (s.wire channel).isConnected = true

/-! ### Classes by their names -/

namespace NodeClass

variable {c : NodeClass}

theorem mem_all (c : NodeClass) : c ∈ all := by
  cases c with
  | literal k => cases k <;> decide
  | binary op => cases op <;> decide
  | unary op => cases op <;> decide
  | surface i => cases i <;> decide
  | sample k => cases k <;> decide
  | _ => decide

theorem ofName?_name (c : NodeClass) : ofName? c.name = some c := by
  have hall : ∀ c ∈ all, ofName? c.name = some c := by decide +kernel
  exact hall c c.mem_all

/-- No two classes have one name. -/
theorem name_injective {c' : NodeClass} (h : c.name = c'.name) : c = c' := by
  have hc := c.ofName?_name
  rw [h, c'.ofName?_name] at hc
  exact (Option.some.inj hc).symm

theorem role_eq_materialRoot {s : c.Settings} (h : c.spec.role s = .materialRoot) :
    c = .materialResult := by
  cases c with
  | materialResult => rfl
  | _ => cases h

theorem role_eq_subgraphOutput {s : c.Settings} {name : String} {channel : Option Channel}
    (h : c.spec.role s = .subgraphOutput name channel) :
    c = .subgraphOutput := by
  cases c with
  | subgraphOutput => rfl
  | _ => cases h

end NodeClass

/-! ### The nodes of a document -/

/-- The node that the catalog makes of a saved one. -/
def Environment.behavior? (env : Environment) (node : Node) : Option Behavior :=
  (env.catalog.find? node.className).bind fun kind => (kind.build node.settings).toOption

/-- The built-in class of a node that can be made. -/
theorem Environment.behavior?_builtin {env : Environment} (hc : env.catalog = .builtin)
    {node : Node} {b : Behavior} (h : env.behavior? node = some b) :
    ∃ (c : NodeClass) (s : c.Settings), node.className = c.name ∧
      c.spec.build node.settings = .ok s ∧ b = c.spec.behavior s := by
  unfold behavior? at h
  rw [hc, Option.bind_eq_some_iff] at h
  obtain ⟨kind, hf, hb⟩ := h
  cases hk : kind.build node.settings with
  | error m => rw [hk] at hb; cases hb
  | ok b' =>
    rw [hk] at hb
    cases hb
    exact Catalog.builtin_build hf hk

namespace Pass

variable {env : Environment}

/-- The nodes of a document, as the pass knows them if no error is reported. -/
def readyNodes (env : Environment) (nodes : List Node) : List (NodeId × Behavior) :=
  nodes.filterMap fun node => (env.behavior? node).map (node.id, ·)

theorem makeNode_ready (env : Environment) (s : Pass) (node : Node)
    (h : (s.makeNode env node).2.report.hasErrors = false) :
    ∃ b, env.behavior? node = some b ∧ (s.makeNode env node).1 = .ready b := by
  cases hstate : env.stateOf node with
  | broken message =>
    rw [makeNode_hasErrors (fun b hb => by cases hstate.symm.trans hb) s] at h
    cases h
  | ready b =>
    obtain ⟨kind, hk, hb⟩ := Environment.stateOf_eq_ready hstate
    refine ⟨b, ?_, by rw [makeNode_eq, hstate]⟩
    rw [Environment.behavior?, hk, Option.bind_some, hb]
    rfl

/-- If no error is reported, every node of the document is ready. -/
theorem makeNodes_behaviors (env : Environment) (nodes : List Node) :
    ∀ (g : Instance) (s : Pass), (makeNodes env g nodes s).2.report.hasErrors = false →
      (∀ node ∈ nodes, ∃ b, env.behavior? node = some b) ∧
        (makeNodes env g nodes s).1.behaviors = g.behaviors ++ readyNodes env nodes := by
  induction nodes with
  | nil => exact fun g s _ => ⟨by simp, (List.append_nil _).symm⟩
  | cons node nodes ih =>
    intro g s h
    rw [makeNodes] at h ⊢
    split at h
    · -- a second node of one identifier is an error
      have hpush := Report.no_errors_of_extends (makeNodes_noted env nodes g _).report h
      rw [push, Report.hasErrors_push_fatal] at hpush
      cases hpush
    · next hdup =>
      rw [if_neg hdup]
      simp only at h ⊢
      have hnode := Report.no_errors_of_extends (makeNodes_noted env nodes _ _).report h
      obtain ⟨b, hb, hready⟩ := makeNode_ready env s node hnode
      obtain ⟨hall, hbs⟩ := ih _ _ h
      refine ⟨List.forall_mem_cons.mpr ⟨⟨b, hb⟩, hall⟩, ?_⟩
      rw [hbs, hready]
      simp [Instance.behaviors, readyNodes, hb]

/-- The nodes of the root document, if no error is reported about them. -/
theorem root_behaviors {s : Pass} (hs : Fresh s) (h : (s.root env).2.report.hasErrors = false) :
    (∀ node ∈ env.root.nodes, ∃ b, env.behavior? node = some b) ∧
      (s.root env).1.behaviors = readyNodes env env.root.nodes := by
  obtain ⟨declarations, rfl⟩ := hs
  refine makeNodes_behaviors env env.root.nodes [] { globals := { declarations } } ?_
  exact Report.no_errors_of_extends (checkNodes_noted (makeNodes env [] env.root.nodes _).1
    (makeNodes env [] env.root.nodes _).1.behaviors [] [] _).report h

/-! ### Result nodes -/

/-- The first result node of a pass is the first one of the document. -/
theorem resultNodes_first (hc : env.catalog = .builtin) {nodes : List Node}
    (hall : ∀ node ∈ nodes, ∃ b, env.behavior? node = some b) {entry : NodeId × Behavior}
    {further : List (NodeId × Behavior)}
    (h : (readyNodes env nodes).filter (·.2.role = .materialRoot) = entry :: further) :
    ∃ node s, nodes.find? (·.className == MaterialSettings.spec.name) = some node ∧
      MaterialSettings.spec.build node.settings = .ok s ∧
      entry = (node.id, MaterialSettings.spec.behavior s) := by
  induction nodes with
  | nil => cases h
  | cons node nodes ih =>
    obtain ⟨⟨b, hb⟩, hrest⟩ := List.forall_mem_cons.mp hall
    obtain ⟨c, s, hname, hs, rfl⟩ := Environment.behavior?_builtin hc hb
    have hcons : readyNodes env (node :: nodes) =
        (node.id, c.spec.behavior s) :: readyNodes env nodes := by
      simp [readyNodes, hb]
    rw [hcons, List.filter_cons] at h
    split at h
    · next hrole =>
      obtain rfl := NodeClass.role_eq_materialRoot (of_decide_eq_true hrole)
      refine ⟨node, s, ?_, hs, (List.cons.inj h).1.symm⟩
      rw [List.find?_cons, hname]
      rfl
    · next hrole =>
      obtain ⟨node', s', hf, hs', he⟩ := ih hrest h
      refine ⟨node', s', ?_, hs', he⟩
      rw [List.find?_cons]
      split
      · next hclass =>
        -- a node of the class would have had the role
        rw [beq_iff_eq, hname] at hclass
        obtain rfl : c = .materialResult := NodeClass.name_injective hclass
        exact absurd rfl hrole
      · exact hf

/-! ### Outputs that name channels -/

/-- The channels of the outputs that a pass resolves are different from each other and
from those in use, and some node names each of them. -/
theorem channelOutputs_channels (nodes : List (NodeId × Behavior)) :
    ∀ (taken : List Channel) (s : Pass),
      ((channelOutputs taken nodes s).1.map (·.2)).Nodup ∧
      ∀ channel ∈ (channelOutputs taken nodes s).1.map (·.2), channel ∉ taken ∧
        ∃ entry ∈ nodes, ∃ name, entry.2.role = .subgraphOutput name (some channel) := by
  induction nodes with
  | nil => exact fun _ _ => ⟨.nil, fun _ h => by cases h⟩
  | cons node nodes ih =>
    obtain ⟨id, b⟩ := node
    intro taken s
    have later {taken' : List Channel} {s' : Pass} (hsub : ∀ c ∈ taken, c ∈ taken')
        (channel : Channel) (hm : channel ∈ (channelOutputs taken' nodes s').1.map (·.2)) :
        channel ∉ taken ∧ ∃ entry ∈ (id, b) :: nodes, ∃ name,
          entry.2.role = .subgraphOutput name (some channel) := by
      obtain ⟨hnew, entry, hentry, hname⟩ := (ih taken' s').2 channel hm
      exact ⟨fun hc => hnew (hsub _ hc), entry, List.mem_cons_of_mem _ hentry, hname⟩
    rw [channelOutputs]
    split
    · next name channel hrole =>
      split
      · exact ⟨(ih _ _).1, later fun _ h => h⟩
      · next hfree =>
        obtain ⟨hnodup, hall⟩ := ih (channel :: taken) s
        refine ⟨List.nodup_cons.mpr ⟨fun hm => (hall channel hm).1 List.mem_cons_self, hnodup⟩,
          fun c hm => ?_⟩
        rcases List.mem_cons.mp hm with rfl | hm
        · exact ⟨hfree, (id, b), List.mem_cons_self, name, hrole⟩
        · exact later (fun _ h => List.mem_cons_of_mem _ h) c hm
    · exact ⟨(ih _ _).1, later fun _ h => h⟩

/-- If no error is reported, every output that names a channel is resolved. -/
theorem channelOutputs_complete (nodes : List (NodeId × Behavior)) :
    ∀ (taken : List Channel) (s : Pass),
      (channelOutputs taken nodes s).2.report.hasErrors = false →
      ∀ entry ∈ nodes, ∀ name channel, entry.2.role = .subgraphOutput name (some channel) →
        channel ∈ (channelOutputs taken nodes s).1.map (·.2) := by
  induction nodes with
  | nil => exact fun _ _ _ entry h => by cases h
  | cons node nodes ih =>
    obtain ⟨id, b⟩ := node
    intro taken s h entry hentry name channel hrole
    rw [channelOutputs] at h ⊢
    split
    · next name' channel' hrole' =>
      simp only [hrole'] at h
      split
      · next htaken =>
        -- a channel that is provided twice is an error
        rw [if_pos htaken] at h
        obtain ⟨ds, -, hds⟩ := channelOutputs_eq nodes taken (s.push (.error .duplicateChannel id
          (channel'.fieldName ++ " is already provided by another output")))
        rw [hds] at h
        have hpush := Report.no_errors_of_extends (foldl_push_noted ds _).report h
        rw [push, Report.hasErrors_push_error] at hpush
        cases hpush
      · next hfree =>
        rw [if_neg hfree] at h
        rcases List.mem_cons.mp hentry with rfl | hentry
        · have heq := hrole'.symm.trans hrole
          cases heq
          exact List.mem_cons_self
        · exact List.mem_cons_of_mem _ (ih _ _ h entry hentry name channel hrole)
    · next hno =>
      rcases List.mem_cons.mp hentry with rfl | hentry
      · exact absurd hrole (hno name channel)
      · refine ih _ _ ?_ entry hentry name channel hrole
        split at h
        · next heq => exact absurd heq (hno _ _)
        · exact h

/-- The nodes of a document that name a channel are its outputs that do. -/
theorem names_channel_iff (hc : env.catalog = .builtin) {nodes : List Node}
    (hall : ∀ node ∈ nodes, ∃ b, env.behavior? node = some b) (channel : Channel) :
    (∃ entry ∈ readyNodes env nodes, ∃ name,
        entry.2.role = .subgraphOutput name (some channel)) ↔
      ∃ node ∈ nodes, node.className = OutputSettings.spec.name ∧
        ∃ s, OutputSettings.spec.build node.settings = .ok s ∧ s.channel = some channel := by
  constructor
  · rintro ⟨entry, hentry, name, hrole⟩
    obtain ⟨node, hnode, hm⟩ := List.mem_filterMap.mp hentry
    obtain ⟨b, hb, rfl⟩ := Option.map_eq_some_iff.mp hm
    obtain ⟨c, s, hname, hs, rfl⟩ := Environment.behavior?_builtin hc hb
    obtain rfl := NodeClass.role_eq_subgraphOutput hrole
    exact ⟨node, hnode, hname, s, hs, (Role.subgraphOutput.inj hrole).2⟩
  · rintro ⟨node, hnode, hclass, s, hs, hchannel⟩
    obtain ⟨b, hb⟩ := hall node hnode
    obtain ⟨c, s', hname, hs', rfl⟩ := Environment.behavior?_builtin hc hb
    obtain rfl : c = .subgraphOutput := NodeClass.name_injective (hname.symm.trans hclass)
    obtain rfl : s' = s := Except.ok.inj (hs'.symm.trans hs)
    refine ⟨(node.id, OutputSettings.spec.behavior s'),
      List.mem_filterMap.mpr ⟨node, hnode, ?_⟩, s'.name, ?_⟩
    · rw [hb]
      rfl
    · exact congrArg (Role.subgraphOutput s'.name) hchannel

end Pass

end MaterialGraph
