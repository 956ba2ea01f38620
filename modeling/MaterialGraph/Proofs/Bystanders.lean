import MaterialGraph.Proofs.Lockstep
import MaterialGraph.Proofs.Modes

/-!
# Nodes that nothing refers to

A node that no wire leads to, and that is not what a document is compiled for, takes no part
in a compilation. It is made ready with its document and checked, so that there may be remarks
about it, but it is never asked. This module compares a document with the same document and
one such node more, by two passes that are in step.

## Main results

* `Compiler.Bystander.lockstep` — passes over both documents are in step.
* `Compiler.bystander_unseen` — a node that nothing refers to changes no program.
-/

namespace MaterialGraph

open Pass

/-! ### Remarks about one node -/

namespace Report

/-- The diagnostics that are not about a node. -/
def without (r : Report) (id : NodeId) : List Diagnostic := r.entries.filter (·.node != id)

theorem without_push (r : Report) (id : NodeId) (d : Diagnostic) :
    (r.push d).without id =
      if d.node = id ∨ d ∈ r.without id then r.without id else r.without id ++ [d] := by
  have hmem : d ∈ r.without id ↔ d ∈ r.entries ∧ d.node ≠ id := by
    unfold without
    simp
  unfold push
  by_cases hd : d ∈ r.entries
  · rw [if_pos hd, if_pos]
    by_cases hid : d.node = id
    · exact .inl hid
    · exact .inr (hmem.mpr ⟨hd, hid⟩)
  · rw [if_neg hd]
    have hnot : d ∉ r.without id := fun h => hd (hmem.mp h).1
    by_cases hid : d.node = id
    · rw [if_pos (.inl hid)]
      unfold without
      simp [hid]
    · rw [if_neg (fun h => h.elim hid hnot)]
      unfold without
      simp [hid]

end Report

/-- Metadata with all that is in other metadata. -/
def Dictionary.Within (m m' : Dictionary (List String)) : Prop :=
  ∀ key values, m.get? key = some values →
    ∃ values', m'.get? key = some values' ∧ ∀ value ∈ values, value ∈ values'

namespace Pass

variable {s t : Pass}

theorem within_addMetadata_right {m : Dictionary (List String)} (key value : String)
    (h : m.Within t.metadata) : m.Within (t.addMetadata key value).metadata := by
  intro key' values hvalues
  obtain ⟨values', hget, hsub⟩ := h key' values hvalues
  show ∃ values', (t.metadata.insert key _).get? key' = some values' ∧ _
  rw [Dictionary.get?_insert]
  by_cases hkey : key = key'
  · subst hkey
    rw [if_pos rfl, hget]
    exact ⟨_, rfl, fun v hv => mem_insertText.mpr (.inr (hsub v hv))⟩
  · rw [if_neg hkey]
    exact ⟨values', hget, hsub⟩

theorem within_addMetadata (key value : String)
    (h : Dictionary.Within s.metadata t.metadata) :
    Dictionary.Within (s.addMetadata key value).metadata (t.addMetadata key value).metadata := by
  have hright := within_addMetadata_right key value h
  intro key' values hvalues
  have hvalues : (s.metadata.insert key _).get? key' = some values := hvalues
  rw [Dictionary.get?_insert] at hvalues
  by_cases hkey : key = key'
  · subst hkey
    rw [if_pos rfl] at hvalues
    cases hvalues
    refine ⟨_, Dictionary.get?_insert_self _ _ _, fun v hv => mem_insertText.mpr ?_⟩
    rcases mem_insertText.mp hv with rfl | hv
    · exact .inl rfl
    · cases hs : s.metadata.get? key with
      | none =>
        rw [hs] at hv
        cases hv
      | some old =>
        obtain ⟨new, hget, hsub⟩ := h key old hs
        rw [hs] at hv
        rw [hget]
        exact .inr (hsub v hv)
  · rw [if_neg hkey] at hvalues
    exact hright key' values hvalues

end Pass

/-! ### Nodes that nothing refers to -/

/-- The node asks only for the wires that it lists. -/
def Behavior.ReadsOwnWires (b : Behavior) : Prop :=
  ∀ frame output, (b.plan frame output).Confined fun cmd =>
    ∀ input wire, cmd = .read input wire → (input, wire) ∈ b.connections

/-- All nodes ask only for the wires that they list. -/
def Catalog.ReadsOwnWires (catalog : Catalog) : Prop :=
  ∀ name kind, catalog.find? name = some kind →
    ∀ settings b, kind.build settings = .ok b → b.ReadsOwnWires

theorem Catalog.builtin_readsOwnWires : Catalog.builtin.ReadsOwnWires := by
  intro name kind hkind settings b hb frame output
  obtain ⟨c, s, -, -, rfl⟩ := Catalog.builtin_build hkind hb
  refine (c.plan_confined s frame output).mono fun cmd hask input wire hcmd => ?_
  subst hcmd
  exact hask

/-- A node that nothing refers to, neither in the document that is compiled nor in those
that can be called. -/
structure Compiler.Bystander (c : Compiler) (root : Document) (n : Node) : Prop where
  /-- No other node has its identifier. -/
  fresh : ∀ d, (c.environment .final root).InReach d → ∀ node ∈ d.nodes, node.id ≠ n.id
  /-- No wire leads to it or through it. -/
  unreferenced : ∀ d, (c.environment .final root).InReach d → ∀ node ∈ d.nodes, ∀ b,
    (c.environment .final root).stateOf node = .ready b →
      ∀ entry ∈ b.connections, ¬entry.2.RefersTo n.id
  /-- If it can be made, it is no result of a material and no input or output of a subgraph. -/
  inner : ∀ b, (c.environment .final root).stateOf n = .ready b → b.role.IsInner = true

namespace Compiler.Bystander

/-- A document on the left, the same document with one node more on the right. -/
def mirror (c : Compiler) (mode : Mode) (d : Document) (before after : List Node) (n : Node) :
    Mirror where
  left := c.environment mode { d with nodes := before ++ after }
  right := c.environment mode { d with nodes := before ++ n :: after }
  names id := id ≠ n.id
  alike b b' := b' = b ∧ b.ReadsOwnWires ∧ ∀ entry ∈ b.connections, ¬entry.2.RefersTo n.id
  reports r r' := r'.without n.id = r.without n.id ∧ r'.hasFatal = r.hasFatal
  remarks := Dictionary.Within
  role h := by rw [h.1]
  blank := ⟨rfl, rfl⟩
  bare := nofun
  push d h := by
    rw [Report.without_push, Report.without_push, Report.hasFatal_push, Report.hasFatal_push, h.1,
      h.2]
    exact ⟨rfl, rfl⟩
  add key value h := within_addMetadata key value h

variable {c : Compiler} (hc : c.catalog.ReadsOwnWires) (mode : Mode) {d : Document}
  {before after : List Node} {n : Node}
  (hn : c.Bystander { d with nodes := before ++ after } n)
include hn

theorem extra : (mirror c mode d before after n).Extra n.id
    ((mirror c mode d before after n).right.stateOf n) where
  unnamed := not_not_intro rfl
  inner := hn.inner
  push x hnode hsev h := by
    show (Report.push _ x).without n.id = _ ∧ (Report.push _ x).hasFatal = _
    rw [Report.without_push, if_pos (.inl hnode), Report.hasFatal_push, hsev, Bool.or_false]
    exact h
  add _ _ entry _ _ _ h := within_addMetadata_right entry.1 entry.2 h

include hc

/-- The nodes of a document are the same on both sides. -/
theorem nodes {x : Document}
    (hx : (c.environment .final { d with nodes := before ++ after }).InReach x) :
    ∀ node ∈ x.nodes, (mirror c mode d before after n).Nodes node node := by
  intro node hnode
  refine .same rfl (hn.fresh x hx node hnode) fun b hb => ?_
  obtain ⟨kind, hkind, hbuild⟩ := Environment.stateOf_eq_ready hb
  exact ⟨rfl, hc _ kind hkind _ b hbuild, hn.unreferenced x hx node hnode b hb⟩

theorem rootNodes : Mirror.Interleaved (mirror c mode d before after n).Nodes
      (fun m => (mirror c mode d before after n).Extra m.id
        ((mirror c mode d before after n).right.stateOf m))
      (before ++ after) (before ++ n :: after) ∧
    (before ++ n :: after).Pairwise fun m m' =>
      (mirror c mode d before after n).names m.id ∨ m'.id ≠ m.id := by
  have hsame := hn.nodes hc mode (.inl rfl)
  obtain ⟨hbefore, hafter⟩ := List.forall_mem_append.mp hsame
  refine ⟨.append (.same hbefore) (.right (hn.extra mode) (.same hafter)), ?_⟩
  refine List.pairwise_append.mpr ⟨?_, ?_, fun m hm _ _ => .inl (hbefore m hm).named⟩
  · exact List.pairwise_of_forall_mem_list fun m hm _ _ => .inl (hbefore m hm).named
  · refine List.pairwise_cons.mpr ⟨fun m hm => .inr (hafter m hm).named, ?_⟩
    exact List.pairwise_of_forall_mem_list fun m hm _ _ => .inl (hafter m hm).named

/-- **The passes over both documents are in step.** -/
theorem lockstep : (mirror c mode d before after n).Lockstep := by
  have hwires {g g' : Instance} (hg : (mirror c mode d before after n).Instances g g')
      {b b' : Behavior} (hb : (mirror c mode d before after n).alike b b') (id : NodeId)
      (s t : Pass) (h : (mirror c mode d before after n).Remarked s t) :
      (mirror c mode d before after n).Remarked (s.checkWires g id b) (t.checkWires g' id b') := by
    obtain ⟨rfl, -, hrefers⟩ := hb
    exact Mirror.checkWires_remarked hg id
      (fun entry hentry hconnected heq => hrefers entry hentry ⟨hconnected, .inl heq⟩) h
  have halike {b b' : Behavior} (hb : (mirror c mode d before after n).alike b b')
      (entry : String × Wire) (hentry : entry ∈ b.connections)
      (hconnected : entry.2.isConnected = true) :
      (mirror c mode d before after n).Wires entry.2 :=
    ⟨fun heq => hb.2.2 entry hentry ⟨hconnected, .inl heq⟩,
      fun call hcall heq => hb.2.2 entry hentry ⟨hconnected, .inr (heq ▸ hcall)⟩⟩
  obtain ⟨hroot, hdistinct⟩ := hn.rootNodes hc mode
  refine ⟨rfl, rfl, .of_nodes hroot hdistinct hwires, fun path => ?_, fun h => h.1, fun _ _ => rfl,
    fun hb frame output => ?_, halike⟩
  · show Option.Rel _ (c.library path) (c.library path)
    cases hpath : c.library path with
    | none => exact .none
    | some x =>
      have hsame := hn.nodes hc mode (x := x) (.inr ⟨path, hpath⟩)
      refine .some (.of_nodes (.same hsame) ?_ hwires)
      exact List.pairwise_of_forall_mem_list fun m hm _ _ => .inl (hsame m hm).named
  · refine (hb.2.1 frame output).mono fun cmd hcmd input wire heq => ?_
    exact halike hb (input, wire) (hcmd input wire heq)

theorem rooted : (mirror c mode d before after n).Rooted := by
  obtain ⟨hroot, hdistinct⟩ := hn.rootNodes hc mode
  have hentries : (mirror c mode d before after n).Entries
      ((mirror c mode d before after n).left.instanceOf (mirror c mode d before after n).left.root)
      ((mirror c mode d before after n).right.instanceOf
        (mirror c mode d before after n).right.root) :=
    Mirror.entries_instanceOf hroot hdistinct
  have hfilter {p : NodeId × Behavior → Bool}
      (hp : ∀ entry : NodeId × Behavior, entry.2.role.IsInner = true → p entry = false) :=
    hentries.behaviors.filter_eq (p := p)
      (fun x y hxy => Prod.ext hxy.1 hxy.2.2.1) fun y hy => hp y (hy.inner y.2 rfl)
  refine ⟨hfilter fun entry h => ?_, fun _ => hfilter fun entry h => ?_, hentries.named⟩
  · refine decide_eq_false fun hrole => ?_
    rw [hrole] at h
    cases h
  · unfold Mirror.namesResult
    cases hrole : entry.2.role with
    | subgraphOutput name channel =>
      rw [hrole] at h
      cases h
    | _ => rfl

end Compiler.Bystander

/-! ### Documents of built-in classes -/

/-- A node of a built-in class that is neither the result of a material nor an input or output
of a subgraph, or that cannot be made at all. -/
theorem Compiler.Bystander.of_nodes {c : Compiler} (hc : c.catalog = .builtin) {root : Document}
    {n : Node} (nodes : List Node)
    (hall : ∀ d, (c.environment .final root).InReach d → d.nodes ⊆ nodes)
    (hfresh : ∀ node ∈ nodes, node.id ≠ n.id)
    (hwires : ∀ node ∈ nodes, ∀ entry ∈ node.wires, ¬entry.2.RefersTo n.id)
    (hclass : n.className ∉ [NodeClass.materialResult.name, NodeClass.subgraphInput.name,
      NodeClass.subgraphOutput.name]) : c.Bystander root n where
  fresh d hd node hnode := hfresh node (hall d hd hnode)
  unreferenced d hd node hnode b hb entry hentry := by
    obtain ⟨k, s, hbuilt, rfl⟩ := Environment.stateOf_builtin hc hb
    refine hwires node (hall d hd hnode) entry ?_
    unfold Node.wires
    rw [hbuilt]
    exact hentry
  inner b hb := by
    obtain ⟨kind, hkind, hbuild⟩ := Environment.stateOf_eq_ready hb
    have hkind : c.catalog.find? n.className = some kind := hkind
    rw [hc] at hkind
    obtain ⟨k, s, hname, -, rfl⟩ := Catalog.builtin_build hkind hbuild
    rw [hname] at hclass
    cases k with
    | materialResult => exact absurd (.head _) hclass
    | subgraphInput => exact absurd (.tail _ (.head _)) hclass
    | subgraphOutput => exact absurd (.tail _ (.tail _ (.head _))) hclass
    | _ => rfl

/-! ### Compilations -/

/-- Compilations that differ in what is said about one node, and in what it adds to the
metadata. -/
structure Compilation.Unmoved (id : NodeId) (x y : Compilation) : Prop where
  /-- There are programs on both sides or on none. They are the same but for the metadata, of
  which there may be more. -/
  program : Option.Rel (fun p q : Program => q = { p with metadata := q.metadata } ∧
    p.metadata.Within q.metadata) x.program y.program
  /-- The same is said about the other nodes, in the same order. -/
  diagnostics : y.report.without id = x.report.without id
  compiled : y.compiled = x.compiled
  journal : y.journal = x.journal

/-- The same rejection, or compilations that differ in what is said about one node. -/
def Compiler.Unmoved (id : NodeId) (x y : Except Rejection Compilation) : Prop :=
  (∃ e, x = .error e ∧ y = .error e) ∨ ∃ a b, x = .ok a ∧ y = .ok b ∧ a.Unmoved id b

theorem Compiler.Bystander.unmoved {c : Compiler} {mode : Mode} {d : Document}
    {before after : List Node} {n : Node} {x y : Draft}
    (h : Mirror.Drafts (mirror c mode d before after n).Pair x y) (types : TypeTable) (o : Options)
    (t : Template) :
    (x.compilation types o t).Unmoved n.id (y.compilation types o t) := by
  obtain ⟨hsame, hpass⟩ := h
  obtain ⟨i, k, r, m, hreset⟩ := hpass.reset
  obtain ⟨hwithout, hfatal⟩ := hpass.beside.report
  have hmetadata : x.pass.metadata.Within y.pass.metadata := hpass.beside.metadata
  refine ⟨?_, hwithout, ?_, ?_⟩
  · unfold Draft.compilation
    rw [hfatal]
    cases x.pass.report.hasFatal with
    | true => exact .none
    | false =>
      refine .some ⟨?_, hmetadata⟩
      rw [hsame, hreset]
      rfl
  · show y.pass.compiled = x.pass.compiled
    rw [hreset]
    rfl
  · show y.pass.journal = x.pass.journal
    rw [hreset]
    rfl

/-- **A node that nothing refers to changes no program.** Wherever it is put into the document,
the document is rejected for the same reason as without it, or it gives the same program, with
perhaps more metadata, and the same is said about the other nodes. So it is for what is shown
of one output. -/
theorem Compiler.bystander_unseen (c : Compiler) (hc : c.catalog.ReadsOwnWires) (d : Document)
    (before after : List Node) (n : Node)
    (hn : c.Bystander { d with nodes := before ++ after } n) (o : Options) :
    Unmoved n.id (c.compile { d with nodes := before ++ after } o)
        (c.compile { d with nodes := before ++ n :: after } o) ∧
      ∀ target : Wire, ¬target.RefersTo n.id →
        Unmoved n.id (c.preview { d with nodes := before ++ after } o target)
          (c.preview { d with nodes := before ++ n :: after } o target) := by
  refine ⟨?_, fun target htarget => ?_⟩
  · unfold compile
    cases o.templateOr .material with
    | error e => exact .inl ⟨e, rfl, rfl⟩
    | ok t =>
      rcases (hn.lockstep hc o.mode).materialDraft (hn.rooted hc o.mode) rfl rfl rfl with
        ⟨e, hx, hy⟩ | ⟨x, y, hx, hy, hdrafts⟩
      · have hy : c.materialDraft { d with nodes := before ++ n :: after } o = .error e := hy
        rw [hx, hy]
        exact .inl ⟨e, rfl, rfl⟩
      · have hy : c.materialDraft { d with nodes := before ++ n :: after } o = .ok y := hy
        rw [hx, hy]
        exact .inr ⟨_, _, rfl, rfl, Bystander.unmoved hdrafts c.types o t⟩
  · unfold preview
    cases hconnected : target.isConnected with
    | false => exact .inl ⟨_, rfl, rfl⟩
    | true =>
      have hnode : n.id ≠ target.node := fun heq => htarget ⟨hconnected, .inl heq.symm⟩
      have hfind : Document.find? { d with nodes := before ++ n :: after } target.node =
          Document.find? { d with nodes := before ++ after } target.node := by
        unfold Document.find?
        rw [List.find?_append, List.find?_append, List.find?_cons,
          beq_eq_false_iff_ne.mpr hnode]
      have hwires : (Bystander.mirror c .preview d before after n).Wires target :=
        ⟨hnode.symm, fun call hcall heq => htarget ⟨hconnected, .inr (heq ▸ hcall)⟩⟩
      have hdrafts := (hn.lockstep hc .preview).previewDraft rfl rfl hwires
      rw [hfind]
      cases target.path.isEmpty && (Document.find? { d with nodes := before ++ after }
          target.node).isNone with
      | true => exact .inl ⟨_, rfl, rfl⟩
      | false =>
        cases o.templateOr .preview with
        | error e => exact .inl ⟨e, rfl, rfl⟩
        | ok t => exact .inr ⟨_, _, rfl, rfl, Bystander.unmoved hdrafts c.types o t⟩

/-- A switch that nothing refers to, and that refers to no node. -/
def strayNode : Node where
  id := ⟨11⟩
  className := "StaticSwitch"
  settings := SwitchSettings.spec.write
    { name := "Use Tint", onTrue := { node := ⟨12⟩, output := "result" } }

/-- Only what is said about the switch is new. -/
theorem Compiler.bystander_unseen_stray :
    (withTint tintDocument).catalog.ReadsOwnWires ∧
    (withTint tintDocument).Bystander
      { nodes := coatDocument.nodes.take 2 ++ coatDocument.nodes.drop 2 } strayNode ∧
    Unmoved strayNode.id
      ((withTint tintDocument).compile
        { nodes := coatDocument.nodes.take 2 ++ coatDocument.nodes.drop 2 } {})
      ((withTint tintDocument).compile
        { nodes := coatDocument.nodes.take 2 ++ strayNode :: coatDocument.nodes.drop 2 } {}) ∧
    Unmoved strayNode.id
      ((withTint tintDocument).preview
        { nodes := coatDocument.nodes.take 2 ++ coatDocument.nodes.drop 2 } {}
        { node := ⟨7⟩, output := "result", path := [⟨5⟩] })
      ((withTint tintDocument).preview
        { nodes := coatDocument.nodes.take 2 ++ strayNode :: coatDocument.nodes.drop 2 } {}
        { node := ⟨7⟩, output := "result", path := [⟨5⟩] }) ∧
    (((withTint tintDocument).compile
        { nodes := coatDocument.nodes.take 2 ++ strayNode :: coatDocument.nodes.drop 2 }
        {}).toOption.map fun x =>
      (x.report.entries.map fun entry => (entry.concern, entry.node), x.program.isSome)) =
      some ([(.danglingReference, strayNode.id), (.danglingReference, ⟨4⟩),
        (.missingInput, ⟨4⟩)], true) := by
  have hcatalog : (withTint tintDocument).catalog.ReadsOwnWires := Catalog.builtin_readsOwnWires
  have hstray : (withTint tintDocument).Bystander
      { nodes := coatDocument.nodes.take 2 ++ coatDocument.nodes.drop 2 } strayNode := by
    refine .of_nodes rfl (coatDocument.nodes ++ tintDocument.nodes) (fun d hd => ?_)
      (by decide +kernel) (by decide +kernel) (by decide +kernel)
    rcases inReach_withTint hd with rfl | rfl
    · exact List.subset_append_left _ _
    · exact List.subset_append_right _ _
  obtain ⟨hcompile, hpreview⟩ := bystander_unseen (withTint tintDocument) hcatalog {}
    (coatDocument.nodes.take 2) (coatDocument.nodes.drop 2) strayNode hstray {}
  exact ⟨hcatalog, hstray, hcompile, hpreview _ (by decide +kernel), by decide +kernel⟩

end MaterialGraph
