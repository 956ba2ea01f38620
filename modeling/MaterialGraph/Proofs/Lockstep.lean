import MaterialGraph.Proofs.Mirror
import MaterialGraph.Proofs.Writing

/-!
# Passes in step

Two passes over environments whose documents stand for each other are *companions* if they are at
the same place and have found out the same, and stay so while both do the same. Wherever the one
goes, the other goes too: they look up the same nodes, read along the same wires and write the same
channels. What is left to show of such a relation is that nodes are asked alike.

They are *in step* if nodes that stand for each other are the same, with the same plans. Then
nodes are asked alike, and what the passes remember, emit and register is the same. They differ
in the documents they keep and in their remarks.

## Main definitions

* `Mirror.Companions` — relations between passes that keep together.
* `Mirror.Lockstep` — environments in which plans are the same.
* `Mirror.Pair` — passes that are the same, but for documents and remarks.
* `Mirror.Rooted` — root documents with the same results.
* `Mirror.Drafts`, `Mirror.Drafted` — drafts that are the same, but for their passes.

## Main results

* `Mirror.Companions.resolve` — outputs are resolved alike if nodes are asked alike.
* `Mirror.Companions.materialDraft` — documents are drafted alike if outputs are resolved alike.
* `Mirror.Lockstep.perform`, `Mirror.Lockstep.ask` — requests are answered and nodes asked alike.
* `Mirror.Lockstep.materialDraft`, `Mirror.Lockstep.previewDraft` — documents are drafted alike.
-/

namespace MaterialGraph

open Pass

namespace Mirror

/-! ### Companions -/

/-- A site whose node and calls may be looked up. -/
def Sites (M : Mirror) (site : Site) : Prop :=
  M.names site.node ∧ ∀ call ∈ site.scope, M.names call

/-- A wire whose node and calls may be looked up. -/
def Wires (M : Mirror) (wire : Wire) : Prop :=
  M.names wire.node ∧ ∀ call ∈ wire.path, M.names call

/-- A relation between passes over both environments that are at the same place and have
found out the same. It lasts while both do the same. -/
structure Companions (M : Mirror) (P : Pass → Pass → Prop) : Prop where
  types : M.right.types = M.left.types
  same : ∀ {b b'}, M.alike b b' → b' = b
  /-- Their wires lead to what may be looked up. -/
  wires : ∀ {b b'}, M.alike b b' → ∀ entry ∈ b.connections, entry.2.isConnected = true →
    M.Wires entry.2
  stack : ∀ {s t}, P s t → t.stack = s.stack
  scope : ∀ {s t}, P s t → t.scope = s.scope
  stage : ∀ {s t}, P s t → t.stage = s.stage
  memo : ∀ {s t}, P s t → t.memo = s.memo
  /-- The place may be looked up. -/
  named : ∀ {s t}, P s t → (∀ call ∈ s.scope, M.names call) ∧ ∀ site ∈ s.stack, M.Sites site
  fresh : ∀ {s}, Fresh s → P s s
  push : ∀ {s t}, P s t → ∀ d, P (s.push d) (t.push d)
  inScope : ∀ {s t}, P s t → ∀ {scope : Scope}, (∀ call ∈ scope, M.names call) →
    P { s with scope } { t with scope }
  inStage : ∀ {s t}, P s t → ∀ stage, P { s with stage } { t with stage }
  remember : ∀ {s t}, P s t → ∀ site p, P (s.remember site p) (t.remember site p)
  root : ∀ {s t}, P s t → M.Instances (s.root M.left).1 (t.root M.right).1 ∧
    P (s.root M.left).2 (t.root M.right).2
  follow : ∀ {s t}, P s t → ∀ {scope : Scope}, (∀ call ∈ scope, M.names call) →
    M.Results (s.follow M.left scope).1 (t.follow M.right scope).1 ∧
      P (s.follow M.left scope).2 (t.follow M.right scope).2

/-- The same results, and related passes. -/
def Agree {α : Type} (P : Pass → Pass → Prop) (x y : α × Pass) : Prop := y.1 = x.1 ∧ P x.2 y.2

/-- The same rejection, or the same result and related passes. -/
def Accord {α : Type} (P : Pass → Pass → Prop) (x y : Except Rejection (α × Pass)) : Prop :=
  (∃ e, x = .error e ∧ y = .error e) ∨ ∃ a s t, x = .ok (a, s) ∧ y = .ok (a, t) ∧ P s t

/-- What is found at a site on both sides. -/
inductive Finds (M : Mirror) : Arrival → Arrival → Prop where
  | settled (outcome : Outcome) : Finds M (.settled outcome) (.settled outcome)
  | node {b b' : Behavior} (h : M.alike b b') : Finds M (.node b) (.node b')

/-- Resolvers that give the same results. -/
def Resolvers (M : Mirror) (P : Pass → Pass → Prop) (r r' : Resolver) : Prop :=
  ∀ site s t, M.Sites site → P s t → Agree P (r site s) (r' site t)

variable {M : Mirror} {P : Pass → Pass → Prop} {s t s' t' : Pass} {g g' : Instance}
  {r r' : Resolver} {α : Type}

theorem Agree.split {x y : α × Pass} (h : Agree P x y) :
    ∃ a s t, x = (a, s) ∧ y = (a, t) ∧ P s t := by
  obtain ⟨a, s⟩ := x
  obtain ⟨b, t⟩ := y
  obtain ⟨rfl, hs⟩ := h
  exact ⟨b, s, t, rfl, rfl, hs⟩

namespace Companions

variable (C : M.Companions P)
include C

theorem currentNode (h : P s t) : t.currentNode = s.currentNode := by
  unfold Pass.currentNode
  rw [C.stack h]

theorem pushFault (h : P s t) (node : NodeId) (fault : Fault) :
    P (s.pushFault node fault) (t.pushFault node fault) := by
  unfold Pass.pushFault
  cases Diagnostic.ofFault? node fault with
  | none => exact h
  | some d => exact C.push h d

/-! ### Requests that lead to other outputs -/

theorem readWire (hr : M.Resolvers P r r') (h : P s t) (input : String) {wire : Wire}
    (hwire : wire.isConnected = true → M.Wires wire) :
    Agree P (s.readWire r input wire) (t.readWire r' input wire) := by
  unfold Pass.readWire
  rw [C.scope h, C.stage h]
  by_cases hw : wire.isConnected = true
  · rw [if_pos hw, if_pos hw]
    refine hr _ _ _ ⟨(hwire hw).1, ?_⟩ h
    split
    · exact (C.named h).1
    · exact (hwire hw).2
  · rw [if_neg hw, if_neg hw]
    exact ⟨rfl, h⟩

theorem readOwn (hr : M.Resolvers P r r') (h : P s t) (output : String) :
    Agree P (s.readOwn r output) (t.readOwn r' output) := by
  have hsites := (C.named h).2
  unfold Pass.readOwn
  rw [C.stack h, C.stage h]
  cases hs : s.stack with
  | nil => exact ⟨rfl, h⟩
  | cons site rest =>
    rw [hs] at hsites
    exact hr _ _ _ (hsites site List.mem_cons_self) h

theorem callOutput (hr : M.Resolvers P r r') (h : P s t) (output : String) :
    Agree P (s.callOutput M.left r output) (t.callOutput M.right r' output) := by
  have hsites := (C.named h).2
  unfold Pass.callOutput
  rw [C.stack h]
  cases hs : s.stack with
  | nil => exact ⟨rfl, h⟩
  | cons site rest =>
    rw [hs] at hsites
    obtain ⟨hnode, hcalls⟩ := hsites site List.mem_cons_self
    have hscope : ∀ call ∈ site.scope ++ [site.node], M.names call := by
      intro call hcall
      rcases List.mem_append.mp hcall with hcall | hcall
      · exact hcalls call hcall
      · exact List.mem_singleton.mp hcall ▸ hnode
    obtain ⟨hres, hp⟩ := C.follow h hscope
    dsimp only
    rcases hx : s.follow M.left (site.scope ++ [site.node]) with ⟨x, s₁⟩
    rcases hy : t.follow M.right (site.scope ++ [site.node]) with ⟨y, t₁⟩
    rw [hx, hy] at hres hp
    dsimp only at hres hp
    cases hres with
    | error fault => exact ⟨rfl, hp⟩
    | @ok g g' hg =>
      dsimp only
      rw [hg.output, C.stage hp]
      cases hout : outputNode? g output with
      | none => exact ⟨rfl, hp⟩
      | some node =>
        obtain ⟨o, s₂, t₂, hx, hy, hp'⟩ :=
          (hr ⟨site.scope ++ [site.node], node, valueOutput, s₁.stage⟩ s₁ t₁
            ⟨hg.named output node hout, hscope⟩ hp).split
        dsimp only
        rw [hx, hy]
        exact ⟨rfl, hp'⟩

/-- A call binds the same wire on both sides. -/
theorem boundWire? (hg : M.Instances g g') {call : NodeId} (hcall : M.names call)
    (name : String) : Pass.boundWire? g' call name = Pass.boundWire? g call name ∧
      ∀ wire, Pass.boundWire? g call name = some wire → M.Wires wire := by
  have hb := hg.behavior? hcall
  unfold Pass.boundWire?
  generalize g.behavior? call = x at hb
  generalize g'.behavior? call = y at hb
  cases hb with
  | none => exact ⟨rfl, nofun⟩
  | @some b b' hb =>
    rw [C.same hb]
    refine ⟨rfl, fun wire hw => ?_⟩
    simp only [Option.bind_eq_bind, Option.bind_some, Option.bind_eq_some_iff] at hw
    obtain ⟨entry, hfind, hw⟩ := hw
    split at hw
    · next hc =>
      cases hw
      exact C.wires hb entry (List.mem_of_find?_eq_some hfind) hc
    · cases hw

theorem readArgument (hr : M.Resolvers P r r') (h : P s t) (name : String) :
    Agree P (s.readArgument M.left r name) (t.readArgument M.right r' name) := by
  unfold Pass.readArgument
  rw [C.scope h]
  cases hlast : s.scope.getLast? with
  | none => exact ⟨rfl, h⟩
  | some call =>
    have hcall := (C.named h).1 call (List.mem_of_getLast? hlast)
    have hcaller : ∀ c ∈ s.scope.dropLast, M.names c := fun c hc =>
      (C.named h).1 c (List.dropLast_subset _ hc)
    obtain ⟨hres, hp⟩ := C.follow h hcaller
    dsimp only
    rcases hx : s.follow M.left s.scope.dropLast with ⟨x, s₁⟩
    rcases hy : t.follow M.right s.scope.dropLast with ⟨y, t₁⟩
    rw [hx, hy] at hres hp
    dsimp only at hres hp
    cases hres with
    | error fault => exact ⟨rfl, hp⟩
    | @ok g g' hg =>
      obtain ⟨hbound, hwires⟩ := C.boundWire? hg hcall name
      dsimp only
      rw [hbound]
      cases hw : Pass.boundWire? g call name with
      | none => exact ⟨rfl, hp⟩
      | some wire =>
        obtain ⟨o, s₂, t₂, hx, hy, hp'⟩ :=
          (C.readWire hr (C.inScope hp hcaller) name fun _ => hwires wire hw).split
        dsimp only
        rw [hx, hy, C.scope hp]
        exact ⟨rfl, C.inScope hp' (C.named hp).1⟩

/-! ### Sites -/

theorem arrive {site : Site} (hsite : M.Sites site) (h : P s t) :
    M.Finds (s.arrive M.left site).1 (t.arrive M.right site).1 ∧
      P (s.arrive M.left site).2 (t.arrive M.right site).2 := by
  have hprogress : t.progress? site = s.progress? site := by
    unfold progress?
    rw [C.memo h]
  have hdangling {s t : Pass} (h : P s t) (message : String) :
      P (s.reportDangling message).2 (t.reportDangling message).2 := by
    unfold reportDangling
    rw [C.currentNode h]
    exact C.push h _
  unfold Pass.arrive
  rw [hprogress]
  cases s.progress? site with
  | some p =>
    cases p with
    | finished o => exact ⟨.settled o, h⟩
    | started =>
      unfold reportCycle
      rw [C.stack h]
      exact ⟨.settled _, C.push h _⟩
  | none =>
    -- the scope leads to documents that stand for each other, or nowhere on both sides
    obtain ⟨hres, hp⟩ := C.follow h hsite.2
    rcases hx : s.follow M.left site.scope with ⟨x, s₁⟩
    rcases hy : t.follow M.right site.scope with ⟨y, t₁⟩
    rw [hx, hy] at hres hp
    dsimp only at hres hp
    cases hres with
    | error fault =>
      cases fault with
      | cycle chain => exact ⟨.settled _, hp⟩
      | _ => exact ⟨.settled _, hdangling hp _⟩
    | @ok g g' hg =>
      have hstate := hg.state site.node hsite.1
      dsimp only
      generalize g.state? site.node = x at hstate
      generalize g'.state? site.node = y at hstate
      cases hstate with
      | none => exact ⟨.settled _, hdangling hp _⟩
      | some hstate =>
        cases hstate with
        | broken message => exact ⟨.settled _, hp⟩
        | @ready b b' hb =>
          dsimp only
          obtain rfl := C.same hb
          cases b'.errors with
          | nil => exact ⟨.node hb, hp⟩
          | cons message rest => exact ⟨.settled _, C.remember hp site _⟩

/-- **Resolving an output gives the same on both sides** if nodes at which both arrive are
asked alike. -/
theorem resolve
    (hask : ∀ {r r' site b b' s t s₀ t₀}, M.Resolvers P r r' → M.Sites site → P s₀ t₀ →
      Arrives M.left site s₀ (.node b) s → M.alike b b' → P s t →
      Agree P (s.ask M.left r site b) (t.ask M.right r' site b')) (room : Nat) :
    M.Resolvers P (Pass.resolve M.left room) (Pass.resolve M.right room) := by
  induction room with
  | zero =>
    intro site s t hsite h
    obtain ⟨hfinds, hp⟩ := C.arrive hsite h
    rw [Pass.resolve, Pass.resolve]
    rcases hx : s.arrive M.left site with ⟨x, s₁⟩
    rcases hy : t.arrive M.right site with ⟨y, t₁⟩
    rw [hx, hy] at hfinds hp
    cases hfinds with
    | settled o => exact ⟨rfl, hp⟩
    | node hb => exact ⟨rfl, C.push hp _⟩
  | succ room ih =>
    intro site s t hsite h
    have harrives := arrive_arrives M.left site s
    obtain ⟨hfinds, hp⟩ := C.arrive hsite h
    rw [Pass.resolve, Pass.resolve]
    rcases hx : s.arrive M.left site with ⟨x, s₁⟩
    rcases hy : t.arrive M.right site with ⟨y, t₁⟩
    rw [hx] at harrives
    rw [hx, hy] at hfinds hp
    cases hfinds with
    | settled o => exact ⟨rfl, hp⟩
    | node hb => exact hask ih hsite h harrives hb hp

/-! ### What is written -/

theorem fit (source : Write.Source) (o : Outcome) (h : P s t) :
    Agree P (Pass.fit M.left source (o, s)) (Pass.fit M.right source (o, t)) := by
  cases o with
  | valid e =>
    rw [Pass.fit, Pass.fit, C.types]
    cases source.value M.left.types e with
    | ok value => exact ⟨rfl, h⟩
    | error fault => exact ⟨rfl, C.pushFault h source.node fault⟩
  | _ => exact ⟨rfl, h⟩

section Writes

variable (hresolve : M.Resolvers P (Pass.resolve M.left maxDepth) (Pass.resolve M.right maxDepth))
include hresolve

theorem resolveFor (h : P s t) (stage : Stage) {scope : Scope} {node : NodeId}
    (hnode : M.names node) (hscope : ∀ call ∈ scope, M.names call) (output : String) :
    Agree P (s.resolveFor M.left stage scope node output)
      (t.resolveFor M.right stage scope node output) := by
  obtain ⟨o, s₁, t₁, hx, hy, hp⟩ := (hresolve ⟨scope, node, output, stage⟩ _ _
    ⟨hnode, hscope⟩ (C.inStage h stage)).split
  unfold Pass.resolveFor
  rw [hx, hy, C.stage h]
  exact ⟨rfl, C.inStage hp s.stage⟩

theorem writeSources (sources : List Write.Source)
    (hnamed : ∀ source ∈ sources, M.names source.node) :
    ∀ s t : Pass, P s t → Agree P (Pass.writeSources M.left sources s)
      (Pass.writeSources M.right sources t) := by
  induction sources with
  | nil => exact fun s t h => ⟨rfl, h⟩
  | cons source rest ih =>
    obtain ⟨hnode, hrest⟩ := List.forall_mem_cons.mp hnamed
    intro s t h
    obtain ⟨o, s₁, t₁, hx, hy, hp⟩ := (C.resolveFor hresolve h source.channel.stage hnode
      (List.forall_mem_nil _) source.output).split
    obtain ⟨w, s₂, t₂, hx', hy', hp⟩ := (C.fit source o hp).split
    obtain ⟨ws, s₃, t₃, hx'', hy'', hp⟩ := (ih hrest s₂ t₂ hp).split
    rw [Pass.writeSources, Pass.writeSources, hx, hy, hx', hy']
    dsimp only
    rw [hx'', hy'']
    exact ⟨rfl, hp⟩

end Writes

end Companions

/-! ### Whole compilations -/

/-- Whether a node names a result of its document. -/
def namesResult (b : Behavior) : Bool :=
  match b.role with
  | .subgraphOutput _ _ => true
  | _ => false

/-- Only nodes that name a result provide channels. -/
theorem channelOutputs_filter (nodes : List (NodeId × Behavior)) :
    ∀ (taken : List Channel) (s : Pass),
      channelOutputs taken (nodes.filter (namesResult ·.2)) s = channelOutputs taken nodes s := by
  induction nodes with
  | nil => exact fun _ _ => rfl
  | cons node nodes ih =>
    obtain ⟨id, b⟩ := node
    intro taken s
    rw [List.filter_cons, channelOutputs]
    cases hrole : b.role with
    | subgraphOutput name channel =>
      have hnames : namesResult b = true := by
        unfold namesResult
        rw [hrole]
      rw [if_pos hnames, channelOutputs, hrole]
      cases channel with
      | none => exact ih taken s
      | some channel =>
        dsimp only
        rw [ih, ih]
    | _ =>
      have hnames : ¬namesResult b = true := by
        unfold namesResult
        rw [hrole]
        rintro ⟨⟩
      rw [if_neg hnames]
      exact ih taken s

namespace Companions

variable (C : M.Companions P)
include C

theorem channelOutputs (nodes : List (NodeId × Behavior)) :
    ∀ (taken : List Channel) (s t : Pass), P s t →
      Agree P (Pass.channelOutputs taken nodes s) (Pass.channelOutputs taken nodes t) := by
  induction nodes with
  | nil => exact fun _ s t h => ⟨rfl, h⟩
  | cons node nodes ih =>
    obtain ⟨id, b⟩ := node
    intro taken s t h
    rw [Pass.channelOutputs, Pass.channelOutputs]
    split
    · next name channel hrole =>
      by_cases htaken : channel ∈ taken
      · rw [if_pos htaken, if_pos htaken]
        exact ih taken _ _ (C.push h _)
      · rw [if_neg htaken, if_neg htaken]
        obtain ⟨outputs, s₁, t₁, hx, hy, hp⟩ := (ih (channel :: taken) s t h).split
        rw [hx, hy]
        exact ⟨rfl, hp⟩
    · exact ih taken s t h

theorem reportFurther (nodes : List (NodeId × Behavior)) (h : P s t) :
    P (s.reportFurther nodes) (t.reportFurther nodes) := by
  unfold Pass.reportFurther
  induction nodes generalizing s t with
  | nil => exact h
  | cons node nodes ih => exact ih (C.push h _)

end Companions

theorem root_of_fresh (env : Environment) (h : Fresh s) :
    (s.root env).1 = env.instanceOf env.root := by
  obtain ⟨ds, rfl⟩ := h
  exact makeNodes_fst env.root.nodes [] _

/-- Root documents that are compiled alike: they have the same result nodes. -/
structure Rooted (M : Mirror) : Prop where
  /-- The nodes that are the result of a material. -/
  results : resultNodes (M.right.instanceOf M.right.root) =
    resultNodes (M.left.instanceOf M.left.root)
  /-- The nodes that name a result of a subgraph, if it is one that is compiled. -/
  outputs : M.left.root.isSubgraph = true →
    (M.right.instanceOf M.right.root).behaviors.filter (namesResult ·.2) =
      (M.left.instanceOf M.left.root).behaviors.filter (namesResult ·.2)
  /-- The nodes of the document that is compiled may be looked up. -/
  named : ∀ entry ∈ M.left.instanceOf M.left.root, M.names entry.1

theorem mem_of_mem_behaviors {g : Instance} {id : NodeId} {b : Behavior}
    (h : (id, b) ∈ g.behaviors) : (id, NodeState.ready b) ∈ g := by
  obtain ⟨⟨id', state⟩, hmem, hb⟩ := List.mem_filterMap.mp h
  cases state with
  | ready b' =>
    cases hb
    exact hmem
  | broken message => cases hb

namespace Companions

variable (C : M.Companions P)
  (hresolve : M.Resolvers P (Pass.resolve M.left maxDepth) (Pass.resolve M.right maxDepth))
include C hresolve

section Rooted

variable (R : M.Rooted)
include R

theorem materialWrites (h : Fresh s) :
    Accord P (s.materialWrites M.left) (s.materialWrites M.right) := by
  obtain ⟨hg, hp⟩ := C.root (C.fresh h)
  have hresults := R.results
  have hnamed := R.named
  unfold Pass.materialWrites
  dsimp only
  rw [root_of_fresh M.left h, root_of_fresh M.right h, hresults]
  cases hnodes : resultNodes (M.left.instanceOf M.left.root) with
  | nil => exact .inl ⟨_, rfl, rfl⟩
  | cons entry further =>
    obtain ⟨node, b⟩ := entry
    have hmem : (node, b) ∈ resultNodes (M.left.instanceOf M.left.root) := by
      rw [hnodes]
      exact List.mem_cons_self
    have hnode : M.names node := hnamed _ (mem_of_mem_behaviors (List.mem_of_mem_filter hmem))
    obtain ⟨ws, s₁, t₁, hx, hy, hp⟩ := (C.writeSources hresolve (channelSources node b.connections)
      (fun source hsource => mem_channelSources hsource ▸ hnode) _ _
      (C.reportFurther further hp)).split
    dsimp only
    rw [writeChannels_eq, writeChannels_eq, hx, hy]
    exact .inr ⟨ws, s₁, t₁, rfl, rfl, hp⟩

theorem subgraphWrites (hsub : M.left.root.isSubgraph = true) (h : Fresh s) :
    Accord P (s.subgraphWrites M.left) (s.subgraphWrites M.right) := by
  obtain ⟨hg, hp⟩ := C.root (C.fresh h)
  have hmem := mem_channelOutputs
    ((M.left.instanceOf M.left.root).behaviors.filter (namesResult ·.2)) [] (s.root M.left).2
  obtain ⟨outputs, s₁, t₁, hx, hy, hp⟩ := (C.channelOutputs
    ((M.left.instanceOf M.left.root).behaviors.filter (namesResult ·.2)) [] _ _ hp).split
  rw [hx] at hmem
  unfold Pass.subgraphWrites
  dsimp only
  rw [root_of_fresh M.left h, root_of_fresh M.right h, ← channelOutputs_filter,
    ← channelOutputs_filter (Instance.behaviors (M.right.instanceOf M.right.root)), R.outputs hsub,
    hx, hy]
  cases outputs with
  | nil => exact .inl ⟨_, rfl, rfl⟩
  | cons output outputs =>
    have hnamed : ∀ source ∈ outputSources (output :: outputs), M.names source.node := by
      intro source hsource
      obtain ⟨entry, he, rfl⟩ := List.mem_map.mp hsource
      obtain ⟨b, hb⟩ := hmem entry he
      exact R.named _ (mem_of_mem_behaviors (List.mem_of_mem_filter hb))
    obtain ⟨ws, s₂, t₂, hx, hy, hp⟩ := (C.writeSources hresolve _ hnamed _ _ hp).split
    dsimp only
    rw [writeOutputs_eq, writeOutputs_eq, hx, hy]
    exact .inr ⟨ws, s₂, t₂, rfl, rfl, hp⟩

end Rooted

end Companions

/-- Drafts with the same last lines, and related passes. -/
structure Drafts (P : Pass → Pass → Prop) (x y : Draft) : Prop where
  same : y = { x with pass := y.pass }
  pass : P x.pass y.pass

/-- Both are drafted alike, or rejected for the same reason. -/
def Drafted (P : Pass → Pass → Prop) (x y : Except Rejection Draft) : Prop :=
  (∃ e, x = .error e ∧ y = .error e) ∨ ∃ a b, x = .ok a ∧ y = .ok b ∧ Drafts P a b

/-- A material is drafted alike on both sides, or rejected for the same reason. -/
theorem Companions.materialDraft (C : M.Companions P)
    (hresolve : M.Resolvers P (Pass.resolve M.left maxDepth) (Pass.resolve M.right maxDepth))
    (R : M.Rooted) {c : Compiler} {d d' : Document} {mode : Mode} {o : Options}
    (hleft : M.left = c.environment o.mode d) (hright : M.right = c.environment mode d')
    (hsub : d'.isSubgraph = d.isSubgraph) :
    Drafted P (c.materialDraft d o) (c.materialDraft d' { o with mode }) := by
  have hfresh := Compiler.firstPass_fresh o.blend
  have hmaterial := C.materialWrites hresolve R hfresh
  have hsubgraph := fun hsub => C.subgraphWrites hresolve R hsub hfresh
  rw [hleft, hright] at hmaterial hsubgraph
  unfold Compiler.materialDraft
  rw [hsub]
  dsimp only
  cases hd : d.isSubgraph with
  | true =>
    rcases hsubgraph hd with ⟨e, hx, hy⟩ | ⟨ws, s, t, hx, hy, hp⟩
    · rw [hx, hy]
      exact .inl ⟨e, rfl, rfl⟩
    · rw [hx, hy]
      exact .inr ⟨_, _, rfl, rfl, rfl, hp⟩
  | false =>
    rcases hmaterial with ⟨e, hx, hy⟩ | ⟨ws, s, t, hx, hy, hp⟩
    · rw [hx, hy]
      exact .inl ⟨e, rfl, rfl⟩
    · rw [hx, hy]
      exact .inr ⟨_, _, rfl, rfl, rfl, hp⟩

/-! ### Passes in step -/

/-- A request that leads along such a wire, if it leads along any. -/
def Reads (M : Mirror) (c : Command) : Prop :=
  ∀ input wire, c = .read input wire → wire.isConnected = true → M.Wires wire

/-- Environments in which the nodes that stand for each other are the same, have the same
plans and look up what may be looked up. -/
structure Lockstep (M : Mirror) : Prop where
  types : M.right.types = M.left.types
  textures : M.right.textures = M.left.textures
  /-- The root documents are made ready alike. -/
  root : M.Makes M.left.root M.right.root
  /-- The documents that can be called are made ready alike. -/
  library : ∀ path, Option.Rel M.Makes (M.left.library path) (M.right.library path)
  same : ∀ {b b'}, M.alike b b' → b' = b
  plan : ∀ {b b'}, M.alike b b' → ∀ site,
    b.plan (frame M.right site) site.output = b.plan (frame M.left site) site.output
  /-- Their plans read what may be looked up. -/
  reads : ∀ {b b'}, M.alike b b' → ∀ frame output, (b.plan frame output).Confined M.Reads
  /-- Their wires lead to what may be looked up. -/
  wires : ∀ {b b'}, M.alike b b' → ∀ entry ∈ b.connections, entry.2.isConnected = true →
    M.Wires entry.2

section Open

variable {M : Mirror} (hnames : ∀ id, M.names id)
include hnames

/-- If every node may be looked up, a document stands for itself as soon as its nodes do. -/
theorem Makes.refl (hcat : M.right.catalog = M.left.catalog) (hsame : ∀ b b', M.alike b b' → b' = b)
    {d : Document} (hb : ∀ node ∈ d.nodes, ∀ b, M.left.stateOf node = .ready b → M.alike b b) :
    M.Makes d d := by
  refine .of_nodes (.same fun node hnode => .same hcat (hnames node.id) (hb node hnode)) ?_ ?_
  · exact List.pairwise_of_forall_mem_list fun m _ _ _ => .inl (hnames m.id)
  · intro hg b b' hbb id s t hst
    obtain rfl := hsame b b' hbb
    exact checkWires_remarked hg id (fun entry _ _ => hnames entry.2.node) hst

/-- If every node may be looked up, nothing is asked of the wires. -/
theorem Lockstep.of_plans (htypes : M.right.types = M.left.types)
    (htextures : M.right.textures = M.left.textures) (hroot : M.Makes M.left.root M.right.root)
    (hlib : ∀ path, Option.Rel M.Makes (M.left.library path) (M.right.library path))
    (hsame : ∀ b b', M.alike b b' → b' = b)
    (hplan : ∀ b, M.alike b b → ∀ site,
      b.plan (frame M.right site) site.output = b.plan (frame M.left site) site.output) :
    M.Lockstep := by
  have hwires (wire : Wire) : M.Wires wire := ⟨hnames _, fun call _ => hnames call⟩
  refine ⟨htypes, htextures, hroot, hlib, fun {b b'} hb => hsame b b' hb, fun {b b'} hb site => ?_,
    fun _ frame output => ?_, fun _ entry _ _ => hwires entry.2⟩
  · obtain rfl := hsame b b' hb
    exact hplan b' hb site
  · exact .of_forall (fun cmd input wire _ _ => hwires wire) _

end Open

end Mirror

/-- The pass with other documents and other remarks. -/
def Pass.reset (s : Pass) (instances : List (String × Instance))
    (scopes : List (Scope × Instance)) (report : Report) (metadata : Dictionary (List String)) :
    Pass :=
  { s with instances, scopes, report, metadata }

/-- Passes that are the same, but for documents and remarks. -/
structure Mirror.Pair (M : Mirror) (s t : Pass) : Prop where
  beside : M.Beside s t
  same : t = s.reset t.instances t.scopes t.report t.metadata
  /-- The calls that lead to the current document may be looked up. -/
  scope : ∀ call ∈ s.scope, M.names call
  stack : ∀ site ∈ s.stack, M.Sites site

namespace Mirror

variable {M : Mirror} {s t s' t' : Pass} {r r' : Resolver}

namespace Pair

theorem reset (h : M.Pair s t) :
    ∃ i c r m, t = s.reset i c r m := ⟨_, _, _, _, h.same⟩

/-- A step that makes documents ready on both sides. -/
theorem prepared (h : M.Pair s t) (hs : Prepared s s') (ht : Prepared t t')
    (hb : M.Beside s' t') : M.Pair s' t' := by
  obtain ⟨i, c, r, m, rfl⟩ := h.reset
  obtain ⟨i₁, c₁, r₁, m₁, -, rfl⟩ := hs
  obtain ⟨i₂, c₂, r₂, m₂, -, rfl⟩ := ht
  exact ⟨hb, rfl, h.scope, h.stack⟩

theorem push (h : M.Pair s t) (d : Diagnostic) : M.Pair (s.push d) (t.push d) :=
  h.prepared (.push s d) (.push t d) (h.beside.push d)

/-- A step that has nothing to do with documents and remarks. -/
theorem map (h : M.Pair s t) (f : Pass → Pass)
    (hf : ∀ s i c r m, f (s.reset i c r m) = (f s).reset i c r m)
    (hscope : ∀ call ∈ (f s).scope, M.names call) (hstack : ∀ site ∈ (f s).stack, M.Sites site) :
    M.Pair (f s) (f t) := by
  obtain ⟨i, c, r, m, rfl⟩ := h.reset
  have hs : f s = (f s).reset s.instances s.scopes s.report s.metadata := hf s _ _ _ _
  rw [hf]
  refine ⟨?_, rfl, hscope, hstack⟩
  rw [hs]
  exact ⟨⟨h.beside.report, h.beside.metadata⟩, h.beside.instances, h.beside.scopes⟩

theorem inScope (h : M.Pair s t) {scope : Scope} (hscope : ∀ call ∈ scope, M.names call) :
    M.Pair { s with scope } { t with scope } :=
  h.map (fun s => { s with scope }) (fun _ _ _ _ _ => rfl) hscope h.stack

theorem inStage (h : M.Pair s t) (stage : Stage) : M.Pair { s with stage } { t with stage } :=
  h.map (fun s => { s with stage }) (fun _ _ _ _ _ => rfl) h.scope h.stack

theorem moved (h : M.Pair s t) {stack : List Site} {scope : Scope}
    (hstack : ∀ site ∈ stack, M.Sites site) (hscope : ∀ call ∈ scope, M.names call) :
    M.Pair { s with stack, scope } { t with stack, scope } :=
  h.map (fun s => { s with stack, scope }) (fun _ _ _ _ _ => rfl) hscope hstack

theorem tables (h : M.Pair s t) (globals : Globals) :
    M.Pair { s with globals } { t with globals } :=
  h.map (fun s => { s with globals }) (fun _ _ _ _ _ => rfl) h.scope h.stack

theorem remember (h : M.Pair s t) (site : Site) (p : Progress) :
    M.Pair (s.remember site p) (t.remember site p) :=
  h.map (fun s => s.remember site p) (fun _ _ _ _ _ => rfl) h.scope h.stack

theorem enter (h : M.Pair s t) {site : Site} (hsite : M.Sites site) :
    M.Pair (s.enter site) (t.enter site) :=
  h.map (fun s => s.enter site) (fun _ _ _ _ _ => rfl) hsite.2
    (List.forall_mem_cons.mpr ⟨hsite, h.stack⟩)

theorem emit (h : M.Pair s t) (statement : Statement) (n : Nat) :
    M.Pair { s.emit statement with locals := n } { t.emit statement with locals := n } := by
  refine h.map (fun s => { s.emit statement with locals := n }) (fun s i c r m => ?_) ?_ ?_
  · simp only [emit_fields]
    rfl
  · simp only [emit_fields]
    exact h.scope
  · simp only [emit_fields]
    exact h.stack

/-! What the passes have in common. -/

theorem stack_eq (h : M.Pair s t) : t.stack = s.stack := by rw [h.same]; rfl

theorem scope_eq (h : M.Pair s t) : t.scope = s.scope := by rw [h.same]; rfl

theorem stage_eq (h : M.Pair s t) : t.stage = s.stage := by rw [h.same]; rfl

theorem globals_eq (h : M.Pair s t) : t.globals = s.globals := by rw [h.same]; rfl

theorem locals_eq (h : M.Pair s t) : t.locals = s.locals := by rw [h.same]; rfl

theorem currentNode_eq (h : M.Pair s t) : t.currentNode = s.currentNode := by rw [h.same]; rfl

/-- Passes that begin alike. -/
theorem of_fresh (h : Fresh s) : M.Pair s s := by
  obtain ⟨ds, rfl⟩ := h
  exact ⟨⟨⟨M.blank, M.bare⟩, .nil, .nil⟩, rfl, List.forall_mem_nil _, List.forall_mem_nil _⟩

end Pair

namespace Lockstep

variable (L : M.Lockstep)
include L

theorem rootPair (h : M.Pair s t) : M.Instances (s.root M.left).1 (t.root M.right).1 ∧
    M.Pair (s.root M.left).2 (t.root M.right).2 := by
  obtain ⟨hg, hb⟩ := root_beside L.root h.beside
  exact ⟨hg, h.prepared (root_prepared M.left s) (root_prepared M.right t) hb⟩

theorem follow (h : M.Pair s t) {scope : Scope} (hscope : ∀ call ∈ scope, M.names call) :
    M.Results (s.follow M.left scope).1 (t.follow M.right scope).1 ∧
      M.Pair (s.follow M.left scope).2 (t.follow M.right scope).2 := by
  obtain ⟨hg, hb⟩ := follow_beside L.root L.library scope hscope h.beside
  exact ⟨hg, h.prepared (follow_prepared M.left scope s) (follow_prepared M.right scope t) hb⟩

theorem companions : M.Companions M.Pair where
  types := L.types
  same := L.same
  wires := L.wires
  stack := Pair.stack_eq
  scope := Pair.scope_eq
  stage := Pair.stage_eq
  memo h := by rw [h.same]; rfl
  named h := ⟨h.scope, h.stack⟩
  fresh := Pair.of_fresh
  push := Pair.push
  inScope := Pair.inScope
  inStage := Pair.inStage
  remember := Pair.remember
  root := L.rootPair
  follow := L.follow

omit L in
theorem registering : Registering M.Pair where
  globals h := h.globals_eq
  locals h := h.locals_eq
  node h := h.currentNode_eq
  tables h := h.tables
  push h d _ := h.push d
  compiled h spec := h.map (fun s => { s with compiled := s.compiled ++ [spec] })
    (fun _ _ _ _ _ => rfl) h.scope h.stack
  journal h remark := h.map (fun s => { s with journal := s.journal ++ [remark] })
    (fun _ _ _ _ _ => rfl) h.scope h.stack
  emit h := h.emit

/-- **A request is answered alike on both sides.** -/
theorem perform (hr : M.Resolvers M.Pair r r') {cmd : Command} (hcmd : M.Reads cmd)
    (h : M.Pair s t) : Agree M.Pair (s.perform M.left r cmd) (t.perform M.right r' cmd) := by
  cases cmd with
  | read input wire => exact L.companions.readWire hr h input (hcmd input wire rfl)
  | own output => exact L.companions.readOwn hr h output
  | call output => exact L.companions.callOutput hr h output
  | argument name => exact L.companions.readArgument hr h name
  | _ => exact registering.perform L.types L.textures h r r' fun _ => rfl

/-- A plan that reads what may be looked up is carried out alike. -/
theorem run (hr : M.Resolvers M.Pair r r') {α : Type} (plan : Plan α) :
    ∀ s t : Pass, plan.Confined M.Reads → M.Pair s t →
      Agree M.Pair (Pass.run M.left r plan s) (Pass.run M.right r' plan t) := by
  induction plan with
  | done a => exact fun s t _ h => ⟨rfl, h⟩
  | fail fault => exact fun s t _ h => ⟨rfl, h⟩
  | ask cmd next ih =>
    intro s t hplan h
    obtain ⟨hcmd, hnext⟩ := hplan
    obtain ⟨hreply, hs⟩ := L.perform hr hcmd h
    rw [run_ask, run_ask, hreply]
    exact ih _ _ _ (hnext _) hs

/-! ### Sites -/

theorem conclude (h : M.Pair s t) (node : NodeId) (role : Role) (result : Except Fault Expr) :
    Agree M.Pair (Pass.conclude M.left node role result s)
      (Pass.conclude M.right node role result t) := by
  unfold Pass.conclude
  cases result with
  | error fault => exact ⟨rfl, L.companions.pushFault h node fault⟩
  | ok e =>
    dsimp only
    split
    · exact ⟨rfl, h⟩
    · unfold Pass.hoist
      split
      · exact ⟨rfl, h⟩
      · rw [L.types, h.locals_eq]
        exact ⟨rfl, h.emit _ _⟩

/-- Nodes that stand for each other are asked alike. -/
theorem ask (hr : M.Resolvers M.Pair r r') {b b' : Behavior} (hb : M.alike b b') {site : Site}
    (hsite : M.Sites site) (h : M.Pair s t) :
    Agree M.Pair (s.ask M.left r site b) (t.ask M.right r' site b') := by
  obtain rfl := L.same hb
  obtain ⟨result, s₁, t₁, hx, hy, hp⟩ := (L.run hr _ _ _
    (L.reads hb (frame M.left site) site.output) (h.enter hsite)).split
  obtain ⟨outcome, s₂, t₂, hx', hy', hp'⟩ :=
    (L.conclude (hp.moved h.stack h.scope) site.node b'.role result).split
  unfold Pass.ask
  dsimp only
  rw [L.plan hb, hx, hy]
  rw [h.stack_eq, h.scope_eq, hx', hy']
  exact ⟨rfl, hp'.remember site _⟩

theorem resolve (room : Nat) :
    M.Resolvers M.Pair (Pass.resolve M.left room) (Pass.resolve M.right room) :=
  L.companions.resolve (fun hr hsite _ _ hb h => L.ask hr hb hsite h) room

/-- **A material is drafted alike on both sides**, or rejected for the same reason. -/
theorem materialDraft (R : M.Rooted) {c : Compiler} {d d' : Document} {mode : Mode} {o : Options}
    (hleft : M.left = c.environment o.mode d) (hright : M.right = c.environment mode d')
    (hsub : d'.isSubgraph = d.isSubgraph) :
    Drafted M.Pair (c.materialDraft d o) (c.materialDraft d' { o with mode }) :=
  L.companions.materialDraft (L.resolve maxDepth) R hleft hright hsub

/-- **An output is shown alike on both sides.** -/
theorem previewDraft {c : Compiler} {d d' : Document} (hleft : M.left = c.environment .preview d)
    (hright : M.right = c.environment .preview d') {target : Wire} (htarget : M.Wires target) :
    Drafts M.Pair (c.previewDraft d target) (c.previewDraft d' target) := by
  obtain ⟨-, hp⟩ := L.companions.root (L.companions.fresh (s := {}) ⟨[], rfl⟩)
  obtain ⟨outcome, s₁, t₁, hx, hy, hp⟩ :=
    (L.companions.resolveFor (L.resolve maxDepth) hp .pixel htarget.1 htarget.2 target.output).split
  rw [hleft] at hx
  rw [hright] at hy
  unfold Compiler.previewDraft
  dsimp only
  rw [hx, hy]
  cases outcome with
  | valid e =>
    dsimp only
    cases displayColor c.types e with
    | ok code => exact ⟨rfl, hp⟩
    | error fault => exact ⟨rfl, L.companions.push hp _⟩
  | _ => exact ⟨rfl, hp⟩

end Lockstep

end Mirror

end MaterialGraph
