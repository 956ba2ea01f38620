import Mathlib.Data.List.Perm.Subperm
import MaterialGraph.Proofs.Cycles
import MaterialGraph.Proofs.Inlining
import MaterialGraph.Proofs.Lockstep
import MaterialGraph.Proofs.Saving

/-!
# Who is blamed for a missing node

A wire that leads to no node is reported twice over: when its document is made ready, for
the node that has the wire, and again when a site is looked up and not found, for the node
that is being resolved. The second report is right if that node has the wire itself. It
is not when an argument of a call is read: the wire belongs to the call, but it is an
input node of the called document that is being resolved.

So there are two ways to be blamed, `Environment.Wired` and `Environment.Lent`, and no
others: whatever the plan of a node has resolved is a node that is there, or the end of a
wire that the node has or has been lent (`blamed_of_demand`).

## Main results

* `Pass.resolve_accounts` — what is reported while a site is resolved blames such nodes
  only.
* `Compiler.dangling_attributed` — **a missing node is reported for a node that has a wire
  to it or has been lent one, and once for each of them**.
-/

namespace MaterialGraph

open Pass

/-! ### Nodes to blame -/

/-- The diagnostic says that a wire leads to the missing node `target`. -/
def Diagnostic.NamesMissing (d : Diagnostic) (target : NodeId) : Prop :=
  d.concern = .danglingReference ∧ d.message = missingNodeMessage target

instance (d : Diagnostic) (target : NodeId) : Decidable (d.NamesMissing target) :=
  inferInstanceAs (Decidable (_ ∧ _))

/-- The message tells which node is missing. -/
theorem missingNodeMessage_inj {target target' : NodeId}
    (h : missingNodeMessage target = missingNodeMessage target') : target = target' := by
  unfold missingNodeMessage at h
  have htext : target.text = target'.text := by
    rw [← String.toList_inj, String.toList_append, String.toList_append] at h
    exact String.toList_inj.mp (List.append_cancel_left h)
  have hid := NodeId.ofText?_text target
  rw [htext, NodeId.ofText?_text target'] at hid
  exact (Option.some.inj hid).symm

/-- A node that cannot be reached is not said to be missing. -/
theorem strayMessage_ne (node target : NodeId) (fault : Fault) :
    strayMessage node fault ≠ missingNodeMessage target := by
  intro h
  unfold strayMessage missingNodeMessage at h
  rw [String.append_assoc, String.append_assoc] at h
  -- the texts part at the first letter after "reference to"
  have hchars := congrArg String.toList h
  rw [String.toList_append, String.toList_append] at hchars
  simp at hchars

/-- The node stands for the value that calls of its document bind to a name. -/
def Node.StandsFor (node : Node) (name : String) : Prop :=
  ∃ (c : NodeClass) (s : c.Settings), node.built? = some ⟨c, s⟩ ∧
    c.spec.role s = .subgraphInput name

namespace Environment

/-- A wire of a node of the document leads to `target`, and there is no such node where it
leads: in the document itself, or where the path of the wire leads. -/
structure Misses (env : Environment) (d : Document) (wire : Wire) (target : NodeId) : Prop where
  connected : wire.isConnected = true
  source : wire.node = target
  /-- The target is not there. -/
  missing : ∃ d', (if wire.path.isEmpty then some d else env.documentAt wire.path) = some d' ∧
    d'.find? target = none

/-- The node with this identifier in some document has a wire to the missing `target`. -/
def Wired (env : Environment) (id target : NodeId) : Prop :=
  ∃ d node, env.InReach d ∧ d.find? id = some node ∧
    ∃ entry ∈ node.wires, env.Misses d entry.2 target

/-- The node with this identifier stands for a value of a call, and the wire that the call
has for that value leads to the missing `target`. -/
def Lent (env : Environment) (id target : NodeId) : Prop :=
  ∃ scope call d caller node name wire,
    env.documentAt scope = some d ∧ d.find? call = some caller ∧
      env.nodeAt? (scope ++ [call]) id = some node ∧ node.StandsFor name ∧
      (name, wire) ∈ caller.wires ∧ env.Misses d wire target

/-- A diagnostic about a missing node blames a node that has a wire to it or has been lent
one. -/
def Accounted (env : Environment) (d : Diagnostic) : Prop :=
  d.concern = .danglingReference →
    d.severity = .error ∧
      ∀ target, d.message = missingNodeMessage target →
        env.Wired d.node target ∨ env.Lent d.node target

variable {env : Environment}

/-! ### Nodes of a document -/

/-- The entries of a document are those that are found. -/
theorem state?_of_mem {d : Document} {entry : NodeId × NodeState}
    (h : entry ∈ env.instanceOf d) : (env.instanceOf d).state? entry.1 = some entry.2 := by
  -- identifiers are not repeated while the nodes are added one after the other
  have keyed : ∀ (nodes : List Node) (g : Instance),
      (∀ e ∈ g, g.state? e.1 = some e.2) →
        ∀ e ∈ nodes.foldl env.extend g, (nodes.foldl env.extend g).state? e.1 = some e.2 := by
    intro nodes
    induction nodes with
    | nil => exact fun g hg => hg
    | cons node nodes ih =>
      intro g hg
      apply ih
      intro e he
      rw [state?_extend]
      unfold extend at he
      split at he
      · rw [hg e he, Option.some_or]
      · next hnew =>
        rcases List.mem_append.mp he with he | he
        · rw [hg e he, Option.some_or]
        · rw [List.mem_singleton.mp he, Option.not_isSome_iff_eq_none.mp hnew]
          simp
  exact keyed d.nodes [] (by simp) entry h

section Builtin

variable (hc : env.catalog = .builtin)
include hc

/-- A node of a document that can be asked is a saved node of a built-in class. -/
theorem exists_built?_of_mem {d : Document} {id : NodeId} {b : Behavior}
    (h : (id, b) ∈ (env.instanceOf d).behaviors) :
    ∃ node, d.find? id = some node ∧ node.wires = b.connections := by
  have hstate := state?_of_mem (Mirror.mem_of_mem_behaviors h)
  rw [state?_instanceOf, Option.map_eq_some_iff] at hstate
  obtain ⟨node, hfind, hready⟩ := hstate
  obtain ⟨c, s, hbuilt, rfl⟩ := stateOf_builtin hc hready
  refine ⟨node, hfind, ?_⟩
  rw [Node.wires, hbuilt]
  rfl

/-- A saved node with wires is a node of its document that can be asked. -/
theorem exists_behavior_of_mem_wires {d : Document} {id : NodeId} {node : Node}
    (h : d.find? id = some node) {entry : String × Wire} (he : entry ∈ node.wires) :
    ∃ b, (id, b) ∈ (env.instanceOf d).behaviors ∧ b.connections = node.wires := by
  unfold Node.wires at he ⊢
  split at he
  · next c s hbuilt =>
    have hstate : (env.instanceOf d).state? id = some (.ready (c.spec.behavior s)) := by
      rw [state?_instanceOf, h, Option.map_some, stateOf_of_built? hc hbuilt]
    unfold Instance.state? at hstate
    obtain ⟨⟨id', state⟩, hfirst, rfl⟩ := Option.map_eq_some_iff.mp hstate
    have hid : id' = id := by simpa using List.find?_some hfirst
    subst hid
    exact ⟨_, List.mem_filterMap.mpr ⟨_, List.mem_of_find?_eq_some hfirst, rfl⟩, rfl⟩
  · cases he

/-- What is reported about the wires of a document blames the nodes that have them. -/
theorem permits_accounted : env.Permits env.Accounted where
  routine d hroutine hd := by
    rw [hd] at hroutine
    cases hroutine
  recursion _ _ _ _ hd := by cases hd
  dangling d hd id b hb entry hentry hconnected hpath hmissing := by
    intro _
    refine ⟨rfl, fun target htarget => .inl ?_⟩
    obtain ⟨node, hfind, hwires⟩ := exists_built?_of_mem hc hb
    rw [← hwires] at hentry
    obtain rfl := missingNodeMessage_inj htarget
    rw [state?_instanceOf, Option.isNone_iff_eq_none, Option.map_eq_none_iff] at hmissing
    exact ⟨d, node, hd, hfind, entry, hentry, hconnected, rfl, d, if_pos hpath, hmissing⟩

end Builtin

end Environment

namespace Pass

variable {env : Environment} {d : Document} {id : NodeId} {entry : String × Wire}

/-! ### What a node has resolved -/

/-- If the site is not found, the node that is being resolved has a wire to it or has been
lent one. -/
def Blamed (env : Environment) (site : Site) (s : Pass) : Prop :=
  ∀ d, env.documentAt site.scope = some d → d.find? site.node = none →
    env.Wired s.currentNode site.node ∨ env.Lent s.currentNode site.node

/-- Nobody is blamed for a node that is there. -/
theorem Blamed.of_nodeAt? {site : Site} {node : Node}
    (h : env.nodeAt? site.scope site.node = some node) (s : Pass) : Blamed env site s := by
  intro d hd hnone
  rw [Environment.nodeAt?, hd, Option.bind_some, hnone] at h
  cases h

/-- The first node that names an output of a document is a node of the document. -/
theorem find?_of_outputNode? {output : String}
    (h : outputNode? (env.instanceOf d) output = some id) :
    ∃ node, d.find? id = some node := by
  unfold outputNode? at h
  obtain ⟨entry, hentry, rfl⟩ := Option.map_eq_some_iff.mp h
  have hstate := Environment.state?_of_mem
    (Mirror.mem_of_mem_behaviors (List.mem_of_find?_eq_some hentry))
  rw [Environment.state?_instanceOf, Option.map_eq_some_iff] at hstate
  obtain ⟨node, hnode, -⟩ := hstate
  exact ⟨node, hnode⟩

/-- A wire without a path leads into the document that the scope leads to. -/
theorem documentAt_wire {scope : Scope} {wire : Wire} {d' : Document}
    (hd : env.documentAt scope = some d)
    (h : env.documentAt (if wire.path.isEmpty then scope else wire.path) = some d') :
    (if wire.path.isEmpty then some d else env.documentAt wire.path) = some d' := by
  split at h
  · next hpath => rw [if_pos hpath, ← hd, h]
  · next hpath => rw [if_neg hpath, h]

/-- What a wire leads to is missing in the document that it is followed from. -/
theorem misses_of_wire {scope : Scope} {wire : Wire} {d' : Document}
    (hconnected : wire.isConnected = true) (hat : env.documentAt scope = some d)
    (hd' : env.documentAt (if wire.path.isEmpty then scope else wire.path) = some d')
    (hnone : d'.find? wire.node = none) : env.Misses d wire wire.node :=
  ⟨hconnected, rfl, d', documentAt_wire hat hd', hnone⟩

/-- Whatever the resolver reports is accounted for, if somebody is to blame for the site. -/
def Resolver.Accounts (env : Environment) (r : Resolver) : Prop :=
  ∀ site s, Faithful env s → Blamed env site s →
    Faithful env (r site s).2 ∧ Reports env.Accounted s (r site s).2

section Builtin

variable {s s' : Pass} {site : Site} {c : NodeClass} {types : TypeTable} {mode : Mode}
  {r : Resolver}

variable (hc : env.catalog = .builtin)
include hc

/-- The wire that a call binds to a name is one of its inputs. -/
theorem mem_wires_of_boundWire? {d : Document} {call : NodeId} {name : String} {wire : Wire}
    (h : boundWire? (env.instanceOf d) call name = some wire) :
    ∃ caller, d.find? call = some caller ∧ (name, wire) ∈ caller.wires := by
  unfold boundWire? at h
  simp only [Option.bind_eq_bind, Option.bind_eq_some_iff] at h
  obtain ⟨b, hb, entry, hentry, hwire⟩ := h
  obtain ⟨caller, hcaller, hready⟩ := Option.map_eq_some_iff.mp (Environment.behavior?_eq_some hb)
  obtain ⟨c, s, hbuilt, rfl⟩ := Environment.stateOf_builtin hc hready
  have hname : entry.1 = name := by simpa using List.find?_some hentry
  split at hwire
  · cases hwire
    refine ⟨caller, hcaller, ?_⟩
    rw [Node.wires, hbuilt, ← hname]
    exact List.mem_of_find?_eq_some hentry
  · cases hwire

/-- **What the plan of a node has resolved is a node that is there, or the end of a wire
that the node has or has been lent.** -/
theorem blamed_of_demand {st : c.Settings} (hstands : env.Stands site c st) {cmd : Command}
    (hask : c.MayAsk types mode st cmd) {site' : Site} (hs : Faithful env s)
    (hstack : s.stack.head? = some site) (hscope : s.scope = site.scope)
    (hd : demand? env cmd s = some (site', s')) : Blamed env site' s' := by
  obtain ⟨node, hnode, hbuilt, -⟩ := hstands
  have hcurrent : s'.currentNode = site.node := by
    obtain ⟨-, s₁, scope, hf, rfl⟩ := demand?_place hd
    obtain ⟨below, hbelow⟩ := List.head?_eq_some_iff.mp hstack
    have hstack₁ : s₁.stack = site :: below := hf.prepared.stack.trans hbelow
    simp only [currentNode, hstack₁]
  cases demand?_demands hd with
  | @read input wire hconnected =>
    intro d' hd' hnone
    obtain ⟨d, hat, hfind⟩ := Option.bind_eq_some_iff.mp hnode
    have hwire : (input, wire) ∈ node.wires := by
      rw [Node.wires, hbuilt]
      exact hask
    rw [hcurrent]
    exact .inl ⟨d, node, Environment.inReach_of_documentAt hat, hfind, _, hwire,
      misses_of_wire hconnected (hscope ▸ hat) hd' hnone⟩
  | own output htop =>
    cases hstack.symm.trans htop
    exact .of_nodeAt? hnode _
  | call htop hf hid =>
    obtain ⟨d, hat, rfl⟩ := documentAt_of_follow hs hf
    obtain ⟨node', hnode'⟩ := find?_of_outputNode? hid
    exact .of_nodeAt? (Option.bind_eq_some_iff.mpr ⟨d, hat, hnode'⟩) _
  | @argument name call wire g s₁ hlast hf hwire =>
    obtain ⟨d, hat, rfl⟩ := documentAt_of_follow hs hf
    obtain ⟨node', hfind, hbound⟩ := mem_wires_of_boundWire? hc hwire
    intro d' hd' hnone
    rw [hcurrent]
    -- the node stands where the scope leads, behind the call that lends the wire
    have hinner : env.nodeAt? (s.scope.dropLast ++ [call]) site.node = some node := by
      rw [List.dropLast_append_getLast? call hlast, hscope]
      exact hnode
    exact .inr ⟨_, call, d, node', node, name, wire, hat, hfind, hinner, ⟨c, st, hbuilt, hask⟩,
      hbound, misses_of_wire (boundWire?_isConnected hwire) hat hd' hnone⟩

/-! ### What is reported while a site is resolved -/

/-- A request of a node. -/
theorem perform_accounts (hr : r.Accounts env) {st : c.Settings} (hstands : env.Stands site c st)
    {cmd : Command} (hask : c.MayAsk types mode st cmd) (hs : Faithful env s)
    (hstack : s.stack.head? = some site) (hscope : s.scope = site.scope) :
    Faithful env (s.perform env r cmd).2 ∧ Reports env.Accounted s (s.perform env r cmd).2 := by
  have hQ := Environment.permits_accounted hc
  rcases hd : demand? env cmd s with _ | ⟨site', s'⟩
  · refine ⟨?_, perform_reports hQ r hd⟩
    rcases perform_silent r hd with hsilent | ⟨feature, type, on, off, rfl⟩
    · exact hsilent.faithful hs
    · exact emit_faithful hs _ _
  · have hblamed := blamed_of_demand hc hstands hask hs hstack hscope hd
    obtain ⟨reply, scope, -, he, -⟩ := perform_of_demand? r hd
    obtain ⟨-, s₁, here, hf, rfl⟩ := demand?_place hd
    have hs₁ : Faithful env { s₁ with scope := here } := (hf.silent.faithful hs).of_same rfl rfl
    obtain ⟨hfaithful, hreports⟩ := hr site' _ hs₁ hblamed
    rw [he]
    refine ⟨hfaithful.of_same rfl rfl, ?_⟩
    -- the scope in which the site is resolved makes no difference to the report
    obtain ⟨ds, hds, hreport⟩ := hreports
    exact (hf.reports hQ).trans ⟨ds, hds, hreport⟩

theorem run_accounts (hr : r.Accounts env) (hreturns : r.Returning) {st : c.Settings}
    (hstands : env.Stands site c st) {α : Type} (plan : Plan α)
    (hplan : plan.Confined (c.MayAsk types mode st)) :
    ∀ s : Pass, Faithful env s → s.stack.head? = some site → s.scope = site.scope →
      Faithful env (run env r plan s).2 ∧ Reports env.Accounted s (run env r plan s).2 := by
  induction plan with
  | done a => exact fun s hs _ _ => ⟨hs, .refl s⟩
  | fail fault => exact fun s hs _ _ => ⟨hs, .refl s⟩
  | ask cmd next ih =>
    intro s hs hstack hscope
    obtain ⟨hfaithful, hreports⟩ := perform_accounts hc hr hstands hplan.1 hs hstack hscope
    have hback := perform_returns env hreturns cmd s
    obtain ⟨hfaithful', hreports'⟩ := ih (s.perform env r cmd).1 (hplan.2 _) _ hfaithful
      (hback.stack ▸ hstack) (hback.scope.trans hscope)
    exact ⟨hfaithful', hreports.trans hreports'⟩

theorem ask_accounts (hr : r.Accounts env) (hreturns : r.Returning) {st : c.Settings}
    (hstands : env.Stands site c st) (hs : Faithful env s) :
    Faithful env (s.ask env r site (c.spec.behavior st)).2 ∧
      Reports env.Accounted s (s.ask env r site (c.spec.behavior st)).2 := by
  have hplan := c.plan_confined st (frame env site) site.output
  obtain ⟨hfaithful, hreports⟩ := run_accounts hc hr hreturns hstands _ hplan (s.enter site)
    (hs.of_same rfl rfl) rfl rfl
  exact ⟨ask_faithful hfaithful,
    Reports.trans hreports (ask_reports (Environment.permits_accounted hc) r site _ s)⟩

/-- A site that is looked up. -/
theorem arrive_accounts {a : Arrival} (ha : Arrives env site s a s') (hs : Faithful env s)
    (hblamed : Blamed env site s) :
    Faithful env s' ∧ Reports env.Accounted s s' := by
  have hQ := Environment.permits_accounted hc
  have hfollow {x : Except Fault Instance} {s₁ : Pass} (hf : s.follow env site.scope = (x, s₁)) :
      Faithful env s₁ ∧ Reports env.Accounted s s₁ := by
    have hfaithful := (follow_faithful site.scope hs).1
    have hreports := follow_reports hQ site.scope s
    rw [hf] at hfaithful hreports
    exact ⟨hfaithful, hreports⟩
  cases ha with
  | known o hk => exact ⟨hs, .refl s⟩
  | cycle hstarted => exact ⟨hs.of_same rfl rfl, .push s (by rintro ⟨⟩)⟩
  | recursive chain s' hn hf => exact hfollow hf
  | stray fault s₁ hn hf =>
    obtain ⟨hfaithful, hreports⟩ := hfollow hf
    refine ⟨hfaithful.of_same rfl rfl, hreports.trans (.push s₁ ?_)⟩
    intro _
    exact ⟨rfl, fun target htarget => absurd htarget (strayMessage_ne site.node target fault)⟩
  | broken g s' message hn hf hg => exact hfollow hf
  | missing g s₁ hn hf hg =>
    obtain ⟨hfaithful, hreports⟩ := hfollow hf
    refine ⟨hfaithful.of_same rfl rfl, hreports.trans (.push s₁ ?_)⟩
    intro _
    refine ⟨rfl, fun target htarget => ?_⟩
    have hstack := (follow_prepared env site.scope s).stack
    rw [hf] at hstack
    obtain ⟨d, hat, rfl⟩ := documentAt_of_follow hs hf
    -- the node is missing there, so somebody has a wire that is to blame
    rw [Environment.state?_instanceOf, Option.map_eq_none_iff] at hg
    have hcurrent : s₁.currentNode = s.currentNode := by
      unfold currentNode
      rw [hstack]
    obtain rfl := missingNodeMessage_inj htarget
    rw [hcurrent]
    exact hblamed d hat hg
  | faulty g s₁ b message rest hn hf hg he =>
    obtain ⟨hfaithful, hreports⟩ := hfollow hf
    exact ⟨hfaithful.of_same rfl rfl, hreports.trans (.of_same rfl)⟩
  | node g s' b hn hf hg he => exact hfollow hf

/-- **What is reported while a site is resolved is accounted for.** -/
theorem resolve_accounts (room : Nat) :
    Resolver.Accounts env (resolve env room) := by
  refine resolve_induction (motive := fun site s x => Faithful env s → Blamed env site s →
    Faithful env x.2 ∧ Reports env.Accounted s x.2) ?_ ?_ ?_ room
  · exact fun harr => arrive_accounts hc harr
  · intro site s b s' harr hs hblamed
    obtain ⟨hfaithful, hreports⟩ := arrive_accounts hc harr hs hblamed
    exact ⟨hfaithful.of_same rfl rfl, hreports.trans (.push s' (by rintro ⟨⟩))⟩
  · intro room site s b s' ih harr hs hblamed
    obtain ⟨hfaithful, hreports⟩ := arrive_accounts hc harr hs hblamed
    obtain ⟨c, st, hstands, rfl⟩ := harr.stands hc hs
    obtain ⟨hfaithful', hreports'⟩ :=
      ask_accounts hc ih (resolve_returns env room) hstands hfaithful
    exact ⟨hfaithful', hreports.trans hreports'⟩

/-! ### What is reported in a whole pass -/

theorem resolveFor_accounts {scope : Scope} {id : NodeId} {node : Node}
    (hnode : env.nodeAt? scope id = some node) (stage : Stage) (output : String)
    (hs : Faithful env s) :
    Faithful env (s.resolveFor env stage scope id output).2 ∧
      Reports env.Accounted s (s.resolveFor env stage scope id output).2 := by
  have hblamed : Blamed env ⟨scope, id, output, stage⟩ { s with stage } := .of_nodeAt? hnode _
  have hstage : Faithful env { s with stage } := hs.of_same rfl rfl
  obtain ⟨hfaithful, ds, hds, hreport⟩ := resolve_accounts hc maxDepth _ _ hstage hblamed
  exact ⟨hfaithful.of_same rfl rfl, ds, hds, hreport⟩

theorem remarks_accounted {ds : List Diagnostic} (hds : ∀ d ∈ ds, d.concern.isRoutine = true)
    (hs : Faithful env s) : Faithful env (ds.foldl Pass.push s) ∧
      Reports env.Accounted s (ds.foldl Pass.push s) := by
  have hn := foldl_push_noted ds s
  have hQ := Environment.permits_accounted hc
  exact ⟨hs.of_same hn.instances hn.scopes, .foldl_push (fun d hd => hQ.routine d (hds d hd)) s⟩

theorem writeSources_accounts (sources : List Write.Source) :
    (∀ source ∈ sources, ∃ node, env.nodeAt? [] source.node = some node) →
      ∀ s : Pass, Faithful env s → Reports env.Accounted s (writeSources env sources s).2 := by
  induction sources with
  | nil => exact fun _ s _ => .refl s
  | cons source rest ih =>
    intro hnodes s hs
    obtain ⟨⟨node, hnode⟩, hrest⟩ := List.forall_mem_cons.mp hnodes
    obtain ⟨hfaithful, hreports⟩ :=
      resolveFor_accounts hc hnode source.channel.stage source.output hs
    obtain ⟨ds, hds, he⟩ := fit_eq env source
      (s.resolveFor env source.channel.stage [] source.node source.output)
    obtain ⟨hfaithful, hremarks⟩ := remarks_accounted hc hds hfaithful
    rw [writeSources]
    dsimp only
    rw [he]
    exact (hreports.trans hremarks).trans (ih hrest _ hfaithful)

/-- A node of the root document is found there. -/
theorem nodeAt?_nil_of_mem {id : NodeId} {b : Behavior}
    (h : (id, b) ∈ (env.instanceOf env.root).behaviors) :
    ∃ node, env.nodeAt? [] id = some node := by
  obtain ⟨node, hfind, -⟩ := Environment.exists_built?_of_mem hc h
  exact ⟨node, hfind⟩

theorem writes_accounts {isSubgraph : Bool} {ws : List Write} (hs : Faithful env s)
    (h : (if isSubgraph then s.subgraphWrites env else s.materialWrites env) = .ok (ws, s')) :
    Reports env.Accounted (s.root env).2 s' := by
  obtain ⟨hroot, hfaithful, -⟩ := root_faithful hs
  obtain ⟨ds, sources, hds, hmem, hw⟩ := writes_eq_ok h
  obtain ⟨hfaithful, hremarks⟩ := remarks_accounted hc hds hfaithful
  have hnodes : ∀ source ∈ sources, ∃ node, env.nodeAt? [] source.node = some node := by
    intro source hsource
    obtain ⟨b, hb⟩ := hmem source hsource
    rw [hroot] at hb
    exact nodeAt?_nil_of_mem hc hb
  have hwrites := writeSources_accounts hc sources hnodes _ hfaithful
  rw [hw] at hwrites
  exact hremarks.trans hwrites

end Builtin

/-! ### What is reported about the root document -/

/-- Every wire of a node that leads to no node of its document is reported. -/
theorem mem_checkWires {g : Instance} {b : Behavior} (hentry : entry ∈ b.connections)
    (hconnected : entry.2.isConnected = true) (hpath : entry.2.path.isEmpty = true)
    (hmissing : (g.state? entry.2.node).isNone = true) (id : NodeId) (s : Pass) :
    .error .danglingReference id (missingNodeMessage entry.2.node) ∈
      (s.checkWires g id b).report.entries := by
  rw [checkWires_eq, report_foldl_push]
  refine Report.mem_foldl_push.mpr (.inl (List.mem_map.mpr ⟨entry, ?_, rfl⟩))
  exact List.mem_filter.mpr ⟨hentry, by rw [hconnected, hpath, hmissing]; rfl⟩

theorem mem_checkNodes {g : Instance} {b : Behavior} {nodes : List (NodeId × Behavior)}
    (hb : (id, b) ∈ nodes) (hentry : entry ∈ b.connections)
    (hconnected : entry.2.isConnected = true) (hpath : entry.2.path.isEmpty = true)
    (hmissing : (g.state? entry.2.node).isNone = true) :
    ∀ (inputs outputs : List String) (s : Pass),
      .error .danglingReference id (missingNodeMessage entry.2.node) ∈
        (checkNodes g inputs outputs nodes s).report.entries := by
  induction nodes with
  | nil => cases hb
  | cons first nodes ih =>
    obtain ⟨id', b'⟩ := first
    intro inputs outputs s
    rw [checkNodes]
    rcases List.mem_cons.mp hb with heq | hb
    · cases heq
      have hwire := mem_checkWires hentry hconnected hpath hmissing id s
      split
      · exact ((checkName_noted _ _ _ _ _).trans (checkNodes_noted _ _ _ _ _)).report.subset hwire
      · exact ((checkName_noted _ _ _ _ _).trans (checkNodes_noted _ _ _ _ _)).report.subset hwire
      · exact (checkNodes_noted _ _ _ _ _).report.subset hwire
    · split
      · exact ih hb _ _ _
      · exact ih hb _ _ _
      · exact ih hb _ _ _

/-- When the root document has been made ready, its wires without a path that lead to no
node are reported for the nodes that have them. -/
theorem mem_root_of_misses (hc : env.catalog = .builtin) {s : Pass} (hs : Fresh s) {node : Node}
    (hnode : env.root.find? id = some node) (hentry : entry ∈ node.wires)
    (hpath : entry.2.path = []) {target : NodeId} (hmisses : env.Misses env.root entry.2 target) :
    .error .danglingReference id (missingNodeMessage target) ∈
      (s.root env).2.report.entries := by
  obtain ⟨hconnected, rfl, d, hd, hmissing⟩ := hmisses
  have hempty : entry.2.path.isEmpty = true := by rw [hpath]; rfl
  rw [if_pos hempty] at hd
  cases hd
  obtain ⟨b, hb, hconnections⟩ := Environment.exists_behavior_of_mem_wires hc hnode hentry
  rw [← hconnections] at hentry
  have hg (s₁ : Pass) : (makeNodes env [] env.root.nodes s₁).1 = env.instanceOf env.root :=
    makeNodes_fst env.root.nodes [] s₁
  have hnone : ((env.instanceOf env.root).state? entry.2.node).isNone = true := by
    rw [Environment.state?_instanceOf, hmissing]
    rfl
  obtain ⟨declarations, rfl⟩ := hs
  have hmem := mem_checkNodes hb hentry hconnected hempty hnone [] []
    (makeNodes env [] env.root.nodes { globals := { declarations } }).2
  rw [← hg { globals := { declarations } }] at hmem
  exact hmem

end Pass

namespace Compiler

/-- What is reported after the root document has been made ready is accounted for. -/
theorem materialDraft_accounts {c : Compiler} (hc : c.catalog = .builtin) {d : Document}
    {o : Options} {draft : Draft} (h : c.materialDraft d o = .ok draft) :
    Reports (c.environment o.mode d).Accounted
      ((firstPass o.blend).root (c.environment o.mode d)).2 draft.pass := by
  have hfaithful : Faithful (c.environment o.mode d) (firstPass o.blend) :=
    (firstPass_fresh o.blend).faithful
  obtain ⟨ws, hw, -⟩ := materialDraft_eq_ok h
  exact writes_accounts hc hfaithful hw

/-- **A missing node is reported for the nodes that depend on it.** Every diagnostic about a
missing node is one for a node that has a wire to it, or that stands for a value of a call
whose wire leads to it; and for each node and each missing node there is one at most. And
every wire of the root document without a path that leads to no node is reported for the
node that has it. -/
theorem dangling_attributed (c : Compiler) (hc : c.catalog = .builtin) (d : Document) (o : Options)
    (result : Compilation) (h : c.compile d o = .ok result) :
    (∀ e ∈ result.report.entries, ∀ target, e.NamesMissing target →
      (c.environment o.mode d).Wired e.node target ∨
        (c.environment o.mode d).Lent e.node target) ∧
    (∀ id target, (result.report.entries.filter fun e =>
      e.node = id ∧ e.NamesMissing target).length ≤ 1) ∧
    ∀ id node, d.find? id = some node → ∀ entry ∈ node.wires, entry.2.path = [] →
      ∀ target, (c.environment o.mode d).Misses d entry.2 target →
        .error .danglingReference id (missingNodeMessage target) ∈ result.report.entries := by
  obtain ⟨t, draft, hdraft, rfl⟩ := compile_eq_ok h
  have hfresh := firstPass_fresh o.blend
  have hlater := materialDraft_accounts hc hdraft
  have hreports : Reports (c.environment o.mode d).Accounted (firstPass o.blend) draft.pass :=
    (root_reports (Environment.permits_accounted hc) _).trans hlater
  have haccounted : ∀ e ∈ draft.pass.report.entries, (c.environment o.mode d).Accounted e := by
    intro e he
    rcases hreports.mem he with hbefore | haccounted
    · rw [hfresh.report] at hbefore
      cases hbefore
    · exact haccounted
  refine ⟨?_, ?_, ?_⟩
  · intro e he target hnames
    exact (haccounted e he hnames.1).2 target hnames.2
  · intro id target
    have hnodup : draft.pass.report.entries.Nodup :=
      hreports.nodup (by rw [hfresh.report]; exact List.nodup_nil)
    -- there is one diagnostic that says this, and it is not repeated
    have hsame : (draft.pass.report.entries.filter fun e => e.node = id ∧ e.NamesMissing target) ⊆
        [.error .danglingReference id (missingNodeMessage target)] := by
      intro e he
      obtain ⟨he, hsays⟩ := List.mem_filter.mp he
      obtain ⟨hnode, hconcern, hmessage⟩ := of_decide_eq_true hsays
      have hseverity := (haccounted e he hconcern).1
      obtain ⟨severity, concern, node, message⟩ := e
      cases hnode
      cases hconcern
      cases hmessage
      cases hseverity
      exact List.mem_singleton.mpr rfl
    exact ((hnodup.filter _).subperm hsame).length_le
  · intro id node hnode entry hentry hpath target hmisses
    exact hlater.subset (mem_root_of_misses hc hfresh hnode hentry hpath hmisses)

/-- A document that gives back what it is given. -/
def echoDocument : Document where
  isSubgraph := true
  nodes := [
    .of .subgraphInput 5 { name := "in" },
    .of .subgraphOutput 6 { name := "out", value := .ofNode 5 }]

/-- A material that calls it with a node that is not there. -/
def loanDocument : Document where
  nodes := [
    .of .materialResult 1 { roughness := .ofNode 3 "out" },
    .of .subgraphCall 3 { path := "echo", inputs := [("in", .ofNode 9)] }]

/-- The compiler that knows the document that is called. -/
def lending : Compiler where
  library path := if path = "echo" then some echoDocument else none

/-- The loan is reported for the call, and for the input node that it is lent to. -/
theorem loan_reported : ∃ result, lending.compile loanDocument {} = .ok result ∧
    (∃ e ∈ result.report.entries, e.node = ⟨3⟩ ∧ e.NamesMissing ⟨9⟩) ∧
    ∃ e ∈ result.report.entries, e.node = ⟨5⟩ ∧ e.NamesMissing ⟨9⟩ := by
  have hfound : ((lending.compile loanDocument {}).toOption.any fun result =>
      (result.report.entries.any fun e => e.node = ⟨3⟩ ∧ e.NamesMissing ⟨9⟩) &&
        result.report.entries.any fun e => e.node = ⟨5⟩ ∧ e.NamesMissing ⟨9⟩) = true := by
    decide +kernel
  cases hresult : lending.compile loanDocument {} with
  | error rejection =>
    rw [hresult] at hfound
    cases hfound
  | ok result =>
    rw [hresult] at hfound
    obtain ⟨hcall, hinput⟩ := Bool.and_eq_true_iff.mp hfound
    obtain ⟨e, he, hsays⟩ := List.any_eq_true.mp hcall
    obtain ⟨e', he', hsays'⟩ := List.any_eq_true.mp hinput
    exact ⟨result, rfl, ⟨e, he, of_decide_eq_true hsays⟩, e', he', of_decide_eq_true hsays'⟩

/-- Both of them are accounted for. -/
theorem dangling_attributed_loan : ∃ result, lending.compile loanDocument {} = .ok result ∧
    ∀ id ∈ [(⟨3⟩ : NodeId), ⟨5⟩], (∃ e ∈ result.report.entries, e.node = id ∧ e.NamesMissing ⟨9⟩) ∧
      ((lending.environment .final loanDocument).Wired id ⟨9⟩ ∨
        (lending.environment .final loanDocument).Lent id ⟨9⟩) := by
  obtain ⟨result, hresult, hcall, hinput⟩ := loan_reported
  have hattributed := (dangling_attributed lending rfl loanDocument {} result hresult).1
  refine ⟨result, hresult, fun id hid => ?_⟩
  have hfound : ∃ e ∈ result.report.entries, e.node = id ∧ e.NamesMissing ⟨9⟩ := by
    rcases List.mem_pair.mp hid with rfl | rfl
    · exact hcall
    · exact hinput
  refine ⟨hfound, ?_⟩
  obtain ⟨e, he, rfl, hnames⟩ := hfound
  exact hattributed e he _ hnames

/-- The input node of the called document is blamed for the missing node, but no node with
its identifier has an input that leads there: the wire is one of the call. -/
theorem argument_misattributed :
    (∃ result, lending.compile loanDocument {} = .ok result ∧
      ∃ e ∈ result.report.entries, e.node = ⟨5⟩ ∧ e.NamesMissing ⟨9⟩) ∧
    ¬(lending.environment .final loanDocument).Wired ⟨5⟩ ⟨9⟩ := by
  obtain ⟨result, hresult, -, hinput⟩ := loan_reported
  refine ⟨⟨result, hresult, hinput⟩, ?_⟩
  rintro ⟨d, node, hd, hfind, entry, hentry, hmisses⟩
  have hmem : d ∈ [loanDocument, echoDocument] := by
    rcases hd with rfl | ⟨path, hpath⟩
    · exact List.mem_cons_self
    · change (if path = "echo" then some echoDocument else none) = some d at hpath
      split at hpath
      · cases hpath
        exact List.mem_cons_of_mem _ List.mem_cons_self
      · cases hpath
  have hwires : ([loanDocument, echoDocument].all fun d => (d.find? ⟨5⟩).all fun node =>
      node.wires.all fun entry => entry.2.node ≠ ⟨9⟩) = true := by decide +kernel
  have hnode := List.all_eq_true.mp hwires d hmem
  rw [hfind] at hnode
  exact of_decide_eq_true (List.all_eq_true.mp hnode entry hentry) hmisses.source

end Compiler

end MaterialGraph
