import MaterialGraph.Proofs.Invariance

/-!
# Where the nodes of a pass come from

A pass keeps the documents it has made ready. Every node it can ask was built by a
class of the catalog from a node of the root document or of a document of the
library. And a document with a node that could not be made, or whose settings are
not acceptable, was reported when it was made ready: whoever meets such a node
later need not report it again.

## Main results

* `Pass.follow_sound` — a scope leads to a sound document, or the fault is one that
  has been or will be reported.
* `Pass.resolve_stocked` — resolving an output keeps the stock.
-/

namespace MaterialGraph

variable {env : Environment}

/-- The document is one that a pass can reach. -/
def Environment.InReach (env : Environment) (d : Document) : Prop :=
  d = env.root ∨ ∃ path, env.library path = some d

/-- A behaviour that some node of a document in reach has. -/
def Environment.Offers (env : Environment) (b : Behavior) : Prop :=
  ∃ d node kind, env.InReach d ∧ node ∈ d.nodes ∧
    env.catalog.find? node.className = some kind ∧ kind.build node.settings = .ok b

/-- A fault that is reported for the node that has it. -/
def Fault.IsReported : Fault → Prop
  | .brokenInput _ => False
  | .cycle _ => False
  | _ => True

/-! ### Reports -/

namespace Report

theorem hasErrors_push {r : Report} {d : Diagnostic} (hd : d.severity ≠ .warning) :
    (r.push d).hasErrors = true := by
  unfold hasErrors
  rw [List.any_eq_true]
  exact ⟨d, mem_push.mpr (.inl rfl), by simpa using hd⟩

theorem hasErrors_push_error (r : Report) (concern : Concern) (node : NodeId)
    (message : String) : (r.push (.error concern node message)).hasErrors = true :=
  hasErrors_push (by simp [Diagnostic.error])

theorem hasErrors_push_fatal (r : Report) (concern : Concern) (node : NodeId)
    (message : String) : (r.push (.fatal concern node message)).hasErrors = true :=
  hasErrors_push (by simp [Diagnostic.fatal])

end Report

/-! ### Sound documents -/

/-- A node as it stands in a sound document: it is offered, and if it cannot be asked
then that has been reported. -/
def NodeState.Sound (env : Environment) (r : Report) : NodeState → Prop
  | .ready b => env.Offers b ∧ (b.errors ≠ [] → r.hasErrors = true)
  | .broken _ => r.hasErrors = true

/-- A document all of whose nodes are sound. -/
def Instance.Sound (env : Environment) (r : Report) (g : Instance) : Prop :=
  ∀ entry ∈ g, entry.2.Sound env r

theorem NodeState.Sound.mono {r r' : Report} {state : NodeState} (h : state.Sound env r)
    (hr : r.entries <+: r'.entries) : state.Sound env r' := by
  cases state with
  | ready b => exact ⟨h.1, fun he => Report.hasErrors_of_extends hr (h.2 he)⟩
  | broken message => exact Report.hasErrors_of_extends hr h

theorem Instance.Sound.mono {r r' : Report} {g : Instance} (h : g.Sound env r)
    (hr : r.entries <+: r'.entries) : g.Sound env r' :=
  fun entry he => (h entry he).mono hr

/-- What a sound document knows about a node is sound. -/
theorem Instance.Sound.state? {r : Report} {g : Instance} (h : g.Sound env r) {id : NodeId}
    {state : NodeState} (hs : g.state? id = some state) :
    state.Sound env r := by
  unfold Instance.state? at hs
  rw [Option.map_eq_some_iff] at hs
  obtain ⟨entry, hf, rfl⟩ := hs
  exact h entry (List.mem_of_find?_eq_some hf)

namespace Pass

/-- A pass that keeps sound documents only. -/
structure Stocked (env : Environment) (s : Pass) : Prop where
  instances : ∀ entry ∈ s.instances, entry.2.Sound env s.report
  scopes : ∀ entry ∈ s.scopes, entry.2.Sound env s.report

namespace Stocked

variable {env : Environment} {s s' : Pass}

/-- A step that makes no document ready keeps the stock. -/
theorem of_same (h : Stocked env s) (hi : s'.instances = s.instances)
    (hs : s'.scopes = s.scopes) (hr : s.report.entries <+: s'.report.entries) :
    Stocked env s' := by
  refine ⟨fun entry he => ?_, fun entry he => ?_⟩
  · rw [hi] at he
    exact (h.instances entry he).mono hr
  · rw [hs] at he
    exact (h.scopes entry he).mono hr

theorem push (h : Stocked env s) (d : Diagnostic) : Stocked env (s.push d) :=
  h.of_same rfl rfl (s.report.entries_prefix_push d)

theorem rememberScope (h : Stocked env s) {g : Instance} (hg : g.Sound env s.report)
    (scope : Scope) : Stocked env (s.rememberScope scope g) := by
  refine ⟨h.instances, fun entry he => ?_⟩
  rcases List.mem_cons.mp he with rfl | he
  · exact hg
  · exact h.scopes entry ((List.mem_filter.mp he).1)

end Stocked

/-! ### Making documents ready -/

variable {env : Environment} {d : Document}

/-- A node that cannot be asked is reported as an error. -/
theorem makeNode_hasErrors {node : Node}
    (h : ∀ b, env.stateOf node = .ready b → b.errors ≠ []) (s : Pass) :
    (s.makeNode env node).2.report.hasErrors = true := by
  obtain ⟨d, hd, hsev⟩ := Environment.exists_error h
  rw [makeNode_eq, report_addAll, report_foldl_push]
  exact List.any_eq_true.mpr ⟨d, Report.mem_foldl_push.mpr (.inl hd), by simpa using hsev⟩

theorem makeNode_sound (hd : env.InReach d) {node : Node} (hn : node ∈ d.nodes) (s : Pass) :
    (s.makeNode env node).1.Sound env (s.makeNode env node).2.report := by
  have hstate : (s.makeNode env node).1 = env.stateOf node := by rw [makeNode_eq]
  rw [hstate]
  cases hstate : env.stateOf node with
  | broken message => exact makeNode_hasErrors (fun b hb => by cases hstate.symm.trans hb) s
  | ready b =>
    obtain ⟨kind, hk, hb⟩ := Environment.stateOf_eq_ready hstate
    refine ⟨⟨d, node, kind, hd, hn, hk, hb⟩, fun he => makeNode_hasErrors (fun b' hb' => ?_) s⟩
    cases hstate.symm.trans hb'
    exact he

theorem makeNodes_sound (hd : env.InReach d) (nodes : List Node) :
    ∀ (g : Instance) (s : Pass), (∀ node ∈ nodes, node ∈ d.nodes) → g.Sound env s.report →
      (makeNodes env g nodes s).1.Sound env (makeNodes env g nodes s).2.report := by
  induction nodes with
  | nil => exact fun g s _ hg => hg
  | cons node nodes ih =>
    intro g s hn hg
    have hrest : ∀ node ∈ nodes, node ∈ d.nodes := fun n h => hn n (List.mem_cons_of_mem _ h)
    rw [makeNodes]
    split
    · exact ih _ _ hrest (hg.mono (s.report.entries_prefix_push _))
    · refine ih _ _ hrest fun entry he => ?_
      rcases List.mem_append.mp he with he | he
      · exact (hg entry he).mono (makeNode_noted env s node).report
      · rw [List.mem_singleton.mp he]
        exact makeNode_sound hd (hn node List.mem_cons_self) s

/-- A document is made ready as a sound one. -/
theorem prepare_sound (hd : env.InReach d) (path : String) {s : Pass} (h : Stocked env s) :
    Stocked env (s.prepare env path d).2 ∧
      (s.prepare env path d).1.Sound env (s.prepare env path d).2.report := by
  unfold prepare
  split
  · next entry g hg =>
    exact ⟨h, h.instances _ (List.mem_of_find?_eq_some hg)⟩
  · have hm := makeNodes_sound hd d.nodes [] s (fun _ h => h) (by simp [Instance.Sound])
    have hg := hm.mono (checkNodes_noted (makeNodes env [] d.nodes s).1
      (makeNodes env [] d.nodes s).1.behaviors [] [] _).report
    have hn := makeDocument_noted env d s
    have hs := h.of_same hn.instances hn.scopes hn.report
    refine ⟨⟨fun entry he => ?_, hs.scopes⟩, hg⟩
    rcases List.mem_cons.mp he with rfl | he
    · exact hg
    · exact hs.instances entry he

theorem root_sound {s : Pass} (h : Stocked env s) :
    Stocked env (s.root env).2 ∧ (s.root env).1.Sound env (s.root env).2.report :=
  prepare_sound (.inl rfl) rootPath h

/-! ### Following a scope -/

/-- Where calls lead: to a sound document, or to a fault that is a message or has been
reported as a cycle. -/
def Reached (env : Environment) (s : Pass) : Except Fault Instance → Prop
  | .ok g => g.Sound env s.report
  | .error fault => fault.IsReported ∨ s.report.hasErrors = true

theorem Walks.sound {before rest : Scope} {paths : List String} {g : Instance} {s : Pass}
    {x : Except Fault Instance × Pass} (hw : Walks env before paths g rest s x)
    (h : Stocked env s) (hg : g.Sound env s.report) :
    Stocked env x.2 ∧ Reached env x.2 x.1 := by
  induction hw with
  | nil => exact ⟨h, hg⟩
  | stuck text hnone => exact ⟨h, .inl trivial⟩
  | back hrole hpath => exact ⟨h.push _, .inr (Report.hasErrors_push_fatal _ _ _ _)⟩
  | cons hrole hpath hlib hrest ih =>
    obtain ⟨hs, hg'⟩ := prepare_sound (.inr ⟨_, hlib⟩) _ h
    exact ih (hs.rememberScope hg' _) hg'

theorem Follows.sound {scope : Scope} {s : Pass} {x : Except Fault Instance × Pass}
    (hf : Follows env scope s x) (h : Stocked env s) : Stocked env x.2 ∧ Reached env x.2 x.1 := by
  obtain ⟨hs, hg⟩ := root_sound h
  cases hf with
  | known hscope =>
    unfold scope? at hscope
    rw [Option.map_eq_some_iff] at hscope
    obtain ⟨entry, hfind, rfl⟩ := hscope
    exact ⟨h, h.scopes entry (List.mem_of_find?_eq_some hfind)⟩
  | led _ hw =>
    obtain ⟨hstocked, hreached⟩ := hw.sound hs hg
    exact ⟨hstocked.rememberScope hreached _, hreached⟩
  | lost _ hw => exact hw.sound hs hg

/-- A scope leads to a sound document, or the fault is one that is reported for whoever
has it, or one that has been reported. -/
theorem follow_sound (scope : Scope) {s : Pass} (h : Stocked env s) :
    Stocked env (s.follow env scope).2 ∧
      Reached env (s.follow env scope).2 (s.follow env scope).1 :=
  (follow_follows env scope s).sound h

theorem follow_stocked (scope : Scope) {s : Pass} (h : Stocked env s) :
    Stocked env (s.follow env scope).2 :=
  (follow_sound scope h).1

/-! ### Resolving -/

/-- Resolving keeps sound documents only. -/
abbrev Resolver.Stocking (env : Environment) (r : Resolver) : Prop := r.Keeps (Stocked env)

variable {r : Resolver} {s : Pass}

/-- Every step of a pass keeps the stock. -/
theorem stocked_invariant (env : Environment) : Invariant env (Stocked env) where
  place h _ _ _ := ⟨h.instances, h.scopes⟩
  push h d := h.push d
  root h := (root_sound h).1
  follow h scope := follow_stocked scope h
  register {s} h r c hc := by
    obtain ⟨_, _, _, _, hr, -, hs⟩ := register_booked env r hc s
    rw [hs]
    exact h.of_same rfl rfl hr
  note h _ := ⟨h.instances, h.scopes⟩
  emit h _ _ _ := ⟨h.instances, h.scopes⟩
  remember h _ _ := ⟨h.instances, h.scopes⟩

theorem Followed.stocked {s' : Pass} (hf : Followed env s s') (h : Stocked env s) :
    Stocked env s' :=
  (stocked_invariant env).steady.followed h hf

/-- A request keeps the stock if the resolver does. -/
theorem perform_stocked (hr : r.Stocking env) (c : Command) (h : Stocked env s) :
    Stocked env (s.perform env r c).2 :=
  (stocked_invariant env).perform hr h c

theorem Arrives.stocked {site : Site} {a : Arrival} {s' : Pass} (ha : Arrives env site s a s')
    (h : Stocked env s) : Stocked env s' :=
  (stocked_invariant env).steady.arrive h ha

/-- A node that can be asked is offered, and its settings are acceptable. -/
theorem Arrives.offered {site : Site} {b : Behavior} {s' : Pass}
    (ha : Arrives env site s (.node b) s') (h : Stocked env s) :
    env.Offers b ∧ b.errors = [] := by
  cases ha with
  | node g s' b hn hx hg he =>
    have hs := (follow_sound site.scope h).2
    rw [hx] at hs
    exact ⟨(hs.state? hg).1, he⟩

/-- Resolving an output keeps the stock. -/
theorem resolve_stocked (env : Environment) (room : Nat) : (resolve env room).Stocking env :=
  (stocked_invariant env).resolve room

end Pass

end MaterialGraph
