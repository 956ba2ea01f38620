import MaterialGraph.Proofs.Stock

/-!
# Where scopes lead

A pass makes a document ready when it is first needed and keeps it by its path, and it
keeps where scopes have led. What is kept can be said without a pass: the nodes of a
document depend on the catalog only, and a scope leads to the document that is found
by following its calls from the root. This module gives both, and shows that what a
pass keeps is what they give.

## Main results

* `Environment.state?_instanceOf` — the first node with an identifier counts.
* `Pass.follow_faithful` — following a scope leads where the calls lead, unless a
  document calls itself.
-/

namespace MaterialGraph

namespace Environment

/-! ### Documents as a pass sees them -/

/-- The nodes in `g` and one more, unless its identifier is taken. -/
def extend (env : Environment) (g : Instance) (node : Node) : Instance :=
  if (g.state? node.id).isSome then g else g ++ [(node.id, env.stateOf node)]

/-- A document as the instance that a pass makes of it. -/
def instanceOf (env : Environment) (d : Document) : Instance := d.nodes.foldl env.extend []

/-- The document under a path. The empty path stands for the root document. -/
def documentOf? (env : Environment) (path : String) : Option Document :=
  if path = Pass.rootPath then some env.root else env.library path

/-- The document that a node of another document calls. -/
def calledFrom? (env : Environment) (d : Document) (call : NodeId) : Option Document :=
  match ((env.instanceOf d).behavior? call).map Behavior.role with
  | some (.subgraphCall path) => (env.library path).bind fun _ => env.documentOf? path
  | _ => none

/-- The document that a scope leads to from the root. -/
def documentAt (env : Environment) (scope : Scope) : Option Document :=
  scope.foldlM env.calledFrom? env.root

variable {env : Environment}

theorem documentOf?_of_library {path : String} {d : Document} (h : env.library path = some d) :
    env.documentOf? path = some (if path = Pass.rootPath then env.root else d) := by
  unfold documentOf?
  split
  · rfl
  · exact h

theorem state?_append (g : Instance) (entry : NodeId × NodeState) (id : NodeId) :
    Instance.state? (g ++ [entry]) id =
      (g.state? id).or (if entry.1 = id then some entry.2 else none) := by
  unfold Instance.state?
  rw [List.find?_append, Option.map_or]
  by_cases h : entry.1 = id
  · simp [h]
  · simp [h]

theorem state?_extend (g : Instance) (node : Node) (id : NodeId) :
    (env.extend g node).state? id =
      (g.state? id).or (if node.id = id then some (env.stateOf node) else none) := by
  unfold extend
  split
  · next h =>
    obtain ⟨state, hs⟩ := Option.isSome_iff_exists.mp h
    by_cases he : node.id = id
    · rw [← he, hs]
      rfl
    · simp [he]
  · exact state?_append g _ id

theorem state?_foldl_extend (nodes : List Node) (id : NodeId) : ∀ g : Instance,
    (nodes.foldl env.extend g).state? id =
      (g.state? id).or ((nodes.find? (·.id == id)).map env.stateOf) := by
  induction nodes with
  | nil => simp
  | cons node nodes ih =>
    intro g
    rw [List.foldl_cons, ih, state?_extend, Option.or_assoc]
    by_cases h : node.id = id
    · simp [h]
    · simp [h]

/-- The first node with an identifier counts. -/
theorem state?_instanceOf (d : Document) (id : NodeId) :
    (env.instanceOf d).state? id = (d.find? id).map env.stateOf := by
  rw [instanceOf, state?_foldl_extend]
  rfl

/-- Documents that scopes lead to are in reach. -/
theorem inReach_of_calledFrom? {d d' : Document} {call : NodeId}
    (h : env.calledFrom? d call = some d') : env.InReach d' := by
  unfold calledFrom? at h
  split at h
  · rw [Option.bind_eq_some_iff] at h
    obtain ⟨_, -, h⟩ := h
    unfold documentOf? at h
    split at h
    · exact .inl (Option.some.inj h).symm
    · exact .inr ⟨_, h⟩
  · cases h

@[simp] theorem documentAt_nil : env.documentAt [] = some env.root := rfl

@[simp] theorem documentAt_append (scope : Scope) (call : NodeId) :
    env.documentAt (scope ++ [call]) = (env.documentAt scope).bind (env.calledFrom? · call) := by
  unfold documentAt
  rw [List.foldlM_append]
  cases List.foldlM env.calledFrom? env.root scope with
  | none => rfl
  | some d => exact bind_pure (env.calledFrom? d call)

theorem inReach_of_documentAt {scope : Scope} {d : Document}
    (h : env.documentAt scope = some d) : env.InReach d := by
  rcases List.eq_nil_or_concat scope with rfl | ⟨before, call, rfl⟩
  · exact .inl (Option.some.inj h).symm
  · rw [List.concat_eq_append, documentAt_append, Option.bind_eq_some_iff] at h
    obtain ⟨d', -, h⟩ := h
    exact inReach_of_calledFrom? h

end Environment

namespace Pass

variable {env : Environment}

/-! ### Making documents ready -/

theorem makeNode_fst (s : Pass) (node : Node) :
    (s.makeNode env node).1 = env.stateOf node := by
  rw [makeNode_eq]

theorem makeNodes_fst (nodes : List Node) : ∀ (g : Instance) (s : Pass),
    (makeNodes env g nodes s).1 = nodes.foldl env.extend g := by
  induction nodes with
  | nil => exact fun _ _ => rfl
  | cons node nodes ih =>
    intro g s
    rw [makeNodes, List.foldl_cons, Environment.extend]
    split
    · exact ih _ _
    · rw [← makeNode_fst s node]
      exact ih _ _

/-- A pass that keeps documents as they are, and where scopes lead. -/
structure Faithful (env : Environment) (s : Pass) : Prop where
  /-- The documents are kept by their paths. -/
  instances : ∀ entry ∈ s.instances,
    ∃ d, env.documentOf? entry.1 = some d ∧ entry.2 = env.instanceOf d
  /-- The scopes lead to their documents. -/
  scopes : ∀ entry ∈ s.scopes,
    ∃ d, env.documentAt entry.1 = some d ∧ entry.2 = env.instanceOf d

namespace Faithful

variable {s s' : Pass}

/-- A step that makes no document ready. -/
theorem of_same (h : Faithful env s) (hi : s'.instances = s.instances)
    (hs : s'.scopes = s.scopes) : Faithful env s' :=
  ⟨hi ▸ h.instances, hs ▸ h.scopes⟩

theorem of_fresh (h : s.instances = [] ∧ s.scopes = []) : Faithful env s := by
  refine ⟨?_, ?_⟩
  · rw [h.1]; simp
  · rw [h.2]; simp

theorem rememberScope (h : Faithful env s) {scope : Scope} {d : Document}
    (hd : env.documentAt scope = some d) :
    Faithful env (s.rememberScope scope (env.instanceOf d)) := by
  refine ⟨h.instances, fun entry he => ?_⟩
  rcases List.mem_cons.mp he with rfl | he
  · exact ⟨d, hd, rfl⟩
  · exact h.scopes entry ((List.mem_filter.mp he).1)

end Faithful

/-- The root document has been made ready. -/
def Rooted (s : Pass) : Prop := ∃ g, (rootPath, g) ∈ s.instances

/-- A document is made ready as it is. A document under the empty path is the root
document, which has been made ready before. -/
theorem prepare_faithful {path : String} {d d' : Document} {s : Pass} (h : Faithful env s)
    (hd : env.documentOf? path = some d') (hsame : d = d' ∨ path = rootPath ∧ s.Rooted) :
    (s.prepare env path d).1 = env.instanceOf d' ∧ Faithful env (s.prepare env path d).2 ∧
      (s.Rooted ∨ path = rootPath → (s.prepare env path d).2.Rooted) := by
  unfold prepare
  split
  · next entry g hg =>
    have hmem := List.mem_of_find?_eq_some hg
    have hp := List.find?_some hg
    rw [beq_iff_eq] at hp
    obtain ⟨d₁, h₁, he⟩ := h.instances _ hmem
    dsimp only at hp h₁ he
    rw [hp, hd] at h₁
    cases h₁
    refine ⟨he, h, ?_⟩
    rintro (hr | rfl)
    · exact hr
    · exact ⟨g, hp ▸ hmem⟩
  · next hnone =>
    have hd' : d = d' := by
      rcases hsame with hsame | ⟨rfl, g, hg⟩
      · exact hsame
      · rw [List.find?_eq_none] at hnone
        exact (hnone _ hg (beq_self_eq_true _)).elim
    subst hd'
    have hn := makeDocument_noted env d s
    have hg : (makeNodes env [] d.nodes s).1 = env.instanceOf d := makeNodes_fst d.nodes [] s
    have hf := h.of_same hn.instances hn.scopes
    refine ⟨hg, ⟨fun entry he => ?_, hf.scopes⟩, ?_⟩
    · rcases List.mem_cons.mp he with rfl | he
      · exact ⟨d, hd, hg⟩
      · exact hf.instances entry he
    · rintro (⟨g, hr⟩ | rfl)
      · exact ⟨g, List.mem_cons_of_mem _ (hn.instances ▸ hr)⟩
      · exact ⟨_, List.mem_cons_self⟩

theorem root_faithful {s : Pass} (h : Faithful env s) :
    (s.root env).1 = env.instanceOf env.root ∧ Faithful env (s.root env).2 ∧
      (s.root env).2.Rooted := by
  have hd : env.documentOf? rootPath = some env.root := rfl
  obtain ⟨hg, hf, hr⟩ := prepare_faithful h hd (.inl rfl)
  exact ⟨hg, hf, hr (.inr rfl)⟩

/-! ### Following a scope -/

/-- Where a scope leads: to its document; nowhere, if there is none; or to a document that
calls itself, which has been reported. -/
def Leads (env : Environment) (scope : Scope) (s : Pass) : Except Fault Instance → Prop
  | .ok g => ∃ d, env.documentAt scope = some d ∧ g = env.instanceOf d
  | .error fault => (∃ text, fault = .message text) ∧ env.documentAt scope = none ∨
      (∃ chain, fault = .cycle chain) ∧ s.report.hasFatal = true

theorem hasFatal_push_fatal (r : Report) (concern : Concern) (node : NodeId) (message : String) :
    (r.push (.fatal concern node message)).hasFatal = true :=
  (r.hasFatal_push _).trans (Bool.or_true _)

/-- A call that leads nowhere is a call of no document. -/
theorem calledFrom?_eq_none {d : Document} {call : NodeId}
    (h : ∀ path, ((env.instanceOf d).behavior? call).map Behavior.role =
      some (.subgraphCall path) → env.library path = none) : env.calledFrom? d call = none := by
  unfold Environment.calledFrom?
  split
  · next path hrole => rw [h path hrole, Option.bind_none]
  · rfl

/-- The document of a call is made ready: it is the one that the call leads to. -/
theorem prepare_called {d d₁ : Document} {call : NodeId} {path : String} {s : Pass}
    (h : Faithful env s) (hroot : s.Rooted)
    (hrole : ((env.instanceOf d).behavior? call).map Behavior.role = some (.subgraphCall path))
    (hlib : env.library path = some d₁) :
    ∃ d', env.calledFrom? d call = some d' ∧ (s.prepare env path d₁).1 = env.instanceOf d' ∧
      Faithful env (s.prepare env path d₁).2 ∧ (s.prepare env path d₁).2.Rooted := by
  have hdoc := Environment.documentOf?_of_library hlib
  have hcall : env.calledFrom? d call = env.documentOf? path := by
    simp only [Environment.calledFrom?, hrole, hlib, Option.bind_some]
  have hsame : d₁ = (if path = rootPath then env.root else d₁) ∨ path = rootPath ∧ s.Rooted := by
    split
    · next hp => exact .inr ⟨hp, hroot⟩
    · exact .inl rfl
  obtain ⟨hg, hf, hr⟩ := prepare_faithful h hdoc hsame
  exact ⟨_, hcall.trans hdoc, hg, hf, hr (.inl hroot)⟩

theorem Walks.faithful {before rest : Scope} {paths : List String} {g : Instance} {s : Pass}
    {x : Except Fault Instance × Pass} (hw : Walks env before paths g rest s x) :
    ∀ {d : Document}, g = env.instanceOf d → env.documentAt before = some d → Faithful env s →
      s.Rooted → Faithful env x.2 ∧ Leads env (before ++ rest) x.2 x.1 := by
  induction hw with
  | @nil before paths g s =>
    intro d hg hd h _
    rw [List.append_nil]
    exact ⟨h, d, hd, hg⟩
  | @stuck before paths g call rest s text hnone =>
    rintro d rfl hd h _
    have hstep : env.documentAt (before ++ [call]) = none := by
      rw [Environment.documentAt_append, hd, Option.bind_some,
        calledFrom?_eq_none fun path hrole => (hnone path hrole).2]
    refine ⟨h, .inl ⟨⟨text, rfl⟩, ?_⟩⟩
    rw [List.append_cons]
    unfold Environment.documentAt at hstep ⊢
    rw [List.foldlM_append, hstep]
    rfl
  | back hrole hpath =>
    intro d _ _ h _
    exact ⟨h.of_same rfl rfl, .inr ⟨⟨_, rfl⟩, hasFatal_push_fatal _ _ _ _⟩⟩
  | @cons before paths g call rest s path d₁ x hrole hpath hlib hrest ih =>
    rintro d rfl hd h hroot
    obtain ⟨d', hd', hg, hf, hroot'⟩ := prepare_called h hroot hrole hlib
    have hat : env.documentAt (before ++ [call]) = some d' := by
      rw [Environment.documentAt_append, hd]
      exact hd'
    rw [List.append_cons before call rest]
    rw [hg] at ih
    exact ih rfl hat (hf.rememberScope hat) hroot'

theorem Follows.faithful {scope : Scope} {s : Pass} {x : Except Fault Instance × Pass}
    (hx : Follows env scope s x) (h : Faithful env s) :
    Faithful env x.2 ∧ Leads env scope x.2 x.1 := by
  obtain ⟨hg, hf, hr⟩ := root_faithful h
  cases hx with
  | known hs =>
    unfold scope? at hs
    rw [Option.map_eq_some_iff] at hs
    obtain ⟨entry, hfind, rfl⟩ := hs
    have hscope := List.find?_some hfind
    rw [beq_iff_eq] at hscope
    have hd := h.scopes entry (List.mem_of_find?_eq_some hfind)
    rw [hscope] at hd
    exact ⟨h, hd⟩
  | led _ hw =>
    obtain ⟨hf', d, hd, rfl⟩ := hw.faithful hg env.documentAt_nil hf hr
    exact ⟨hf'.rememberScope hd, d, hd, rfl⟩
  | lost _ hw => exact hw.faithful hg env.documentAt_nil hf hr

/-- **A scope leads where its calls lead.** If there is no such document the fault is a
message, and if a document calls itself that is reported. -/
theorem follow_faithful (scope : Scope) {s : Pass} (h : Faithful env s) :
    Faithful env (s.follow env scope).2 ∧
      Leads env scope (s.follow env scope).2 (s.follow env scope).1 :=
  (follow_follows env scope s).faithful h

theorem documentAt_of_follow {scope : Scope} {s s' : Pass} {g : Instance} (h : Faithful env s)
    (hf : s.follow env scope = (.ok g, s')) :
    ∃ d, env.documentAt scope = some d ∧ g = env.instanceOf d := by
  have hl := (follow_faithful scope h).2
  rw [hf] at hl
  exact hl

/-- A scope that leads somewhere is followed there, unless something fatal is reported. -/
theorem hasFatal_of_follow {scope : Scope} {s s' : Pass} {d : Document} {fault : Fault}
    (h : Faithful env s) (hd : env.documentAt scope = some d)
    (hf : s.follow env scope = (.error fault, s')) : s'.report.hasFatal = true := by
  have hl := (follow_faithful scope h).2
  rw [hf] at hl
  rcases hl with ⟨-, hnone⟩ | ⟨-, hfatal⟩
  · rw [hd] at hnone
    cases hnone
  · exact hfatal

end Pass

end MaterialGraph
