import MaterialGraph.Compile
import MaterialGraph.Proofs.Making
import MaterialGraph.Proofs.Tables

/-!
# What a pass leaves alone

Most steps of a pass touch a small part of its state. Making documents ready and
following scopes fill the caches and the report; registering something fills the
tables. Only resolving an output writes the memo, the stack and the statements,
and it puts the stack and the scope back. This module says so once for every
step, so that no later proof has to open a step for what it does not change.

## Main definitions

* `Pass.Noted` — the steps that only say something about nodes.
* `Pass.Harmless` — the steps that say nothing fatal and add no metadata.
* `Pass.Prepared` — the steps that make documents ready.
* `Pass.Walks`, `Pass.Follows` — what comes of a scope.
* `Pass.Grows` — a later moment of the same pass.
* `Pass.Returns` — a later moment at which everything that was started since has
  been finished.
* `Pass.Arrives` — what is found at a site.

## Main results

* `Pass.walk_walks`, `Pass.follow_follows` — all that can come of a scope.
* `Pass.Follows.keeps` — what following a scope keeps.
* `Pass.follow_prepared` — following a scope only makes documents ready.
* `Pass.arrive_arrives` — all that can be found at a site.
* `Pass.Arrives.returns` — looking a site up starts nothing.
-/

namespace MaterialGraph

/-! ### Reports -/

namespace Report

/-- A report with one more diagnostic goes on from the report before. -/
theorem entries_prefix_push (r : Report) (d : Diagnostic) :
    r.entries <+: (r.push d).entries := by
  unfold push
  split
  · exact List.prefix_refl _
  · exact List.prefix_append _ _

theorem mem_foldl_push {ds : List Diagnostic} {r : Report} {d : Diagnostic} :
    d ∈ (ds.foldl push r).entries ↔ d ∈ ds ∨ d ∈ r.entries := by
  induction ds generalizing r with
  | nil => simp
  | cons e ds ih => rw [List.foldl_cons, ih, mem_push, List.mem_cons, or_left_comm, or_assoc]

theorem hasFatal_push (r : Report) (d : Diagnostic) :
    (r.push d).hasFatal = (r.hasFatal || d.severity == .fatal) := by
  unfold push hasFatal
  by_cases hd : d ∈ r.entries
  · rw [if_pos hd]
    cases hs : d.severity == .fatal with
    | false => rw [Bool.or_false]
    | true => rw [Bool.or_true, List.any_eq_true.mpr ⟨d, hd, hs⟩]
  · rw [if_neg hd]
    simp

/-- Whatever is more serious than a warning stays in the report. -/
theorem hasErrors_of_extends {r r' : Report} (h : r.entries <+: r'.entries)
    (he : r.hasErrors = true) : r'.hasErrors = true := by
  unfold hasErrors at he ⊢
  rw [List.any_eq_true] at he ⊢
  obtain ⟨d, hd, hs⟩ := he
  exact ⟨d, h.subset hd, hs⟩

theorem no_errors_of_extends {r r' : Report} (h : r.entries <+: r'.entries)
    (he : r'.hasErrors = false) : r.hasErrors = false := by
  rw [← Bool.not_eq_true] at he ⊢
  exact fun hr => he (hasErrors_of_extends h hr)

/-- Whatever is fatal stays in the report. -/
theorem no_fatal_of_extends {r r' : Report} (h : r.entries <+: r'.entries)
    (hr : r'.hasFatal = false) : r.hasFatal = false := by
  unfold hasFatal at hr ⊢
  rw [List.any_eq_false] at hr ⊢
  exact fun d hd => hr d (h.subset hd)

end Report

/-- The message about a document that calls itself: the paths that lead to it. -/
def recursionMessage (paths : List String) (path : String) : String :=
  "recursive subgraph: " ++ " -> ".intercalate (paths ++ [path])

namespace Pass

/-! ### Remarks about nodes -/

/-- The pass `s'` differs from `s` by what there was to say about nodes. -/
def Noted (s s' : Pass) : Prop :=
  ∃ report metadata, s.report.entries <+: report.entries ∧ s' = { s with report, metadata }

namespace Noted

variable {s s' s'' : Pass}

theorem refl (s : Pass) : Noted s s := ⟨s.report, s.metadata, List.prefix_refl _, rfl⟩

theorem trans (h : Noted s s') (h' : Noted s' s'') : Noted s s'' := by
  obtain ⟨_, _, hr, rfl⟩ := h
  obtain ⟨_, _, hr', rfl⟩ := h'
  exact ⟨_, _, hr.trans hr', rfl⟩

theorem push (s : Pass) (d : Diagnostic) : Noted s (s.push d) :=
  ⟨_, s.metadata, s.report.entries_prefix_push d, rfl⟩

theorem addMetadata (s : Pass) (key value : String) : Noted s (s.addMetadata key value) :=
  ⟨s.report, _, List.prefix_refl _, rfl⟩

/-- A loop only notes if each of its rounds does. -/
theorem foldl {α : Type} {f : Pass → α → Pass} (hf : ∀ s a, Noted s (f s a)) (l : List α)
    (s : Pass) : Noted s (l.foldl f s) := by
  induction l generalizing s with
  | nil => exact refl s
  | cons a l ih => exact (hf s a).trans (ih (f s a))

theorem report (h : Noted s s') : s.report.entries <+: s'.report.entries := by
  obtain ⟨_, _, hr, rfl⟩ := h
  exact hr

theorem instances (h : Noted s s') : s'.instances = s.instances := by
  obtain ⟨_, _, -, rfl⟩ := h
  rfl

theorem scopes (h : Noted s s') : s'.scopes = s.scopes := by
  obtain ⟨_, _, -, rfl⟩ := h
  rfl

end Noted

theorem report_foldl_push (ds : List Diagnostic) : ∀ s : Pass,
    (ds.foldl Pass.push s).report = ds.foldl Report.push s.report := by
  induction ds with
  | nil => exact fun s => rfl
  | cons d ds ih => exact fun s => ih (s.push d)

theorem foldl_push_noted (ds : List Diagnostic) (s : Pass) : Noted s (ds.foldl Pass.push s) :=
  Noted.foldl Noted.push ds s

theorem makeNode_noted (env : Environment) (s : Pass) (node : Node) :
    Noted s (s.makeNode env node).2 := by
  rw [makeNode_eq]
  have hadd := Noted.foldl (fun s entry => .addMetadata s entry.1 entry.2) (env.pieces node)
    ((env.remarks node).foldl Pass.push s)
  exact (foldl_push_noted _ s).trans hadd

/-- Nothing fatal is reported between the two states, and no metadata is added. -/
structure Harmless (s s' : Pass) : Prop where
  fatal : s'.report.hasFatal = s.report.hasFatal
  metadata : s'.metadata = s.metadata

theorem Harmless.foldl_push {ds : List Diagnostic}
    (hds : ∀ d ∈ ds, (d.severity == .fatal) = false) : ∀ s, Harmless s (ds.foldl Pass.push s) := by
  induction ds with
  | nil => exact fun s => ⟨rfl, rfl⟩
  | cons d ds ih =>
    intro s
    obtain ⟨hd, hds⟩ := List.forall_mem_cons.mp hds
    refine ⟨(ih hds (s.push d)).fatal.trans ?_, (ih hds (s.push d)).metadata⟩
    show (s.report.push d).hasFatal = s.report.hasFatal
    rw [Report.hasFatal_push, hd, Bool.or_false]

theorem checkWires_harmless (g : Instance) (id : NodeId) (b : Behavior) (s : Pass) :
    Harmless s (s.checkWires g id b) := by
  rw [checkWires_eq]
  refine .foldl_push (fun d hd => ?_) s
  obtain ⟨entry, -, rfl⟩ := List.mem_map.mp hd
  rfl

theorem makeNodes_noted (env : Environment) (nodes : List Node) :
    ∀ (g : Instance) (s : Pass), Noted s (makeNodes env g nodes s).2 := by
  induction nodes with
  | nil => exact fun g s => .refl s
  | cons node nodes ih =>
    intro g s
    rw [makeNodes]
    split
    · exact (Noted.push s _).trans (ih _ _)
    · exact (makeNode_noted env s node).trans (ih _ _)

theorem checkWires_noted (g : Instance) (id : NodeId) (b : Behavior) (s : Pass) :
    Noted s (s.checkWires g id b) := by
  rw [checkWires_eq]
  exact foldl_push_noted _ s

theorem checkName_noted (kind : String) (seen : List String) (id : NodeId) (name : String)
    (s : Pass) : Noted s (s.checkName kind seen id name).2 := by
  unfold checkName
  split
  · exact .push s _
  · exact .refl s

theorem checkNodes_noted (g : Instance) (nodes : List (NodeId × Behavior)) :
    ∀ (inputs outputs : List String) (s : Pass),
      Noted s (checkNodes g inputs outputs nodes s) := by
  induction nodes with
  | nil => exact fun _ _ s => .refl s
  | cons node nodes ih =>
    obtain ⟨id, b⟩ := node
    intro inputs outputs s
    have hw := checkWires_noted g id b s
    rw [checkNodes]
    split
    · exact (hw.trans (checkName_noted _ _ _ _ _)).trans (ih _ _ _)
    · exact (hw.trans (checkName_noted _ _ _ _ _)).trans (ih _ _ _)
    · exact hw.trans (ih _ _ _)

/-- Making the nodes of a document and checking them only notes what there is to say
about them. -/
theorem makeDocument_noted (env : Environment) (d : Document) (s : Pass) :
    Noted s (checkNodes (makeNodes env [] d.nodes s).1 [] []
      (makeNodes env [] d.nodes s).1.behaviors (makeNodes env [] d.nodes s).2) :=
  (makeNodes_noted env d.nodes [] s).trans (checkNodes_noted _ _ _ _ _)

/-! ### Making documents ready -/

/-- The pass `s'` differs from `s` by documents that have been made ready, scopes
that have been followed, and what there was to say about them. -/
def Prepared (s s' : Pass) : Prop :=
  ∃ instances scopes report metadata, s.report.entries <+: report.entries ∧
    s' = { s with instances, scopes, report, metadata }

theorem Noted.prepared {s s' : Pass} (h : Noted s s') : Prepared s s' := by
  obtain ⟨_, _, hr, rfl⟩ := h
  exact ⟨s.instances, s.scopes, _, _, hr, rfl⟩

namespace Prepared

variable {s s' s'' : Pass}

theorem refl (s : Pass) : Prepared s s :=
  ⟨s.instances, s.scopes, s.report, s.metadata, List.prefix_refl _, rfl⟩

theorem trans (h : Prepared s s') (h' : Prepared s' s'') : Prepared s s'' := by
  obtain ⟨_, _, _, _, hr, rfl⟩ := h
  obtain ⟨_, _, _, _, hr', rfl⟩ := h'
  exact ⟨_, _, _, _, hr.trans hr', rfl⟩

theorem push (s : Pass) (d : Diagnostic) : Prepared s (s.push d) := (Noted.push s d).prepared

theorem rememberScope (s : Pass) (scope : Scope) (g : Instance) :
    Prepared s (s.rememberScope scope g) :=
  ⟨s.instances, _, s.report, s.metadata, List.prefix_refl _, rfl⟩

theorem memo (h : Prepared s s') : s'.memo = s.memo := by
  obtain ⟨_, _, _, _, -, rfl⟩ := h
  rfl

theorem stack (h : Prepared s s') : s'.stack = s.stack := by
  obtain ⟨_, _, _, _, -, rfl⟩ := h
  rfl

theorem scope (h : Prepared s s') : s'.scope = s.scope := by
  obtain ⟨_, _, _, _, -, rfl⟩ := h
  rfl

theorem stage (h : Prepared s s') : s'.stage = s.stage := by
  obtain ⟨_, _, _, _, -, rfl⟩ := h
  rfl

theorem vertex (h : Prepared s s') : s'.vertex = s.vertex := by
  obtain ⟨_, _, _, _, -, rfl⟩ := h
  rfl

theorem pixel (h : Prepared s s') : s'.pixel = s.pixel := by
  obtain ⟨_, _, _, _, -, rfl⟩ := h
  rfl

theorem locals (h : Prepared s s') : s'.locals = s.locals := by
  obtain ⟨_, _, _, _, -, rfl⟩ := h
  rfl

theorem globals (h : Prepared s s') : s'.globals = s.globals := by
  obtain ⟨_, _, _, _, -, rfl⟩ := h
  rfl

theorem report (h : Prepared s s') : s.report.entries <+: s'.report.entries := by
  obtain ⟨_, _, _, _, hr, rfl⟩ := h
  exact hr

theorem progress? (h : Prepared s s') (site : Site) : s'.progress? site = s.progress? site := by
  unfold Pass.progress?
  rw [h.memo]

end Prepared

theorem prepare_prepared (env : Environment) (path : String) (d : Document) (s : Pass) :
    Prepared s (s.prepare env path d).2 := by
  unfold prepare
  split
  · exact .refl s
  · refine (makeDocument_noted env d s).prepared.trans ?_
    exact ⟨_, _, _, _, List.prefix_refl _, rfl⟩

theorem prepare_scopes (env : Environment) (path : String) (d : Document) (s : Pass) :
    (s.prepare env path d).2.scopes = s.scopes := by
  unfold prepare
  split
  · rfl
  · exact (makeDocument_noted env d s).scopes

theorem root_prepared (env : Environment) (s : Pass) : Prepared s (s.root env).2 :=
  prepare_prepared env rootPath env.root s

/-! ### Following a scope -/

/-- All that can come of the calls of a scope, from the document `g` that the calls `before` have
led to through the documents `paths`. -/
inductive Walks (env : Environment) :
    Scope → List String → Instance → Scope → Pass → Except Fault Instance × Pass → Prop where
  | nil {before paths g s} : Walks env before paths g [] s (.ok g, s)
  /-- The next call leads nowhere. -/
  | stuck {before paths g call rest s} (text : String)
      (hnone : ∀ path, (g.behavior? call).map Behavior.role = some (.subgraphCall path) →
        path ∉ paths ∧ env.library path = none) :
      Walks env before paths g (call :: rest) s (.error (.message text), s)
  /-- It leads back to a document on the way. -/
  | back {before paths g call rest s path}
      (hrole : (g.behavior? call).map Behavior.role = some (.subgraphCall path))
      (hpath : path ∈ paths) :
      Walks env before paths g (call :: rest) s (.error (.cycle (recursionMessage paths path)),
        s.push (.fatal .cycleDetected call (recursionMessage paths path)))
  /-- The document that it calls is made ready, and the way goes on from there. -/
  | cons {before paths g call rest s path d x}
      (hrole : (g.behavior? call).map Behavior.role = some (.subgraphCall path))
      (hpath : path ∉ paths) (hlib : env.library path = some d)
      (hrest : Walks env (before ++ [call]) (paths ++ [path]) (s.prepare env path d).1 rest
        ((s.prepare env path d).2.rememberScope (before ++ [call]) (s.prepare env path d).1) x) :
      Walks env before paths g (call :: rest) s x

theorem walk_walks (env : Environment) (scope : Scope) :
    ∀ (before : Scope) (paths : List String) (g : Instance) (s : Pass),
      Walks env before paths g scope s (walk env before paths g scope s) := by
  induction scope with
  | nil => exact fun _ _ _ _ => .nil
  | cons call rest ih =>
    intro before paths g s
    rw [walk]
    split
    · next path hrole =>
      split
      · next hpath => exact .back hrole hpath
      · next hpath =>
        split
        · next hlib =>
          refine .stuck _ fun other hother => ?_
          rw [hrole] at hother
          cases hother
          exact ⟨hpath, hlib⟩
        · next d hlib => exact .cons hrole hpath hlib (ih _ _ _ _)
    · next role hother hrole =>
      refine .stuck _ fun path hpath => ?_
      rw [hrole] at hpath
      exact (hother path (Option.some.inj hpath)).elim
    · next hrole =>
      refine .stuck _ fun path hpath => ?_
      rw [hrole] at hpath
      cases hpath

/-- All that can come of following a scope. -/
inductive Follows (env : Environment) (scope : Scope) (s : Pass) :
    Except Fault Instance × Pass → Prop where
  /-- The scope has been followed before. -/
  | known {g : Instance} (hs : s.scope? scope = some g) : Follows env scope s (.ok g, s)
  | led {g : Instance} {s' : Pass} (hs : s.scope? scope = none)
      (hw : Walks env [] [] (s.root env).1 scope (s.root env).2 (.ok g, s')) :
      Follows env scope s (.ok g, s'.rememberScope scope g)
  /-- The calls do not lead to a document. -/
  | lost {fault : Fault} {s' : Pass} (hs : s.scope? scope = none)
      (hw : Walks env [] [] (s.root env).1 scope (s.root env).2 (.error fault, s')) :
      Follows env scope s (.error fault, s')

theorem follow_follows (env : Environment) (scope : Scope) (s : Pass) :
    Follows env scope s (s.follow env scope) := by
  have hw := walk_walks env scope [] [] (s.root env).1 (s.root env).2
  unfold follow
  split
  · next g hs => exact .known hs
  · next hs =>
    dsimp only
    split
    · next hx =>
      rw [hx] at hw
      exact .led hs hw
    · next hx =>
      rw [hx] at hw
      exact .lost hs hw

section Keeping

variable {env : Environment} {P : Pass → Prop} {s : Pass} {x : Except Fault Instance × Pass}
  (prepare : ∀ {path d s}, d = env.root ∨ (∃ path, env.library path = some d) → P s →
    P (s.prepare env path d).2)
  (remember : ∀ {s} scope g, P s → P (s.rememberScope scope g))
  (recursion : ∀ {s paths path} call, path ∈ paths → P s →
    P (s.push (.fatal .cycleDetected call (recursionMessage paths path))))
include prepare remember recursion

theorem Walks.keeps {before rest : Scope} {paths : List String} {g : Instance}
    (h : Walks env before paths g rest s x) (hs : P s) : P x.2 := by
  induction h with
  | nil => exact hs
  | stuck text hnone => exact hs
  | back hrole hpath => exact recursion _ hpath hs
  | cons hrole hpath hlib hrest ih => exact ih (remember _ _ (prepare (.inr ⟨_, hlib⟩) hs))

/-- **Following a scope keeps** what is kept when a document is made ready, when a scope is
remembered and when a document that calls itself is reported. -/
theorem Follows.keeps {scope : Scope} (h : Follows env scope s x) (hs : P s) : P x.2 := by
  have hroot : P (s.root env).2 := prepare (.inl rfl) hs
  cases h with
  | known _ => exact hs
  | led _ hw => exact remember _ _ (hw.keeps prepare remember recursion hroot)
  | lost _ hw => exact hw.keeps prepare remember recursion hroot

end Keeping

/-- Following a scope only makes documents ready. -/
theorem follow_prepared (env : Environment) (scope : Scope) (s : Pass) :
    Prepared s (s.follow env scope).2 :=
  (follow_follows env scope s).keeps (P := Prepared s)
    (fun _ h => h.trans (prepare_prepared env _ _ _))
    (fun scope g h => h.trans (.rememberScope _ scope g)) (fun _ _ h => h.trans (.push _ _))
    (.refl s)

/-! ### Later moments of a pass -/

/-- What is known of other sites stays known when a new site is remembered. -/
theorem progress?_remember_of_none {s : Pass} {site other : Site} {p : Progress}
    (hn : s.progress? site = none) (hp : s.progress? other = some p) (q : Progress) :
    (s.remember site q).progress? other = some p := by
  have hne : site ≠ other := by
    rintro rfl
    rw [hn] at hp
    cases hp
  rw [progress?_remember, if_neg hne]
  exact hp

/-- The pass `s'` is a later moment of `s`: what was finished is as it was, and the
report, the statements and the tables go on from where they were. -/
structure Grows (s s' : Pass) : Prop where
  finished : ∀ site o, s.progress? site = some (.finished o) →
    s'.progress? site = some (.finished o)
  report : s.report.entries <+: s'.report.entries
  vertex : s.vertex <+: s'.vertex
  pixel : s.pixel <+: s'.pixel
  tables : s.globals.Within s'.globals

/-- The pass `s'` is a later moment of `s` at which everything that was started since
`s` has been finished, and the place is that of `s` again. -/
structure Returns (s s' : Pass) : Prop extends Grows s s' where
  stack : s'.stack = s.stack
  scope : s'.scope = s.scope
  stage : s'.stage = s.stage
  /-- The same outputs are started. -/
  started : ∀ site, s'.progress? site = some .started ↔ s.progress? site = some .started

namespace Grows

variable {s s' s'' : Pass}

theorem refl (s : Pass) : Grows s s :=
  ⟨fun _ _ h => h, List.prefix_refl _, List.prefix_refl _, List.prefix_refl _, .refl _⟩

theorem trans (h : Grows s s') (h' : Grows s' s'') : Grows s s'' :=
  ⟨fun site o hs => h'.finished site o (h.finished site o hs), h.report.trans h'.report,
    h.vertex.trans h'.vertex, h.pixel.trans h'.pixel, h.tables.trans h'.tables⟩

theorem hasErrors (h : Grows s s') (he : s.report.hasErrors = true) :
    s'.report.hasErrors = true :=
  Report.hasErrors_of_extends h.report he

end Grows

namespace Returns

variable {s s' s'' : Pass}

theorem refl (s : Pass) : Returns s s := ⟨.refl s, rfl, rfl, rfl, fun _ => .rfl⟩

theorem trans (h : Returns s s') (h' : Returns s' s'') : Returns s s'' :=
  ⟨h.toGrows.trans h'.toGrows, h'.stack.trans h.stack, h'.scope.trans h.scope,
    h'.stage.trans h.stage, fun site => (h'.started site).trans (h.started site)⟩

/-- A step that leaves memo, place and statements alone and adds to report and tables. -/
theorem of_same (hm : s'.memo = s.memo) (hst : s'.stack = s.stack) (hsc : s'.scope = s.scope)
    (hsg : s'.stage = s.stage) (hv : s'.vertex = s.vertex) (hp : s'.pixel = s.pixel)
    (hr : s.report.entries <+: s'.report.entries) (ht : s.globals.Within s'.globals) :
    Returns s s' := by
  have hpr : ∀ site, s'.progress? site = s.progress? site := by
    intro site
    unfold progress?
    rw [hm]
  refine ⟨⟨fun site o h => ?_, hr, ?_, ?_, ht⟩, hst, hsc, hsg, fun site => ?_⟩
  · rw [hpr]; exact h
  · exact hv ▸ List.prefix_refl _
  · exact hp ▸ List.prefix_refl _
  · rw [hpr]

/-- What is known of a site stays known. -/
theorem progress? (h : Returns s s') {site : Site} {p : Progress}
    (hp : s.progress? site = some p) : s'.progress? site = some p := by
  cases p with
  | started => exact (h.started site).mpr hp
  | finished o => exact h.finished site o hp

end Returns

theorem Prepared.returns {s s' : Pass} (h : Prepared s s') : Returns s s' :=
  .of_same h.memo h.stack h.scope h.stage h.vertex h.pixel h.report (h.globals ▸ .refl _)

theorem push_returns (s : Pass) (d : Diagnostic) : Returns s (s.push d) :=
  (Prepared.push s d).returns

theorem emit_fields (s : Pass) (x : Statement) : s.emit x =
    { s with vertex := if s.stage = .vertex then s.vertex ++ [x] else s.vertex,
             pixel := if s.stage = .pixel then s.pixel ++ [x] else s.pixel } := by
  unfold emit
  cases s.stage with
  | _ => rfl

theorem emit_eq (s : Pass) (statement : Statement) :
    ∃ vertex pixel, s.emit statement = { s with vertex, pixel } :=
  ⟨_, _, s.emit_fields statement⟩

/-- A statement in the current stage. -/
theorem emit_returns (s : Pass) (statement : Statement) (n : Nat) :
    Returns s { s.emit statement with locals := n } := by
  unfold emit
  split
  · exact ⟨⟨fun _ _ h => h, List.prefix_refl _, List.prefix_append _ _, List.prefix_refl _,
      .refl _⟩, rfl, rfl, rfl, fun _ => .rfl⟩
  · exact ⟨⟨fun _ _ h => h, List.prefix_refl _, List.prefix_refl _, List.prefix_append _ _,
      .refl _⟩, rfl, rfl, rfl, fun _ => .rfl⟩

/-! ### Sites -/

/-- The message about a node that cannot be reached through its scope. -/
def strayMessage (node : NodeId) (fault : Fault) : String :=
  "reference to node " ++ node.text ++ " through an invalid subgraph path: " ++ fault.text

/-- All that can be found at a site. -/
inductive Arrives (env : Environment) (site : Site) (s : Pass) : Arrival → Pass → Prop where
  | known (o : Outcome) (h : s.progress? site = some (.finished o)) :
      Arrives env site s (.settled o) s
  | cycle (h : s.progress? site = some .started) :
      Arrives env site s (.settled (s.reportCycle site).1) (s.reportCycle site).2
  /-- The scope calls a document from within itself. -/
  | recursive (chain : String) (s' : Pass) (hn : s.progress? site = none)
      (hf : s.follow env site.scope = (.error (.cycle chain), s')) :
      Arrives env site s (.settled (.ofFault (.cycle chain))) s'
  /-- The scope leads nowhere. -/
  | stray (fault : Fault) (s' : Pass) (hn : s.progress? site = none)
      (hf : s.follow env site.scope = (.error fault, s')) :
      Arrives env site s (.settled (s'.reportDangling (strayMessage site.node fault)).1)
        (s'.reportDangling (strayMessage site.node fault)).2
  /-- The node could not be made. -/
  | broken (g : Instance) (s' : Pass) (message : String) (hn : s.progress? site = none)
      (hf : s.follow env site.scope = (.ok g, s'))
      (hg : g.state? site.node = some (.broken message)) :
      Arrives env site s (.settled (.error message)) s'
  | missing (g : Instance) (s' : Pass) (hn : s.progress? site = none)
      (hf : s.follow env site.scope = (.ok g, s')) (hg : g.state? site.node = none) :
      Arrives env site s (.settled (s'.reportDangling (missingNodeMessage site.node)).1)
        (s'.reportDangling (missingNodeMessage site.node)).2
  /-- The settings of the node are not acceptable. -/
  | faulty (g : Instance) (s' : Pass) (b : Behavior) (message : String) (rest : List String)
      (hn : s.progress? site = none) (hf : s.follow env site.scope = (.ok g, s'))
      (hg : g.state? site.node = some (.ready b)) (he : b.errors = message :: rest) :
      Arrives env site s (.settled (.error message))
        (s'.remember site (.finished (.error message)))
  | node (g : Instance) (s' : Pass) (b : Behavior) (hn : s.progress? site = none)
      (hf : s.follow env site.scope = (.ok g, s'))
      (hg : g.state? site.node = some (.ready b)) (he : b.errors = []) :
      Arrives env site s (.node b) s'

theorem arrive_arrives (env : Environment) (site : Site) (s : Pass) :
    Arrives env site s (s.arrive env site).1 (s.arrive env site).2 := by
  unfold arrive
  split
  · next o h => exact .known o h
  · next h => exact .cycle h
  · next hn =>
    split
    · next chain s' hf => exact .recursive chain s' hn hf
    · next fault s' _ hf => exact .stray fault s' hn hf
    · next g s' hf =>
      split
      · next message hg => exact .broken g s' message hn hf hg
      · next hg => exact .missing g s' hn hf hg
      · next b hg =>
        split
        · next message rest he => exact .faulty g s' b message rest hn hf hg he
        · next he => exact .node g s' b hn hf hg he

/-- **A site is resolved in one of three ways**: its outcome is clear, or there is no room for its
node, or the node is asked. -/
theorem resolve_induction {env : Environment} {motive : Site → Pass → Outcome × Pass → Prop}
    (settled : ∀ {site s o s'}, Arrives env site s (.settled o) s' → motive site s (o, s'))
    (deep : ∀ {site s b s'}, Arrives env site s (.node b) s' →
      motive site s (s'.reportDepth site))
    (ask : ∀ {room site s b s'}, (∀ site s, motive site s (resolve env room site s)) →
      Arrives env site s (.node b) s' → motive site s (s'.ask env (resolve env room) site b))
    (room : Nat) (site : Site) (s : Pass) : motive site s (resolve env room site s) := by
  induction room generalizing site s with
  | zero =>
    have ha := arrive_arrives env site s
    rw [resolve]
    split
    · next hx => rw [hx] at ha; exact settled ha
    · next hx => rw [hx] at ha; exact deep ha
  | succ room ih =>
    have ha := arrive_arrives env site s
    rw [resolve]
    split
    · next hx => rw [hx] at ha; exact settled ha
    · next hx => rw [hx] at ha; exact ask ih ha

namespace Arrives

variable {env : Environment} {site : Site} {s s' : Pass} {a : Arrival}

theorem prepared_of_follow {r : Except Fault Instance}
    (hf : s.follow env site.scope = (r, s')) : Prepared s s' := by
  have h := follow_prepared env site.scope s
  rw [hf] at h
  exact h

/-- Looking a site up makes documents ready and reports, and it remembers a node that is known to
fail. -/
theorem cases (h : Arrives env site s a s') : Prepared s s' ∨ ∃ s₁ message, Prepared s s₁ ∧
    s₁.progress? site = none ∧ s' = s₁.remember site (.finished (.error message)) := by
  cases h with
  | known o h => exact .inl (.refl s)
  | cycle h => exact .inl (.push s _)
  | recursive chain s' hn hf | broken g s' message hn hf hg | node g s' b hn hf hg he =>
    exact .inl (prepared_of_follow hf)
  | stray fault s₁ hn hf | missing g s₁ hn hf hg =>
    exact .inl ((prepared_of_follow hf).trans (.push _ _))
  | faulty g s₁ b message rest hn hf hg he =>
    have hp := prepared_of_follow hf
    exact .inr ⟨s₁, message, hp, hp.progress? site ▸ hn, rfl⟩

/-- Looking a site up starts nothing. -/
theorem returns (h : Arrives env site s a s') : Returns s s' := by
  rcases h.cases with hp | ⟨s₁, message, hp, hn, rfl⟩
  · exact hp.returns
  · -- the site is finished without having been started
    refine hp.returns.trans ⟨⟨fun other o ho => progress?_remember_of_none hn ho _,
      List.prefix_refl _, List.prefix_refl _, List.prefix_refl _, .refl _⟩, rfl, rfl, rfl,
      fun other => ?_⟩
    rw [progress?_remember]
    split
    · next heq =>
      subst heq
      rw [hn]
      simp
    · exact .rfl

/-- A node is found only at a site of which nothing is known yet. -/
theorem progress?_eq_none {b : Behavior} (h : Arrives env site s (.node b) s') :
    s'.progress? site = none := by
  cases h with
  | node g s' b hn hf hg he => rw [(prepared_of_follow hf).progress?, hn]

end Arrives

end Pass

end MaterialGraph
