import MaterialGraph.Proofs.Documents

/-!
# What a pass reports

A pass pushes its diagnostics one by one. Apart from looking up a site, each of its steps
pushes three kinds of them: routine remarks about nodes and their settings, a document
that calls itself, and the wires of a document that lead to no node of it. So a property
of diagnostics that these three have (`Environment.Permits`) holds of all that such a step
reports.

One such property is to say nothing about chains of outputs: that an output needs itself,
or that a chain is too long, is reported when a site is looked up, and at no other time.

## Main definitions

* `Pass.Reports` — the steps that report only diagnostics with some property.
* `Environment.Permits` — the properties of what is reported away from sites.
* `Diagnostic.Ordinary` — the diagnostics that say nothing about a chain of outputs.

## Main results

* `Pass.follow_reports`, `Pass.perform_reports`, `Pass.ask_reports` — following a scope,
  a request that has nothing resolved, and the result of a node report what is permitted.
* `Pass.permits_ordinary` — so they say nothing about a chain of outputs.
-/

namespace MaterialGraph

variable {d : Diagnostic}

/-! ### Diagnostics -/

/-- A diagnostic that says nothing about a chain of outputs. -/
structure Diagnostic.Ordinary (d : Diagnostic) : Prop where
  /-- It is not about the length of a chain. -/
  depth : d.concern ≠ .depthExceeded
  /-- It is not about an output that needs itself. -/
  cycle : d.concern = .cycleDetected →
    ∃ paths path, path ∈ paths ∧ d.message = recursionMessage paths path

theorem Diagnostic.Ordinary.of_concern (hd : d.concern ≠ .depthExceeded)
    (hc : d.concern ≠ .cycleDetected) : d.Ordinary :=
  ⟨hd, fun h => (hc h).elim⟩

theorem Diagnostic.Ordinary.of_isRoutine (h : d.concern.isRoutine = true) :
    d.Ordinary := by
  refine .of_concern (fun hd => ?_) (fun hc => ?_)
  · rw [hd] at h
    cases h
  · rw [hc] at h
    cases h

theorem Diagnostic.ordinary_of_ofFault? {node : NodeId} {fault : Fault}
    (h : Diagnostic.ofFault? node fault = some d) : d.Ordinary :=
  .of_isRoutine (isRoutine_of_ofFault? h)

/-- `Q` holds of every diagnostic that a pass reports without looking up a site. -/
structure Environment.Permits (env : Environment) (Q : Diagnostic → Prop) : Prop where
  /-- Remarks about nodes and their settings. -/
  routine : ∀ d : Diagnostic, d.concern.isRoutine = true → Q d
  /-- A document that calls itself. -/
  recursion : ∀ (call : NodeId) (paths : List String) (path : String), path ∈ paths →
    Q (.fatal .cycleDetected call (recursionMessage paths path))
  /-- The wires of a document that lead to no node of it. -/
  dangling : ∀ d, env.InReach d → ∀ id b, (id, b) ∈ (env.instanceOf d).behaviors →
    ∀ entry ∈ b.connections, entry.2.isConnected = true → entry.2.path.isEmpty = true →
      ((env.instanceOf d).state? entry.2.node).isNone = true →
      Q (.error .danglingReference id (Pass.missingNodeMessage entry.2.node))

namespace Pass

/-! ### Steps that report -/

/-- `s'` reports what `s` reports and then, one after the other, diagnostics that have the
property `Q`. -/
def Reports (Q : Diagnostic → Prop) (s s' : Pass) : Prop :=
  ∃ ds : List Diagnostic, (∀ d ∈ ds, Q d) ∧ s'.report = ds.foldl Report.push s.report

namespace Reports

variable {Q : Diagnostic → Prop} {s s' s'' : Pass}

theorem of_same (h : s'.report = s.report) : Reports Q s s' := ⟨[], by simp, h⟩

theorem refl (s : Pass) : Reports Q s s := of_same rfl

theorem trans (h : Reports Q s s') (h' : Reports Q s' s'') : Reports Q s s'' := by
  obtain ⟨ds, hds, hs⟩ := h
  obtain ⟨ds', hds', hs'⟩ := h'
  refine ⟨ds ++ ds', fun d hd => (List.mem_append.mp hd).elim (hds d) (hds' d), ?_⟩
  rw [hs', hs, List.foldl_append]

theorem push (s : Pass) {d : Diagnostic} (h : Q d) : Reports Q s (s.push d) :=
  ⟨[d], by simpa using h, rfl⟩

theorem foldl_push {ds : List Diagnostic} (h : ∀ d ∈ ds, Q d) (s : Pass) :
    Reports Q s (ds.foldl Pass.push s) :=
  ⟨ds, h, report_foldl_push ds s⟩

/-- What is reported was reported before or has the property. -/
theorem mem (h : Reports Q s s') {d : Diagnostic} (hd : d ∈ s'.report.entries) :
    d ∈ s.report.entries ∨ Q d := by
  obtain ⟨ds, hds, hs⟩ := h
  rw [hs, Report.mem_foldl_push] at hd
  exact hd.symm.imp_right (hds d)

theorem subset (h : Reports Q s s') : s.report.entries ⊆ s'.report.entries := by
  obtain ⟨ds, -, hs⟩ := h
  rw [hs]
  exact fun d hd => Report.mem_foldl_push.mpr (.inr hd)

/-- No diagnostic is repeated. -/
theorem nodup (h : Reports Q s s') (hs : s.report.entries.Nodup) : s'.report.entries.Nodup := by
  obtain ⟨ds, -, hs'⟩ := h
  rw [hs']
  clear hs'
  generalize s.report = r at hs ⊢
  induction ds generalizing r with
  | nil => exact hs
  | cons e ds ih => exact ih (r.push e) (Report.nodup_push e hs)

end Reports

section Permitted

variable {d : Document}

variable {env : Environment} {Q : Diagnostic → Prop} (hQ : env.Permits Q)
include hQ

/-- A diagnostic about a node or its settings. -/
theorem Reports.routine (s : Pass) {d : Diagnostic} (h : d.concern.isRoutine = true) :
    Reports Q s (s.push d) :=
  .push s (hQ.routine d h)

/-! ### Making documents ready -/

theorem makeNode_reports (s : Pass) (node : Node) : Reports Q s (s.makeNode env node).2 := by
  rw [makeNode_eq]
  have hremarks := Reports.foldl_push
    (fun d (hd : d ∈ env.remarks node) => hQ.routine d (Environment.mem_remarks hd).2.1) s
  exact hremarks.trans (.of_same (report_addAll _ _))

theorem makeNodes_reports (nodes : List Node) :
    ∀ (g : Instance) (s : Pass), Reports Q s (makeNodes env g nodes s).2 := by
  induction nodes with
  | nil => exact fun g s => .refl s
  | cons node nodes ih =>
    intro g s
    rw [makeNodes]
    split
    · refine Reports.trans ?_ (ih _ _)
      exact .routine hQ s rfl
    · exact (makeNode_reports hQ s node).trans (ih _ _)

theorem checkWires_reports (hd : env.InReach d) {id : NodeId} {b : Behavior}
    (hb : (id, b) ∈ (env.instanceOf d).behaviors) (s : Pass) :
    Reports Q s (s.checkWires (env.instanceOf d) id b) := by
  rw [checkWires_eq]
  refine .foldl_push (fun stray hstray => ?_) s
  obtain ⟨entry, hentry, rfl⟩ := List.mem_map.mp hstray
  obtain ⟨hentry, hmissing⟩ := List.mem_filter.mp hentry
  rw [Bool.and_eq_true, Bool.and_eq_true] at hmissing
  exact hQ.dangling d hd id b hb entry hentry hmissing.1.1 hmissing.1.2 hmissing.2

theorem checkName_reports (kind : String) (seen : List String) (id : NodeId) (name : String)
    (s : Pass) : Reports Q s (s.checkName kind seen id name).2 := by
  unfold checkName
  split
  · exact .routine hQ s rfl
  · exact .refl s

theorem checkNodes_reports (hd : env.InReach d) (nodes : List (NodeId × Behavior))
    (hnodes : nodes ⊆ (env.instanceOf d).behaviors) :
    ∀ (inputs outputs : List String) (s : Pass),
      Reports Q s (checkNodes (env.instanceOf d) inputs outputs nodes s) := by
  induction nodes with
  | nil => exact fun _ _ s => .refl s
  | cons node nodes ih =>
    obtain ⟨id, b⟩ := node
    intro inputs outputs s
    rw [List.cons_subset] at hnodes
    have hw := checkWires_reports hQ hd hnodes.1 s
    rw [checkNodes]
    split
    · exact (hw.trans (checkName_reports hQ _ _ _ _ _)).trans (ih hnodes.2 _ _ _)
    · exact (hw.trans (checkName_reports hQ _ _ _ _ _)).trans (ih hnodes.2 _ _ _)
    · exact hw.trans (ih hnodes.2 _ _ _)

theorem prepare_reports (path : String) (hd : env.InReach d) (s : Pass) :
    Reports Q s (s.prepare env path d).2 := by
  unfold prepare
  split
  · exact .refl s
  · have hg : (makeNodes env [] d.nodes s).1 = env.instanceOf d := makeNodes_fst d.nodes [] s
    have hnodes := checkNodes_reports hQ hd _ (List.Subset.refl _) [] []
      (makeNodes env [] d.nodes s).2
    rw [← hg] at hnodes
    exact (makeNodes_reports hQ d.nodes [] s).trans hnodes

theorem root_reports (s : Pass) : Reports Q s (s.root env).2 :=
  prepare_reports hQ rootPath (.inl rfl) s

theorem follow_reports (scope : Scope) (s : Pass) : Reports Q s (s.follow env scope).2 :=
  (follow_follows env scope s).keeps (P := Reports Q s)
    (fun hd h => h.trans (prepare_reports hQ _ hd _)) (fun _ _ h => h)
    (fun call hpath h => h.trans (.push _ (hQ.recursion call _ _ hpath))) (.refl s)

theorem Followed.reports {s s' : Pass} (h : Followed env s s') : Reports Q s s' := by
  rcases h with rfl | ⟨path, rfl⟩
  · exact .refl _
  · exact follow_reports hQ path s

/-! ### Requests -/

theorem bindTexture_reports (spec : TextureSpec) (name : String) (fallback : Vec4) (s : Pass) :
    Reports Q s (s.bindTexture env spec name fallback).2 := by
  unfold bindTexture
  simp only
  split
  · exact .of_same rfl
  · split
    · split
      · exact .of_same rfl
      · refine Reports.trans ?_ (.routine hQ _ rfl)
        exact .of_same rfl
    · exact .of_same rfl

omit hQ in
theorem bindToggle_reports (name : String) (initial : Bool) (s : Pass) :
    Reports Q s (s.bindToggle env name initial).2 := by
  unfold bindToggle
  simp only
  split
  · exact .refl s
  · rw [bindParameter_eq]
    exact .of_same rfl

omit hQ in
theorem emit_reports (s : Pass) (statement : Statement) (n : Nat) :
    Reports Q s { s.emit statement with locals := n } := by
  obtain ⟨v, p, he⟩ := s.emit_eq statement
  rw [he]
  exact .of_same rfl

theorem register_reports (r : Resolver) {c : Command} (hc : c.Registers) (s : Pass) :
    Reports Q s (s.perform env r c).2 := by
  cases c with
  | texture spec name fallback => exact bindTexture_reports hQ spec name fallback s
  | toggle name initial => exact bindToggle_reports name initial s
  | parameter spec =>
    show Reports Q s (s.bindParameter env spec s.currentNode).2
    rw [bindParameter_eq]
    exact .of_same rfl
  | declare text => rw [perform_declare]; exact .of_same rfl
  | function source => rw [perform_function]; exact .of_same rfl
  | sampler state => rw [perform_sampler]; exact .of_same rfl
  | feature name group => rw [perform_feature]; exact .of_same rfl
  | _ => exact hc.elim

/-- A request that has nothing resolved reports what is permitted. -/
theorem perform_reports (r : Resolver) {c : Command} {s : Pass} (h : demand? env c s = none) :
    Reports Q s (s.perform env r c).2 := by
  rcases perform_of_no_demand r h with
    hf | hc | ⟨d, hd, he⟩ | ⟨remark, rfl⟩ | ⟨feature, type, on, off, rfl⟩
  · exact hf.reports hQ
  · exact register_reports hQ r hc s
  · rw [he]
    exact .routine hQ s hd
  · exact .of_same rfl
  · exact emit_reports s _ _

theorem ask_reports (r : Resolver) (site : Site) (b : Behavior) (s : Pass) :
    Reports Q (carryOut env r site b s).2 (s.ask env r site b).2 :=
  have hkept : Reports Q (carryOut env r site b s).2 (outcomeOf env r site b s).2 :=
    conclude_keeps (.of_same rfl) (fun _ _ _ => .of_same rfl)
      (fun d hd => .push _ (hQ.routine d hd)) env site.node b.role _
  hkept

end Permitted

/-- Away from sites nothing is said about a chain of outputs. -/
theorem permits_ordinary (env : Environment) : env.Permits Diagnostic.Ordinary where
  routine _ h := .of_isRoutine h
  recursion _ paths path hpath := ⟨by rintro ⟨⟩, fun _ => ⟨paths, path, hpath, rfl⟩⟩
  dangling _ _ _ _ _ _ _ _ _ _ := .of_concern (by rintro ⟨⟩) (by rintro ⟨⟩)

end Pass

end MaterialGraph
