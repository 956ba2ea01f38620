import MaterialGraph.Proofs.Denotation
import MaterialGraph.Proofs.Moments

/-!
# No document is entered from within itself

The calls of a scope lead through documents, each under its path. A scope that meets a path for
the second time is refused, however it was written: the paths along every scope that a pass has
kept are different, and so are those along the scope of every output that it has started. Whoever
asks for something through a scope that recurs gets no value, and something fatal is reported, so
there is no program.

## Main definitions

* `Environment.route?` — the paths along a scope, and the document at its end.
* `Environment.Straight` — the scope leads somewhere, along different paths.
* `Environment.Recurs` — the calls of a scope meet a path for the second time.
* `Pass.Orderly` — a pass has kept straight scopes only, each with all its beginnings.
* `Pass.Event.through?` — the scope that a request goes through.

## Main results

* `Environment.Straight.not_recurs` — a straight scope does not recur.
* `Pass.Walks.walked`, `Pass.follow_refused` — what following a scope does.
* `Pass.orderly_invariant` — every step of a pass keeps it orderly.
* `Compiler.recursion_refused` — **no document is entered from within itself.**
-/

namespace MaterialGraph

open Pass

namespace Environment

/-! ### The way along a scope -/

/-- The path that a call of a document names. -/
def callPathIn? (env : Environment) (d : Document) (call : NodeId) : Option String :=
  (d.find? call).bind env.callPath?

/-- One call further: its path is added, and its document is the next one. -/
def step (env : Environment) (x : List String × Document) (call : NodeId) :
    Option (List String × Document) := do
  let path ← env.callPathIn? x.2 call
  let d ← env.calledFrom? x.2 call
  return (x.1 ++ [path], d)

/-- The paths of the calls of a scope, and the document that they lead to. -/
def route? (env : Environment) (scope : Scope) : Option (List String × Document) :=
  scope.foldlM env.step ([], env.root)

/-- The scope leads to a document, and no path is met twice on the way. -/
def Straight (env : Environment) (scope : Scope) : Prop :=
  ∃ paths d, env.route? scope = some (paths, d) ∧ paths.Nodup

/-- The calls of the scope meet a path for the second time. -/
def Recurs (env : Environment) (scope : Scope) : Prop :=
  ∃ before call after paths d path, scope = before ++ call :: after ∧
    env.route? before = some (paths, d) ∧ env.callPathIn? d call = some path ∧ path ∈ paths

variable {env : Environment} {d : Document} {call : NodeId} {paths : List String}
  {x y : List String × Document}

/-- The path that a node calls, by the role that the node has in a pass. -/
theorem role_eq_call_iff {path : String} :
    ((env.instanceOf d).behavior? call).map Behavior.role = some (.subgraphCall path) ↔
      env.callPathIn? d call = some path := by
  unfold callPathIn? callPath? Instance.behavior?
  rw [state?_instanceOf]
  cases d.find? call with
  | none => simp
  | some node =>
    rw [Option.map_some, Option.bind_some]
    cases env.stateOf node with
    | broken m => simp
    | ready b =>
      dsimp only
      rw [Option.map_some]
      cases b.role with
      | subgraphCall p => simp
      | _ => simp

theorem step_eq_some {d' : Document} {path : String} (hpath : env.callPathIn? d call = some path)
    (hd : env.calledFrom? d call = some d') :
    env.step (paths, d) call = some (paths ++ [path], d') := by
  simp only [step, hpath, hd, Option.bind_eq_bind, Option.bind_some, pure]

/-- A call that can be followed has a path, which is added to those before. -/
theorem exists_of_step (h : env.step x call = some y) :
    ∃ path, env.callPathIn? x.2 call = some path ∧ env.calledFrom? x.2 call = some y.2 ∧
      y.1 = x.1 ++ [path] := by
  simp only [step, Option.bind_eq_bind, Option.bind_eq_some_iff] at h
  obtain ⟨path, hpath, d, hd, h⟩ := h
  cases h
  exact ⟨path, hpath, hd, rfl⟩

theorem route?_append (before rest : Scope) :
    env.route? (before ++ rest) = (env.route? before).bind fun x => rest.foldlM env.step x :=
  List.foldlM_append

/-- Paths are added behind those on the way so far. -/
theorem paths_extend {rest : Scope} (h : rest.foldlM env.step x = some y) : x.1 <+: y.1 := by
  induction rest generalizing x with
  | nil =>
    cases h
    exact List.prefix_refl _
  | cons call rest ih =>
    rw [List.foldlM_cons, Option.bind_eq_bind, Option.bind_eq_some_iff] at h
    obtain ⟨z, hz, h⟩ := h
    obtain ⟨path, -, -, hpaths⟩ := exists_of_step hz
    exact (hpaths ▸ List.prefix_append x.1 [path]).trans (ih h)

/-- The document at the end of the way is the one that the scope leads to. -/
theorem documentAt_of_route? {scope : Scope} (h : env.route? scope = some (paths, d)) :
    env.documentAt scope = some d := by
  induction scope using List.reverseRecOn generalizing paths d with
  | nil =>
    cases h
    rfl
  | append_singleton before call ih =>
    rw [route?_append, Option.bind_eq_some_iff] at h
    obtain ⟨x, hx, h⟩ := h
    rw [List.foldlM_cons, Option.bind_eq_bind, Option.bind_eq_some_iff] at h
    obtain ⟨y, hy, h⟩ := h
    cases h
    obtain ⟨path, -, hcalled, -⟩ := exists_of_step hy
    rw [documentAt_append, ih hx]
    exact hcalled

theorem Straight.not_recurs {scope : Scope} (h : env.Straight scope) : ¬env.Recurs scope := by
  rintro ⟨before, call, after, paths, d, path, rfl, hbefore, hpath, hmem⟩
  obtain ⟨paths', d', hroute, hnodup⟩ := h
  rw [route?_append, hbefore, Option.bind_some, List.foldlM_cons, Option.bind_eq_bind,
    Option.bind_eq_some_iff] at hroute
  obtain ⟨x, hx, hafter⟩ := hroute
  obtain ⟨path', hpath', -, hx⟩ := exists_of_step hx
  rw [hpath] at hpath'
  cases hpath'
  -- the path stands among those before it and once more behind them
  have hdup : (paths ++ [path]).Nodup := by
    have hle := paths_extend hafter
    rw [hx] at hle
    exact hnodup.sublist hle.sublist
  exact List.nodup_append.mp hdup |>.2.2 path hmem path (List.mem_singleton.mpr rfl) rfl

/-- A scope whose way ends at a call does not recur, if it does not before and the path of the call
is not among those before. -/
theorem not_recurs_of_step {before rest : Scope} (hbefore : env.route? before = some (paths, d))
    (hnodup : paths.Nodup) (hend : env.step (paths, d) call = none)
    (hnew : ∀ path, env.callPathIn? d call = some path → path ∉ paths) :
    ¬env.Recurs (before ++ call :: rest) := by
  rintro ⟨before', call', after, paths', d', path, heq, hbefore', hpath, hmem⟩
  have hhere (hb : before' = before) (hc : call' = call) : False := by
    subst hb hc
    rw [hbefore] at hbefore'
    cases hbefore'
    exact hnew path hpath hmem
  rcases List.append_eq_append_iff.mp heq with ⟨more, rfl, hmore⟩ | ⟨more, rfl, hmore⟩
  · rcases List.cons_eq_append_iff.mp hmore with ⟨rfl, h⟩ | ⟨more', rfl, -⟩
    · cases h
      exact hhere (List.append_nil _) rfl
    · -- the way does not go on behind the call
      rw [route?_append, hbefore, Option.bind_some, List.foldlM_cons, hend] at hbefore'
      cases hbefore'
  · rcases List.cons_eq_append_iff.mp hmore with ⟨rfl, h⟩ | ⟨more', rfl, -⟩
    · cases h
      exact hhere (List.append_nil _).symm rfl
    · -- the scope recurs before the call
      have hstraight : env.Straight (before' ++ call' :: more') := ⟨paths, d, hbefore, hnodup⟩
      exact hstraight.not_recurs
        ⟨before', call', more', paths', d', path, rfl, hbefore', hpath, hmem⟩

end Environment

namespace Pass

variable {env : Environment} {s : Pass}

/-! ### Scopes that have been kept -/

/-- Every beginning of the scope with a call in it has been kept. -/
def KeepsAlong (s : Pass) (scope : Scope) : Prop :=
  ∀ before, before ≠ [] → before <+: scope → (s.scope? before).isSome

/-- A pass that has kept straight scopes only, each with all its beginnings, and that has started
outputs in straight scopes only. -/
structure Orderly (env : Environment) (s : Pass) : Prop where
  faithful : Faithful env s
  scopes : ∀ entry ∈ s.scopes, env.Straight entry.1
  /-- Their beginnings are kept too. -/
  beginnings : ∀ entry ∈ s.scopes, s.KeepsAlong entry.1
  /-- The outputs that have been started are in straight scopes. -/
  memo : ∀ entry ∈ s.memo, env.Straight entry.1.scope

@[simp] theorem scope?_rememberScope (s : Pass) (scope : Scope) (g : Instance) (other : Scope) :
    (s.rememberScope scope g).scope? other = if scope = other then some g else s.scope? other := by
  by_cases h : scope = other
  · simp [scope?, rememberScope, h]
  · have hkeep : (s.scopes.filter (·.1 != scope)).find? (·.1 == other) =
        s.scopes.find? (·.1 == other) := by
      rw [List.find?_filter]
      refine congrArg (s.scopes.find? ·) (funext fun entry => ?_)
      by_cases he : entry.1 = other
      · simp [he, Ne.symm h]
      · simp [he]
    simp [scope?, rememberScope, h, hkeep]

theorem KeepsAlong.rememberScope {kept : Scope} (h : s.KeepsAlong kept) (scope : Scope)
    (g : Instance) : (s.rememberScope scope g).KeepsAlong kept := by
  intro before hne hle
  rw [scope?_rememberScope]
  split
  · rfl
  · exact h before hne hle

namespace Orderly

variable {scope : Scope} {site : Site}

/-- A step that follows no scope and starts nothing. -/
theorem of_same {s' : Pass} (h : Orderly env s) (hi : s'.instances = s.instances)
    (hs : s'.scopes = s.scopes) (hm : s'.memo = s.memo) : Orderly env s' := by
  have hscope (scope : Scope) : s'.scope? scope = s.scope? scope := by
    unfold scope?
    rw [hs]
  refine ⟨h.faithful.of_same hi hs, hs ▸ h.scopes, fun entry he before hne hle => ?_, hm ▸ h.memo⟩
  rw [hscope]
  exact h.beginnings entry (hs ▸ he) before hne hle

theorem straight_of_scope? (h : Orderly env s) (hs : (s.scope? scope).isSome) :
    env.Straight scope := by
  unfold scope? at hs
  rw [Option.isSome_map, Option.isSome_iff_exists] at hs
  obtain ⟨entry, he⟩ := hs
  have hkey := List.find?_some he
  exact beq_iff_eq.mp hkey ▸ h.scopes entry (List.mem_of_find?_eq_some he)

theorem straight_of_progress? (h : Orderly env s) (hs : (s.progress? site).isSome) :
    env.Straight site.scope := by
  unfold progress? at hs
  rw [Option.isSome_map, Option.isSome_iff_exists] at hs
  obtain ⟨entry, he⟩ := hs
  have hkey := List.find?_some he
  exact beq_iff_eq.mp hkey ▸ h.memo entry (List.mem_of_find?_eq_some he)

/-- Nothing is kept for a scope that recurs. -/
theorem scope?_eq_none (h : Orderly env s) (hr : env.Recurs scope) :
    s.scope? scope = none := by
  cases hs : s.scope? scope with
  | none => rfl
  | some g => exact ((h.straight_of_scope? (by rw [hs]; rfl)).not_recurs hr).elim

/-- No output is started in a scope that recurs. -/
theorem progress?_eq_none (h : Orderly env s) (hr : env.Recurs site.scope) :
    s.progress? site = none := by
  cases hs : s.progress? site with
  | none => rfl
  | some p => exact ((h.straight_of_progress? (by rw [hs]; rfl)).not_recurs hr).elim

theorem remember (h : Orderly env s) (hs : env.Straight site.scope) (p : Progress) :
    Orderly env (s.remember site p) := by
  refine ⟨h.faithful.of_same rfl rfl, h.scopes, h.beginnings, fun entry he => ?_⟩
  rcases List.mem_cons.mp he with rfl | he
  · exact hs
  · exact h.memo entry (List.mem_filter.mp he).1

/-- One more scope, whose beginnings have been kept. -/
theorem rememberScope (h : Orderly env s) {paths : List String} {d : Document}
    (hroute : env.route? scope = some (paths, d)) (hnodup : paths.Nodup)
    (hreach : (s.rememberScope scope (env.instanceOf d)).KeepsAlong scope) :
    Orderly env (s.rememberScope scope (env.instanceOf d)) := by
  refine ⟨h.faithful.rememberScope (Environment.documentAt_of_route? hroute), fun entry he => ?_,
    fun entry he => ?_, h.memo⟩
  · rcases List.mem_cons.mp he with rfl | he
    · exact ⟨paths, d, hroute, hnodup⟩
    · exact h.scopes entry (List.mem_filter.mp he).1
  · rcases List.mem_cons.mp he with rfl | he
    · exact hreach
    · exact (h.beginnings entry (List.mem_filter.mp he).1).rememberScope _ _

theorem prepare (h : Orderly env s) {path : String} {d : Document}
    (hf : Faithful env (s.prepare env path d).2) : Orderly env (s.prepare env path d).2 := by
  have hs := prepare_scopes env path d s
  have hm := (prepare_prepared env path d s).memo
  have hscope (scope : Scope) : (s.prepare env path d).2.scope? scope = s.scope? scope := by
    unfold scope?
    rw [hs]
  refine ⟨hf, hs ▸ h.scopes, fun entry he before hne hle => ?_, hm ▸ h.memo⟩
  rw [hscope]
  exact h.beginnings entry (hs ▸ he) before hne hle

theorem root (h : Orderly env s) : Orderly env (s.root env).2 :=
  h.prepare (root_faithful h.faithful).2.1

end Orderly

/-! ### Following a scope -/

/-- The scope was refused because it recurs: the fault says so, and so does a fatal diagnostic. -/
def Refused (s : Pass) (fault : Fault) : Prop :=
  ∃ chain, fault = .cycle chain ∧
    ∃ call, Diagnostic.fatal .cycleDetected call chain ∈ s.report.entries

/-- What walking along a scope does. -/
structure Walked (env : Environment) (scope : Scope) (x : Except Fault Instance) (s : Pass) :
    Prop where
  orderly : Orderly env s
  /-- A scope that leads somewhere is straight, and its beginnings have been kept. -/
  arrived : ∀ g, x = .ok g → s.KeepsAlong scope ∧
    ∃ paths d, env.route? scope = some (paths, d) ∧ paths.Nodup ∧ g = env.instanceOf d
  refused : env.Recurs scope → ∃ fault, x = .error fault ∧ s.Refused fault

/-- With the scope up to a call, its beginnings are kept. -/
theorem KeepsAlong.call {before : Scope} (h : s.KeepsAlong before) (env : Environment)
    (call : NodeId) (path : String) (d : Document) (g : Instance) :
    ((s.prepare env path d).2.rememberScope (before ++ [call]) g).KeepsAlong
      (before ++ [call]) := by
  intro start hne hle
  rw [scope?_rememberScope]
  split
  · rfl
  · next hother =>
    rcases List.prefix_concat_iff.mp hle with rfl | hle
    · exact (hother rfl).elim
    · unfold scope?
      rw [prepare_scopes]
      exact h start hne hle

theorem Walks.walked {before rest : Scope} {paths : List String} {g : Instance}
    {x : Except Fault Instance × Pass} (hw : Walks env before paths g rest s x) :
    ∀ {d : Document}, g = env.instanceOf d → Orderly env s → s.Rooted →
      env.route? before = some (paths, d) → paths.Nodup → s.KeepsAlong before →
      Walked env (before ++ rest) x.1 x.2 := by
  induction hw with
  | @nil before paths g s =>
    intro d hg h _ hroute hnodup hkeeps
    rw [List.append_nil]
    refine ⟨h, fun g' hg' => ?_, fun hr => ?_⟩
    · cases hg'
      exact ⟨hkeeps, paths, d, hroute, hnodup, hg⟩
    · have hstraight : env.Straight before := ⟨paths, d, hroute, hnodup⟩
      exact (hstraight.not_recurs hr).elim
  | @stuck before paths g call rest s text hnone =>
    rintro d rfl h _ hroute hnodup _
    -- the scope ends at this call, before a document could call itself
    have hcalled := calledFrom?_eq_none fun path hrole => (hnone path hrole).2
    have hend : env.step (paths, d) call = none := by
      simp only [Environment.step, hcalled, Option.bind_eq_bind, Option.bind_none,
        Option.bind_fun_none]
    have hnew (path : String) (hpath : env.callPathIn? d call = some path) : path ∉ paths :=
      (hnone path (Environment.role_eq_call_iff.mpr hpath)).1
    refine ⟨h, fun g hg => ?_, fun hr => ?_⟩
    · cases hg
    · exact (Environment.not_recurs_of_step hroute hnodup hend hnew hr).elim
  | back hrole hpath =>
    intro d _ h _ _ _ _
    refine ⟨h.of_same rfl rfl rfl, fun g hg => ?_, fun _ => ?_⟩
    · cases hg
    · exact ⟨_, rfl, _, rfl, _, Report.mem_push.mpr (.inl rfl)⟩
  | @cons before paths g call rest s path d₁ x hrole hpath hlib hrest ih =>
    rintro d rfl h hroot hroute hnodup hkeeps
    -- one call further the route, its paths and the scopes that are kept are as before
    obtain ⟨d', hd', hg, hf, hroot'⟩ := prepare_called h.faithful hroot hrole hlib
    have hroute' : env.route? (before ++ [call]) = some (paths ++ [path], d') := by
      rw [Environment.route?_append, hroute, Option.bind_some, List.foldlM_cons,
        Environment.step_eq_some (Environment.role_eq_call_iff.mp hrole) hd']
      rfl
    have hnodup' : (paths ++ [path]).Nodup := by
      rw [List.nodup_append]
      refine ⟨hnodup, List.nodup_singleton _, fun a ha b hb => ?_⟩
      rw [List.mem_singleton.mp hb]
      rintro rfl
      exact hpath ha
    have hkeeps' := hkeeps.call env call path d₁ (env.instanceOf d')
    rw [List.append_cons before call rest]
    rw [hg] at ih
    exact ih rfl ((h.prepare hf).rememberScope hroute' hnodup' hkeeps') hroot' hroute' hnodup'
      hkeeps'

/-- What the calls of a scope come to from the root document. -/
theorem Walks.walked_root {scope : Scope} {x : Except Fault Instance × Pass}
    (hw : Walks env [] [] (s.root env).1 scope (s.root env).2 x) (h : Orderly env s) :
    Walked env scope x.1 x.2 := by
  obtain ⟨hg, hf, hroot⟩ := root_faithful h.faithful
  refine hw.walked hg (h.prepare hf) hroot rfl List.nodup_nil ?_
  intro before hne hle
  exact (hne (List.prefix_nil.mp hle)).elim

theorem Orderly.follow (h : Orderly env s) (scope : Scope) :
    Orderly env (s.follow env scope).2 := by
  have hf := follow_follows env scope s
  generalize s.follow env scope = x at hf
  cases hf with
  | known hs => exact h
  | led hs hw =>
    have hwalked := hw.walked_root h
    obtain ⟨hkeeps, paths, d, hroute, hnodup, rfl⟩ := hwalked.arrived _ rfl
    exact hwalked.orderly.rememberScope hroute hnodup (hkeeps.rememberScope _ _)
  | lost hs hw => exact (hw.walked_root h).orderly

theorem follow_refused (h : Orderly env s) {scope : Scope} (hr : env.Recurs scope) :
    ∃ fault s', s.follow env scope = (.error fault, s') ∧ s'.Refused fault := by
  have hf := follow_follows env scope s
  generalize s.follow env scope = x at hf
  cases hf with
  | known hs =>
    rw [h.scope?_eq_none hr] at hs
    cases hs
  | led hs hw =>
    obtain ⟨fault, hfault, -⟩ := (hw.walked_root h).refused hr
    cases hfault
  | lost hs hw =>
    obtain ⟨_, hfault, hrefused⟩ := (hw.walked_root h).refused hr
    cases hfault
    exact ⟨_, _, rfl, hrefused⟩

/-- An output in a scope that recurs has no value. -/
theorem resolve_refused (h : Orderly env s) {site : Site} (hr : env.Recurs site.scope)
    (room : Nat) :
    ∃ fault s', resolve env room site s = (.ofFault fault, s') ∧ s'.Refused fault := by
  obtain ⟨fault, s', hf, chain, rfl, hreport⟩ := follow_refused h hr
  have harrive : s.arrive env site = (.settled (.ofFault (.cycle chain)), s') := by
    simp only [arrive, h.progress?_eq_none hr, hf]
  refine ⟨.cycle chain, s', ?_, chain, rfl, hreport⟩
  cases room with
  | zero => simp only [resolve, harrive]
  | succ room => simp only [resolve, harrive]

/-- A node that calls a document from within it gets none of its outputs. -/
theorem callOutput_refused (h : Orderly env s) {site : Site} (htop : s.stack.head? = some site)
    (hr : env.Recurs (site.scope ++ [site.node])) (r : Resolver) (output : String) :
    ∃ fault s', s.callOutput env r output = (.error fault, s') ∧ s'.Refused fault := by
  obtain ⟨fault, s', hf, hrefused⟩ := follow_refused h hr
  obtain ⟨rest, hs⟩ := List.head?_eq_some_iff.mp htop
  refine ⟨fault, s', ?_, hrefused⟩
  simp only [callOutput, hs, hf]

/-! ### Passes -/

/-- Every step of a pass keeps it orderly. -/
theorem orderly_invariant (env : Environment) : Invariant env (Orderly env) where
  place h _ _ _ := h.of_same rfl rfl rfl
  push h _ := h.of_same rfl rfl rfl
  root h := h.root
  follow h scope := h.follow scope
  register {s} h r c hc := by
    obtain ⟨_, _, _, _, -, -, hs⟩ := register_booked env r hc s
    rw [hs]
    exact h.of_same rfl rfl rfl
  note h _ := h.of_same rfl rfl rfl
  emit h _ _ _ := h.of_same rfl rfl rfl
  remember h hs p := by
    rcases hs with hs | hs
    · exact h.remember (h.straight_of_scope? hs) p
    · exact h.remember (h.straight_of_progress? hs) p

theorem Fresh.orderly (h : Fresh s) (env : Environment) : Orderly env s := by
  have hf : Faithful env s := h.faithful
  obtain ⟨declarations, rfl⟩ := h
  exact ⟨hf, List.forall_mem_nil _, List.forall_mem_nil _, List.forall_mem_nil _⟩

/-- The scope that a request goes through: that of the output that is asked for, or that of the
document that a node calls. -/
def Event.through? : Event → Option Scope
  | .returned site _ _ _ => some site.scope
  | .performed (.call _) before _ _ =>
    before.stack.head?.map fun site => site.scope ++ [site.node]
  | _ => none

/-- Whoever asked gets no value, because the scope recurs. -/
def Event.Refused : Event → Prop
  | .returned _ _ o after => o.isValid = false ∧ ∃ fault, o = .ofFault fault ∧ after.Refused fault
  | .performed (.call _) _ reply after => ∃ fault, reply = .error fault ∧ after.Refused fault
  | _ => False

/-- Something fatal is reported when a request is refused. -/
theorem Event.Refused.hasFatal {e : Event} (h : e.Refused) : e.pass.report.hasFatal = true := by
  have hfatal {s : Pass} {fault : Fault} (h : s.Refused fault) : s.report.hasFatal = true := by
    obtain ⟨chain, -, call, hmem⟩ := h
    exact List.any_eq_true.mpr ⟨_, hmem, rfl⟩
  unfold Event.Refused at h
  split at h
  · obtain ⟨-, fault, -, h⟩ := h
    exact hfatal h
  · obtain ⟨fault, -, h⟩ := h
    exact hfatal h
  · exact h.elim

theorem Event.From.refused {e : Event} (h : e.From env (Orderly env)) {scope : Scope}
    (hthrough : e.through? = some scope) (hr : env.Recurs scope) : e.Refused := by
  unfold Event.through? at hthrough
  split at hthrough
  · next site before o after =>
    cases hthrough
    obtain ⟨hbefore, -, room, hx⟩ := h
    obtain ⟨fault, s', hresolve, hrefused⟩ := resolve_refused hbefore hr room
    rw [hx] at hresolve
    cases hresolve
    refine ⟨?_, fault, rfl, hrefused⟩
    obtain ⟨chain, rfl, -⟩ := hrefused
    rfl
  · next output before reply after =>
    obtain ⟨site, htop, rfl⟩ := Option.map_eq_some_iff.mp hthrough
    obtain ⟨hbefore, -, -, r, -, hx⟩ := h
    obtain ⟨fault, s', hcall, hrefused⟩ := callOutput_refused hbefore htop hr r output
    have hx : before.callOutput env r output = (reply, after) := hx
    rw [hx] at hcall
    cases hcall
    exact ⟨fault, rfl, hrefused⟩
  · cases hthrough

end Pass

namespace Compiler

variable {c : Compiler} {d : Document}

/-- A pass that is orderly in one mode is in every mode: the mode changes no document. -/
theorem orderly_of_mode {mode : Mode} {s : Pass} (h : Orderly (c.environment mode d) s)
    (mode' : Mode) : Orderly (c.environment mode' d) s :=
  ⟨faithful_of_mode h.faithful mode', h.scopes, h.beginnings, h.memo⟩

/-- Nodes make their requests in scopes that do not recur. -/
theorem not_recurs_of_performed {l : List Event} (hl : c.IsTrace d l) {cmd : Command}
    {before after : Pass} {reply : cmd.Reply} (he : Event.performed cmd before reply after ∈ l)
    (mode : Mode) :
    ¬(c.environment mode d).Recurs before.scope := by
  obtain ⟨mode₀, s₀, s', hfresh, hsession⟩ := hl.session
  obtain ⟨-, hevents⟩ := (orderly_invariant _).session hsession (hfresh.orderly _)
  obtain ⟨-, hafter, hhome, r, hret, hx⟩ := hevents _ he
  have hcourse := hsession.course (hfresh.stocked _) hfresh.atRest
  have htrack := (hcourse.tracked (List.Subset.refl l) (.of_fresh hfresh)).2 _ he
  have hreturns := perform_returns (c.environment mode₀ d) hret cmd before
  rw [hx] at hreturns
  -- the node that asks is on the stack, so it has been started
  obtain ⟨site, htop, hscope⟩ := Option.map_eq_some_iff.mp hhome
  have hstarted : after.progress? site = some .started := by
    refine (htrack.coherent.started_iff site).mpr ?_
    show site ∈ after.stack
    rw [hreturns.stack]
    exact List.mem_of_head? htop
  rw [← hscope]
  exact ((orderly_of_mode hafter mode).straight_of_progress? (by rw [hstarted]; rfl)).not_recurs

/-- What is fatal at a moment of a pass is fatal in the end. -/
theorem program_eq_none_of_hasFatal {l : List Event} {o : Options} {result : Compilation}
    {e : Event} (he : e ∈ l) (hfatal : e.pass.report.hasFatal = true)
    (h : l = c.materialTrace d o ∧ c.compile d o = .ok result ∨
      ∃ target, l = c.previewTrace d target ∧ c.preview d o target = .ok result) :
    result.program = none := by
  have hend {mode : Mode} {s : Pass} {draft : Draft} (t : Template) (hfresh : Fresh s)
      (hsession : Session (c.environment mode d) s draft.pass l) :
      (draft.compilation c.types o t).program = none := by
    have horder := Between.stepwise.segmental.session hsession (hfresh.stocked _) hfresh.atRest
    refine if_pos ?_
    rw [← Bool.not_eq_false]
    intro hnone
    rw [Report.no_fatal_of_extends (horder.before e he).report hnone] at hfatal
    cases hfatal
  rcases h with ⟨rfl, h⟩ | ⟨target, rfl, h⟩
  · obtain ⟨t, draft, hd, rfl⟩ := compile_eq_ok h
    obtain ⟨s', hsession, hdraft⟩ := materialTrace_session c d o
    rw [← hdraft draft hd] at hsession
    exact hend t (firstPass_fresh o.blend) hsession
  · obtain ⟨t, rfl⟩ := preview_eq_ok h
    have hfresh : Fresh {} := ⟨[], rfl⟩
    exact hend t hfresh (previewTrace_session c d target)

/-- **No document is entered from within itself**, whatever the scopes that wires and targets name.
At every moment of a pass the paths along the scopes that it has kept are different, and so are
those along the scopes of the outputs that it remembers; with a scope its beginnings are kept. A
request through a scope that recurs is refused, nothing is kept for that scope, and there is no
program. Nodes themselves make their requests in scopes that do not recur. -/
theorem recursion_refused (c : Compiler) (d : Document) (mode : Mode) (l : List Event)
    (h : c.IsTrace d l) :
    (∀ e ∈ l, Orderly (c.environment mode d) e.pass) ∧
    (∀ e ∈ l, ∀ scope, e.through? = some scope → (c.environment mode d).Recurs scope →
      e.Refused ∧ e.pass.scope? scope = none ∧
        ∀ site : Site, site.scope = scope → e.pass.progress? site = none) ∧
    (∀ cmd before reply after, Event.performed cmd before reply after ∈ l →
      ¬(c.environment mode d).Recurs before.scope) ∧
    ∀ o result, (l = c.materialTrace d o ∧ c.compile d o = .ok result ∨
        ∃ target, l = c.previewTrace d target ∧ c.preview d o target = .ok result) →
      (∃ e ∈ l, ∃ scope, e.through? = some scope ∧ (c.environment mode d).Recurs scope) →
      result.program = none := by
  obtain ⟨mode₀, s₀, s', hfresh, hsession⟩ := h.session
  obtain ⟨-, hevents⟩ := (orderly_invariant _).session hsession (hfresh.orderly _)
  have horderly (e : Event) (he : e ∈ l) : Orderly (c.environment mode d) e.pass :=
    orderly_of_mode (hevents e he).pass mode
  have hrefused (e : Event) (he : e ∈ l) (scope : Scope) (hthrough : e.through? = some scope)
      (hr : (c.environment mode d).Recurs scope) : e.Refused := (hevents e he).refused hthrough hr
  refine ⟨horderly, fun e he scope hthrough hr => ⟨hrefused e he scope hthrough hr, ?_, ?_⟩,
    fun cmd before reply after he => not_recurs_of_performed h he mode, ?_⟩
  · exact (horderly e he).scope?_eq_none hr
  · rintro site rfl
    exact (horderly e he).progress?_eq_none hr
  · rintro o result hresult ⟨e, he, scope, hthrough, hr⟩
    exact program_eq_none_of_hasFatal he (hrefused e he scope hthrough hr).hasFatal hresult

/-- A document that calls itself. -/
def hallDocument : Document where
  isSubgraph := true
  nodes := [
    .of .subgraphCall 30 { path := "hall" },
    .of .subgraphOutput 31 { name := "view", value := .ofNode 30 "view" }]

/-- A material that calls it. Its roughness is wired to a node one call further in. -/
def mirrorsDocument : Document where
  nodes := [
    .of .materialResult 1
      { roughness := { node := ⟨31⟩, output := valueOutput, path := [⟨2⟩, ⟨30⟩] }
        metalness := .ofNode 2 "view" },
    .of .subgraphCall 2 { path := "hall" }]

/-- The compiler that knows the document. -/
def mirrors : Compiler where
  library path := if path = "hall" then some hallDocument else none

/-- The wire goes through a scope that recurs. It is refused, and so is the material. -/
theorem recursion_refused_mirrors :
    mirrors.IsTrace mirrorsDocument (mirrors.materialTrace mirrorsDocument {}) ∧
    (mirrors.environment .final mirrorsDocument).Recurs [⟨2⟩, ⟨30⟩] ∧
    (∃ e ∈ mirrors.materialTrace mirrorsDocument {}, e.through? = some [⟨2⟩, ⟨30⟩] ∧ e.Refused) ∧
    ∃ result, mirrors.compile mirrorsDocument {} = .ok result ∧ result.program = none := by
  have htrace : mirrors.IsTrace mirrorsDocument (mirrors.materialTrace mirrorsDocument {}) :=
    .inl ⟨{}, rfl⟩
  have hrecurs : (mirrors.environment .final mirrorsDocument).Recurs [⟨2⟩, ⟨30⟩] :=
    ⟨[⟨2⟩], ⟨30⟩, [], ["hall"], hallDocument, "hall", rfl, rfl, rfl, List.mem_singleton.mpr rfl⟩
  have hfound : ((mirrors.materialTrace mirrorsDocument {}).any
      (·.through? == some [⟨2⟩, ⟨30⟩])) = true := by decide +kernel
  obtain ⟨e, he, hthrough⟩ := List.any_eq_true.mp hfound
  have hthrough := beq_iff_eq.mp hthrough
  obtain ⟨-, hrefused, -, hwithheld⟩ := recursion_refused mirrors mirrorsDocument .final _ htrace
  have hcompiled : (mirrors.compile mirrorsDocument {}).toOption.isSome = true := by decide +kernel
  refine ⟨htrace, hrecurs, ⟨e, he, hthrough, (hrefused e he _ hthrough hrecurs).1⟩, ?_⟩
  cases hresult : mirrors.compile mirrorsDocument {} with
  | error rejection =>
    rw [hresult] at hcompiled
    cases hcompiled
  | ok result =>
    exact ⟨result, rfl, hwithheld {} result (.inl ⟨rfl, hresult⟩) ⟨e, he, _, hthrough, hrecurs⟩⟩

end Compiler

end MaterialGraph
