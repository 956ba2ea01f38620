import MaterialGraph.Proofs.Detours
import MaterialGraph.Proofs.Sharing

/-!
# Passes with a stop at a reroute

Two passes resolve the same outputs, one over documents without a reroute and one over documents
with it. They know the same, but for the outputs of the reroute: what the reroute has passed on is
known on the left where its wire leads. So when the right pass comes to the reroute, either it
finds there what the left pass finds again, or it asks the reroute, which asks for what the left
pass asks for at once.

The passes stay together unless something fatal is reported on the left, or a chain of outputs
becomes too long on the right, where it has one more member.

## Main results

* `Detour.run` — plans are carried out alike.
* `Detour.ask_stop` — the reroute passes on what is found where its wire leads.
* `Detour.partners` — outputs are resolved alike.
-/

namespace MaterialGraph

open Pass

/-- The pass with other documents, another memo, another stack and another report. -/
def Pass.recast (s : Pass) (instances : List (String × Instance))
    (scopes : List (Scope × Instance)) (memo : List (Site × Progress)) (stack : List Site)
    (report : Report) : Pass :=
  { s with instances, scopes, memo, stack, report }

namespace Detour

variable (D : Detour)

/-! ### Two passes -/

/-- The output of the reroute. -/
def stopSite (scope : Scope) (stage : Stage) : Site := ⟨scope, D.stop.id, resultOutput, stage⟩

/-- The output that the reroute passes on. -/
def sourceSite (scope : Scope) (stage : Stage) : Site :=
  ⟨if D.wire.path.isEmpty then scope else D.wire.path, D.wire.node, D.wire.output, stage⟩

/-- A site that has nothing to do with the reroute. -/
def Names (site : Site) : Prop := site.node ≠ D.stop.id ∧ D.stop.id ∉ site.scope

/-- Passes that know the same, but for the reroute. -/
structure Pair (s t : Pass) : Prop where
  /-- What is registered and emitted is the same, and so is the place. -/
  same : t = s.recast t.instances t.scopes t.memo t.stack t.report
  calm : s.report.hasFatal = false
  calm' : t.report.hasFatal = false
  kept : Kept D.left s
  kept' : Kept D.right t
  /-- The same documents have been made ready. -/
  tables : D.mirror.Tables s.instances t.instances
  /-- Whatever is remembered is about a node. -/
  backed : Backed D.left s
  /-- The same is remembered, but for the reroute. -/
  named : ∀ site, site.node ≠ D.stop.id → t.progress? site = s.progress? site
  /-- The reroute has passed on what is known. -/
  passed : ∀ scope stage o', t.progress? (D.stopSite scope stage) = some (.finished o') →
    ∃ o, Known D.left s (D.sourceSite scope stage) o ∧ o.Kin o'

/-- While the reroute is being resolved, what it passes on is; but for the one `pending` reroute
that is about to ask for it. -/
def Awaits (pending : Option Site) (s t : Pass) : Prop :=
  ∀ scope stage, t.progress? (D.stopSite scope stage) = some .started →
    pending ≠ some (D.stopSite scope stage) →
      s.progress? (D.sourceSite scope stage) = some .started

variable {D} {s s' t t' : Pass} {site : Site} {scope : Scope} {pending : Option Site} {room : Nat}

/-- Something fatal has been reported on the left, or a chain of outputs is too long on the
right. -/
def Escaped (s t : Pass) : Prop :=
  s.report.hasFatal = true ∨ ∃ d ∈ t.report.entries, d.concern = .depthExceeded

theorem Escaped.mono (h : Escaped s t) (hs : s.report.entries <+: s'.report.entries)
    (ht : t.report.entries <+: t'.report.entries) : Escaped s' t' := by
  rcases h with h | ⟨d, hd, hc⟩
  · refine .inl ?_
    unfold Report.hasFatal at h ⊢
    rw [List.any_eq_true] at h ⊢
    obtain ⟨d, hd, hf⟩ := h
    exact ⟨d, hs.subset hd, hf⟩
  · exact .inr ⟨d, ht.subset hd, hc⟩

theorem Awaits.returns (h : D.Awaits pending s t) (hs : Returns s s') (ht : Returns t t') :
    D.Awaits pending s' t' := fun scope stage hstop hpending =>
  hs.progress? (h scope stage ((ht.started _).mp hstop) hpending)

theorem known_mono {env : Environment} {o : Outcome} (h : Known env s site o) (hs : Grows s s')
    (hw : Widens s s') : Known env s' site o :=
  h.imp (hs.finished site o) fun ⟨hb, hv⟩ => ⟨hb, hw.visited hv⟩

namespace Pair

/-- A step that leaves documents and memo alone and reports nothing fatal. -/
theorem of_same (h : D.Pair s t)
    (hsame : t' = s'.recast t'.instances t'.scopes t'.memo t'.stack t'.report)
    (hs : s'.instances = s.instances ∧ s'.scopes = s.scopes ∧ s'.memo = s.memo)
    (ht : t'.instances = t.instances ∧ t'.scopes = t.scopes ∧ t'.memo = t.memo)
    (hsr : s'.report.hasFatal = s.report.hasFatal) (htr : t'.report.hasFatal = t.report.hasFatal) :
    D.Pair s' t' := by
  obtain ⟨hsi, hss, hsm⟩ := hs
  obtain ⟨hti, hts, htm⟩ := ht
  have hps : ∀ site, s'.progress? site = s.progress? site := fun site => by
    unfold progress?
    rw [hsm]
  have hpt : ∀ site, t'.progress? site = t.progress? site := fun site => by
    unfold progress?
    rw [htm]
  refine ⟨hsame, hsr.trans h.calm, htr.trans h.calm', h.kept.of_same hsi hss,
    h.kept'.of_same hti hts, ?_, fun site p hp => ?_, fun site hsite => ?_,
    fun scope stage o' ho' => ?_⟩
  · rw [hsi, hti]
    exact h.tables
  · rw [hps] at hp
    exact h.backed site p hp
  · rw [hps, hpt]
    exact h.named site hsite
  · rw [hpt] at ho'
    obtain ⟨o, ho, hkin⟩ := h.passed scope stage o' ho'
    refine ⟨o, ho.imp (fun hp => ?_) fun ⟨hb, hv⟩ => ⟨hb, fun path hpath => ?_⟩, hkin⟩
    · rw [hps]
      exact hp
    · unfold Keeps
      rw [hsi]
      exact hv path hpath

theorem scope_eq (h : D.Pair s t) : t.scope = s.scope := by rw [h.same]; rfl

theorem stage_eq (h : D.Pair s t) : t.stage = s.stage := by rw [h.same]; rfl

theorem metadata_eq (h : D.Pair s t) : t.metadata = s.metadata := by rw [h.same]; rfl

theorem locals_eq (h : D.Pair s t) : t.locals = s.locals := by rw [h.same]; rfl

/-- A remark on each side that is not fatal. -/
theorem push (h : D.Pair s t) (d d' : Diagnostic) (hd : (d.severity == .fatal) = false)
    (hd' : (d'.severity == .fatal) = false) : D.Pair (s.push d) (t.push d') := by
  obtain ⟨i, c, m, st, r, ht⟩ : ∃ i c m st r, t = s.recast i c m st r := ⟨_, _, _, _, _, h.same⟩
  refine h.of_same ?_ ⟨rfl, rfl, rfl⟩ ⟨rfl, rfl, rfl⟩ ?_ ?_
  · rw [ht]
    rfl
  · show (s.report.push d).hasFatal = _
    rw [Report.hasFatal_push, hd, Bool.or_false]
  · show (t.report.push d').hasFatal = _
    rw [Report.hasFatal_push, hd', Bool.or_false]

theorem remarked (h : D.Pair s t) (d : Diagnostic) (hd : (d.severity == .fatal) = false) :
    D.Pair s (t.push d) := by
  refine h.of_same ?_ ⟨rfl, rfl, rfl⟩ ⟨rfl, rfl, rfl⟩ rfl ?_
  · rw [h.same]
    rfl
  · show (t.report.push d).hasFatal = _
    rw [Report.hasFatal_push, hd, Bool.or_false]

/-- Another place, where the stack does not matter. -/
theorem moved (h : D.Pair s t) (stack stack' : List Site) (scope : Scope) :
    D.Pair { s with stack, scope } { t with stack := stack', scope } := by
  refine h.of_same ?_ ⟨rfl, rfl, rfl⟩ ⟨rfl, rfl, rfl⟩ rfl rfl
  rw [h.same]
  rfl

/-- The place on the right after a step that the left side did not make. -/
theorem restored (h : D.Pair s t) (stack : List Site) (hscope : scope = s.scope) :
    D.Pair s { t with stack, scope } := by
  subst hscope
  exact h.moved s.stack stack s.scope

/-- A step that has nothing to do with documents, memo, stack and report. -/
theorem map (h : D.Pair s t) (f : Pass → Pass)
    (hf : ∀ s i c m st r, f (s.recast i c m st r) = (f s).recast i c m st r) :
    D.Pair (f s) (f t) := by
  have hs : f s = (f s).recast s.instances s.scopes s.memo s.stack s.report := hf s _ _ _ _ _
  have ht : f t = (f s).recast t.instances t.scopes t.memo t.stack t.report := by
    rw [← hf, ← h.same]
  have hsi : (f s).instances = s.instances := by rw [hs]; rfl
  have hss : (f s).scopes = s.scopes := by rw [hs]; rfl
  have hsm : (f s).memo = s.memo := by rw [hs]; rfl
  have hsr : (f s).report = s.report := by rw [hs]; rfl
  refine h.of_same ?_ ⟨hsi, hss, hsm⟩ ?_ (congrArg _ hsr) ?_
  · rw [ht]
    rfl
  · rw [ht]
    exact ⟨rfl, rfl, rfl⟩
  · rw [ht]
    rfl

theorem emit (h : D.Pair s t) (statement : Statement) (n : Nat) :
    D.Pair { s.emit statement with locals := n } { t.emit statement with locals := n } := by
  refine h.map (fun s => { s.emit statement with locals := n }) fun s i c m st r => ?_
  simp only [emit_fields]
  rfl

theorem inStage (h : D.Pair s t) (stage : Stage) : D.Pair { s with stage } { t with stage } :=
  h.map (fun s => { s with stage }) fun _ _ _ _ _ _ => rfl

/-- What both sides remember of a site that has nothing to do with the reroute. -/
theorem remember (h : D.Pair s t) (hsite : site.node ≠ D.stop.id) {p : Progress} {b : Behavior}
    (hb : D.left.HasNode site b)
    (hvalue : ∀ e, p = .finished (.valid e) → b.role ≠ .materialRoot → staysInline e = true)
    (hopen : ∀ o, s.progress? site ≠ some (.finished o)) :
    D.Pair (s.remember site p) (t.remember site p) := by
  refine ⟨?_, h.calm, h.calm', h.kept.of_same rfl rfl, h.kept'.of_same rfl rfl, h.tables,
    fun other q hq => ?_, fun other hother => ?_, fun scope stage o' ho' => ?_⟩
  · rw [h.same]
    rfl
  · rw [progress?_remember] at hq
    split at hq
    · next heq =>
      cases hq
      exact heq ▸ ⟨b, hb, hvalue⟩
    · exact h.backed other q hq
  · rw [progress?_remember, progress?_remember, h.named other hother]
  · have hne : site ≠ D.stopSite scope stage := fun heq => hsite (by rw [heq]; rfl)
    rw [progress?_remember, if_neg hne] at ho'
    obtain ⟨o, ho, hkin⟩ := h.passed scope stage o' ho'
    refine ⟨o, ho.imp (fun hp => ?_) id, hkin⟩
    rw [progress?_remember, if_neg]
    · exact hp
    · rintro rfl
      exact hopen o hp

/-- A step that makes documents ready on both sides. -/
theorem prepared (h : D.Pair s t) (hs : Prepared s s') (ht : Prepared t t') (hk : Kept D.left s')
    (hk' : Kept D.right t') (hw : Widens s s') (hr : D.mirror.Remarked s' t')
    (htables : D.mirror.Tables s'.instances t'.instances) (hcalm : s'.report.hasFatal = false) :
    D.Pair s' t' := by
  have hmetadata : t'.metadata = s'.metadata := hr.metadata
  have hcalm' : t'.report.hasFatal = s'.report.hasFatal := hr.report
  refine ⟨?_, hcalm, hcalm'.trans hcalm, hk, hk', htables, fun site p hp => ?_,
    fun site hsite => ?_, fun scope stage o' ho' => ?_⟩
  · have hsame := h.same
    obtain ⟨i, c, r, m, -, rfl⟩ := hs
    obtain ⟨i', c', r', m', -, rfl⟩ := ht
    obtain rfl : m' = m := hmetadata
    rw [hsame]
    rfl
  · rw [hs.progress?] at hp
    exact h.backed site p hp
  · rw [hs.progress?, ht.progress?]
    exact h.named site hsite
  · rw [ht.progress?] at ho'
    obtain ⟨o, ho, hkin⟩ := h.passed scope stage o' ho'
    exact ⟨o, known_mono ho hs.returns.toGrows hw, hkin⟩

end Pair

/-- A fault on both sides. Only a name that is used twice is fatal. -/
theorem Pair.pushFault (h : D.Pair s t) (node : NodeId) (fault : Fault) :
    Escaped (s.pushFault node fault) (t.pushFault node fault) ∨
      D.Pair (s.pushFault node fault) (t.pushFault node fault) := by
  cases fault with
  | duplicateName name => exact .inl (.inl (hasFatal_push_fatal _ _ _ _))
  | brokenInput input => exact .inr h
  | cycle chain => exact .inr h
  | _ => exact .inr (h.push _ _ rfl rfl)

/-- Related results of passes that know the same; unless something fatal has been reported on the
left, or a chain of outputs is too long on the right. -/
def Sim {α β : Type} (D : Detour) (Q : α → β → Prop) (x : α × Pass) (y : β × Pass) : Prop :=
  Escaped x.2 y.2 ∨ Q x.1 y.1 ∧ D.Pair x.2 y.2

/-- Whatever follows goes on from related results. -/
theorem Sim.bind {α β γ δ : Type} {Q : α → β → Prop} {Q' : γ → δ → Prop} {x : α × Pass}
    {y : β × Pass} {x' : γ × Pass} {y' : δ × Pass} (h : D.Sim Q x y)
    (hs : x.2.report.entries <+: x'.2.report.entries)
    (ht : y.2.report.entries <+: y'.2.report.entries)
    (k : Q x.1 y.1 → D.Pair x.2 y.2 → D.Sim Q' x' y') : D.Sim Q' x' y' := by
  rcases h with h | ⟨hq, hp⟩
  · exact .inl (h.mono hs ht)
  · exact k hq hp

/-- Where a scope leads on both sides. -/
inductive Found (D : Detour) (scope : Scope) : Except Fault Instance → Except Fault Instance → Prop
    where
  /-- To documents that differ in the reroute at most. -/
  | ok {d d' : Document} (hd : (D.left.route scope).2 = .ok d)
      (hd' : (D.right.route scope).2 = .ok d') (h : D.Docs d d') :
      Found D scope (.ok (D.left.instanceOf d)) (.ok (D.right.instanceOf d'))
  | error (fault : Fault) : Found D scope (.error fault) (.error fault)

theorem route_along (hscope : D.stop.id ∉ scope) :
    (D.right.route scope).1 = (D.left.route scope).1 ∧
    Mirror.Ways D.Docs (D.left.route scope).2 (D.right.route scope).2 :=
  Mirror.route_along (M := D.mirror) (D := D.Docs) makes docs_root docs_library
    fun _ hcall heq => hscope (heq ▸ hcall)

/-- A scope leads to documents that differ in the reroute at most. -/
theorem follow (h : D.Pair s t) (hscope : D.stop.id ∉ scope) :
    D.Sim (D.Found scope) (s.follow D.left scope) (t.follow D.right scope) := by
  obtain ⟨hpaths, hways⟩ := route_along hscope
  have hl := follow_reaches scope h.kept
  have hr := follow_reaches scope h.kept'
  by_cases hcalm : (s.follow D.left scope).2.report.hasFatal = true
  · exact .inl (.inl hcalm)
  · rw [Bool.not_eq_true] at hcalm
    have hway : ∀ chain, (D.left.route scope).2 ≠ .error (.cycle chain) := by
      intro chain hc
      rw [hl.fatal chain hc] at hcalm
      cases hcalm
    have hway' : ∀ chain, (D.right.route scope).2 ≠ .error (.cycle chain) := by
      intro chain hc
      rw [hc] at hways
      generalize hx : (D.left.route scope).2 = x at hways
      cases hways with
      | error fault => exact hway chain hx
    have hremarked : D.mirror.Remarked s t := ⟨h.calm'.trans h.calm.symm, h.metadata_eq⟩
    have hvisits' := hr.visits hway'
    rw [hpaths] at hvisits'
    obtain ⟨hremarked, htables⟩ := Mirror.visits_along (M := D.mirror) (D := D.Docs) makes docs_root
      docs_library (hl.visits hway) hvisits' hremarked h.tables
    refine .inr ⟨?_, h.prepared (follow_prepared _ _ _) (follow_prepared _ _ _) hl.kept hr.kept
      (follow_widens _ _ _) hremarked htables hcalm⟩
    rw [hl.result, hr.result]
    generalize hx : (D.left.route scope).2 = x at hways
    generalize hy : (D.right.route scope).2 = y at hways
    cases hways with
    | ok hd => exact .ok hx hy hd
    | error fault => exact .error fault

/-- What is found at a site on both sides. -/
inductive Finds (D : Detour) (site : Site) : Arrival → Arrival → Prop where
  | settled {o o' : Outcome} (h : o.Kin o') : Finds D site (.settled o) (.settled o')
  | node {b b' : Behavior} (hb : D.left.HasNode site b) (h : D.Alike site.scope b b') :
      Finds D site (.node b) (.node b')

/-- Looking a site up goes on from following its scope. -/
theorem arrive_report (env : Environment) (hn : s.progress? site = none) :
    (s.follow env site.scope).2.report.entries <+: (s.arrive env site).2.report.entries := by
  unfold Pass.arrive
  rw [hn]
  rcases s.follow env site.scope with ⟨fault | g, s₁⟩
  · cases fault with
    | cycle chain => exact List.prefix_refl _
    | _ => exact s₁.report.entries_prefix_push _
  · dsimp only
    split
    · exact List.prefix_refl _
    · exact s₁.report.entries_prefix_push _
    · split
      · exact List.prefix_refl _
      · exact List.prefix_refl _

/-- The same is found at a site that has nothing to do with the reroute. -/
theorem arrive (h : D.Pair s t) (hsite : D.Names site) :
    D.Sim (D.Finds site) (s.arrive D.left site) (t.arrive D.right site) := by
  have hdangling {s t : Pass} (h : D.Pair s t) (message : String) :
      D.Sim (D.Finds site)
        (Arrival.settled (s.reportDangling message).1, (s.reportDangling message).2)
        (Arrival.settled (t.reportDangling message).1, (t.reportDangling message).2) :=
    .inr ⟨.settled (.refl _), h.push _ _ rfl rfl⟩
  have hprogress := h.named site hsite.1
  cases hp : s.progress? site with
  | some p =>
    unfold Pass.arrive
    rw [hprogress, hp]
    cases p with
    | finished o => exact .inr ⟨.settled (.refl o), h⟩
    | started => exact .inl (.inl (hasFatal_push_fatal _ _ _ _))
  | none =>
    rw [hp] at hprogress
    -- both get to the same document, unless something fatal is reported on the way
    rcases follow h hsite.2 with hescaped | ⟨hfound, hpair⟩
    · exact .inl (hescaped.mono (arrive_report _ hp) (arrive_report _ hprogress))
    · have hfollow := follow_prepared D.left site.scope s
      unfold Pass.arrive
      rw [hprogress, hp]
      rcases hx : s.follow D.left site.scope with ⟨x, s₁⟩
      rcases hy : t.follow D.right site.scope with ⟨y, t₁⟩
      rw [hx] at hfollow
      rw [hx, hy] at hfound hpair
      dsimp only at hfound hpair hfollow
      cases hfound with
      | error fault =>
        cases fault with
        | cycle chain => exact .inr ⟨.settled (.refl _), hpair⟩
        | _ => exact hdangling hpair _
      | @ok d d' hd hd' hdocs =>
        have hstates := states_of_docs hd hd' hdocs hsite.1
        dsimp only
        generalize hb : (D.left.instanceOf d).state? site.node = x at hstates
        generalize (D.right.instanceOf d').state? site.node = y at hstates
        cases hstates with
        | none => exact hdangling hpair _
        | some hstate =>
          cases hstate with
          | broken message => exact .inr ⟨.settled (.refl _), hpair⟩
          | @ready b b' halike =>
            have hnode : D.left.HasNode site b := ⟨d, hd, hb⟩
            dsimp only
            rw [halike.errors]
            cases b.errors with
            | nil => exact .inr ⟨.node hnode halike, hpair⟩
            | cons message rest =>
              refine .inr ⟨.settled (.refl _), hpair.remember hsite.1 hnode nofun fun o ho => ?_⟩
              rw [hfollow.progress?, hp] at ho
              cases ho

/-! ### Requests -/

/-- If a reroute is pending, it is about to ask for the site. -/
def Asked (D : Detour) (pending : Option Site) (site : Site) : Prop :=
  ∀ scope stage, pending = some (D.stopSite scope stage) → site = D.sourceSite scope stage

/-- Passes at the same place, in a document that has been made ready. -/
structure Placed (D : Detour) (s t : Pass) : Prop extends D.Pair s t where
  /-- No reroute is pending. -/
  awaits : D.Awaits none s t
  /-- The document is not called by the reroute. -/
  outside : D.stop.id ∉ s.scope
  /-- It has been made ready. -/
  visited : Visited D.left s.scope s

/-- Resolvers that find the same, with a stop at the reroute or without. -/
structure Partners (D : Detour) (r r' : Resolver) : Prop where
  returning : r.Returning
  returning' : r'.Returning
  widening : r.Widening
  /-- They find the same at a site that has nothing to do with the reroute. -/
  simulates : ∀ {site s t pending}, D.Names site → D.Pair s t → D.Awaits pending s t →
    D.Asked pending site → D.Sim Outcome.Kin (r site s) (r' site t)
  /-- The second one finds at the reroute what the first one finds where its wire leads. -/
  hops : ∀ {s t}, D.Placed s t → D.Host s.scope → D.Sim Outcome.Kin
    (r (D.sourceSite s.scope s.stage) s) (r' (D.stopSite s.scope s.stage) t)

/-- Passes in which the output of the same node is being resolved. -/
structure Inside (D : Detour) (s t : Pass) : Prop extends D.Placed s t where
  /-- The node has nothing to do with the reroute. -/
  top : ∃ site rest rest', s.stack = site :: rest ∧ t.stack = site :: rest' ∧ D.Names site

theorem asked_none (site : Site) : D.Asked none site := nofun

theorem Inside.next (h : D.Inside s t) (hp : D.Pair s' t') (hs : Returns s s') (ht : Returns t t')
    (hw : Widens s s') : D.Inside s' t' := by
  obtain ⟨site, rest, rest', hstack, hstack', hsite⟩ := h.top
  refine ⟨⟨hp, h.awaits.returns hs ht, ?_, ?_⟩, site, rest, rest', ?_, ?_, hsite⟩
  · rw [hs.scope]
    exact h.outside
  · rw [hs.scope]
    exact hw.visited h.visited
  · rw [hs.stack, hstack]
  · rw [ht.stack, hstack']

/-- A node of which the scope has nothing to do with the reroute calls another such scope. -/
theorem Names.inner (h : D.Names site) : D.stop.id ∉ site.scope ++ [site.node] := by
  intro hmem
  rcases List.mem_append.mp hmem with hmem | hmem
  · exact h.2 hmem
  · exact h.1 (List.mem_singleton.mp hmem).symm

section Requests

variable {r r' : Resolver} (P : D.Partners r r')
include P

theorem readWire (h : D.Placed s t) (input : String) {x x' : Wire} (hx : D.Turns s.scope x x') :
    D.Sim Outcome.Kin (s.readWire r input x) (t.readWire r' input x') := by
  have hconnected := turns_isConnected hx.1
  unfold Pass.readWire
  rw [hconnected]
  by_cases hw : x.isConnected = true
  · rw [if_pos hw, if_pos hw]
    rw [h.scope_eq, h.stage_eq]
    obtain ⟨rfl | ⟨hhost, rfl, rfl⟩, hclean⟩ := hx
    · refine P.simulates ⟨fun heq => hclean ⟨hw, .inl heq⟩, ?_⟩ h.toPair h.awaits (asked_none _)
      split
      · exact h.outside
      · exact fun hmem => hclean ⟨hw, .inr hmem⟩
    · exact P.hops h hhost
  · rw [if_neg hw, if_neg hw]
    exact .inr ⟨.refl _, h.toPair⟩

theorem readOwn (h : D.Inside s t) (output : String) :
    D.Sim Outcome.Kin (s.readOwn r output) (t.readOwn r' output) := by
  obtain ⟨site, rest, rest', hstack, hstack', hsite⟩ := h.top
  unfold Pass.readOwn
  rw [hstack, hstack', h.stage_eq]
  exact P.simulates hsite h.toPair h.awaits (asked_none _)

omit P in
/-- A call that follows a scope goes on from where the scope leads. -/
theorem callOutput_report (env : Environment) (hr : r.Returning) {rest : List Site}
    (hs : s.stack = site :: rest) (output : String) :
    (s.follow env (site.scope ++ [site.node])).2.report.entries <+:
      (s.callOutput env r output).2.report.entries := by
  unfold Pass.callOutput
  rw [hs]
  dsimp only
  rcases s.follow env (site.scope ++ [site.node]) with ⟨fault | g, s₁⟩
  · exact List.prefix_refl _
  · dsimp only
    cases outputNode? g output with
    | none => exact List.prefix_refl _
    | some node => exact (hr _ _).report

theorem callOutput (h : D.Inside s t) (output : String) :
    D.Sim (fun x y => y = x) (s.callOutput D.left r output) (t.callOutput D.right r' output) := by
  obtain ⟨site, rest, rest', hstack, hstack', hsite⟩ := h.top
  refine (follow h.toPair hsite.inner).bind (callOutput_report _ P.returning hstack output)
    (callOutput_report _ P.returning' hstack' output) fun hfound hpair => ?_
  have hs := (follow_prepared D.left (site.scope ++ [site.node]) s).returns
  have ht := (follow_prepared D.right (site.scope ++ [site.node]) t).returns
  unfold Pass.callOutput
  rw [hstack, hstack']
  dsimp only
  rcases hx : s.follow D.left (site.scope ++ [site.node]) with ⟨x, s₁⟩
  rcases hy : t.follow D.right (site.scope ++ [site.node]) with ⟨y, t₁⟩
  rw [hx] at hs
  rw [hy] at ht
  rw [hx, hy] at hfound hpair
  dsimp only at hfound hpair hs ht
  cases hfound with
  | error fault => exact .inr ⟨rfl, hpair⟩
  | @ok d d' hd hd' hdocs =>
    have hinstances := (makes hdocs).instances
    have houtput := hinstances.output output
    have hnamed := hinstances.named output
    dsimp only
    rw [show outputNode? (D.right.instanceOf d') output = outputNode? (D.left.instanceOf d) output
      from houtput]
    cases hnode : outputNode? (D.left.instanceOf d) output with
    | none => exact .inr ⟨rfl, hpair⟩
    | some node =>
      rw [hpair.stage_eq]
      have hresult : D.Sim Outcome.Kin
          (r ⟨site.scope ++ [site.node], node, valueOutput, s₁.stage⟩ s₁)
          (r' ⟨site.scope ++ [site.node], node, valueOutput, s₁.stage⟩ t₁) :=
        P.simulates ⟨hnamed node hnode, hsite.inner⟩ hpair (h.awaits.returns hs ht) (asked_none _)
      exact hresult.bind (List.prefix_refl _) (List.prefix_refl _) fun hkin hp =>
        .inr ⟨hkin.toExpr output, hp⟩

omit P in
theorem readArgument_report (env : Environment) (hr : r.Returning) {call : NodeId}
    (hs : s.scope.getLast? = some call) (name : String) :
    (s.follow env s.scope.dropLast).2.report.entries <+:
      (s.readArgument env r name).2.report.entries := by
  unfold Pass.readArgument
  rw [hs]
  dsimp only
  rcases s.follow env s.scope.dropLast with ⟨fault | g, s₁⟩
  · exact List.prefix_refl _
  · dsimp only
    cases Pass.boundWire? g call name with
    | none => exact List.prefix_refl _
    | some wire =>
      dsimp only
      unfold Pass.readWire
      split
      · exact (hr _ { s₁ with scope := s.scope.dropLast }).report
      · exact List.prefix_refl _

omit P in
/-- A call binds wires that stand for each other to a name. -/
theorem boundWire? {d d' : Document} (hd : (D.left.route scope).2 = .ok d)
    (hd' : (D.right.route scope).2 = .ok d') (h : D.Docs d d') {call : NodeId}
    (hcall : call ≠ D.stop.id) (name : String) :
    Option.Rel (D.Turns scope) (Pass.boundWire? (D.left.instanceOf d) call name)
      (Pass.boundWire? (D.right.instanceOf d') call name) := by
  have hstates := states_of_docs hd hd' h hcall
  unfold Pass.boundWire? Instance.behavior?
  generalize (D.left.instanceOf d).state? call = x at hstates
  generalize (D.right.instanceOf d').state? call = y at hstates
  cases hstates with
  | none => exact .none
  | some hstate =>
    cases hstate with
    | broken message => exact .none
    | @ready b b' halike =>
      have hconnections := halike.connections
      simp only [Option.bind_eq_bind, Option.bind_some]
      generalize b.connections = l at hconnections
      generalize b'.connections = l' at hconnections
      induction hconnections with
      | nil => exact .none
      | @cons x y l l' hxy _ ih =>
        rw [List.find?_cons, List.find?_cons, hxy.1]
        cases x.1 == name with
        | false => exact ih
        | true =>
          simp only [Option.bind_some]
          rw [turns_isConnected hxy.2.1]
          split
          · exact .some hxy.2
          · exact .none

theorem readArgument (h : D.Inside s t) (name : String) :
    D.Sim (Option.Rel Outcome.Kin) (s.readArgument D.left r name)
      (t.readArgument D.right r' name) := by
  cases hlast : s.scope.getLast? with
  | none =>
    unfold Pass.readArgument
    rw [h.scope_eq, hlast]
    exact .inr ⟨.none, h.toPair⟩
  | some call =>
    have hlast' : t.scope.getLast? = some call := by
      rw [h.scope_eq]
      exact hlast
    -- the scope does not lead through the reroute, and that of the caller does not either
    have hcall : call ≠ D.stop.id := fun heq => h.outside (heq ▸ List.mem_of_getLast? hlast)
    have hcaller : D.stop.id ∉ s.scope.dropLast := fun hmem =>
      h.outside (List.dropLast_subset _ hmem)
    have hreport := readArgument_report D.right P.returning' hlast' name
    rw [h.scope_eq] at hreport
    refine (follow h.toPair hcaller).bind (readArgument_report D.left P.returning hlast name)
      hreport fun hfound hpair => ?_
    have hs := follow_prepared D.left s.scope.dropLast s
    have ht := follow_prepared D.right s.scope.dropLast t
    have hvisited {d : Document} (hd : (D.left.route s.scope.dropLast).2 = .ok d) :=
      visited_of_follow h.kept hd
    unfold Pass.readArgument
    rw [h.scope_eq, hlast]
    dsimp only
    rcases hx : s.follow D.left s.scope.dropLast with ⟨x, s₁⟩
    rcases hy : t.follow D.right s.scope.dropLast with ⟨y, t₁⟩
    rw [hx] at hs hvisited
    rw [hy] at ht
    rw [hx, hy] at hfound hpair
    dsimp only at hfound hpair hs ht hvisited
    cases hfound with
    | error fault => exact .inr ⟨.none, hpair⟩
    | @ok d d' hd hd' hdocs =>
      have hbound := boundWire? hd hd' hdocs hcall name
      dsimp only
      generalize Pass.boundWire? (D.left.instanceOf d) call name = x at hbound
      generalize Pass.boundWire? (D.right.instanceOf d') call name = y at hbound
      cases hbound with
      | none => exact .inr ⟨.none, hpair⟩
      | @some x x' hturns =>
        have hawaits : D.Awaits none s₁ t₁ := h.awaits.returns hs.returns ht.returns
        have hplaced : D.Placed { s₁ with scope := s.scope.dropLast }
            { t₁ with scope := s.scope.dropLast } :=
          ⟨hpair.moved _ _ _, hawaits, hcaller, hvisited hd⟩
        refine (readWire P hplaced name hturns).bind (List.prefix_refl _) (List.prefix_refl _)
          fun hkin hp => .inr ⟨.some hkin, ?_⟩
        rw [hpair.scope_eq]
        exact hp.moved _ _ _

omit P in
theorem registering : Registering fun s t => D.Pair s t ∧ t.currentNode = s.currentNode where
  globals h := by rw [h.1.same]; rfl
  locals h := h.1.locals_eq
  node h := h.2
  tables h globals := ⟨h.1.map (fun s => { s with globals }) fun _ _ _ _ _ _ => rfl, h.2⟩
  push h d hd := ⟨h.1.push d d hd hd, h.2⟩
  compiled h spec :=
    ⟨h.1.map (fun s => { s with compiled := s.compiled ++ [spec] }) fun _ _ _ _ _ _ => rfl, h.2⟩
  journal h remark :=
    ⟨h.1.map (fun s => { s with journal := s.journal ++ [remark] }) fun _ _ _ _ _ _ => rfl, h.2⟩
  emit {s t} h statement n := by
    have hnode (s : Pass) :
        Pass.currentNode { s.emit statement with locals := n } = s.currentNode := by
      unfold Pass.emit
      cases s.stage with
      | vertex => rfl
      | pixel => rfl
    refine ⟨h.1.emit statement n, ?_⟩
    rw [hnode, hnode]
    exact h.2

omit P in
theorem register (h : D.Pair s t) (hnode : t.currentNode = s.currentNode) {c : Command}
    (hc : ∀ o, c.deliver? o = none) :
    D.Sim c.Kin (s.perform D.left r c) (t.perform D.right r' c) := by
  obtain ⟨hreply, hp, -⟩ := registering.perform D.types D.textures ⟨h, hnode⟩ r r' hc
  refine .inr ⟨?_, hp⟩
  rw [hreply]
  exact .refl c _

/-- **A request is answered alike**, unless it leads along a wire. -/
theorem perform (h : D.Inside s t) {c : Command} (hc : ∀ input wire, c ≠ .read input wire) :
    D.Sim c.Kin (s.perform D.left r c) (t.perform D.right r' c) := by
  have hnode : t.currentNode = s.currentNode := by
    obtain ⟨site, rest, rest', hstack, hstack', -⟩ := h.top
    unfold Pass.currentNode
    rw [hstack, hstack']
  cases c with
  | read input wire => exact (hc input wire rfl).elim
  | own output => exact readOwn P h output
  | call output => exact callOutput P h output
  | argument name => exact readArgument P h name
  | _ => exact register h.toPair hnode fun _ => rfl

/-- **A plan along other wires is carried out alike**, with stops at the reroute. -/
theorem run {α : Type} {p p' : Plan α} (hp : p.Along (D.Turns scope) p') :
    ∀ {s t : Pass}, s.scope = scope → D.Inside s t →
      D.Sim (fun x y => y = x) (Pass.run D.left r p s) (Pass.run D.right r' p' t) := by
  induction hp with
  | done a => exact fun _ h => .inr ⟨rfl, h.toPair⟩
  | fail fault => exact fun _ h => .inr ⟨rfl, h.toPair⟩
  | @read input x x' hx next next' _ ih =>
    intro s t hscope h
    have hs := perform_returns D.left P.returning (.read input x) s
    have ht := perform_returns D.right P.returning' (.read input x') t
    have hw := perform_widens D.left P.widening (.read input x) s
    subst hscope
    rw [run_ask, run_ask]
    exact (readWire P h.toPlaced input hx).bind (run_returns _ P.returning _ _).report
      (run_returns _ P.returning' _ _).report fun hkin hpair =>
        ih _ _ hkin hs.scope (h.next hpair hs ht hw)
  | @ask c hc next next' _ ih =>
    intro s t hscope h
    have hs := perform_returns D.left P.returning c s
    have ht := perform_returns D.right P.returning' c t
    rw [run_ask, run_ask]
    exact (perform P h hc).bind (run_returns _ P.returning _ _).report
      (run_returns _ P.returning' _ _).report fun hkin hpair =>
        ih _ _ hkin (hs.scope.trans hscope) (h.next hpair hs ht (perform_widens _ P.widening _ _))

end Requests

/-! ### Sites -/

/-- The result of a node becomes the same on both sides, and its value is in its place. -/
theorem conclude (h : D.Pair s t) (node : NodeId) (role : Role) (result : Except Fault Expr) :
    D.Sim (fun o o' => o' = o ∧ ∀ e, o = .valid e → role ≠ .materialRoot → staysInline e = true)
      (Pass.conclude D.left node role result s) (Pass.conclude D.right node role result t) := by
  cases result with
  | error fault =>
    refine (h.pushFault node fault).imp_right fun hp => ⟨⟨rfl, fun e he => ?_⟩, hp⟩
    cases fault with
    | _ => cases he
  | ok e =>
    unfold Pass.conclude
    dsimp only
    split
    · next hrole => exact .inr ⟨⟨rfl, fun _ _ hne => (hne hrole).elim⟩, h⟩
    · unfold Pass.hoist
      split
      · next hin => exact .inr ⟨⟨rfl, fun e' he _ => by cases he; exact hin⟩, h⟩
      · rw [D.types, h.locals_eq]
        refine .inr ⟨⟨rfl, fun e' he _ => ?_⟩, h.emit _ _⟩
        cases he
        exact staysInline_of_localName rfl

theorem frame_eq (site : Site) : frame D.right site = frame D.left site := by
  unfold frame
  rw [D.types, D.mode]

theorem enter (h : D.Pair s t) (hawaits : D.Awaits pending s t) (hasked : D.Asked pending site)
    (hsite : D.Names site) {b : Behavior} (hb : D.left.HasNode site b)
    (hn : s.progress? site = none) (hvisited : Visited D.left site.scope s) :
    D.Inside (s.enter site) (t.enter site) := by
  have hpair : D.Pair (s.remember site .started) (t.remember site .started) := by
    refine h.remember hsite.1 hb nofun fun o ho => ?_
    rw [hn] at ho
    cases ho
  refine ⟨⟨hpair.moved _ _ _, fun scope stage hstop _ => ?_, hsite.2, hvisited⟩, site, s.stack,
    t.stack, rfl, rfl, hsite⟩
  have hne : site ≠ D.stopSite scope stage := fun heq => hsite.1 (by rw [heq]; rfl)
  rw [progress?_enter, if_neg hne] at hstop
  rw [progress?_enter]
  split
  · rfl
  · next hsource =>
    exact hawaits scope stage hstop fun hpending => hsource (hasked scope stage hpending)

/-- **Nodes that stand for each other are asked alike.** -/
theorem ask {r r' : Resolver} (P : D.Partners r r') (h : D.Pair s t)
    (hawaits : D.Awaits pending s t) (hasked : D.Asked pending site) (hsite : D.Names site)
    {b b' : Behavior} (hb : D.left.HasNode site b) (halike : D.Alike site.scope b b')
    (hn : s.progress? site = none) (hvisited : Visited D.left site.scope s) :
    D.Sim Outcome.Kin (s.ask D.left r site b) (t.ask D.right r' site b') := by
  have hin := enter h hawaits hasked hsite hb hn hvisited
  have hrun : D.Sim (fun x y => y = x) (carryOut D.left r site b s)
      (carryOut D.right r' site b' t) := by
    unfold carryOut
    rw [frame_eq]
    exact run P (halike.plan (frame D.left site) site.output) rfl hin
  have hreturns := run_returns D.left P.returning (b.plan (frame D.left site) site.output)
    (s.enter site)
  have hstarted : (carryOut D.left r site b s).2.progress? site = some .started :=
    hreturns.progress? (by rw [progress?_enter, if_pos rfl])
  rw [ask_eq, ask_eq]
  have hdone := outcomeOf_returns D.left r site b s
  refine hrun.bind hdone.report (outcomeOf_returns _ _ _ _ _).report fun hresult hpair => ?_
  unfold outcomeOf
  rw [hresult, halike.role, h.scope_eq]
  refine (conclude (hpair.moved s.stack t.stack s.scope) site.node b.role _).bind
    (List.prefix_refl _) (List.prefix_refl _) fun hout hp => ?_
  obtain ⟨heq, hvalue⟩ := hout
  rw [heq]
  refine .inr ⟨.refl _, hp.remember hsite.1 hb (fun e he => hvalue e ?_) fun o ho => ?_⟩
  · exact Progress.finished.inj he
  · cases ho.symm.trans (hdone.progress? hstarted)

/-- Resolving an output goes on from looking it up. -/
theorem resolve_report (env : Environment) (room : Nat) (site : Site) (s : Pass) :
    (s.arrive env site).2.report.entries <+: (resolve env room site s).2.report.entries := by
  have ha := arrive_arrives env site s
  rcases hx : s.arrive env site with ⟨a, s₁⟩
  rw [hx] at ha
  cases a with
  | settled o => exact ⟨[], by rw [resolve_settled room hx, List.append_nil]⟩
  | node b =>
    cases room with
    | zero =>
      rw [resolve_zero_node hx]
      exact s₁.report.entries_prefix_push _
    | succ room =>
      rw [resolve_succ_node room hx]
      exact (ask_returns env (resolve_returns env room) site b ha.progress?_eq_none).report

/-- A chain of outputs that is too long on the right. -/
theorem escaped_reportDepth : Escaped s (t.reportDepth site).2 :=
  .inr ⟨_, Report.mem_push.mpr (.inl rfl), rfl⟩

/-- The same is found at a site that has nothing to do with the reroute, if it is so with less
room. -/
theorem resolve_names {room' : Nat} (P : ∀ n n', room = n + 1 → room' = n' + 1 →
      D.Partners (Pass.resolve D.left n) (Pass.resolve D.right n')) (hsite : D.Names site)
    (h : D.Pair s t) (hawaits : D.Awaits pending s t) (hasked : D.Asked pending site) :
    D.Sim Outcome.Kin (Pass.resolve D.left room site s)
      (Pass.resolve D.right room' site t) := by
  refine (arrive h hsite).bind (resolve_report _ _ _ _) (resolve_report _ _ _ _)
    fun hfinds hpair => ?_
  have hs := arrive_arrives D.left site s
  have ht := arrive_arrives D.right site t
  rcases hx : s.arrive D.left site with ⟨x, s₁⟩
  rcases hy : t.arrive D.right site with ⟨y, t₁⟩
  rw [hx] at hs
  rw [hy] at ht
  rw [hx, hy] at hfinds hpair
  dsimp only at hfinds hpair hs ht
  cases hfinds with
  | settled hkin =>
    rw [resolve_settled room hx, resolve_settled room' hy]
    exact .inr ⟨hkin, hpair⟩
  | @node b b' hb halike =>
    cases room' with
    | zero =>
      rw [resolve_zero_node hy]
      exact .inl escaped_reportDepth
    | succ room' =>
      cases room with
      | zero =>
        rw [resolve_zero_node hx]
        exact .inl (.inl (hasFatal_push_fatal _ _ _ _))
      | succ room =>
        rw [resolve_succ_node room hx, resolve_succ_node room' hy]
        exact ask (P room room' rfl rfl) hpair (hawaits.returns hs.returns ht.returns) hasked hsite
          hb halike hs.progress?_eq_none (hs.visited h.kept)

/-! ### The reroute -/

/-- What is remembered of the reroute is what is known where its wire leads. -/
theorem Pair.rememberStop (h : D.Pair s t) {stage : Stage} {p : Progress}
    (hp : ∀ o', p = .finished o' → ∃ o, Known D.left s (D.sourceSite scope stage) o ∧ o.Kin o') :
    D.Pair s (t.remember (D.stopSite scope stage) p) := by
  refine ⟨?_, h.calm, h.calm', h.kept, h.kept'.of_same rfl rfl, h.tables, h.backed,
    fun site hsite => ?_, fun scope' stage' o' ho' => ?_⟩
  · rw [h.same]
    rfl
  · have hne : D.stopSite scope stage ≠ site := fun heq => hsite (by rw [← heq]; rfl)
    rw [progress?_remember, if_neg hne]
    exact h.named site hsite
  · rw [progress?_remember] at ho'
    split at ho'
    · next heq =>
      cases heq
      exact hp o' (Option.some.inj ho')
    · exact h.passed scope' stage' o' ho'

/-- The reroute stands where a wire leads to it. -/
theorem arrive_stop (h : D.Placed s t) (hhost : D.Host s.scope)
    (hn : t.progress? (D.stopSite s.scope s.stage) = none) :
    ∃ scopes, t.arrive D.right (D.stopSite s.scope s.stage) =
        (.node (RerouteSettings.spec.behavior ⟨D.wire⟩), { t with scopes }) ∧
      D.Pair s { t with scopes } := by
  obtain ⟨d', hd', hstate⟩ := stop_of_host hhost
  have hvisited : Visited D.right s.scope t := by
    intro path hpath
    rw [(route_along h.outside).1] at hpath
    obtain ⟨g, hg⟩ := h.visited path hpath
    have hkey : path ∈ t.instances.map Prod.fst := by
      rw [h.tables.keys]
      exact List.mem_map.mpr ⟨_, hg, rfl⟩
    obtain ⟨⟨_, g'⟩, hg', rfl⟩ := List.mem_map.mp hkey
    exact ⟨g', hg'⟩
  rcases hf : t.follow D.right (D.stopSite s.scope s.stage).scope with ⟨x, t₁⟩
  have hr := route_of_follow h.kept' (show t.follow D.right s.scope = (x, t₁) from hf)
  have hway : ∀ chain, (D.right.route s.scope).2 ≠ .error (.cycle chain) := by
    rw [hd']
    nofun
  have hresult := hr.result
  obtain ⟨scopes, rfl⟩ := (hr.visits hway).eq_of_keeps hvisited
  rw [hd'] at hresult
  cases hresult
  have hstate : (D.right.instanceOf d').state? (D.stopSite s.scope s.stage).node =
      some (.ready (RerouteSettings.spec.behavior ⟨D.wire⟩)) := hstate
  refine ⟨scopes, ?_, ?_, h.calm, h.calm', h.kept, hr.kept, h.tables, h.backed, h.named, h.passed⟩
  · unfold Pass.arrive
    rw [hn, hf]
    dsimp only [Except.map]
    rw [hstate]
    rfl
  · rw [h.same]
    rfl

theorem run_stop (env : Environment) (r : Resolver) (wire : Wire) (frame : Frame) (s : Pass) :
    Pass.run env r ((RerouteSettings.spec.behavior ⟨wire⟩).plan frame resultOutput) s =
      ((s.readWire r "input" wire).1.toExpr "input", (s.readWire r "input" wire).2) := by
  have hplan : (RerouteSettings.spec.behavior ⟨wire⟩).plan frame resultOutput =
      Plan.required "input" wire := rfl
  rw [hplan]
  show Pass.run env r (Plan.ofExcept ((s.readWire r "input" wire).1.toExpr "input"))
    (s.readWire r "input" wire).2 = _
  cases (s.readWire r "input" wire).1 with
  | valid e => rfl
  | error text => rfl
  | missingInput text => rfl

/-- A reroute passes on what it is given, if a value is in its place. -/
theorem conclude_stop (h : D.Pair s t) {o o' : Outcome} (hkin : o.Kin o')
    (hvalue : ∀ e, o = .valid e → staysInline e = true) (node : NodeId) :
    o.Kin (Pass.conclude D.right node .expression (o'.toExpr "input") t).1 ∧
      D.Pair s (Pass.conclude D.right node .expression (o'.toExpr "input") t).2 := by
  cases hkin with
  | valid e =>
    have hhoist : t.hoist D.right e = (e, t) := if_pos (hvalue e rfl)
    have hstays : Pass.conclude D.right node .expression (.ok e) t = (.valid e, t) := by
      unfold Pass.conclude
      dsimp only
      rw [if_neg nofun, hhoist]
    show Outcome.Kin _ (Pass.conclude D.right node .expression (.ok e) t).1 ∧
      D.Pair s (Pass.conclude D.right node .expression (.ok e) t).2
    rw [hstays]
    exact ⟨.refl _, h⟩
  | error text text' => exact ⟨.error _ _, h⟩
  | missingInput text text' => exact ⟨.missingInput _ _, h.remarked _ rfl⟩

/-- The wire leads to a site that has nothing to do with the reroute. -/
theorem Placed.names_source (h : D.Placed s t) : D.Names (D.sourceSite s.scope s.stage) := by
  refine ⟨fun heq => D.outward ⟨D.connected, .inl heq⟩, ?_⟩
  unfold sourceSite
  split
  · exact h.outside
  · exact fun hmem => D.outward ⟨D.connected, .inr hmem⟩

/-- A value that has been found where the wire leads is in its place. -/
theorem Pair.value_in_place (h : D.Pair s t) (hhost : D.Host scope) {stage : Stage} {e : Expr}
    (hknown : Known D.left s (D.sourceSite scope stage) (.valid e)) : staysInline e = true := by
  rcases hknown with hk | ⟨hbarren, -⟩
  · obtain ⟨b, hb, hvalue⟩ := h.backed _ _ hk
    exact hvalue e rfl (role_of_source hhost hb)
  · cases hbarren

/-- **The reroute is asked, and passes on what is found where its wire leads.** -/
theorem ask_stop {r' : Resolver} (P : D.Partners (Pass.resolve D.left room) r') (h : D.Placed s t)
    (hhost : D.Host s.scope) :
    D.Sim Outcome.Kin (Pass.resolve D.left room (D.sourceSite s.scope s.stage) s)
      (t.ask D.right r' (D.stopSite s.scope s.stage) (RerouteSettings.spec.behavior ⟨D.wire⟩)) := by
  -- the reroute is entered on the right, while nothing happens on the left
  have hentered : D.Pair s (t.enter (D.stopSite s.scope s.stage)) :=
    (h.toPair.rememberStop (p := .started) nofun).restored _ rfl
  have hawaits : D.Awaits (some (D.stopSite s.scope s.stage)) s
      (t.enter (D.stopSite s.scope s.stage)) := by
    intro scope stage hstop hpending
    rw [progress?_enter, if_neg fun heq => hpending (congrArg some heq)] at hstop
    exact h.awaits scope stage hstop nofun
  have hasked : D.Asked (some (D.stopSite s.scope s.stage)) (D.sourceSite s.scope s.stage) := by
    intro scope stage heq
    cases heq
    rfl
  have hcarry : carryOut D.right r' (D.stopSite s.scope s.stage)
      (RerouteSettings.spec.behavior ⟨D.wire⟩) t =
        ((r' (D.sourceSite s.scope s.stage)
            (t.enter (D.stopSite s.scope s.stage))).1.toExpr "input",
          (r' (D.sourceSite s.scope s.stage) (t.enter (D.stopSite s.scope s.stage))).2) := by
    have hread : (t.enter (D.stopSite s.scope s.stage)).readWire r' "input" D.wire =
        r' (D.sourceSite s.scope s.stage) (t.enter (D.stopSite s.scope s.stage)) := by
      unfold Pass.readWire
      rw [if_pos D.connected, ← h.stage_eq]
      rfl
    rw [← hread]
    exact run_stop D.right r' D.wire _ _
  have hreport := (outcomeOf_returns D.right r' (D.stopSite s.scope s.stage)
    (RerouteSettings.spec.behavior ⟨D.wire⟩) t).report
  rw [hcarry] at hreport
  have hs := resolve_returns D.left room (D.sourceSite s.scope s.stage) s
  rw [ask_eq]
  refine (P.simulates h.names_source hentered hawaits hasked).bind (List.prefix_refl _) hreport
    fun hkin hp => ?_
  have hknown := resolve_known room h.kept hp.calm
  obtain ⟨hkin', hdone⟩ := conclude_stop
    (hp.restored t.stack (h.scope_eq.trans hs.scope.symm)) hkin
    (fun e he => hp.value_in_place hhost (he ▸ hknown)) D.stop.id
  unfold outcomeOf
  rw [hcarry]
  refine .inr ⟨hkin', hdone.rememberStop fun o ho => ⟨_, hknown, ?_⟩⟩
  cases ho
  exact hkin'

/-- At the reroute, the same is found as where its wire leads, if it is so with less room. -/
theorem resolve_stop {room' : Nat}
    (P : ∀ n', room' = n' + 1 → D.Partners (Pass.resolve D.left room) (Pass.resolve D.right n'))
    (h : D.Placed s t) (hhost : D.Host s.scope) :
    D.Sim Outcome.Kin (Pass.resolve D.left room (D.sourceSite s.scope s.stage) s)
      (Pass.resolve D.right room' (D.stopSite s.scope s.stage) t) := by
  cases hp : t.progress? (D.stopSite s.scope s.stage) with
  | some p =>
    cases p with
    | finished o' =>
      -- what the reroute has passed on is found again on the left
      obtain ⟨o, ho, hkin⟩ := h.passed _ _ o' hp
      obtain ⟨scopes, report, hleft, hreport, hkept⟩ := resolve_again room h.kept h.backed ho
      have hright : t.arrive D.right (D.stopSite s.scope s.stage) = (.settled o', t) := by
        unfold Pass.arrive
        rw [hp]
      rw [hleft, resolve_settled room' hright]
      exact .inr ⟨hkin, h.same, hreport.trans h.calm, h.calm', hkept, h.kept', h.tables, h.backed,
        h.named, h.passed⟩
    | started =>
      -- what the reroute passes on is being resolved on the left: it needs itself
      have hsource := h.awaits _ _ hp nofun
      have hleft : s.arrive D.left (D.sourceSite s.scope s.stage) =
          (.settled (s.reportCycle (D.sourceSite s.scope s.stage)).1,
            (s.reportCycle (D.sourceSite s.scope s.stage)).2) := by
        unfold Pass.arrive
        rw [hsource]
      rw [resolve_settled room hleft]
      exact .inl (.inl (hasFatal_push_fatal _ _ _ _))
  | none =>
    obtain ⟨scopes, harrive, hpair⟩ := arrive_stop h hhost hp
    cases room' with
    | zero =>
      rw [resolve_zero_node harrive]
      exact .inl escaped_reportDepth
    | succ room' =>
      rw [resolve_succ_node room' harrive]
      exact ask_stop (P room' rfl) ⟨hpair, h.awaits, h.outside, h.visited⟩ hhost

/-- **The same is found with the reroute as without**, however many outputs may be started. -/
theorem partners (room' : Nat) :
    ∀ room, D.Partners (Pass.resolve D.left room) (Pass.resolve D.right room') := by
  induction room' with
  | zero =>
    refine fun room => ⟨resolve_returns _ _, resolve_returns _ _, resolve_widens _ _,
      resolve_names fun n n' _ hn' => ?_, resolve_stop fun n' hn' => ?_⟩
    · cases hn'
    · cases hn'
  | succ room' ih =>
    refine fun room => ⟨resolve_returns _ _, resolve_returns _ _, resolve_widens _ _,
      resolve_names fun n n' _ hn' => ?_, resolve_stop fun n' hn' => ?_⟩
    · cases hn'
      exact ih n
    · cases hn'
      exact ih room

end Detour

end MaterialGraph
