import MaterialGraph.Proofs.Trace

/-!
# Invariants at every moment

A property of passes that every step keeps holds at every moment of every pass. This is proved
here by following the events of a pass. Events that answer someone also tell how they arose: from
a state with the property, by the request or by the site that was asked for.

## Main results

* `Pass.Invariant.keeps` — the events of resolving a site arise from states with an invariant.
* `Pass.Invariant.session` — an invariant holds at every moment of a pass.
-/

namespace MaterialGraph

namespace Pass

/-- How an event arises from states with a property. A request was answered by a resolver that
returns, in the scope of the node that made it. An outcome was found by resolving its site. -/
def Event.From (env : Environment) (I : Pass → Prop) : Event → Prop
  | .performed c s reply s' => I s ∧ I s' ∧ s.stack.head?.map Site.scope = some s.scope ∧
      ∃ r : Resolver, r.Returning ∧ s.perform env r c = (reply, s')
  | .returned site s o s' => I s ∧ I s' ∧ ∃ room, Pass.resolve env room site s = (o, s')
  | e => I e.pass

theorem Event.From.pass {env : Environment} {I : Pass → Prop} {e : Event} (h : e.From env I) :
    I e.pass := by
  cases e with
  | performed c s reply s' => exact h.2.1
  | returned site s o s' => exact h.2.1
  | _ => exact h

/-- Resolving returns, keeps the property, and only has events that arise from states with it. -/
structure Keeping (env : Environment) (I : Pass → Prop) (r : Resolver)
    (nested : Site → Pass → List Event) : Prop where
  returning : r.Returning
  keeps : r.Keeps I
  /-- The events arise from states with the property. -/
  events : ∀ {s}, I s → ∀ site, ∀ e ∈ nested site s, e.From env I

namespace Invariant

variable {env : Environment} {I : Pass → Prop} {r : Resolver} {nested : Site → Pass → List Event}
  {s s' : Pass} {site : Site} {b : Behavior}

/-- The events of a plan arise from states with an invariant. -/
theorem events_run {α : Type} (h : Invariant env I) (hr : Keeping env I r nested) (site : Site)
    (plan : Plan α) : ∀ s : Pass, I s → s.stack.head?.map Site.scope = some s.scope →
      ∀ e ∈ runTrace env r nested site plan s, e.From env I := by
  induction plan with
  | done a => exact fun s hs _ => List.forall_mem_nil _
  | fail fault => exact fun s hs _ => List.forall_mem_nil _
  | ask c next ih =>
    intro s hs hhome e he
    have hret := perform_returns env hr.returning c s
    have hafter := h.perform hr.keeps hs c
    rw [runTrace] at he
    rcases List.mem_append.mp he with he | he
    · rcases hd : demand? env c s with _ | ⟨site', s'⟩
      · rw [hd] at he
        obtain ⟨statement, -, rfl⟩ := List.mem_map.mp he
        exact hafter
      · rw [hd] at he
        obtain ⟨-, s₁, here, hf, rfl⟩ := demand?_place hd
        exact hr.events (h.place (h.steady.followed hs hf) s₁.stack here s₁.stage) site' e he
    · rcases List.mem_cons.mp he with rfl | he
      · exact ⟨hs, hafter, hhome, r, hr.returning, rfl⟩
      · refine ih _ _ hafter ?_ e he
        rw [hret.stack, hret.scope]
        exact hhome

/-- The events of asking a node arise from states with an invariant. -/
theorem events_ask (h : Invariant env I) (hr : Keeping env I r nested) (hs : I s)
    (ha : Arrives env site s (.node b) s') :
    ∀ e ∈ nodeTrace env r nested site b s', e.From env I := by
  have hin := h.enter hs ha
  intro e he
  rcases List.mem_cons.mp he with rfl | he
  · exact hin
  · rcases List.mem_append.mp he with he | he
    · exact h.events_run hr site (b.plan (frame env site) site.output) (s'.enter site) hin rfl e he
    · obtain ⟨statement, -, rfl⟩ := List.mem_map.mp he
      exact h.ask hr.returning hr.keeps hs ha

/-- **The events of resolving a site arise from states with an invariant.** -/
theorem keeps (h : Invariant env I) (room : Nat) :
    Keeping env I (Pass.resolve env room) (trace env room) := by
  refine ⟨resolve_returns env room, h.resolve room, ?_⟩
  -- a site is asked for and its outcome returned, whatever happens in between
  have hframe {s : Pass} {site : Site} {l : List Event} (room : Nat) (hs : I s)
      (hl : ∀ e ∈ l, e.From env I) :
      ∀ e ∈ .asked site s :: (l ++ [.returned site s (Pass.resolve env room site s).1
        (Pass.resolve env room site s).2]), e.From env I := by
    intro e he
    rcases List.mem_cons.mp he with rfl | he
    · exact hs
    · rcases List.mem_append.mp he with he | he
      · exact hl e he
      · rw [List.mem_singleton.mp he]
        exact ⟨hs, h.resolve room site s hs, room, rfl⟩
  induction room with
  | zero => exact fun hs site => hframe 0 hs (List.forall_mem_nil _)
  | succ room ih =>
    intro s hs site
    have harr := arrive_arrives env site s
    rcases hx : s.arrive env site with ⟨a, s'⟩
    rw [hx] at harr
    rw [trace]
    simp only [hx]
    cases a with
    | settled o => exact hframe (room + 1) hs (List.forall_mem_nil _)
    | node b =>
      exact hframe (room + 1) hs
        (h.events_ask ⟨resolve_returns env room, h.resolve room, ih⟩ hs harr)

/-! ### Passes -/

/-- **An invariant holds at every moment of a pass**, and the events of the pass arise from states
with it. -/
theorem session (h : Invariant env I) {l : List Event} (hl : Session env s s' l) (hs : I s) :
    I s' ∧ ∀ e ∈ l, e.From env I := by
  induction hl with
  | nil s => exact ⟨hs, List.forall_mem_nil _⟩
  | root _ ih =>
    have hroot := h.root hs
    obtain ⟨hend, hev⟩ := ih hroot
    exact ⟨hend, List.forall_mem_cons.mpr ⟨hroot, hev⟩⟩
  | report ds _ _ ih =>
    have hreport := h.steady.foldl_push ds hs
    obtain ⟨hend, hev⟩ := ih hreport
    exact ⟨hend, List.forall_mem_cons.mpr ⟨hreport, hev⟩⟩
  | @resolve s _ _ stage scope node output _ ih =>
    have hr := h.keeps maxDepth
    have hstart : I { s with stage } := h.place hs s.stack s.scope stage
    have hfor := h.steady.resolveFor hr.keeps hs stage scope node output
    obtain ⟨hend, hev⟩ := ih hfor
    refine ⟨hend, fun e he => ?_⟩
    rcases List.mem_append.mp he with he | he
    · rcases List.mem_append.mp he with he | he
      · exact hr.events hstart ⟨scope, node, output, stage⟩ e he
      · rw [List.mem_singleton.mp he]
        exact hfor
    · exact hev e he

end Invariant

end Pass

end MaterialGraph
