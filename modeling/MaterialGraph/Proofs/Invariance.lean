import MaterialGraph.Proofs.Requests

/-!
# What every step keeps

A pass takes few kinds of steps: it goes to another place, reports something, makes documents
ready, registers something, emits statements or remembers what became of a site. A property of
passes that each of these steps keeps is kept by requests, plans and nodes, and so whenever a site
is resolved, whatever the plans of the nodes are. This is proved here once.

Some properties are kept by all that happens around nodes, but it takes an argument of their own
that nodes keep them. They are the *steady* ones.

## Main results

* `Pass.Steady.resolve` — resolving a site keeps a steady property if asking a node does.
* `Pass.Invariant.perform`, `Pass.Invariant.run` — requests and plans keep an invariant.
* `Pass.Invariant.resolve` — so does resolving a site.
-/

namespace MaterialGraph

namespace Pass

/-- A scope that has been followed to a document is known to lead there. -/
theorem scope?_of_follow {env : Environment} {scope : Scope} {g : Instance} {s s' : Pass}
    (h : s.follow env scope = (.ok g, s')) : s'.scope? scope = some g := by
  unfold follow at h
  split at h
  · next g' hg =>
    cases h
    exact hg
  · simp only at h
    split at h
    · next g' s₁ _ =>
      cases h
      simp [scope?, rememberScope]
    · cases h

/-! ### Around nodes -/

/-- Resolving keeps a property of the pass. -/
def Resolver.Keeps (r : Resolver) (I : Pass → Prop) : Prop := ∀ site s, I s → I (r site s).2

/-- A property of passes that lasts as long as documents are made ready and places change. -/
structure Lasting (env : Environment) (I : Pass → Prop) : Prop where
  place : ∀ {s}, I s → ∀ stack scope stage, I { s with stack, scope, stage }
  push : ∀ {s}, I s → ∀ d, I (s.push d)
  root : ∀ {s}, I s → I (s.root env).2
  follow : ∀ {s}, I s → ∀ scope, I (s.follow env scope).2

/-- A property of passes that is kept by what happens around nodes. -/
structure Steady (env : Environment) (I : Pass → Prop) : Prop extends Lasting env I where
  /-- A node is known to fail. Its scope has been followed. -/
  settle : ∀ {s site}, I s → (s.scope? site.scope).isSome → ∀ message,
    I (s.remember site (.finished (.error message)))

namespace Steady

variable {env : Environment} {I : Pass → Prop} {s s' : Pass} {site : Site} {b : Behavior}

theorem followed (h : Steady env I) (hs : I s) (hf : Followed env s s') : I s' := by
  rcases hf with rfl | ⟨scope, rfl⟩
  · exact hs
  · exact h.follow hs scope

/-- Looking a site up. -/
theorem arrive (h : Steady env I) {a : Arrival} (hs : I s) (ha : Arrives env site s a s') :
    I s' := by
  have hfollow {x : Except Fault Instance} {s₁ : Pass}
      (hf : s.follow env site.scope = (x, s₁)) : I s₁ := by
    have := h.follow hs site.scope
    rw [hf] at this
    exact this
  cases ha with
  | known o hk => exact hs
  | cycle hc => exact h.push hs _
  | recursive chain s' hn hf | broken g s' message hn hf hg | node g s' b hn hf hg he =>
    exact hfollow hf
  | stray fault s₁ hn hf | missing g s₁ hn hf hg => exact h.push (hfollow hf) _
  | faulty g s₁ b message rest hn hf hg he =>
    exact h.settle (hfollow hf) (by rw [scope?_of_follow hf]; rfl) _

/-- **Resolving a site keeps a steady property** if asking a node does. -/
theorem resolve (h : Steady env I)
    (hask : ∀ {room site b s s'}, (resolve env room).Keeps I → I s →
      Arrives env site s (.node b) s' → I s' → I (s'.ask env (Pass.resolve env room) site b).2)
    (room : Nat) : (Pass.resolve env room).Keeps I := by
  refine resolve_induction (motive := fun _ s x => I s → I x.2) ?_ ?_ ?_ room
  · exact fun ha hs => h.arrive hs ha
  · exact fun ha hs => h.push (h.arrive hs ha) _
  · exact fun ih ha hs => hask ih hs ha (h.arrive hs ha)

theorem resolveFor (h : Steady env I) (hr : (Pass.resolve env maxDepth).Keeps I) (hs : I s)
    (stage : Stage) (scope : Scope) (node : NodeId) (output : String) :
    I (s.resolveFor env stage scope node output).2 :=
  h.place (hr ⟨scope, node, output, stage⟩ _ (h.place hs s.stack s.scope stage)) _ _ s.stage

theorem foldl_push (h : Steady env I) (ds : List Diagnostic) (hs : I s) :
    I (ds.foldl Pass.push s) := by
  induction ds generalizing s with
  | nil => exact hs
  | cons d ds ih => exact ih (h.push hs d)

end Steady

/-! ### Invariants -/

/-- A property of passes that every step keeps. -/
structure Invariant (env : Environment) (I : Pass → Prop) : Prop extends Lasting env I where
  register : ∀ {s}, I s → ∀ r {c : Command}, c.Registers → I (s.perform env r c).2
  note : ∀ {s}, I s → ∀ remark, I { s with journal := s.journal ++ [remark] }
  emit : ∀ {s}, I s → ∀ vertex pixel locals, I { s with vertex, pixel, locals }
  /-- A site is remembered. Its scope has been followed, or it was remembered before. -/
  remember : ∀ {s site}, I s → (s.scope? site.scope).isSome ∨ (s.progress? site).isSome →
    ∀ p, I (s.remember site p)

theorem emit_memo (s : Pass) (statement : Statement) : (s.emit statement).memo = s.memo := by
  obtain ⟨v, p, he⟩ := s.emit_eq statement
  rw [he]

/-- The result of a node is moved into a statement or its fault is reported, at most. -/
theorem conclude_keeps {I : Pass → Prop} {s : Pass} (hs : I s)
    (hemit : ∀ vertex pixel locals, I { s with vertex, pixel, locals })
    (hpush : ∀ d : Diagnostic, d.concern.isRoutine = true → I (s.push d))
    (env : Environment) (node : NodeId) (role : Role) (result : Except Fault Expr) :
    I (conclude env node role result s).2 := by
  rcases conclude_cases env node role result s with ⟨e, -, -, hc⟩ | ⟨e, -, -, hc⟩ | ⟨fault, -, hc⟩
  · rw [hc]
    exact hs
  · rw [hc]
    obtain ⟨v, p, he⟩ := s.emit_eq (.assign (env.types.name e.type) s.locals e.code)
    rw [he]
    exact hemit v p _
  · rw [hc]
    unfold pushFault
    split
    · next d hd => exact hpush d (Diagnostic.isRoutine_of_ofFault? hd)
    · exact hs

theorem conclude_memo (env : Environment) (node : NodeId) (role : Role)
    (result : Except Fault Expr) (s : Pass) :
    (conclude env node role result s).2.memo = s.memo :=
  conclude_keeps (I := fun t => t.memo = s.memo) rfl (fun _ _ _ => rfl) (fun _ _ => rfl) env node
    role result

/-- While the plan of a node is carried out its site stays started. -/
theorem carryOut_started (env : Environment) {r : Resolver} (hr : r.Returning) (site : Site)
    (b : Behavior) (s : Pass) : (carryOut env r site b s).2.progress? site = some .started := by
  refine ((run_returns env hr _ (s.enter site)).started site).mpr ?_
  rw [progress?_enter, if_pos rfl]

namespace Invariant

variable {env : Environment} {I : Pass → Prop} {r : Resolver} {s s' : Pass} {site : Site}
  {b : Behavior}

theorem steady (h : Invariant env I) : Steady env I where
  toLasting := h.toLasting
  settle hs hscope _ := h.remember hs (.inl hscope) _

/-- **A request keeps an invariant** if the resolver does. -/
theorem perform (h : Invariant env I) (hr : r.Keeps I) (hs : I s) (c : Command) :
    I (s.perform env r c).2 := by
  rcases hd : demand? env c s with _ | ⟨site, s'⟩
  · rcases perform_of_no_demand r hd with
      hf | hc | ⟨d, -, he⟩ | ⟨remark, rfl⟩ | ⟨feature, type, on, off, rfl⟩
    · exact h.steady.followed hs hf
    · exact h.register hs r hc
    · rw [he]
      exact h.push hs d
    · exact h.note hs remark
    · rw [perform_select]
      obtain ⟨v, p, he⟩ := s.emit_eq (.select (env.types.name type) s.locals feature.combo on.code
        off.code)
      rw [he]
      exact h.emit hs v p _
  · obtain ⟨reply, scope, -, he, -⟩ := perform_of_demand? r hd
    obtain ⟨-, s₁, here, hf, rfl⟩ := demand?_place hd
    -- the site is resolved in the place that the request names, and then the pass goes back
    have hat : I { s₁ with scope := here } :=
      h.place (h.steady.followed hs hf) s₁.stack here s₁.stage
    rw [he]
    exact h.place (hr site _ hat) _ scope _

theorem run {α : Type} (h : Invariant env I) (hr : r.Keeps I) (plan : Plan α) :
    ∀ s : Pass, I s → I (Pass.run env r plan s).2 := by
  induction plan with
  | done a => exact fun s hs => hs
  | fail fault => exact fun s hs => hs
  | ask c next ih => exact fun s hs => ih _ _ (h.perform hr hs c)

theorem enter (h : Invariant env I) (hs : I s) (ha : Arrives env site s (.node b) s') :
    I (s'.enter site) := by
  have hs' := h.steady.arrive hs ha
  cases ha with
  | node g s' b hn hf hg he =>
    have hscope : (s'.scope? site.scope).isSome := by rw [scope?_of_follow hf]; rfl
    exact h.place (h.remember hs' (.inl hscope) .started) (site :: s'.stack) site.scope s'.stage

theorem conclude (h : Invariant env I) (hs : I s) (node : NodeId) (role : Role)
    (result : Except Fault Expr) : I (Pass.conclude env node role result s).2 :=
  conclude_keeps hs (h.emit hs) (fun d _ => h.push hs d) env node role result

theorem ask (h : Invariant env I) (hret : r.Returning) (hr : r.Keeps I) (hs : I s)
    (ha : Arrives env site s (.node b) s') : I (s'.ask env r site b).2 := by
  have hout : I (carryOut env r site b s').2 := h.run hr _ _ (h.enter hs ha)
  have hback : I { (carryOut env r site b s').2 with stack := s'.stack, scope := s'.scope } :=
    h.place hout s'.stack s'.scope (carryOut env r site b s').2.stage
  have hresult : I (outcomeOf env r site b s').2 :=
    h.conclude hback site.node b.role (carryOut env r site b s').1
  have hknown : ((outcomeOf env r site b s').2.progress? site).isSome := by
    unfold progress? outcomeOf
    rw [conclude_memo]
    have hstarted := carryOut_started env hret site b s'
    unfold progress? at hstarted
    rw [hstarted]
    rfl
  exact h.remember hresult (.inr hknown) _

/-- **Resolving a site keeps an invariant.** -/
theorem resolve (h : Invariant env I) (room : Nat) : (Pass.resolve env room).Keeps I :=
  h.steady.resolve (fun hr hs ha _ => h.ask (resolve_returns env _) hr hs ha) room

end Invariant

end Pass

end MaterialGraph
