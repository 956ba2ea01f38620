import MaterialGraph.Proofs.Trace

/-!
# The stack and the memo agree

While outputs are being resolved, the memo says which of them are started and the
stack holds them in order. The two never disagree, whatever plans the classes of a
catalog have: a site is started when it is put on the stack and finished when it is
taken off. So an output that needs itself is always found on the stack, and the
chain that is reported goes from the site back to the site.

## Main results

* `Pass.Coherent.stepwise` — every step keeps a pass coherent.
* `Pass.cycleChain_of_mem` — the chain of a cycle starts and ends with its node.
* `Compiler.isTrace_coherent` — **a pass is coherent at every moment**.
-/

namespace MaterialGraph

namespace Pass

/-! ### Coherent passes -/

/-- The sites that are started are those on the stack, each of them is there once, and
there are at most `maxDepth` of them. -/
structure Coherent (s : Pass) : Prop where
  /-- Started is the same as being on the stack. -/
  started_iff : ∀ site, s.progress? site = some .started ↔ site ∈ s.stack
  nodup : s.stack.Nodup
  depth : s.stack.length ≤ maxDepth

namespace Coherent

variable {s s' : Pass} {site : Site}

theorem of_same (h : Coherent s) (hm : s'.memo = s.memo) (hs : s'.stack = s.stack) :
    Coherent s' := by
  refine ⟨fun other => ?_, hs ▸ h.nodup, hs ▸ h.depth⟩
  have hp : s'.progress? other = s.progress? other := by
    unfold progress?
    rw [hm]
  rw [hp, hs]
  exact h.started_iff other

theorem of_fresh (h : Fresh s) : Coherent s := by
  refine ⟨fun site => ?_, ?_, ?_⟩
  · rw [h.progress?, h.atRest.stack]
    simp
  · rw [h.atRest.stack]; exact .nil
  · rw [h.atRest.stack]; exact Nat.zero_le _

/-- A site of which nothing is known is not on the stack. -/
theorem not_mem_stack (h : Coherent s) (hn : s.progress? site = none) : site ∉ s.stack := by
  intro hmem
  rw [(h.started_iff site).mpr hmem] at hn
  cases hn

/-- A node that is known to fail does not get on the stack. -/
theorem settle (h : Coherent s) (hn : s.progress? site = none) (o : Outcome) :
    Coherent (s.remember site (.finished o)) := by
  refine ⟨fun other => ?_, h.nodup, h.depth⟩
  rw [progress?_remember]
  split
  · next heq =>
    subst heq
    simp only [Option.some.injEq, reduceCtorEq, false_iff]
    exact h.not_mem_stack hn
  · exact h.started_iff other

/-- A site gets on the stack when it is started. -/
theorem enter (h : Coherent s) (hn : s.progress? site = none)
    (hd : s.stack.length < maxDepth) : Coherent (s.enter site) := by
  refine ⟨fun other => ?_, List.nodup_cons.mpr ⟨h.not_mem_stack hn, h.nodup⟩, hd⟩
  rw [progress?_enter]
  show _ ↔ other ∈ site :: s.stack
  rw [List.mem_cons]
  split
  · next heq => simp [heq]
  · next hne =>
    rw [h.started_iff other]
    exact ⟨.inr, fun hm => hm.resolve_left (Ne.symm hne)⟩

/-- A site leaves the stack when it is finished. -/
theorem leave {env : Environment} {r : Resolver} (hr : r.Returning) {b : Behavior}
    (h : Coherent s) (hn : s.progress? site = none)
    (ht : Coherent (carryOut env r site b s).2) : Coherent (s.ask env r site b).2 := by
  have hstack : (s.ask env r site b).2.stack = s.stack := (ask_returns env hr site b hn).stack
  have htop : (carryOut env r site b s).2.stack = site :: s.stack :=
    (run_returns env hr _ (s.enter site)).stack
  refine ⟨fun other => ?_, hstack ▸ h.nodup, hstack ▸ h.depth⟩
  rw [progress?_ask, hstack]
  split
  · next heq =>
    subst heq
    simp only [Option.some.injEq, reduceCtorEq, false_iff]
    exact h.not_mem_stack hn
  · next hne =>
    rw [ht.started_iff other, htop, List.mem_cons]
    exact ⟨fun hm => hm.resolve_left (Ne.symm hne), .inr⟩

/-- A part of a pass that keeps it coherent at every moment. -/
def Kept (s s' : Pass) (l : List Event) : Prop :=
  Coherent s → Coherent s' ∧ ∀ e ∈ l, Coherent e.pass

theorem Kept.append {s s' s'' : Pass} {l l' : List Event} (h : Kept s s' l)
    (h' : Kept s' s'' l') : Kept s s'' (l ++ l') := by
  intro hs
  obtain ⟨hs', hl⟩ := h hs
  obtain ⟨hs'', hl'⟩ := h' hs'
  refine ⟨hs'', fun e he => ?_⟩
  rcases List.mem_append.mp he with he | he
  · exact hl e he
  · exact hl' e he

/-- **Every step keeps a pass coherent**, whatever the plans of the nodes are. -/
theorem stepwise {env : Environment} : Stepwise env Kept where
  append := Kept.append
  quiet hq h := ⟨h.of_same hq.memo hq.stack, by simp⟩
  mark _ h := ⟨h, by simpa using h⟩
  settle message hn h := ⟨h.settle hn _, by simp⟩
  emit {s _ statement} _ _ h := by
    have he : Coherent { s.emit statement with locals := s.locals + 1 } := by
      obtain ⟨v, p, he⟩ := s.emit_eq statement
      rw [he]
      exact h.of_same rfl rfl
    exact ⟨he, by simpa [Event.pass] using he⟩
  ask hr hn _ hd hl h := by
    -- the events of the plan see the site on the stack, the last ones no longer do
    have hin := h.enter hn hd
    obtain ⟨hout, hev⟩ := hl hin
    have hend := h.leave hr hn hout
    refine ⟨hend, fun e he => ?_⟩
    rcases List.mem_cons.mp he with rfl | he
    · exact hin
    · rcases List.mem_append.mp he with he | he
      · exact hev e he
      · obtain ⟨statement, -, rfl⟩ := List.mem_map.mp he
        exact hend

end Coherent

/-! ### Moments at which something is done with -/

/-- A moment at which a request or a site is done with: stack, scope and stage are as
they were when it was asked for. At rest nothing is started. -/
def Event.Restored : Event → Prop
  | .performed _ s _ s' => s'.stack = s.stack ∧ s'.scope = s.scope ∧ s'.stage = s.stage
  | .returned _ s _ s' => s'.stack = s.stack ∧ s'.scope = s.scope ∧ s'.stage = s.stage
  | .rest s => s.stack = [] ∧ s.scope = [] ∧ s.stage = .pixel ∧
      ∀ site, s.progress? site ≠ some .started
  | _ => True

/-- A mark of a coherent pass is a moment at which something is done with. -/
theorem Event.Marks.restored {env : Environment} {e : Event} (h : e.Marks env)
    (hc : Coherent e.pass) : e.Restored := by
  cases e with
  | rest s =>
    refine ⟨h.stack, h.scope, h.stage, fun site hs => ?_⟩
    have hmem : site ∈ s.stack := (hc.started_iff site).mp hs
    rw [h.stack] at hmem
    cases hmem
  | performed c s reply s' => exact ⟨h.1.stack, h.1.scope, h.1.stage⟩
  | returned site s o s' => exact ⟨h.1.stack, h.1.scope, h.1.stage⟩
  | asked site s => trivial
  | entered site b s => trivial
  | emitted site statement s => trivial

/-! ### Cycles -/

/-- The chain that is reported for a site on the stack: it goes from the site through
the outputs started since, outermost first, back to the site. -/
theorem cycleChain_of_mem {stack : List Site} {site : Site} (h : site ∈ stack) :
    ∃ inner outer, stack = inner ++ site :: outer ∧ site ∉ inner ∧
      cycleChain stack site = " -> ".intercalate
        (NodeId.text site.node :: (inner.reverse.map (·.node.text) ++ [site.node.text])) := by
  obtain ⟨inner, outer, rfl, hin⟩ := List.eq_append_cons_of_mem h
  refine ⟨inner, outer, rfl, hin, ?_⟩
  -- the stack is searched from the innermost site, so the cut is at the first occurrence
  have hne : ∀ x ∈ inner, (x != site) = true := by
    intro x hx
    rw [bne_iff_ne]
    rintro rfl
    exact hin hx
  have htake : (inner ++ site :: outer).takeWhile (· != site) = inner := by
    rw [List.takeWhile_append_of_pos hne, List.takeWhile_cons_of_neg (by simp), List.append_nil]
  have hdrop : (inner ++ site :: outer).dropWhile (· != site) = site :: outer := by
    rw [List.dropWhile_append_of_pos hne, List.dropWhile_cons_of_neg (by simp)]
  unfold cycleChain
  rw [htake, hdrop]
  simp [Function.comp_def]

end Pass

namespace Compiler

open Pass

/-- **A pass is coherent at every moment**, whatever the classes of the catalog do. The
started sites are those on the stack, each once and at most `maxDepth`; what is finished
stays as it is; every request and every site that is done with leaves stack, scope and
stage as they were, and at rest nothing is started; and whenever a site is asked for that
is being resolved, it is found on the stack, so that the chain reported for it leads from
the site back to it. The same holds of requests in a row, in whatever state they begin. -/
theorem isTrace_coherent (c : Compiler) (d : Document) (l : List Event) (h : c.IsTrace d l) :
    (∀ e ∈ l, Coherent e.pass) ∧
    (l.Pairwise fun e e' => ∀ site o, e.pass.progress? site = some (.finished o) →
      e'.pass.progress? site = some (.finished o)) ∧
    (∀ e ∈ l, e.Restored) ∧
    (∀ site s, .asked site s ∈ l → s.progress? site = some .started →
      ∃ inner outer, s.stack = inner ++ site :: outer ∧ site ∉ inner ∧
        cycleChain s.stack site = " -> ".intercalate
          (NodeId.text site.node :: (inner.reverse.map (·.node.text) ++ [site.node.text]))) ∧
    ∀ (mode : Mode) (room : Nat) (α : Type) (plan : Plan α) (s : Pass),
      let s' := (run (c.environment mode d) (resolve (c.environment mode d) room) plan s).2
      s'.stack = s.stack ∧ s'.scope = s.scope ∧ s'.stage = s.stage := by
  obtain ⟨mode, s, s', hfresh, hl⟩ := h.session
  have hstock := hfresh.stocked (c.environment mode d)
  have hstart : Coherent s := .of_fresh hfresh
  have hcoh : ∀ e ∈ l, Coherent e.pass :=
    (Coherent.stepwise.segmental.session hl hstock hfresh.atRest hstart).2
  have horder := (Between.stepwise.segmental.session hl hstock hfresh.atRest).ordered
  have hmark : ∀ e ∈ l, _ := Marked.stepwise.segmental.session hl hstock hfresh.atRest
  refine ⟨hcoh, horder.imp fun hg => hg.finished, fun e he => ?_, fun site t he hs => ?_,
    fun mode room α plan t => ?_⟩
  · rcases hmark e he with hm | ⟨site, b, t, rfl⟩ | ⟨site, statement, t, rfl⟩
    · exact hm.restored (hcoh e he)
    · trivial
    · trivial
  · exact cycleChain_of_mem (((hcoh _ he).started_iff site).mp hs)
  · have hr := run_returns (c.environment mode d) (resolve_returns (c.environment mode d) room)
      plan t
    exact ⟨hr.stack, hr.scope, hr.stage⟩

/-- A compiler with one class, whose nodes need themselves. -/
def selfish : Compiler where
  catalog := ⟨[{
    name := "Selfish"
    version := 1
    build := fun _ => .ok {
      plan := fun frame output => .required "input" { node := frame.node, output } } }]⟩

/-- A node that needs itself. -/
def selfishDocument : Document where
  nodes := [{ id := ⟨1⟩, className := "Selfish" }]

/-- The output of that node. -/
def selfishTarget : Wire where
  node := ⟨1⟩
  output := "result"

/-- In a pass over a node that needs itself a site is asked for while it is being
resolved, and it is found on the stack. -/
theorem isTrace_coherent_selfish :
    selfish.IsTrace selfishDocument (selfish.previewTrace selfishDocument selfishTarget) ∧
    ∃ site s, .asked site s ∈ selfish.previewTrace selfishDocument selfishTarget ∧
      s.progress? site = some .started ∧ ∃ inner outer, s.stack = inner ++ site :: outer := by
  have htrace : selfish.IsTrace selfishDocument
      (selfish.previewTrace selfishDocument selfishTarget) := .inr ⟨_, rfl⟩
  have hloop : ((selfish.previewTrace selfishDocument selfishTarget).any fun
      | .asked site s => s.progress? site == some .started
      | _ => false) = true := by decide +kernel
  obtain ⟨e, he, hs⟩ := List.any_eq_true.mp hloop
  refine ⟨htrace, ?_⟩
  cases e with
  | asked site s =>
    have hstarted : s.progress? site = some .started := by simpa using hs
    obtain ⟨inner, outer, hstack, -⟩ :=
      (isTrace_coherent selfish selfishDocument _ htrace).2.2.2.1 site s he hstarted
    exact ⟨site, s, he, hstarted, inner, outer, hstack⟩
  | _ => cases hs

end Compiler

end MaterialGraph
