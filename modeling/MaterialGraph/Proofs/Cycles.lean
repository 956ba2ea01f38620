import Mathlib.Data.List.Chain
import Mathlib.Logic.Relation
import MaterialGraph.Proofs.Coherence

/-!
# Chains of requests

While an output is being resolved it asks for others. A pass that asks for an output which
is being resolved reports a cycle, and one that asks for too many outputs within each
other reports that the chain is too long. Both reports are right: the chain of a cycle
consists of requests of this pass, and so does a chain that is too long. And nothing is
overlooked: in a pass without fatal diagnostics no output needs itself, and whatever an
output asks for is finished before it.

The requests of a pass can be read off its events. A site is on the stack because the site
below it asked for it, so the stack is a chain of requests at every moment, and every
diagnostic about a chain is made from the stack.

## Main definitions

* `Pass.Requests` — one output asks for another.
* `Pass.Course` — the ways in which a pass goes on.
* `Pass.Loop` — a chain of requests from a site back to it.
* `Pass.Explained` — diagnostics about chains that are there.
* `Environment.Instantiates` — the sites of nodes that could be made.

## Main results

* `Pass.Session.course` — a pass goes on in no other way.
* `Pass.Course.tracked` — at every moment the stack is a chain of requests, and what is
  reported about chains is explained.
* `Pass.Course.returned` — a site that is asked for is returned.
* `Compiler.cycles_detected` — **cycles are found, and only cycles are**.
-/

namespace MaterialGraph

/-- A site whose node could be made from its settings. -/
def Environment.Instantiates (env : Environment) (site : Site) : Prop :=
  ∃ d b, env.documentAt site.scope = some d ∧ (env.instanceOf d).behavior? site.node = some b

namespace Pass

variable {env : Environment} {s : Pass}

/-- While `k` was being resolved, `k'` was asked for. -/
def Requests (l : List Event) (k k' : Site) : Prop :=
  ∃ s, .asked k' s ∈ l ∧ s.stack.head? = some k

/-! ### How a pass goes on -/

/-- The ways in which a pass goes on. A site that is asked for is returned when it has been
looked up, or when the chain of outputs is too long, or when its node has been asked. -/
inductive Course (env : Environment) : Pass → Pass → List Event → Prop where
  /-- One part after the other. -/
  | append {s s' s'' : Pass} {l l' : List Event} (h : Course env s s' l)
      (h' : Course env s' s'' l') : Course env s s'' (l ++ l')
  | silent {s s' : Pass} (h : Silent env s s') : Course env s s' []
  /-- A moment between two outputs. -/
  | rest {s : Pass} (h : AtRest s) : Course env s s [.rest s]
  /-- A request that has been answered. -/
  | performed {c : Command} {s s' : Pass} {reply : c.Reply}
      (h : (Event.performed c s reply s').Marks env) :
      Course env s' s' [.performed c s reply s']
  /-- A statement that a plan emits. -/
  | emitted {s : Pass} {site : Site} {statement : Statement} (hi : statement.index = s.locals)
      (hs : site.stage = s.stage) :
      Course env s { s.emit statement with locals := s.locals + 1 }
        [.emitted site statement { s.emit statement with locals := s.locals + 1 }]
  /-- A site of which the outcome is clear. -/
  | settled {site : Site} {s s' : Pass} {o : Outcome} (h : Arrives env site s (.settled o) s') :
      Course env s s' [.asked site s, .returned site s o s']
  /-- A site that is too deep. -/
  | deep {site : Site} {s s' : Pass} {b : Behavior} (h : Arrives env site s (.node b) s')
      (hd : s.stack.length = maxDepth) :
      Course env s (s'.reportDepth site).2
        [.asked site s, .returned site s (s'.reportDepth site).1 (s'.reportDepth site).2]
  /-- A node that is asked. -/
  | node {r : Resolver} {site : Site} {s s' : Pass} {b : Behavior} {l : List Event}
      (hr : r.Returning) (h : Arrives env site s (.node b) s') (hd : s.stack.length < maxDepth)
      (hst : site.stage = s.stage)
      (hl : Course env (s'.enter site) (carryOut env r site b s').2 l) :
      Course env s (s'.ask env r site b).2 (.asked site s ::
        ((.entered site b (s'.enter site) ::
          (l ++ (added (carryOut env r site b s').2 (s'.ask env r site b).2).map
            (.emitted site · (s'.ask env r site b).2))) ++
          [.returned site s (s'.ask env r site b).1 (s'.ask env r site b).2]))

namespace Course

variable {env : Environment} {s s' : Pass} {l : List Event}

theorem sequential : Sequential env (Course env) := ⟨.append, .silent, .performed, .emitted⟩

theorem nested (room : Nat) : Nested env (Course env) room (resolve env room) (trace env room) := by
  refine ⟨resolve_returns env room, resolve_stocked env room,
    fun _ _ _ => resolve_valid env room, ?_⟩
  induction room with
  | zero =>
    intro site s _ _ hroom
    have harr := arrive_arrives env site s
    rw [trace, resolve]
    rcases hx : s.arrive env site with ⟨a, s'⟩
    rw [hx] at harr
    cases a with
    | settled o => exact .settled harr
    | node b => exact .deep harr hroom
  | succ room ih =>
    intro site s hs hstage hroom
    have harr := arrive_arrives env site s
    rw [trace, resolve]
    rcases hx : s.arrive env site with ⟨a, s'⟩
    rw [hx] at harr
    cases a with
    | settled o => exact .settled harr
    | node b =>
      have hr := harr.returns
      have hs' := harr.stocked hs
      have hin : Nested env (Course env) room (resolve env room) (trace env room) :=
        ⟨resolve_returns env room, resolve_stocked env room, fun _ _ _ => resolve_valid env room,
          ih⟩
      refine .node (resolve_returns env room) harr (by omega) hstage ?_
      refine sequential.run hin _ _ ⟨hs'.instances, hs'.scopes⟩ (hstage.trans hr.stage.symm) ?_
      have hdepth : (s'.enter site).stack.length = s.stack.length + 1 :=
        congrArg (·.length + 1) hr.stack
      omega

end Course

theorem foldl_push_silent {ds : List Diagnostic} (hds : ∀ d ∈ ds, d.Ordinary) :
    ∀ s : Pass, Silent env s (ds.foldl Pass.push s) := by
  intro s
  have hn := foldl_push_noted ds s
  exact ⟨hn.prepared.quiet, .foldl_push hds s, fun h => h.of_same hn.instances hn.scopes⟩

theorem root_silent (s : Pass) : Silent env s (s.root env).2 :=
  ⟨(root_prepared env s).quiet, root_reports (permits_ordinary env) s,
    fun h => (root_faithful h).2.1⟩

/-- **A pass goes on in no other way.** -/
theorem Session.course {s' : Pass} {l : List Event} (hl : Session env s s' l) (hs : Stocked env s)
    (hrest : AtRest s) : Course env s s' l := by
  induction hl with
  | nil s => exact .silent (.refl s)
  | @root s _ _ _ ih =>
    have hr := hrest.of_prepared (root_prepared env s)
    exact .append (.append (.silent (root_silent s)) (.rest hr)) (ih (root_sound hs).1 hr)
  | @report s _ _ ds hds _ ih =>
    have hn := foldl_push_noted ds s
    have hr := hrest.of_prepared hn.prepared
    exact .append (.append (.silent (foldl_push_silent hds s)) (.rest hr))
      (ih (hs.of_same hn.instances hn.scopes hn.report) hr)
  | @resolve s _ _ stage scope node output _ ih =>
    have hr := hrest.resolveFor env stage scope node output
    have hseg := (Course.nested maxDepth).segment ⟨scope, node, output, stage⟩ { s with stage }
      ⟨hs.instances, hs.scopes⟩ rfl (by simp [hrest.stack])
    have hback : Course env _ (s.resolveFor env stage scope node output).2 [] :=
      .silent (.stage _ s.stage)
    have hfor := (Course.silent (.stage s stage)).append (hseg.append (hback.append (.rest hr)))
    rw [List.nil_append, List.nil_append] at hfor
    exact .append hfor (ih (resolveFor_stocked hs stage scope node output) hr)

theorem emit_faithful (h : Faithful env s) (statement : Statement) (n : Nat) :
    Faithful env { s.emit statement with locals := n } := by
  obtain ⟨v, p, he⟩ := s.emit_eq statement
  rw [he]
  exact h.of_same rfl rfl

theorem ask_faithful {b : Behavior} (h : Faithful env (carryOut env r site b s).2) :
    Faithful env (s.ask env r site b).2 :=
  have hback : Faithful env
      { (carryOut env r site b s).2 with stack := s.stack, scope := s.scope } :=
    h.of_same rfl rfl
  (conclude_keeps hback (fun _ _ _ => hback.of_same rfl rfl) (fun _ _ => hback.of_same rfl rfl) env
    site.node b.role (carryOut env r site b s).1).of_same rfl rfl

/-! ### What is reported about chains -/

/-- A chain of requests from a site back to it. -/
structure Loop (l : List Event) (site : Site) (chain : List Site) : Prop where
  requests : chain.IsChain (Requests l)
  head : chain.head? = some site
  last : chain.getLast? = some site
  step : 2 ≤ chain.length

/-- A chain of distinct sites, one more than may be resolved within each other. -/
structure TooLong (l : List Event) (chain : List Site) : Prop where
  requests : chain.IsChain (Requests l)
  nodup : chain.Nodup
  length : chain.length = maxDepth + 1

/-- The message about a chain that leads back to its start. -/
def loopMessage (chain : List Site) : String :=
  "dependency cycle: " ++ " -> ".intercalate (chain.map fun site => site.node.text)

/-- A diagnostic that says nothing about a chain of outputs, or something true. -/
inductive Explained (l : List Event) : Diagnostic → Prop where
  | ordinary {d : Diagnostic} (h : d.Ordinary) : Explained l d
  /-- An output needs itself. -/
  | loop {site : Site} {chain : List Site} (h : Loop l site chain) :
      Explained l (.fatal .cycleDetected site.node (loopMessage chain))
  | long {node : NodeId} {message : String} {chain : List Site} (h : TooLong l chain) :
      Explained l (.fatal .depthExceeded node message)

/-- A pass in the middle of the events `l`: its stack is a chain of requests among nodes
that could be made, and what it reports about chains is explained. -/
structure Tracked (env : Environment) (l : List Event) (s : Pass) : Prop where
  coherent : Coherent s
  faithful : Faithful env s
  /-- Every site on the stack was asked for by the one below it. -/
  requested : s.stack.IsChain fun k' k => Requests l k k'
  /-- The sites on the stack are those of nodes. -/
  instantiated : ∀ site ∈ s.stack, env.Instantiates site
  /-- What is said about chains is true. -/
  explained : ∀ d ∈ s.report.entries, Explained l d

namespace Tracked

variable {env : Environment} {L : List Event} {s s' : Pass} {site : Site} {b : Behavior}

/-- A pass that has not begun. -/
theorem of_fresh (h : Fresh s) : Tracked env L s := by
  refine ⟨.of_fresh h, h.faithful, ?_, ?_, ?_⟩
  · rw [h.atRest.stack]; exact .nil
  · rw [h.atRest.stack]; exact List.forall_mem_nil _
  · rw [h.report]; exact List.forall_mem_nil _

/-- A step that leaves the memo and the stack alone. -/
theorem of_same (h : Tracked env L s) (hm : s'.memo = s.memo) (hs : s'.stack = s.stack)
    (ha : Reports Diagnostic.Ordinary s s') (hf : Faithful env s') : Tracked env L s' where
  coherent := h.coherent.of_same hm hs
  faithful := hf
  requested := hs ▸ h.requested
  instantiated := hs ▸ h.instantiated
  explained d hd := (ha.mem hd).elim (h.explained d) .ordinary

theorem silent (h : Tracked env L s) (hs : Silent env s s') : Tracked env L s' :=
  h.of_same hs.memo hs.stack hs.reports (hs.faithful h.faithful)

theorem push (h : Tracked env L s) {d : Diagnostic} (hd : Explained L d) :
    Tracked env L (s.push d) where
  coherent := h.coherent.of_same rfl rfl
  faithful := h.faithful.of_same rfl rfl
  requested := h.requested
  instantiated := h.instantiated
  explained e he := by
    rcases Report.mem_push.mp he with rfl | he
    · exact hd
    · exact h.explained e he

/-- The stack with the site that is asked for is a chain of requests. -/
theorem cons (h : Tracked env L s) (hasked : .asked site s ∈ L) :
    (site :: s.stack).IsChain fun k' k => Requests L k k' :=
  h.requested.cons fun _ htop => ⟨s, hasked, htop⟩

/-- A site that is asked for while it is being resolved closes a chain of requests. -/
theorem loop (h : Tracked env L s) (hasked : .asked site s ∈ L)
    (hs : s.progress? site = some .started) :
    ∃ chain, Loop L site chain ∧
      (Fault.cycle (cycleChain s.stack site)).text = loopMessage chain := by
  obtain ⟨inner, outer, hstack, -, hchain⟩ :=
    cycleChain_of_mem ((h.coherent.started_iff site).mp hs)
  have hcons := h.cons hasked
  rw [hstack, ← List.cons_append] at hcons
  -- the part of the stack down to the site, from the inside out
  have hpart : ((site :: inner) ++ [site]).IsChain fun k' k => Requests L k k' := by
    refine hcons.prefix ?_
    rw [List.append_cons (site :: inner) site outer]
    exact List.prefix_append _ _
  refine ⟨((site :: inner) ++ [site]).reverse, ⟨List.isChain_reverse.mpr hpart, ?_, ?_, ?_⟩, ?_⟩
  · simp
  · rw [List.getLast?_reverse]
    rfl
  · simp
  · unfold Fault.text loopMessage
    rw [hchain]
    simp

/-- A site of a node that is asked for when the stack is full ends a chain that is too
long. -/
theorem tooLong (h : Tracked env L s) (hasked : .asked site s ∈ L)
    (hn : s.progress? site = none) (hd : s.stack.length = maxDepth) :
    TooLong L (site :: s.stack).reverse where
  requests := List.isChain_reverse.mpr (h.cons hasked)
  nodup := (List.reverse_perm _).nodup_iff.mpr (List.nodup_cons.mpr
    ⟨h.coherent.not_mem_stack hn, h.coherent.nodup⟩)
  length := by rw [List.length_reverse, List.length_cons, hd]

/-- A site that is looked up. -/
theorem arrive (h : Tracked env L s) (hasked : .asked site s ∈ L) {a : Arrival}
    (ha : Arrives env site s a s') : Tracked env L s' := by
  have hfollow {r : Except Fault Instance} {s' : Pass}
      (hf : s.follow env site.scope = (r, s')) : Tracked env L s' := by
    have hs : Silent env s (s.follow env site.scope).2 := .follow site.scope s
    rw [hf] at hs
    exact h.silent hs
  cases ha with
  | known o hk => exact h
  | cycle hs =>
    obtain ⟨chain, hloop, hmessage⟩ := h.loop hasked hs
    show Tracked env L (s.push (.fatal .cycleDetected site.node _))
    rw [hmessage]
    exact h.push (.loop hloop)
  | recursive chain s' hn hf | broken g s' message hn hf hg => exact hfollow hf
  | stray fault s₁ hn hf | missing g s₁ hn hf hg =>
    exact (hfollow hf).push (.ordinary (.of_concern nofun nofun))
  | faulty g s₁ b message rest hn hf hg he =>
    have h₁ := hfollow hf
    have hn₁ : s₁.progress? site = none := by
      rw [(Arrives.prepared_of_follow hf).progress?, hn]
    exact ⟨h₁.coherent.settle hn₁ _, h₁.faithful.of_same rfl rfl, h₁.requested, h₁.instantiated,
      h₁.explained⟩
  | node g s' b hn hf hg he => exact hfollow hf

/-- A node is found at a site that leads to one. -/
theorem instantiates (h : Tracked env L s) (ha : Arrives env site s (.node b) s') :
    env.Instantiates site := by
  cases ha with
  | node g s' b hn hf hg he =>
    obtain ⟨d, hd, rfl⟩ := documentAt_of_follow h.faithful hf
    refine ⟨d, b, hd, ?_⟩
    unfold Instance.behavior?
    rw [hg]

/-- A site whose node is asked gets on the stack. -/
theorem enter (h : Tracked env L s) (hasked : .asked site s ∈ L)
    (ha : Arrives env site s (.node b) s') (hd : s.stack.length < maxDepth) :
    Tracked env L (s'.enter site) := by
  have hstack := ha.returns.stack
  have h' := h.arrive hasked ha
  refine ⟨h'.coherent.enter ha.progress?_eq_none (hstack ▸ hd), h'.faithful.of_same rfl rfl, ?_,
    fun other hmem => ?_, h'.explained⟩
  · show (site :: s'.stack).IsChain _
    rw [hstack]
    exact h.cons hasked
  · rcases List.mem_cons.mp hmem with rfl | hmem
    · exact h.instantiates ha
    · exact h'.instantiated other hmem

/-- A site whose node has been asked leaves the stack. -/
theorem leave {r : Resolver} (hr : r.Returning) (h : Tracked env L s)
    (hn : s.progress? site = none) (ht : Tracked env L (carryOut env r site b s).2) :
    Tracked env L (s.ask env r site b).2 := by
  have hstack : (s.ask env r site b).2.stack = s.stack := (ask_returns env hr site b hn).stack
  refine ⟨h.coherent.leave hr hn ht.coherent, ask_faithful ht.faithful, hstack ▸ h.requested,
    hstack ▸ h.instantiated, fun d hd => ?_⟩
  rcases (ask_reports (permits_ordinary env) r site b s).mem hd with hd | hd
  · exact ht.explained d hd
  · exact .ordinary hd

end Tracked

namespace Course

variable {env : Environment} {s s' : Pass} {l : List Event}

/-- **At every moment the stack is a chain of requests**, and what is reported about chains is
explained by the events of the pass. -/
theorem tracked {L : List Event} (h : Course env s s' l) (hl : l ⊆ L) (hs : Tracked env L s) :
    Tracked env L s' ∧ ∀ e ∈ l, Tracked env L e.pass := by
  induction h with
  | append h h' ih ih' =>
    obtain ⟨hs', hev⟩ := ih (List.append_subset.mp hl).1 hs
    obtain ⟨hs'', hev'⟩ := ih' (List.append_subset.mp hl).2 hs'
    exact ⟨hs'', fun e he => (List.mem_append.mp he).elim (hev e) (hev' e)⟩
  | silent h => exact ⟨hs.silent h, fun e he => by cases he⟩
  | rest h | performed h => exact ⟨hs, fun e he => List.mem_singleton.mp he ▸ hs⟩
  | @emitted s site statement hi hst =>
    have hemit : Tracked env L { s.emit statement with locals := s.locals + 1 } := by
      have hr := emit_returns s statement (s.locals + 1)
      exact hs.of_same (emit_memo s statement) hr.stack (emit_reports s _ _)
        (emit_faithful hs.faithful _ _)
    exact ⟨hemit, fun e he => List.mem_singleton.mp he ▸ hemit⟩
  | @settled site s s' o h =>
    have hs' := hs.arrive (hl List.mem_cons_self) h
    refine ⟨hs', fun e he => ?_⟩
    rcases List.mem_cons.mp he with rfl | he
    · exact hs
    · exact List.mem_singleton.mp he ▸ hs'
  | @deep site s s' b h hd =>
    have hs' := hs.arrive (hl List.mem_cons_self) h
    have hn : s.progress? site = none := by
      cases h with
      | node g s' b hn hf hg he => exact hn
    have hpush : Tracked env L (s'.reportDepth site).2 :=
      hs'.push (.long (hs.tooLong (hl List.mem_cons_self) hn hd))
    refine ⟨hpush, fun e he => ?_⟩
    rcases List.mem_cons.mp he with rfl | he
    · exact hs
    · exact List.mem_singleton.mp he ▸ hpush
  | @node r site s s' b l hr h hd hst hrun ih =>
    have hs' := hs.arrive (hl List.mem_cons_self) h
    have hin := hs.enter (hl List.mem_cons_self) h hd
    -- the events of the plan see the site on the stack, the others do not
    obtain ⟨hout, hev⟩ := ih (fun e he => hl (by simp [he])) hin
    have hend := hs'.leave hr h.progress?_eq_none hout
    refine ⟨hend, fun e he => ?_⟩
    rcases List.mem_cons.mp he with rfl | he
    · exact hs
    rcases List.mem_append.mp he with he | he
    · rcases List.mem_cons.mp he with rfl | he
      · exact hin
      rcases List.mem_append.mp he with he | he
      · exact hev e he
      · obtain ⟨statement, -, rfl⟩ := List.mem_map.mp he
        exact hend
    · rw [List.mem_singleton.mp he]
      exact hend

/-! ### What becomes of requests -/

/-- A site that has been asked for is returned: its outcome was clear, or there is a fatal
diagnostic, or it is finished. -/
theorem returned {site : Site} {t : Pass} (h : Course env s s' l) (hasked : .asked site t ∈ l) :
    ∃ o t', .returned site t o t' ∈ l ∧ t'.stack = t.stack ∧
      (Arrives env site t (.settled o) t' ∨ t'.report.hasFatal = true ∨
        t'.progress? site = some (.finished o)) := by
  induction h with
  | append h h' ih ih' =>
    rcases List.mem_append.mp hasked with hasked | hasked
    · obtain ⟨o, t', hmem, hrest⟩ := ih hasked
      exact ⟨o, t', List.mem_append_left _ hmem, hrest⟩
    · obtain ⟨o, t', hmem, hrest⟩ := ih' hasked
      exact ⟨o, t', List.mem_append_right _ hmem, hrest⟩
  | silent h => cases hasked
  | rest h | performed h | emitted hi hs => cases List.mem_singleton.mp hasked
  | @settled site s s' o h =>
    rcases List.mem_cons.mp hasked with heq | hasked
    · cases heq
      exact ⟨o, s', by simp, h.returns.stack, .inl h⟩
    · cases List.mem_singleton.mp hasked
  | @deep site s s' b h hd =>
    rcases List.mem_cons.mp hasked with heq | hasked
    · cases heq
      exact ⟨_, _, List.mem_cons_of_mem _ List.mem_cons_self, h.returns.stack,
        .inr (.inl (hasFatal_push_fatal _ _ _ _))⟩
    · cases List.mem_singleton.mp hasked
  | @node r site s s' b l hr h hd hst hrun ih =>
    rcases List.mem_cons.mp hasked with heq | hasked
    · cases heq
      refine ⟨(s'.ask env r site b).1, (s'.ask env r site b).2, by simp,
        (ask_returns env hr _ b h.progress?_eq_none).stack.trans h.returns.stack, .inr (.inr ?_)⟩
      rw [progress?_ask, if_pos rfl]
    rcases List.mem_append.mp hasked with hasked | hasked
    · rcases List.mem_cons.mp hasked with heq | hasked
      · cases heq
      rcases List.mem_append.mp hasked with hasked | hasked
      · obtain ⟨o, t', hmem, hrest⟩ := ih hasked
        exact ⟨o, t', by simp [hmem], hrest⟩
      · obtain ⟨statement, -, heq⟩ := List.mem_map.mp hasked
        cases heq
    · cases List.mem_singleton.mp hasked

/-- A part of a pass ends with the stack with which it began, and is a later moment. -/
theorem grows (h : Course env s s' l) : s'.stack = s.stack ∧ Grows s s' := by
  induction h with
  | append h h' ih ih' => exact ⟨ih'.1.trans ih.1, ih.2.trans ih'.2⟩
  | silent h => exact ⟨h.stack, h.grows⟩
  | rest h => exact ⟨rfl, .refl _⟩
  | performed h => exact ⟨rfl, .refl _⟩
  | emitted hi hs => exact ⟨(emit_returns _ _ _).stack, (emit_returns _ _ _).toGrows⟩
  | settled h => exact ⟨h.returns.stack, h.returns.toGrows⟩
  | @deep site s s' b h hd =>
    have hr : Returns s (s'.reportDepth site).2 := h.returns.trans (push_returns s' _)
    exact ⟨hr.stack, hr.toGrows⟩
  | @node r site s s' b l hr h hd hst hrun ih =>
    have hr := h.returns.trans (ask_returns env hr site b h.progress?_eq_none)
    exact ⟨hr.stack, hr.toGrows⟩

/-- A site that is on the stack at some moment is there from the beginning, or it is finished
in the end. -/
theorem finished {e : Event} {site : Site} (h : Course env s s' l) (he : e ∈ l)
    (hmem : site ∈ e.pass.stack) :
    site ∈ s.stack ∨ ∃ o, s'.progress? site = some (.finished o) := by
  induction h with
  | append h h' ih ih' =>
    rcases List.mem_append.mp he with he | he
    · rcases ih he with hs | ⟨o, ho⟩
      · exact .inl hs
      · exact .inr ⟨o, h'.grows.2.finished site o ho⟩
    · rw [← h.grows.1]
      exact ih' he
  | silent h => cases he
  | rest h | performed h =>
    rw [List.mem_singleton.mp he] at hmem
    exact .inl hmem
  | emitted hi hs =>
    rw [List.mem_singleton.mp he] at hmem
    exact .inl ((emit_returns _ _ _).stack ▸ hmem)
  | settled h | deep h hd =>
    rcases List.mem_cons.mp he with rfl | he
    · exact .inl hmem
    · rw [List.mem_singleton.mp he] at hmem
      exact .inl (h.returns.stack ▸ hmem)
  | @node r site' s s' b l hr h hd hst hrun ih =>
    have hback := (h.returns.trans (ask_returns env hr site' b h.progress?_eq_none)).stack
    rcases List.mem_cons.mp he with rfl | he
    · exact .inl hmem
    rcases List.mem_append.mp he with he | he
    · -- on the stack while the node is asked: the node's site, or one that is finished by it
      have hin : site ∈ (s'.enter site').stack → site ∈ s.stack ∨
          ∃ o, (s'.ask env r site' b).2.progress? site = some (.finished o) := by
        intro hmem
        rcases List.mem_cons.mp hmem with rfl | hmem
        · exact .inr ⟨_, by rw [progress?_ask, if_pos rfl]⟩
        · exact .inl (h.returns.stack ▸ hmem)
      rcases List.mem_cons.mp he with rfl | he
      · exact hin hmem
      rcases List.mem_append.mp he with he | he
      · rcases ih he with hs | ⟨o, ho⟩
        · exact hin hs
        · exact .inr ⟨o, (ask_grows env hr site' b s').finished site o ho⟩
      · obtain ⟨statement, -, rfl⟩ := List.mem_map.mp he
        exact .inl (hback ▸ hmem)
    · rw [List.mem_singleton.mp he] at hmem
      exact .inl (hback ▸ hmem)

end Course

/-- A site of a node is finished when its outcome is clear, unless there is a fatal
diagnostic. -/
theorem Arrives.finished {site : Site} {t t' : Pass} {o : Outcome}
    (h : Arrives env site t (.settled o) t') (hf : Faithful env t) (hi : env.Instantiates site)
    (hfatal : t'.report.hasFatal = false) : t'.progress? site = some (.finished o) := by
  obtain ⟨d, b, hd, hb⟩ := hi
  have hstate {g : Instance} {t₁ : Pass} (hg : t.follow env site.scope = (.ok g, t₁)) :
      g.behavior? site.node = some b := by
    obtain ⟨d', hd', rfl⟩ := documentAt_of_follow hf hg
    rw [hd] at hd'
    cases hd'
    exact hb
  cases h with
  | known o hk => exact hk
  | cycle hs =>
    have hcycle : (t.reportCycle site).2.report.hasFatal = true := hasFatal_push_fatal _ _ _ _
    rw [hcycle] at hfatal
    cases hfatal
  | recursive chain s' hn hx =>
    rw [hasFatal_of_follow hf hd hx] at hfatal
    cases hfatal
  | stray fault s₁ hn hx =>
    have hbefore := Report.no_fatal_of_extends (Report.entries_prefix_push s₁.report _) hfatal
    rw [hasFatal_of_follow hf hd hx] at hbefore
    cases hbefore
  | broken g s' message hn hf hg | missing g s₁ hn hf hg =>
    have hb' := hstate hf
    unfold Instance.behavior? at hb'
    rw [hg] at hb'
    cases hb'
  | faulty g s₁ b message rest hn hf hg he =>
    rw [progress?_remember, if_pos rfl]

/-! ### Passes without fatal diagnostics -/

section Untroubled

variable {env : Environment} {s s' : Pass} {l : List Event} {k k' : Site}

theorem Requests.instantiates (htrack : ∀ e ∈ l, Tracked env l e.pass) (h : Requests l k k') :
    env.Instantiates k := by
  obtain ⟨t, hasked, htop⟩ := h
  exact (htrack _ hasked).instantiated k (List.mem_of_head? htop)

variable (hl : Course env s s' l) (htrack : ∀ e ∈ l, Tracked env l e.pass)
  (horder : Between s s' l) (hfatal : s'.report.hasFatal = false)
include hl htrack horder hfatal

/-- What an output asks for is finished while the output is still being resolved. -/
theorem Requests.finished (h : Requests l k k') (hi : env.Instantiates k') :
    ∃ e ∈ l, (∃ o, e.pass.progress? k' = some (.finished o)) ∧
      e.pass.progress? k = some .started := by
  obtain ⟨t, hasked, htop⟩ := h
  obtain ⟨o, t', hmem, hstack, hcase⟩ := hl.returned hasked
  have hquiet : t'.report.hasFatal = false :=
    Report.no_fatal_of_extends (horder.before _ hmem).report hfatal
  refine ⟨_, hmem, ⟨o, ?_⟩, ((htrack _ hmem).coherent.started_iff k).mpr ?_⟩
  · rcases hcase with harr | hcase | hcase
    · exact harr.finished (htrack _ hasked).faithful hi hquiet
    · rw [hcase] at hquiet
      cases hquiet
    · exact hcase
  · show k ∈ t'.stack
    rw [hstack]
    exact List.mem_of_head? htop

/-- So is what an output asks for through others. -/
theorem finished_of_transGen (h : Relation.TransGen (Requests l) k k')
    (hi : env.Instantiates k') : ∃ e ∈ l, (∃ o, e.pass.progress? k' = some (.finished o)) ∧
      e.pass.progress? k = some .started := by
  induction h with
  | single h => exact h.finished hl htrack horder hfatal hi
  | @tail m k' _ h ih =>
    obtain ⟨e, he, ⟨o, hm⟩, hk⟩ := ih (h.instantiates htrack)
    obtain ⟨e', he', ⟨o', hk'⟩, hm'⟩ := h.finished hl htrack horder hfatal hi
    -- the middle is finished at one moment and being resolved at the other, which is earlier
    have hlater : Grows e.pass e'.pass ∨ Grows e'.pass e.pass :=
      List.Pairwise.forall_of_forall_of_flip
        (R := fun e e' : Event => Grows e.pass e'.pass ∨ Grows e'.pass e.pass)
        (fun _ _ => .inl (.refl _)) (horder.ordered.imp Or.inl) (horder.ordered.imp Or.inr) he he'
    rcases hlater with hlater | hlater
    · rw [hlater.finished m o hm] at hm'
      cases hm'
    · exact ⟨e, he, ⟨o', hlater.finished k' o' hk'⟩, hk⟩

/-- No output needs itself. -/
theorem not_transGen_requests (k : Site) : ¬Relation.TransGen (Requests l) k k := by
  intro h
  have hi : env.Instantiates k := by
    obtain ⟨k', hfirst, -⟩ := Relation.TransGen.head'_iff.mp h
    exact hfirst.instantiates htrack
  obtain ⟨e, -, ⟨o, hdone⟩, hstarted⟩ := finished_of_transGen hl htrack horder hfatal h hi
  rw [hdone] at hstarted
  cases hstarted

end Untroubled

/-- The last moment of a pass shows the state with which it ends. -/
theorem Session.getLast? {s' : Pass} {l : List Event} (hl : Session env s s' l) :
    l = [] ∧ s' = s ∨ l.getLast? = some (.rest s') := by
  induction hl with
  | nil s => exact .inl ⟨rfl, rfl⟩
  | root _ ih | report ds _ _ ih =>
    rcases ih with ⟨rfl, rfl⟩ | ih
    · exact .inr rfl
    · exact .inr (by rw [List.getLast?_cons, ih]; rfl)
  | resolve stage scope node output _ ih =>
    rcases ih with ⟨rfl, rfl⟩ | ih
    · rw [List.append_nil]
      exact .inr List.getLast?_concat
    · exact .inr (by rw [List.getLast?_append, ih]; rfl)

end Pass

namespace Compiler

open Pass

/-- **Cycles are found, and only cycles are**, whatever the classes of the catalog do. Every
diagnostic about a cycle is about a document that calls itself, or lists a chain of requests
of this pass from a site back to it. In a pass that ends without fatal diagnostics no output
needs itself, every output that asks for another is finished in the end, and whatever it asks
for is finished before it, if it is an output of a node that could be made. And a chain is
reported as too long only if there is a chain of 129 distinct sites. -/
theorem cycles_detected (c : Compiler) (d : Document) (l : List Event) (h : c.IsTrace d l) :
    (∀ e ∈ l, ∀ x ∈ e.pass.report.entries, x.concern = .cycleDetected →
      (∃ paths path, path ∈ paths ∧ x.message = recursionMessage paths path) ∨
      ∃ site chain, Loop l site chain ∧ x.node = site.node ∧ x.message = loopMessage chain) ∧
    (∀ s, l.getLast? = some (.rest s) → s.report.hasFatal = false →
      (∀ k, ¬Relation.TransGen (Requests l) k k) ∧
      ∀ k k', Requests l k k' → (∃ o, s.progress? k = some (.finished o)) ∧
        ∀ mode, (c.environment mode d).Instantiates k' →
          ∃ e ∈ l, (∃ o, e.pass.progress? k' = some (.finished o)) ∧
            e.pass.progress? k = some .started) ∧
    ∀ e ∈ l, ∀ x ∈ e.pass.report.entries, x.concern = .depthExceeded →
      ∃ chain : List Site, chain.length = 129 ∧ chain.Nodup ∧ chain.IsChain (Requests l) := by
  obtain ⟨mode, s₀, s', hfresh, hsession⟩ := h.session
  have hstock := hfresh.stocked (c.environment mode d)
  have hcourse := hsession.course hstock hfresh.atRest
  have horder := Between.stepwise.segmental.session hsession hstock hfresh.atRest
  have hstart : Tracked (c.environment mode d) l s₀ := by
    refine ⟨.of_fresh hfresh, hfresh.faithful, ?_, ?_, ?_⟩
    · rw [hfresh.atRest.stack]; exact .nil
    · rw [hfresh.atRest.stack]; nofun
    · rw [hfresh.report]; nofun
  have htrack := (hcourse.tracked (List.Subset.refl l) hstart).2
  refine ⟨fun e he x hx hconcern => ?_, fun s hlast hfatal => ?_, fun e he x hx hconcern => ?_⟩
  · cases (htrack e he).explained x hx with
    | ordinary hord => exact .inl (hord.cycle hconcern)
    | loop hloop => exact .inr ⟨_, _, hloop, rfl, rfl⟩
    | long hlong => cases hconcern
  · have hend : s' = s := by
      rcases hsession.getLast? with ⟨rfl, -⟩ | hlast'
      · cases hlast
      · rw [hlast] at hlast'
        cases hlast'
        rfl
    subst hend
    refine ⟨not_transGen_requests hcourse htrack horder hfatal, fun k k' hreq => ⟨?_, ?_⟩⟩
    · obtain ⟨t, hasked, htop⟩ := hreq
      rcases hcourse.finished hasked (List.mem_of_head? htop) with hmem | hdone
      · rw [hfresh.atRest.stack] at hmem
        cases hmem
      · exact hdone
    · intro _ hi
      exact hreq.finished hcourse htrack horder hfatal hi
  · cases (htrack e he).explained x hx with
    | ordinary hord => exact (hord.depth hconcern).elim
    | loop hloop => cases hconcern
    | long hlong => exact ⟨_, hlong.length, hlong.nodup, hlong.requests⟩

/-- A material with two nodes: the first needs the second, and the second needs `last`. -/
def ringDocument (last : NodeId) : Document where
  nodes := [
    .of .materialResult 1 { roughness := .ofNode 2 },
    .of (.unary .negate) 2 { input := .ofNode 3 },
    .of (.unary .negate) 3 { input := { node := last, output := "result" } }]

/-- The events of a pass over that material. -/
def ringTrace (last : NodeId) : List Event := Compiler.materialTrace {} (ringDocument last) {}

/-- The message about the chain from the first node through the second back to the first. -/
def ringMessage : String :=
  "dependency cycle: 00000000-0000-0000-0000-000000000002 -> " ++
    "00000000-0000-0000-0000-000000000003 -> 00000000-0000-0000-0000-000000000002"

theorem ringMessage_ne (paths : List String) (path : String) :
    ringMessage ≠ recursionMessage paths path := by
  unfold ringMessage recursionMessage
  intro h
  have hhead := congrArg (·.toList.head?) h
  simp at hhead

/-- If the second node needs the first, the chain that is reported consists of requests. If it
needs nothing there is no fatal diagnostic, and the second node is finished before the
first. -/
theorem cycles_detected_ring :
    (∀ last, Compiler.IsTrace {} (ringDocument last) (ringTrace last)) ∧
    (∃ site chain, Loop (ringTrace ⟨2⟩) site chain ∧ site.node = ⟨2⟩ ∧
      loopMessage chain = ringMessage) ∧
    (∀ k, ¬Relation.TransGen (Requests (ringTrace ⟨0⟩)) k k) ∧
    ∃ k k', k.node = ⟨2⟩ ∧ k'.node = ⟨3⟩ ∧ Requests (ringTrace ⟨0⟩) k k' ∧
      ∃ e ∈ ringTrace ⟨0⟩, (∃ o, e.pass.progress? k' = some (.finished o)) ∧
        e.pass.progress? k = some .started := by
  have htrace (last : NodeId) : Compiler.IsTrace {} (ringDocument last) (ringTrace last) :=
    .inl ⟨{}, rfl⟩
  refine ⟨htrace, ?_, ?_⟩
  · have hreport : ((ringTrace ⟨2⟩).any fun e => e.pass.report.entries.any fun x =>
        x.concern = .cycleDetected && x.node = ⟨2⟩ && x.message = ringMessage) = true := by
      decide +kernel
    obtain ⟨e, he, hx⟩ := List.any_eq_true.mp hreport
    obtain ⟨x, hx, hsays⟩ := List.any_eq_true.mp hx
    simp only [Bool.and_eq_true, decide_eq_true_eq] at hsays
    obtain ⟨⟨hconcern, hnode⟩, hmessage⟩ := hsays
    rcases (cycles_detected {} (ringDocument ⟨2⟩) (ringTrace ⟨2⟩) (htrace ⟨2⟩)).1 e he x hx
      hconcern with ⟨paths, path, -, hrec⟩ | ⟨site, chain, hloop, hsite, hchain⟩
    · exact (ringMessage_ne paths path (hmessage.symm.trans hrec)).elim
    · exact ⟨site, chain, hloop, hsite.symm.trans hnode, hchain.symm.trans hmessage⟩
  · have hend : ((ringTrace ⟨0⟩).getLast?.any fun
        | .rest s => !s.report.hasFatal
        | _ => false) = true := by decide +kernel
    have hasked : ((ringTrace ⟨0⟩).any fun
        | .asked k' s => k'.scope = [] && k'.node = ⟨3⟩ && s.stack.head?.any (·.node = ⟨2⟩)
        | _ => false) = true := by decide +kernel
    have hmade : (((Compiler.environment {} .final (ringDocument ⟨0⟩)).instanceOf
        (ringDocument ⟨0⟩)).behavior? ⟨3⟩).isSome = true := by decide +kernel
    obtain ⟨b, hb⟩ := Option.isSome_iff_exists.mp hmade
    obtain ⟨s, hlast, hfatal⟩ : ∃ s, (ringTrace ⟨0⟩).getLast? = some (.rest s) ∧
        s.report.hasFatal = false := by
      generalize (ringTrace ⟨0⟩).getLast? = last at hend
      rcases last with _ | (s | _ | _ | _ | _ | _)
      · cases hend
      · exact ⟨s, rfl, by simpa using hend⟩
      all_goals cases hend
    obtain ⟨k, k', hk, hk', hscope, hreq⟩ : ∃ k k', k.node = ⟨2⟩ ∧ k'.node = ⟨3⟩ ∧
        k'.scope = [] ∧ Requests (ringTrace ⟨0⟩) k k' := by
      obtain ⟨e, he, hasked⟩ := List.any_eq_true.mp hasked
      rcases e with _ | ⟨k', s⟩ | _ | _ | _ | _
      case asked =>
        simp only [Bool.and_eq_true, decide_eq_true_eq] at hasked
        obtain ⟨⟨hscope, hk'⟩, htop⟩ := hasked
        cases htop' : s.stack.head? with
        | none => rw [htop'] at htop; cases htop
        | some k =>
          rw [htop'] at htop
          exact ⟨k, k', by simpa using htop, hk', hscope, s, he, htop'⟩
      all_goals cases hasked
    obtain ⟨hacyclic, hdone⟩ :=
      (cycles_detected {} (ringDocument ⟨0⟩) (ringTrace ⟨0⟩) (htrace ⟨0⟩)).2.1 s hlast hfatal
    refine ⟨hacyclic, k, k', hk, hk', hreq, (hdone k k' hreq).2 .final
      ⟨ringDocument ⟨0⟩, b, ?_, ?_⟩⟩
    · rw [hscope]
      exact Environment.documentAt_nil
    · rw [hk']
      exact hb

end Compiler

end MaterialGraph
