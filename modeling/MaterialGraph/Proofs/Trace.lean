import MaterialGraph.Proofs.Documents
import MaterialGraph.Proofs.Remarks

/-!
# What happens in a pass

A pass is a function from one state to the next. To say what holds *while* an
output is being resolved, this module writes down the moments in between: a site
is asked for, its node is entered, a request of the node is answered, a statement
is emitted, an outcome is returned. The states of a trace are those of the pass
itself: every one of them is computed by `Pass.perform`, `Pass.ask` and
`Pass.resolve`, and the last one is the state that the pass ends with.

A site leaves the stack in the step that remembers its outcome, so a value that
moves into a local variable is emitted in that same step. And a request has nothing
resolved but what it demands (`Pass.perform_congr`), so no site is left out.

## Main definitions

* `Pass.Event` — the moments.
* `Pass.trace` — what happens while a site is resolved.
* `Compiler.materialTrace`, `Compiler.previewTrace`, `Compiler.IsTrace` — what
  happens in a whole pass.
* `Pass.Session` — a pass as steps between which nothing is being resolved.

## Main results

* `Pass.Stepwise.segmental`, `Pass.Segmental.session` — what holds of every step holds
  of whole passes.
* `Pass.Between.stepwise` — the events of a pass are in order: each one is a later
  moment of those before it.
-/

namespace MaterialGraph

/-- The number of the variable that a statement declares. -/
def Statement.index : Statement → Nat
  | .assign _ index _ => index
  | .select _ index _ _ _ => index

namespace Pass

/-! ### Events -/

/-- What happens in a pass. -/
inductive Event where
  /-- Nothing is being resolved. -/
  | rest (s : Pass)
  | asked (site : Site) (s : Pass)
  /-- The node at a site is asked for its plan. -/
  | entered (site : Site) (b : Behavior) (s : Pass)
  /-- A request has been answered. -/
  | performed (c : Command) (before : Pass) (reply : c.Reply) (after : Pass)
  /-- A statement has been added for a site. -/
  | emitted (site : Site) (statement : Statement) (s : Pass)
  /-- An outcome has been returned to whoever asked for the site. -/
  | returned (site : Site) (before : Pass) (outcome : Outcome) (after : Pass)

/-- The state at a moment. -/
def Event.pass : Event → Pass
  | .rest s => s
  | .asked _ s => s
  | .entered _ _ s => s
  | .performed _ _ _ s => s
  | .emitted _ _ s => s
  | .returned _ _ _ s => s

/-- The statements that the later pass `s'` has and `s` has not. -/
def added (s s' : Pass) : List Statement :=
  s'.vertex.drop s.vertex.length ++ s'.pixel.drop s.pixel.length

/-- What happens while a plan is carried out for a site. -/
def runTrace {α : Type} (env : Environment) (r : Resolver) (nested : Site → Pass → List Event)
    (site : Site) : Plan α → Pass → List Event
  | .done _, _ => []
  | .fail _, _ => []
  | .ask c next, s =>
    (match demand? env c s with
      | some (site', s') => nested site' s'
      | none => (added s (s.perform env r c).2).map (.emitted site · (s.perform env r c).2)) ++
    .performed c s (s.perform env r c).1 (s.perform env r c).2 ::
      runTrace env r nested site (next (s.perform env r c).1) (s.perform env r c).2

/-- What happens while a node is asked. -/
def nodeTrace (env : Environment) (r : Resolver) (nested : Site → Pass → List Event)
    (site : Site) (b : Behavior) (s : Pass) : List Event :=
  .entered site b (s.enter site) ::
    (runTrace env r nested site (b.plan (frame env site) site.output) (s.enter site) ++
      (added (carryOut env r site b s).2 (s.ask env r site b).2).map
        (.emitted site · (s.ask env r site b).2))

/-- What happens while a site is resolved. -/
def trace (env : Environment) : (room : Nat) → Site → Pass → List Event
  | 0, site, s =>
    [.asked site s, .returned site s (resolve env 0 site s).1 (resolve env 0 site s).2]
  | room + 1, site, s =>
    .asked site s ::
      ((match s.arrive env site with
        | (.settled _, _) => []
        | (.node b, s) => nodeTrace env (resolve env room) (trace env room) site b s) ++
      [.returned site s (resolve env (room + 1) site s).1 (resolve env (room + 1) site s).2])

/-- What happens while an output is resolved for a stage from outside of all nodes. -/
def traceFor (env : Environment) (stage : Stage) (scope : Scope) (node : NodeId)
    (output : String) (s : Pass) : List Event :=
  trace env maxDepth ⟨scope, node, output, stage⟩ { s with stage } ++
    [.rest (s.resolveFor env stage scope node output).2]

/-- What happens while the channels of a result node are resolved. -/
def channelsTrace (env : Environment) (node : NodeId) : List (String × Wire) → Pass → List Event
  | [], _ => []
  | (input, wire) :: rest, s =>
    match Channel.ofKey? input with
    | some channel =>
      if wire.isConnected then
        s.traceFor env channel.stage [] node channel.key ++
          channelsTrace env node rest (s.resolveFor env channel.stage [] node channel.key).2
      else channelsTrace env node rest s
    | none => channelsTrace env node rest s

/-- What happens while the outputs of a subgraph are resolved for their channels. -/
def outputsTrace (env : Environment) : List (NodeId × Channel) → Pass → List Event
  | [], _ => []
  | (id, channel) :: rest, s =>
    s.traceFor env channel.stage [] id valueOutput ++
      match s.resolveFor env channel.stage [] id valueOutput with
      | (.valid e, s) =>
        match e.castTo env.types channel.type with
        | .ok _ => outputsTrace env rest s
        | .error fault =>
          .rest (s.pushFault id fault) :: outputsTrace env rest (s.pushFault id fault)
      | (_, s) => outputsTrace env rest s

/-- What happens in a pass over a material. -/
def materialEvents (env : Environment) (s : Pass) : List Event :=
  match resultNodes (s.root env).1 with
  | [] => []
  | (node, b) :: further =>
    .rest ((s.root env).2.reportFurther further) ::
      channelsTrace env node b.connections ((s.root env).2.reportFurther further)

/-- What happens in a pass over a subgraph on its own. -/
def subgraphEvents (env : Environment) (s : Pass) : List Event :=
  match channelOutputs [] (s.root env).1.behaviors (s.root env).2 with
  | ([], _) => []
  | (outputs, s) => .rest s :: outputsTrace env outputs s

end Pass

namespace Compiler

open Pass

/-- What happens when a material, or a subgraph on its own, is compiled. -/
def materialTrace (c : Compiler) (d : Document) (o : Options) : List Event :=
  let env := c.environment o.mode d
  let s := firstPass o.blend
  .rest s :: .rest (s.root env).2 ::
    (if d.isSubgraph then subgraphEvents env s else materialEvents env s)

/-- What happens when one output is compiled to be shown. -/
def previewTrace (c : Compiler) (d : Document) (target : Wire) : List Event :=
  let env := c.environment .preview d
  let s := (Pass.root env {}).2
  .rest {} :: .rest s ::
    (s.traceFor env .pixel target.path target.node target.output ++
      [.rest (c.previewDraft d target).pass])

/-- The traces of the passes over a document. -/
def IsTrace (c : Compiler) (d : Document) (l : List Event) : Prop :=
  (∃ o, l = c.materialTrace d o) ∨ ∃ target, l = c.previewTrace d target

end Compiler

namespace Pass

variable {s s' : Pass} {env : Environment} {site : Site}

/-! ### Steps that happen in silence -/

/-- A step that leaves the memo, the stack and the statements alone, and adds to report and
tables. -/
structure Quiet (s s' : Pass) : Prop where
  memo : s'.memo = s.memo
  stack : s'.stack = s.stack
  vertex : s'.vertex = s.vertex
  pixel : s'.pixel = s.pixel
  locals : s'.locals = s.locals
  report : s.report.entries <+: s'.report.entries
  tables : s.globals.Within s'.globals

namespace Quiet

variable {s s' s'' : Pass}

theorem refl (s : Pass) : Quiet s s := ⟨rfl, rfl, rfl, rfl, rfl, List.prefix_refl _, .refl _⟩

theorem trans (h : Quiet s s') (h' : Quiet s' s'') : Quiet s s'' :=
  ⟨h'.memo.trans h.memo, h'.stack.trans h.stack, h'.vertex.trans h.vertex,
    h'.pixel.trans h.pixel, h'.locals.trans h.locals, h.report.trans h'.report,
    h.tables.trans h'.tables⟩

theorem push (s : Pass) (d : Diagnostic) : Quiet s (s.push d) :=
  ⟨rfl, rfl, rfl, rfl, rfl, s.report.entries_prefix_push d, .refl _⟩

theorem scope (s : Pass) (scope : Scope) : Quiet s { s with scope } :=
  ⟨rfl, rfl, rfl, rfl, rfl, List.prefix_refl _, .refl _⟩

theorem stage (s : Pass) (stage : Stage) : Quiet s { s with stage } :=
  ⟨rfl, rfl, rfl, rfl, rfl, List.prefix_refl _, .refl _⟩

theorem progress? (h : Quiet s s') (site : Site) : s'.progress? site = s.progress? site := by
  unfold Pass.progress?
  rw [h.memo]

theorem grows (h : Quiet s s') : Grows s s' := by
  refine ⟨fun site o ho => ?_, h.report, ?_, ?_, h.tables⟩
  · rw [h.progress?]; exact ho
  · exact h.vertex ▸ List.prefix_refl _
  · exact h.pixel ▸ List.prefix_refl _

/-- Nothing is said in silence. -/
theorem added_eq_nil (h : Quiet s s') : added s s' = [] := by
  unfold added
  rw [h.vertex, h.pixel, List.drop_length, List.drop_length]
  rfl

end Quiet

theorem Booked.quiet (h : Booked s s') : Quiet s s' := by
  obtain ⟨_, _, _, _, hr, ht, rfl⟩ := h
  exact ⟨rfl, rfl, rfl, rfl, rfl, hr, ht⟩

theorem Prepared.quiet (h : Prepared s s') : Quiet s s' :=
  ⟨h.memo, h.stack, h.vertex, h.pixel, h.locals, h.report, h.globals ▸ .refl _⟩

/-- A quiet step that says nothing about a chain of outputs and keeps documents as they
are. -/
structure Silent (env : Environment) (s s' : Pass) : Prop extends Quiet s s' where
  /-- Nothing is said about a chain of outputs. -/
  reports : Reports Diagnostic.Ordinary s s'
  faithful : Faithful env s → Faithful env s'

namespace Silent

variable {env : Environment} {s s' s'' : Pass}

theorem refl (s : Pass) : Silent env s s := ⟨.refl s, .refl s, id⟩

theorem trans (h : Silent env s s') (h' : Silent env s' s'') : Silent env s s'' :=
  ⟨h.toQuiet.trans h'.toQuiet, h.reports.trans h'.reports, fun hf => h'.faithful (h.faithful hf)⟩

theorem scope (s : Pass) (scope : Scope) : Silent env s { s with scope } :=
  ⟨.scope s scope, .of_same rfl, fun h => h.of_same rfl rfl⟩

theorem stage (s : Pass) (stage : Stage) : Silent env s { s with stage } :=
  ⟨.stage s stage, .of_same rfl, fun h => h.of_same rfl rfl⟩

theorem follow (scope : Scope) (s : Pass) : Silent env s (s.follow env scope).2 :=
  ⟨(follow_prepared env scope s).quiet, follow_reports (permits_ordinary env) scope s,
    fun h => (follow_faithful scope h).1⟩

end Silent

theorem Followed.silent (h : Followed env s s') :
    Silent env s s' := by
  rcases h with rfl | ⟨path, rfl⟩
  · exact .refl _
  · exact .follow path s

/-- A request that demands nothing is answered in silence, unless a feature selects a
value. -/
theorem perform_silent (r : Resolver) {c : Command} (h : demand? env c s = none) :
    Silent env s (s.perform env r c).2 ∨
      ∃ feature type on off, c = .select feature type on off := by
  rcases perform_booked r h with ⟨s₁, hf, hb⟩ | hselect
  · refine .inl ⟨hf.prepared.quiet.trans hb.quiet,
      perform_reports (permits_ordinary env) r h, fun hs => ?_⟩
    have hs₁ := hf.silent.faithful hs
    obtain ⟨_, _, _, _, -, -, he⟩ := hb
    exact hs₁.of_same (he ▸ rfl) (he ▸ rfl)
  · exact .inr hselect

theorem added_emit (s : Pass) (statement : Statement) (n : Nat) :
    added s { s.emit statement with locals := n } = [statement] := by
  unfold added emit
  split
  · simp
  · simp

/-- The statements of a stage. -/
def statements (s : Pass) : Stage → List Statement
  | .vertex => s.vertex
  | .pixel => s.pixel

theorem statements_emit (s : Pass) (statement : Statement) (n : Nat) (stage : Stage) :
    statements { s.emit statement with locals := n } stage =
      s.statements stage ++ if s.stage = stage then [statement] else [] := by
  unfold emit
  cases hs : s.stage with
  | vertex => cases stage <;> simp [statements]
  | pixel => cases stage <;> simp [statements]

/-! ### Asking a node -/

/-- What is known when a node has been asked: its outcome, and what its plan left. -/
theorem progress?_ask (env : Environment) (r : Resolver) (site other : Site) (b : Behavior)
    (s : Pass) : (s.ask env r site b).2.progress? other =
      if site = other then some (.finished (s.ask env r site b).1)
      else (carryOut env r site b s).2.progress? other := by
  rw [ask_eq, progress?_remember]
  congr 1
  unfold progress? outcomeOf
  rw [conclude_memo]

/-- Remembering the outcome loses nothing that the plan left. -/
theorem ask_grows (env : Environment) {r : Resolver} (hr : r.Returning) (site : Site)
    (b : Behavior) (s : Pass) : Grows (carryOut env r site b s).2 (s.ask env r site b).2 := by
  have hc := outcomeOf_returns env r site b s
  refine ⟨fun other o ho => ?_, hc.report, hc.vertex, hc.pixel, hc.tables⟩
  -- the site itself was started until now, so it is not the one that was finished
  have hne : site ≠ other := by
    rintro rfl
    rw [carryOut_started env hr] at ho
    cases ho
  rw [progress?_ask, if_neg hne]
  exact ho

/-- The pass on its way into a node of which nothing is known yet. -/
theorem enter_grows (hn : s.progress? site = none) :
    Grows s (s.enter site) :=
  ⟨fun _ _ ho => progress?_remember_of_none hn ho _, List.prefix_refl _, List.prefix_refl _,
    List.prefix_refl _, .refl _⟩

/-- A site that is settled with a value is one whose value is known. -/
theorem Arrives.progress?_of_valid {a : Arrival} (h : Arrives env site s a s') {e : Expr}
    (ha : a = .settled (.valid e)) :
    s'.progress? site = some (.finished (.valid e)) := by
  cases h with
  | known o hk => cases ha; exact hk
  | _ => cases ha

/-- A value that is returned is remembered. -/
theorem resolve_valid (env : Environment) (room : Nat) {e : Expr}
    (h : (resolve env room site s).1 = .valid e) :
    (resolve env room site s).2.progress? site = some (.finished (.valid e)) := by
  refine resolve_induction (motive := fun site _ x => x.1 = .valid e →
    x.2.progress? site = some (.finished (.valid e))) ?_ ?_ ?_ room site s h
  · exact fun harr ho => harr.progress?_of_valid (congrArg _ ho)
  · exact fun _ ho => by cases ho
  · exact fun _ _ ho => by rw [progress?_ask, if_pos rfl, ← ho]

/-! ### Segments -/

/-- The place of a pass between two outputs of the root document. -/
structure AtRest (s : Pass) : Prop where
  stack : s.stack = []
  scope : s.scope = []
  stage : s.stage = .pixel

/-- What is right about an event by itself. Whoever is given the value of a site is given
what is remembered of it. -/
def Event.Marks (env : Environment) : Event → Prop
  | .rest s => AtRest s
  | .asked _ _ => True
  | .performed c s reply s' => Returns s s' ∧ ∀ site s₁ e, demand? env c s = some (site, s₁) →
      c.deliver? (.valid e) = some reply → s'.progress? site = some (.finished (.valid e))
  | .returned site s o s' => Returns s s' ∧
      ∀ e, o = .valid e → s'.progress? site = some (.finished (.valid e))
  | .entered _ _ _ => False
  | .emitted _ _ _ => False

/-- A resolver and its trace, of which `P` holds when `room` more sites may be started. -/
structure Nested (env : Environment) (P : Pass → Pass → List Event → Prop) (room : Nat)
    (r : Resolver) (nested : Site → Pass → List Event) : Prop where
  returning : r.Returning
  stocking : r.Stocking env
  /-- The resolver remembers the values that it returns. -/
  remembering : ∀ site s e, (r site s).1 = .valid e →
    (r site s).2.progress? site = some (.finished (.valid e))
  segment : ∀ site s, Stocked env s → site.stage = s.stage →
    s.stack.length + room = maxDepth → P s (r site s).2 (nested site s)

namespace Nested

variable {env : Environment} {P : Pass → Pass → List Event → Prop} {room : Nat} {r : Resolver}
  {nested : Site → Pass → List Event} {c : Command} {site : Site} {s s' : Pass}

/-- A request that has a site resolved. -/
theorem demanded (hn : Nested env P room r nested)
    (append : ∀ {s s' s'' l l'}, P s s' l → P s' s'' l' → P s s'' (l ++ l'))
    (silent : ∀ {s s'}, Silent env s s' → P s s' [])
    (hd : demand? env c s = some (site, s')) (hs : Stocked env s)
    (hroom : s.stack.length + room = maxDepth) :
    P s (s.perform env r c).2 (nested site s') := by
  obtain ⟨reply, scope, -, he, -⟩ := perform_of_demand? r hd
  obtain ⟨hstage, s₁, here, hf, rfl⟩ := demand?_place hd
  -- into the scope of the site, through its events, and back into the scope of the request
  have hq := hf.silent.trans (.scope s₁ here)
  have hs₁ := hf.stocked hs
  have hseg := hn.segment site { s₁ with scope := here } ⟨hs₁.instances, hs₁.scopes⟩ hstage
    (by rw [hq.stack]; exact hroom)
  rw [he]
  have hback := silent (.scope (r site { s₁ with scope := here }).2 scope)
  have := append (silent hq) (append hseg hback)
  rwa [List.nil_append, List.append_nil] at this

/-- Whoever asks for a site is given what is remembered of it. -/
theorem marks (hn : Nested env P room r nested) (c : Command) (s : Pass) :
    (Event.performed c s (s.perform env r c).1 (s.perform env r c).2).Marks env := by
  refine ⟨perform_returns env hn.returning c s, fun site s₁ e hd hdel => ?_⟩
  obtain ⟨reply, scope, hreply, he, -⟩ := perform_of_demand? r hd
  rw [he] at hdel ⊢
  exact hn.remembering site s₁ e (Command.deliver?_valid hreply hdel)

end Nested

/-- What can be said of a part of a pass from one state to another, with the events in
between, if it can be said of all that happens around nodes. -/
structure Composable (env : Environment) (P : Pass → Pass → List Event → Prop) : Prop where
  append : ∀ {s s' s'' l l'}, P s s' l → P s' s'' l' → P s s'' (l ++ l')
  quiet : ∀ {s s'}, Quiet s s' → P s s' []
  mark : ∀ {e : Event}, e.Marks env → P e.pass e.pass [e]
  /-- A node that is known to fail. -/
  settle : ∀ {s site} message, s.progress? site = none →
    P s (s.remember site (.finished (.error message))) []

/-- The same, if it can be said of every node that is asked. -/
structure Segmental (env : Environment) (P : Pass → Pass → List Event → Prop) : Prop
    extends Composable env P where
  node : ∀ {room r nested site b s}, Nested env P room r nested → Stocked env s →
    env.Offers b → b.errors = [] → s.progress? site = none → site.stage = s.stage →
    s.stack.length + (room + 1) = maxDepth →
    P s (s.ask env r site b).2 (nodeTrace env r nested site b s)

namespace Segmental

variable {env : Environment} {P : Pass → Pass → List Event → Prop}

theorem refl (h : Segmental env P) (s : Pass) : P s s [] := h.quiet (.refl s)

/-- Looking a site up. -/
theorem arrive (h : Segmental env P) {site : Site} {s s' : Pass} {a : Arrival}
    (ha : Arrives env site s a s') : P s s' [] := by
  rcases ha.cases with hp | ⟨s₁, message, hp, hn, rfl⟩
  · exact h.quiet hp.quiet
  · exact h.append (h.quiet hp.quiet) (h.settle message hn)

/-- What holds of every node that is asked holds of every site that is resolved. -/
theorem nested (h : Segmental env P) (room : Nat) :
    Nested env P room (resolve env room) (trace env room) := by
  refine ⟨resolve_returns env room, resolve_stocked env room,
    fun _ _ _ => resolve_valid env room, ?_⟩
  -- a site is asked for, looked up, perhaps entered, and its outcome returned
  have frame {site : Site} {s : Pass} {l : List Event} (room : Nat)
      (hl : P s (resolve env room site s).2 l) :
      P s (resolve env room site s).2 (.asked site s :: (l ++
        [.returned site s (resolve env room site s).1 (resolve env room site s).2])) :=
    h.append (h.mark (e := .asked site s) trivial) (h.append hl
      (h.mark (e := .returned site s _ _)
        ⟨resolve_returns env room site s, fun _ => resolve_valid env room⟩))
  induction room with
  | zero =>
    intro site s hs hstage hroom
    refine frame (l := []) 0 ?_
    have ha := h.arrive (arrive_arrives env site s)
    rw [resolve]
    split
    · next hx => rw [hx] at ha; exact ha
    · next hx => rw [hx] at ha; exact h.append ha (h.quiet (.push _ _))
  | succ room ih =>
    intro site s hs hstage hroom
    refine frame (room + 1) ?_
    have harr := arrive_arrives env site s
    rcases hx : s.arrive env site with ⟨a, s'⟩
    rw [hx] at harr
    have ha := h.arrive harr
    cases a with
    | settled o =>
      simp only [resolve, hx]
      exact ha
    | node b =>
      simp only [resolve, hx]
      have hb := harr.offered hs
      have hr := harr.returns
      refine h.append ha (h.node ⟨resolve_returns env room, resolve_stocked env room,
        fun _ _ _ => resolve_valid env room, ih⟩ (harr.stocked hs) hb.1 hb.2
        harr.progress?_eq_none (hstage.trans hr.stage.symm) ?_)
      rw [hr.stack]
      exact hroom

end Segmental

/-- What can be said of a part of a pass, if it can be said of the requests of which plans
consist. -/
structure Sequential (env : Environment) (P : Pass → Pass → List Event → Prop) : Prop where
  append : ∀ {s s' s'' l l'}, P s s' l → P s' s'' l' → P s s'' (l ++ l')
  silent : ∀ {s s'}, Silent env s s' → P s s' []
  performed : ∀ {c s reply s'}, (Event.performed c s reply s').Marks env →
    P s' s' [.performed c s reply s']
  emit : ∀ {s : Pass} {site : Site} {statement : Statement}, statement.index = s.locals →
    site.stage = s.stage → P s { s.emit statement with locals := s.locals + 1 }
      [.emitted site statement { s.emit statement with locals := s.locals + 1 }]

namespace Sequential

variable {env : Environment} {P : Pass → Pass → List Event → Prop}
  {nested : Site → Pass → List Event}

/-- One request: what it demands is resolved, or it is answered at once. -/
theorem perform (h : Sequential env P) {room : Nat} {r : Resolver} (hn : Nested env P room r nested)
    (c : Command) {site : Site} {s : Pass} (hs : Stocked env s) (hstage : site.stage = s.stage)
    (hroom : s.stack.length + room = maxDepth) :
    P s (s.perform env r c).2
      (match demand? env c s with
        | some (site', s') => nested site' s'
        | none => (added s (s.perform env r c).2).map
            (.emitted site · (s.perform env r c).2)) := by
  rcases hd : demand? env c s with _ | ⟨site', s'⟩
  · rcases perform_silent r hd with hq | ⟨feature, type, on, off, rfl⟩
    · simp only [hq.added_eq_nil, List.map_nil]
      exact h.silent hq
    · simp only [perform_select, added_emit, List.map_cons, List.map_nil]
      exact h.emit rfl hstage
  · exact hn.demanded h.append h.silent hd hs hroom

/-- A plan, request by request. -/
theorem run (h : Sequential env P) {room : Nat} {r : Resolver} (hn : Nested env P room r nested)
    {site : Site} {α : Type} (plan : Plan α) :
    ∀ s : Pass, Stocked env s → site.stage = s.stage → s.stack.length + room = maxDepth →
      P s (Pass.run env r plan s).2 (runTrace env r nested site plan s) := by
  induction plan with
  | done a => exact fun s _ _ _ => h.silent (.refl s)
  | fail fault => exact fun s _ _ _ => h.silent (.refl s)
  | ask c next ih =>
    intro s hs hstage hroom
    have hret := perform_returns env hn.returning c s
    have hnext := ih (s.perform env r c).1 (s.perform env r c).2 (perform_stocked hn.stocking c hs)
      (hstage.trans hret.stage.symm) (by rw [hret.stack]; exact hroom)
    exact h.append (h.perform hn c hs hstage hroom)
      (h.append (h.performed (hn.marks c s)) hnext)

end Sequential

/-- What can be said of a part of a pass, if it can be said of every step whatever the
plans of the nodes are. -/
structure Stepwise (env : Environment) (P : Pass → Pass → List Event → Prop) : Prop
    extends Composable env P where
  emit : ∀ {s : Pass} {site : Site} {statement : Statement}, statement.index = s.locals →
    site.stage = s.stage → P s { s.emit statement with locals := s.locals + 1 }
      [.emitted site statement { s.emit statement with locals := s.locals + 1 }]
  ask : ∀ {r site b s l}, Resolver.Returning r → s.progress? site = none →
    site.stage = s.stage → s.stack.length < maxDepth →
    P (s.enter site) (carryOut env r site b s).2 l →
    P s (s.ask env r site b).2 (.entered site b (s.enter site) ::
      (l ++ (added (carryOut env r site b s).2 (s.ask env r site b).2).map
        (.emitted site · (s.ask env r site b).2)))

namespace Stepwise

variable {env : Environment} {P : Pass → Pass → List Event → Prop}

theorem sequential (h : Stepwise env P) : Sequential env P where
  append := h.append
  silent hq := h.quiet hq.toQuiet
  performed hm := h.mark hm
  emit := h.emit

/-- What holds of every step holds of every node that is asked. -/
theorem segmental (h : Stepwise env P) : Segmental env P where
  toComposable := h.toComposable
  node hn hs _ _ hnone hstage hroom := by
    refine h.ask hn.returning hnone hstage (by omega) ?_
    refine h.sequential.run hn _ _ ⟨hs.instances, hs.scopes⟩ hstage ?_
    simp only [enter, List.length_cons]
    omega

end Stepwise

/-! ### The order of events -/

/-- The events `l` lie between `s` and `s'`, in order. -/
structure Between (s s' : Pass) (l : List Event) : Prop where
  /-- The second state is later than the first. -/
  grows : Grows s s'
  /-- The events are later than the first state. -/
  after : ∀ e ∈ l, Grows s e.pass
  /-- The events are earlier than the second state. -/
  before : ∀ e ∈ l, Grows e.pass s'
  /-- Each event is later than those in front of it. -/
  ordered : l.Pairwise fun e e' => Grows e.pass e'.pass

namespace Between

variable {s s' s'' : Pass} {l l' : List Event}

theorem append (h : Between s s' l) (h' : Between s' s'' l') : Between s s'' (l ++ l') := by
  refine ⟨h.grows.trans h'.grows, fun e he => ?_, fun e he => ?_, ?_⟩
  · rcases List.mem_append.mp he with he | he
    · exact h.after e he
    · exact h.grows.trans (h'.after e he)
  · rcases List.mem_append.mp he with he | he
    · exact (h.before e he).trans h'.grows
    · exact h'.before e he
  · refine List.pairwise_append.mpr ⟨h.ordered, h'.ordered, fun e he e' he' => ?_⟩
    exact (h.before e he).trans (h'.after e' he')

/-- Events that all show the second state. -/
theorem same (h : Grows s s') (hl : ∀ e ∈ l, e.pass = s') : Between s s' l := by
  refine ⟨h, fun e he => ?_, fun e he => ?_, ?_⟩
  · rw [hl e he]; exact h
  · rw [hl e he]; exact .refl _
  · refine List.pairwise_of_forall_mem_list fun e he e' he' => ?_
    rw [hl e he, hl e' he']
    exact .refl _

/-- The events of every step are in order. -/
theorem stepwise {env : Environment} : Stepwise env Between where
  append := append
  quiet hq := same hq.grows (by simp)
  mark _ := same (.refl _) (by simp)
  settle _ hn := same ⟨fun _ _ ho => progress?_remember_of_none hn ho _, List.prefix_refl _,
    List.prefix_refl _, List.prefix_refl _, .refl _⟩ (by simp)
  emit _ _ := same (emit_returns _ _ _).toGrows (by simp [Event.pass])
  ask {r site b s l} hr hn _ _ hl := by
    have henter : Between s (s.enter site) [.entered site b (s.enter site)] :=
      same (enter_grows hn) (by simp [Event.pass])
    refine henter.append (hl.append (same (ask_grows env hr site b s) fun e he => ?_))
    obtain ⟨statement, -, rfl⟩ := List.mem_map.mp he
    rfl

end Between

/-- The moments of a part of a pass are marks, unless a node is entered or a statement
emitted. -/
def Marked (env : Environment) (_ _ : Pass) (l : List Event) : Prop :=
  ∀ e ∈ l, e.Marks env ∨ (∃ site b s, e = .entered site b s) ∨
    ∃ site statement s, e = .emitted site statement s

theorem Marked.stepwise : Stepwise env (Marked env) where
  append h h' e he := (List.mem_append.mp he).elim (h e) (h' e)
  quiet _ e he := by cases he
  mark hm e he := by rw [List.mem_singleton.mp he]; exact .inl hm
  settle _ _ e he := by cases he
  emit _ _ e he := by
    rw [List.mem_singleton.mp he]
    exact .inr (.inr ⟨_, _, _, rfl⟩)
  ask _ _ _ _ hl e he := by
    rcases List.mem_cons.mp he with rfl | he
    · exact .inr (.inl ⟨_, _, _, rfl⟩)
    · rcases List.mem_append.mp he with he | he
      · exact hl e he
      · obtain ⟨statement, -, rfl⟩ := List.mem_map.mp he
        exact .inr (.inr ⟨_, _, _, rfl⟩)

/-! ### Whole passes -/

/-- A part of a pass whose steps start and end at rest: outputs are resolved one after
the other, the root document is made ready, diagnostics are reported. -/
inductive Session (env : Environment) : Pass → Pass → List Event → Prop where
  | nil (s : Pass) : Session env s s []
  /-- The root document is made ready. -/
  | root {s s' : Pass} {l : List Event} (h : Session env (s.root env).2 s' l) :
      Session env s s' (.rest (s.root env).2 :: l)
  /-- Something is reported, but not about a chain of outputs. -/
  | report {s s' : Pass} {l : List Event} (ds : List Diagnostic) (hds : ∀ d ∈ ds, d.Ordinary)
      (h : Session env (ds.foldl Pass.push s) s' l) :
      Session env s s' (.rest (ds.foldl Pass.push s) :: l)
  /-- An output is resolved. -/
  | resolve {s s' : Pass} {l : List Event} (stage : Stage) (scope : Scope) (node : NodeId)
      (output : String) (h : Session env (s.resolveFor env stage scope node output).2 s' l) :
      Session env s s' (s.traceFor env stage scope node output ++ l)

namespace AtRest

variable {s s' : Pass}

theorem of_prepared (h : AtRest s) (hp : Prepared s s') : AtRest s' :=
  ⟨hp.stack.trans h.stack, hp.scope.trans h.scope, hp.stage.trans h.stage⟩

theorem resolveFor (h : AtRest s) (env : Environment) (stage : Stage) (scope : Scope)
    (node : NodeId) (output : String) : AtRest (s.resolveFor env stage scope node output).2 := by
  have hr := resolve_returns env maxDepth ⟨scope, node, output, stage⟩ { s with stage }
  exact ⟨hr.stack.trans h.stack, hr.scope.trans h.scope, h.stage⟩

end AtRest

theorem resolveFor_stocked (h : Stocked env s) (stage : Stage) (scope : Scope) (node : NodeId)
    (output : String) :
    Stocked env (s.resolveFor env stage scope node output).2 :=
  (stocked_invariant env).steady.resolveFor (resolve_stocked env maxDepth) h stage scope node output

/-- A steady property lasts through a pass if resolving a site keeps it. -/
theorem Steady.session {I : Pass → Prop} (h : Steady env I)
    (hr : (Pass.resolve env maxDepth).Keeps I) {l : List Event} (hl : Session env s s' l) :
    I s → I s' := by
  induction hl with
  | nil s => exact id
  | root _ ih => exact fun hs => ih (h.root hs)
  | report ds _ _ ih => exact fun hs => ih (h.foldl_push ds hs)
  | resolve stage scope node output _ ih =>
    exact fun hs => ih (h.resolveFor hr hs stage scope node output)

namespace Segmental

variable {env : Environment} {P : Pass → Pass → List Event → Prop}

/-- An output that is resolved from outside of all nodes. -/
theorem resolveFor (h : Segmental env P) {s : Pass} (hs : Stocked env s) (hrest : AtRest s)
    (stage : Stage) (scope : Scope) (node : NodeId) (output : String) :
    P s (s.resolveFor env stage scope node output).2
      (s.traceFor env stage scope node output) := by
  have hseg := (h.nested maxDepth).segment ⟨scope, node, output, stage⟩ { s with stage }
    ⟨hs.instances, hs.scopes⟩ rfl (by simp [hrest.stack])
  have hback : P (resolve env maxDepth ⟨scope, node, output, stage⟩ { s with stage }).2
      (s.resolveFor env stage scope node output).2 [] := h.quiet (.stage _ s.stage)
  have hmark := h.mark (e := .rest (s.resolveFor env stage scope node output).2)
    (hrest.resolveFor env stage scope node output)
  have := h.append (h.quiet (.stage s stage)) (h.append hseg (h.append hback hmark))
  rwa [List.nil_append, List.nil_append] at this

/-- **What holds of every node that is asked holds of whole passes.** -/
theorem session (h : Segmental env P) {s s' : Pass} {l : List Event} (hl : Session env s s' l)
    (hs : Stocked env s) (hrest : AtRest s) : P s s' l := by
  induction hl with
  | nil s => exact h.refl s
  | @root s _ _ _ ih =>
    have hp := root_prepared env s
    have hr := hrest.of_prepared hp
    exact h.append (h.append (h.quiet hp.quiet) (h.mark (e := .rest _) hr))
      (ih (root_sound hs).1 hr)
  | @report s _ _ ds _ _ ih =>
    have hn := foldl_push_noted ds s
    have hr := hrest.of_prepared hn.prepared
    exact h.append (h.append (h.quiet hn.prepared.quiet) (h.mark (e := .rest _) hr))
      (ih (hs.of_same hn.instances hn.scopes hn.report) hr)
  | resolve stage scope node output _ ih =>
    exact h.append (h.resolveFor hs hrest stage scope node output)
      (ih (resolveFor_stocked hs stage scope node output)
        (hrest.resolveFor env stage scope node output))

end Segmental

theorem Session.grows {l : List Event} (hl : Session env s s' l) (hs : Stocked env s)
    (hrest : AtRest s) : Grows s s' :=
  (Between.stepwise.segmental.session hl hs hrest).grows

/-! ### The passes of compilations -/

/-- A pass that has not begun. -/
def Fresh (s : Pass) : Prop := ∃ declarations, s = { globals := { declarations } }

namespace Fresh

variable {s : Pass}

theorem atRest (h : Fresh s) : AtRest s := by
  obtain ⟨declarations, rfl⟩ := h
  exact ⟨rfl, rfl, rfl⟩

theorem stocked (h : Fresh s) (env : Environment) : Stocked env s := by
  obtain ⟨declarations, rfl⟩ := h
  exact ⟨by simp, by simp⟩

theorem progress? (h : Fresh s) (site : Site) : s.progress? site = none := by
  obtain ⟨declarations, rfl⟩ := h
  rfl

theorem faithful {env : Environment} (h : Fresh s) : Faithful env s := by
  obtain ⟨declarations, rfl⟩ := h
  exact .of_fresh ⟨rfl, rfl⟩

theorem report (h : Fresh s) : s.report = {} := by
  obtain ⟨declarations, rfl⟩ := h
  rfl

theorem statements (h : Fresh s) (stage : Stage) : s.statements stage = [] := by
  obtain ⟨declarations, rfl⟩ := h
  cases stage with
  | _ => rfl

theorem locals (h : Fresh s) : s.locals = 0 := by
  obtain ⟨declarations, rfl⟩ := h
  rfl

end Fresh

theorem pushFault_eq (s : Pass) (node : NodeId) (fault : Fault) :
    s.pushFault node fault = (Diagnostic.ofFault? node fault).toList.foldl Pass.push s := by
  unfold pushFault
  cases Diagnostic.ofFault? node fault with
  | none => rfl
  | some d => rfl

theorem ordinary_of_mem_ofFault? {node : NodeId} {fault : Fault} {d : Diagnostic}
    (h : d ∈ (Diagnostic.ofFault? node fault).toList) : d.Ordinary :=
  Diagnostic.ordinary_of_ofFault? (Option.mem_toList.mp h)

theorem reportFurther_eq (nodes : List (NodeId × Behavior)) (s : Pass) :
    s.reportFurther nodes = (nodes.map fun entry => Diagnostic.warning .validation entry.1
      "additional MaterialResult node is ignored").foldl Pass.push s := by
  unfold reportFurther
  rw [List.foldl_map]

theorem channelOutputs_eq (nodes : List (NodeId × Behavior)) :
    ∀ (taken : List Channel) (s : Pass),
      ∃ ds : List Diagnostic, (∀ d ∈ ds, d.concern.isRoutine = true) ∧
        (channelOutputs taken nodes s).2 = ds.foldl Pass.push s := by
  induction nodes with
  | nil => exact fun _ s => ⟨[], nofun, rfl⟩
  | cons node nodes ih =>
    obtain ⟨id, b⟩ := node
    intro taken s
    rw [channelOutputs]
    split
    · split
      · obtain ⟨ds, hds, h⟩ := ih taken (s.push _)
        exact ⟨_ :: ds, List.forall_mem_cons.mpr ⟨rfl, hds⟩, h⟩
      · exact ih _ s
    · exact ih taken s

namespace Session

variable {env : Environment}

theorem channels (env : Environment) (node : NodeId) (l : List (String × Wire)) :
    ∀ s : Pass, Session env s (writeChannels env node l s).2 (channelsTrace env node l s) := by
  induction l with
  | nil => exact fun s => .nil s
  | cons entry rest ih =>
    obtain ⟨input, wire⟩ := entry
    intro s
    rw [writeChannels, channelsTrace]
    cases Channel.ofKey? input with
    | none => exact ih s
    | some channel =>
      by_cases hw : wire.isConnected = true
      · have hs := ih (s.resolveFor env channel.stage [] node channel.key).2
        simp only [hw, if_true]
        refine .resolve channel.stage [] node channel.key ?_
        split
        · exact hs
        · exact hs
      · simp only [hw]
        exact ih s

/-- The outputs of a subgraph that name a channel. -/
theorem outputs (env : Environment) (l : List (NodeId × Channel)) :
    ∀ s : Pass, Session env s (writeOutputs env l s).2 (outputsTrace env l s) := by
  induction l with
  | nil => exact fun s => .nil s
  | cons entry rest ih =>
    obtain ⟨id, channel⟩ := entry
    intro s
    rw [writeOutputs, outputsTrace]
    rcases hr : s.resolveFor env channel.stage [] id valueOutput with ⟨o, s'⟩
    have step {s₂ : Pass} {l : List Event} (hs : Session env s' s₂ l) :
        Session env s s₂ (s.traceFor env channel.stage [] id valueOutput ++ l) := by
      refine .resolve channel.stage [] id valueOutput ?_
      rw [hr]
      exact hs
    refine step ?_
    cases o with
    | valid e =>
      simp only
      cases e.castTo env.types channel.type with
      | ok value => exact ih s'
      | error fault =>
        have hs := ih (s'.pushFault id fault)
        simp only
        rw [pushFault_eq] at hs ⊢
        exact .report _ (fun _ => ordinary_of_mem_ofFault?) hs
    | error text => exact ih s'
    | missingInput text => exact ih s'

theorem material (env : Environment) (s : Pass) :
    ∃ s', Session env (s.root env).2 s' (materialEvents env s) ∧
      ∀ ws p, s.materialWrites env = .ok (ws, p) → p = s' := by
  unfold materialEvents materialWrites
  cases hg : resultNodes (s.root env).1 with
  | nil =>
    simp only [hg]
    exact ⟨_, .nil _, fun ws p hp => by cases hp⟩
  | cons entry further =>
    have hs := channels env entry.1 entry.2.connections ((s.root env).2.reportFurther further)
    simp only [hg]
    refine ⟨_, ?_, fun ws p hp => (congrArg Prod.snd (Except.ok.inj hp)).symm⟩
    rw [reportFurther_eq] at hs ⊢
    refine .report _ (fun d hd => ?_) hs
    obtain ⟨node, -, rfl⟩ := List.mem_map.mp hd
    exact .of_concern nofun nofun

theorem subgraph (env : Environment) (s : Pass) :
    ∃ s', Session env (s.root env).2 s' (subgraphEvents env s) ∧
      ∀ ws p, s.subgraphWrites env = .ok (ws, p) → p = s' := by
  obtain ⟨ds, hroutine, hds⟩ := channelOutputs_eq (s.root env).1.behaviors [] (s.root env).2
  unfold subgraphEvents subgraphWrites
  rcases hc : channelOutputs [] (s.root env).1.behaviors (s.root env).2 with ⟨outputs, s'⟩
  rw [hc] at hds
  simp only [hc]
  cases outputs with
  | nil => exact ⟨_, .nil _, fun ws p hp => by cases hp⟩
  | cons output outputs =>
    have hs := Session.outputs env (output :: outputs) s'
    refine ⟨_, ?_, fun ws p hp => (congrArg Prod.snd (Except.ok.inj hp)).symm⟩
    simp only at hds ⊢
    rw [hds] at hs ⊢
    exact .report ds (fun d hd => .of_isRoutine (hroutine d hd)) hs

end Session

end Pass

namespace Compiler

open Pass

variable {c : Compiler} {d : Document} {o : Options} {result : Compilation}

/-- The pass that a compilation begins with. -/
theorem firstPass_fresh (blend : Blend) : Fresh (firstPass blend) := by
  unfold firstPass
  split
  · exact ⟨[], rfl⟩
  · exact ⟨_, rfl⟩

/-- What the draft of a material is made of. -/
theorem materialDraft_eq_ok {draft : Draft} (h : c.materialDraft d o = .ok draft) :
    ∃ ws, (if d.isSubgraph then (firstPass o.blend).subgraphWrites (c.environment o.mode d)
        else (firstPass o.blend).materialWrites (c.environment o.mode d)) =
          .ok (ws, draft.pass) ∧
      draft.purpose = .material ∧ draft.vertexEnd = writeLines .vertex ws ∧
      draft.pixelEnd = writeLines .pixel ws ++ [o.shading.line] := by
  -- the two ways to write are told apart first, because the rest of the draft is made in each
  by_cases hd : d.isSubgraph = true
  · simp only [materialDraft, hd, if_true] at h ⊢
    rcases hw : (firstPass o.blend).subgraphWrites (c.environment o.mode d) with _ | ⟨ws, p⟩
    · rw [hw] at h; cases h
    · rw [hw] at h; cases h; exact ⟨ws, rfl, rfl, rfl, rfl⟩
  · simp only [materialDraft, hd] at h ⊢
    rcases hw : (firstPass o.blend).materialWrites (c.environment o.mode d) with _ | ⟨ws, p⟩
    · rw [hw] at h; cases h
    · rw [hw] at h; cases h; exact ⟨ws, rfl, rfl, rfl, rfl⟩

theorem materialDraft_of_writes {ws : List Write} {s : Pass}
    (h : (if d.isSubgraph then (firstPass o.blend).subgraphWrites (c.environment o.mode d)
      else (firstPass o.blend).materialWrites (c.environment o.mode d)) = .ok (ws, s)) :
    c.materialDraft d o = .ok
      { purpose := .material, pass := s, vertexEnd := writeLines .vertex ws
        pixelEnd := writeLines .pixel ws ++ [o.shading.line] } := by
  unfold materialDraft
  by_cases hd : d.isSubgraph = true
  · rw [if_pos hd] at h ⊢
    rw [h]
    rfl
  · rw [if_neg hd] at h ⊢
    rw [h]
    rfl

theorem materialTrace_session (c : Compiler) (d : Document) (o : Options) :
    ∃ s', Session (c.environment o.mode d) (firstPass o.blend) s' (c.materialTrace d o) ∧
      ∀ draft, c.materialDraft d o = .ok draft → draft.pass = s' := by
  by_cases hd : d.isSubgraph = true
  · obtain ⟨s', hs, hp⟩ := Session.subgraph (c.environment o.mode d) (firstPass o.blend)
    refine ⟨s', ?_, fun draft hdraft => ?_⟩
    · simp only [materialTrace, hd, if_true]
      exact .report [] nofun (.root hs)
    · obtain ⟨ws, hw, -⟩ := materialDraft_eq_ok hdraft
      rw [if_pos hd] at hw
      exact hp ws _ hw
  · obtain ⟨s', hs, hp⟩ := Session.material (c.environment o.mode d) (firstPass o.blend)
    refine ⟨s', ?_, fun draft hdraft => ?_⟩
    · simp only [materialTrace, hd]
      exact .report [] nofun (.root hs)
    · obtain ⟨ws, hw, -⟩ := materialDraft_eq_ok hdraft
      rw [if_neg hd] at hw
      exact hp ws _ hw

theorem previewTrace_session (c : Compiler) (d : Document) (target : Wire) :
    Session (c.environment .preview d) {} (c.previewDraft d target).pass
      (c.previewTrace d target) := by
  refine .report [] nofun (.root (.resolve .pixel target.path target.node target.output ?_))
  have hend : ∃ ds : List Diagnostic, (∀ d ∈ ds, d.Ordinary) ∧
      (c.previewDraft d target).pass = ds.foldl Pass.push
        ((Pass.root (c.environment .preview d) {}).2.resolveFor (c.environment .preview d) .pixel
          target.path target.node target.output).2 := by
    unfold previewDraft
    simp only
    split
    · split
      · exact ⟨[], nofun, rfl⟩
      · refine ⟨[_], fun d hd => ?_, rfl⟩
        rw [List.mem_singleton.mp hd]
        exact .of_concern nofun nofun
    · exact ⟨[], nofun, rfl⟩
  obtain ⟨ds, hord, hds⟩ := hend
  rw [hds]
  exact .report ds hord (.nil _)

theorem compile_eq_ok (h : c.compile d o = .ok result) :
    ∃ t draft, c.materialDraft d o = .ok draft ∧ draft.compilation c.types o t = result := by
  unfold compile at h
  cases ht : o.templateOr .material with
  | error rejection => rw [ht] at h; cases h
  | ok t =>
    cases hd : c.materialDraft d o with
    | error rejection => rw [ht, hd] at h; cases h
    | ok draft =>
      rw [ht, hd] at h
      exact ⟨t, draft, rfl, Except.ok.inj h⟩

theorem preview_eq_ok {target : Wire} (h : c.preview d o target = .ok result) :
    ∃ t, (c.previewDraft d target).compilation c.types o t = result := by
  by_cases hconn : (!target.isConnected) = true
  · simp only [preview, hconn, if_true] at h
    cases h
  · by_cases hknown : (target.path.isEmpty && (d.find? target.node).isNone) = true
    · simp only [preview, hconn, hknown, if_true] at h
      cases h
    · simp only [preview, hconn, hknown] at h
      cases ht : o.templateOr .preview with
      | error rejection => rw [ht] at h; cases h
      | ok t =>
        rw [ht] at h
        exact ⟨t, Except.ok.inj h⟩

/-- Every trace is that of a pass from its beginning. -/
theorem IsTrace.session {l : List Event} (h : c.IsTrace d l) :
    ∃ mode s s', Fresh s ∧ Session (c.environment mode d) s s' l := by
  rcases h with ⟨o, rfl⟩ | ⟨target, rfl⟩
  · obtain ⟨s', hs, -⟩ := materialTrace_session c d o
    exact ⟨o.mode, _, s', firstPass_fresh o.blend, hs⟩
  · exact ⟨.preview, {}, _, ⟨[], rfl⟩, previewTrace_session c d target⟩

end Compiler

end MaterialGraph
