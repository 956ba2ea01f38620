import MaterialGraph.Proofs.Builtin
import MaterialGraph.Proofs.Naming
import MaterialGraph.Proofs.Writing

/-!
# Disciplines of a pass

A *discipline* gives the world of every state of a pass, and says what holds of its
statements and tables. If every plan meets every world, and the few steps that register
something or emit statements keep what holds of them, then whatever the discipline
promises holds throughout the pass. This is proved here once for all disciplines.

Many disciplines only need to know what the names of globals have in common. For these
it is also proved here that registrations keep it.

## Main definitions

* `Discipline`, `Discipline.Inv` — the worlds of a pass, and what holds in it.
* `Discipline.Holds` — what holds at a moment of a pass.
* `Discipline.Kept` — what each step must keep.
* `Discipline.Idle` — a pass at rest that keeps a discipline.
* `Discipline.ByName` — disciplines to which only the names of globals matter.

## Main results

* `Discipline.ByName.register` — registrations keep such disciplines.
* `Discipline.Kept.run` — plans that meet every world keep the discipline.
* `Discipline.Kept.resolve` — so it is kept while a site is resolved.
* `Discipline.Kept.session` — and in whole passes.
* `Discipline.Idle.fit` — so every channel is given a good value, or the cause has been reported.
-/

namespace MaterialGraph

/-! ### Disciplines -/

/-- The worlds of a pass, and what holds of the tables and of the statements. -/
structure Discipline where
  /-- The world of a state, for what is used in a stage. -/
  world : Stage → Pass → World
  tables : Globals → Prop
  extra : Pass → Prop

/-- The statement declares the variable of the given index and is made of good texts. -/
def World.Admits (W : World) (types : TypeTable) (index : Nat) : Statement → Prop
  | .assign type n code => (∃ t, type = types.name t) ∧ n = index ∧ W.text code
  | .select type n combo on off =>
    (∃ t, type = types.name t) ∧ n = index ∧ (∃ f, W.feature f ∧ combo = f.combo) ∧
      W.text on ∧ W.text off

/-- There are no names in the tables of a pass that has not begun. -/
theorem Pass.Fresh.named {s : Pass} (h : Fresh s) (N : String → Prop) : s.globals.Named N := by
  obtain ⟨declarations, rfl⟩ := h
  exact ⟨by simp, by simp⟩

namespace Discipline

open Pass

/-- What a discipline makes sure of in a pass. -/
structure Inv (D : Discipline) (s : Pass) : Prop where
  extra : D.extra s
  tables : D.tables s.globals
  /-- The remembered outcomes are good. -/
  memo : ∀ site o, s.progress? site = some (.finished o) → (D.world site.stage s).Good o

theorem Inv.of_fresh {D : Discipline} {s : Pass} (h : Fresh s) (he : D.extra s)
    (ht : D.tables s.globals) : D.Inv s := by
  refine ⟨he, ht, fun site o ho => ?_⟩
  rw [h.progress?] at ho
  cases ho

/-- What holds at a moment of a pass. -/
def Holds (D : Discipline) : Event → Prop
  | .performed c _ reply s => D.Inv s ∧ (D.world s.stage s).Answers c reply
  | .returned site _ o s => D.Inv s ∧ (D.world site.stage s).Good o
  | e => D.Inv e.pass

theorem Holds.inv {D : Discipline} {e : Event} (h : D.Holds e) : D.Inv e.pass := by
  cases e with
  | performed c s reply s' => exact h.1
  | returned site s o s' => exact h.1
  | _ => exact h

/-- What every step must keep. -/
structure Kept (D : Discipline) (env : Environment) : Prop where
  /-- Texts can be put together. -/
  closed : ∀ stage s, (D.world stage s).Closed env.types
  mono : ∀ {s s'}, Grows s s' → ∀ stage, (D.world stage s).Le (D.world stage s')
  /-- Where an error has been reported, outputs may be without value. -/
  lost : ∀ {s : Pass}, s.report.hasErrors = true → ∀ stage, (D.world stage s).lost
  register : ∀ {s : Pass} {c : Command}, D.Inv s → c.Registers → (D.world s.stage s).Asks c →
    ∀ r, D.tables (s.perform env r c).2.globals ∧
      (D.world s.stage (s.perform env r c).2).Answers c (s.perform env r c).1
  /-- Later moments with the same statements. -/
  same : ∀ {s s' : Pass}, D.extra s → Grows s s' → s'.vertex = s.vertex → s'.pixel = s.pixel →
    s'.locals = s.locals → D.extra s'
  /-- New statements. -/
  emit : ∀ {s statement}, D.extra s → (D.world s.stage s).Admits env.types s.locals statement →
    D.extra { s.emit statement with locals := s.locals + 1 } ∧
      (D.world s.stage { s.emit statement with locals := s.locals + 1 }).text (localName s.locals)
  /-- The plans of the nodes. -/
  plans : ∀ {b}, env.Offers b → b.errors = [] → ∀ {stage s W}, W.Closed env.types →
    (D.world stage s).Le W → ∀ frame output, frame.types = env.types →
    (b.plan frame output).Meets W selectionLast W.Value

/-- A resolver that keeps the discipline, with its trace. -/
structure Sound (D : Discipline) (env : Environment) (r : Resolver)
    (nested : Site → Pass → List Event) : Prop where
  returning : r.Returning
  stocking : r.Stocking env
  /-- What is kept while a site is resolved. -/
  keeps : ∀ site s, Stocked env s → site.stage = s.stage → D.Inv s →
    D.Inv (r site s).2 ∧ (D.world site.stage (r site s).2).Good (r site s).1 ∧
      ∀ e ∈ nested site s, D.Holds e

namespace Kept

variable {D : Discipline} {env : Environment} {s s' : Pass} {site : Site} {c : Command}
  {o : Outcome} {r : Resolver} {nested : Site → Pass → List Event}

/-- A step that leaves the memo alone and keeps what holds of statements and tables. -/
theorem inv_memo (K : D.Kept env) (h : D.Inv s) (hg : Grows s s') (hm : s'.memo = s.memo)
    (he : D.extra s') (ht : D.tables s'.globals) : D.Inv s' := by
  refine ⟨he, ht, fun site o ho => ?_⟩
  have hpr : s'.progress? site = s.progress? site := by
    unfold progress?
    rw [hm]
  rw [hpr] at ho
  exact (K.mono hg site.stage).good (h.memo site o ho)

/-- A step that leaves memo, statements and tables alone. -/
theorem inv_same (K : D.Kept env) (h : D.Inv s) (hg : Grows s s') (hm : s'.memo = s.memo)
    (hv : s'.vertex = s.vertex) (hp : s'.pixel = s.pixel) (hl : s'.locals = s.locals)
    (hgl : s'.globals = s.globals) : D.Inv s' :=
  K.inv_memo h hg hm (K.same h.extra hg hv hp hl) (hgl ▸ h.tables)

theorem inv_prepared (K : D.Kept env) (h : D.Inv s) (hp : Prepared s s') :
    D.Inv s' :=
  K.inv_same h hp.returns.toGrows hp.memo hp.vertex hp.pixel hp.locals hp.globals

theorem inv_push (K : D.Kept env) (h : D.Inv s) (d : Diagnostic) :
    D.Inv (s.push d) :=
  K.inv_prepared h (.push s d)

theorem place_grows (s : Pass) (stack : List Site) (scope : Scope) (stage : Stage) :
    Grows s { s with stack, scope, stage } :=
  ⟨fun _ _ h => h, List.prefix_refl _, List.prefix_refl _, List.prefix_refl _, .refl _⟩

/-- Another place in the same pass. -/
theorem inv_place (K : D.Kept env) (h : D.Inv s) (stack : List Site) (scope : Scope)
    (stage : Stage) : D.Inv { s with stack, scope, stage } :=
  K.inv_same h (place_grows s stack scope stage) rfl rfl rfl rfl rfl

theorem remember_grows (p : Progress) (h : ∀ o, s.progress? site ≠ some (.finished o)) :
    Grows s (s.remember site p) := by
  refine ⟨fun other o ho => ?_, List.prefix_refl _, List.prefix_refl _, List.prefix_refl _,
    .refl _⟩
  have hne : site ≠ other := by
    rintro rfl
    exact h o ho
  rw [progress?_remember, if_neg hne]
  exact ho

/-- A site whose outcome is remembered for the first time. -/
theorem inv_remember (K : D.Kept env) (h : D.Inv s)
    (hn : ∀ o, s.progress? site ≠ some (.finished o)) {p : Progress}
    (hp : ∀ o, p = .finished o → (D.world site.stage s).Good o) :
    D.Inv (s.remember site p) := by
  have hg := remember_grows p hn
  refine ⟨K.same h.extra hg rfl rfl rfl, h.tables, fun other o ho => ?_⟩
  rw [progress?_remember] at ho
  split at ho
  · next heq =>
    subst heq
    exact (K.mono hg _).good (hp o (Option.some.inj ho))
  · exact (K.mono hg _).good (h.memo other o ho)

theorem inv_enter (K : D.Kept env) (h : D.Inv s) (hn : s.progress? site = none) :
    D.Inv (s.enter site) := by
  have hr : D.Inv (s.remember site .started) :=
    K.inv_remember h (fun o => by rw [hn]; simp) (fun o ho => by cases ho)
  exact K.inv_place hr (site :: s.stack) site.scope s.stage

/-! ### Steps that add something -/

theorem registered (K : D.Kept env) (h : D.Inv s) (r : Resolver) (hc : c.Registers)
    (ha : (D.world s.stage s).Asks c) :
    D.Inv (s.perform env r c).2 ∧
      (D.world s.stage (s.perform env r c).2).Answers c (s.perform env r c).1 := by
  obtain ⟨ht, hans⟩ := K.register h hc ha r
  have hb := register_booked env r hc s
  have hq := hb.quiet
  exact ⟨K.inv_memo h hq.grows hq.memo
    (K.same h.extra hq.grows hq.vertex hq.pixel hq.locals) ht, hans⟩

/-- A new variable. -/
theorem emitted (K : D.Kept env) (h : D.Inv s) (statement : Statement)
    (ha : (D.world s.stage s).Admits env.types s.locals statement) :
    D.Inv { s.emit statement with locals := s.locals + 1 } ∧
      ∀ e : Expr, e.code = localName s.locals →
        (D.world s.stage { s.emit statement with locals := s.locals + 1 }).Value e := by
  obtain ⟨hextra, htext⟩ := K.emit h.extra ha
  have hsame : (s.emit statement).memo = s.memo ∧ (s.emit statement).globals = s.globals := by
    obtain ⟨v, p, he⟩ := s.emit_eq statement
    rw [he]
    exact ⟨rfl, rfl⟩
  refine ⟨K.inv_memo h (emit_returns s statement _).toGrows hsame.1 hextra (hsame.2 ▸ h.tables), ?_⟩
  intro e he
  refine ⟨he ▸ htext, fun _ _ => .inr ?_⟩
  rw [he]
  exact isReference_localName _

/-! ### Looking a site up -/

theorem arrive (K : D.Kept env) {a : Arrival} (ha : Arrives env site s a s') (hs : Stocked env s)
    (h : D.Inv s) :
    D.Inv s' ∧ ∀ o, a = .settled o → (D.world site.stage s').Good o := by
  have hf {x : Except Fault Instance} {s₁ : Pass} (hx : s.follow env site.scope = (x, s₁)) :
      D.Inv s₁ ∧ Reached env s₁ x := by
    have hr := (follow_sound site.scope hs).2
    rw [hx] at hr
    exact ⟨K.inv_prepared h (Arrives.prepared_of_follow hx), hr⟩
  cases ha with
  | known o hk => exact ⟨h, fun o' ho => by cases ho; exact h.memo site o hk⟩
  | cycle hc =>
    refine ⟨K.inv_push h _, fun o ho => ?_⟩
    cases ho
    exact K.lost (Report.hasErrors_push_fatal _ _ _ _) _
  | recursive chain s' hn hx =>
    obtain ⟨hi, hr⟩ := hf hx
    refine ⟨hi, fun o ho => ?_⟩
    cases ho
    exact K.lost (hr.resolve_left id) _
  | stray fault s₁ hn hx | missing g s₁ hn hx hg =>
    refine ⟨K.inv_push (hf hx).1 _, fun o ho => ?_⟩
    cases ho
    exact K.lost (Report.hasErrors_push_error _ _ _ _) _
  | broken g s' message hn hx hg =>
    obtain ⟨hi, hr⟩ := hf hx
    refine ⟨hi, fun o ho => ?_⟩
    cases ho
    exact K.lost (Instance.Sound.state? hr hg) _
  | faulty g s₁ b message rest hn hx hg he =>
    obtain ⟨hi, hr⟩ := hf hx
    have hn' : s₁.progress? site = none := by
      rw [(Arrives.prepared_of_follow hx).progress?, hn]
    -- the errors were reported when the document was made ready
    have herr : s₁.report.hasErrors = true :=
      (Instance.Sound.state? hr hg).2 (by rw [he]; simp)
    refine ⟨K.inv_remember hi (fun o => by rw [hn']; simp) fun o ho => ?_, fun o ho => ?_⟩
    · cases ho
      exact K.lost herr _
    · cases ho
      exact K.lost (s := s₁.remember site _) herr _
  | node g s' b hn hx hg he => exact ⟨(hf hx).1, fun o ho => by cases ho⟩

/-! ### Requests -/

/-- The outcome of what a request demands is a good answer if it is good. -/
theorem answers_deliver? {W : World} {reply : c.Reply}
    (hc : ∀ input wire, c = .read input wire → wire.isConnected = true) (ho : W.Good o)
    (hd : c.deliver? o = some reply) : W.Answers c reply := by
  cases c with
  | read input wire =>
    cases hd
    show W.Reads input wire o
    rw [World.Reads, if_pos (hc input wire rfl)]
    exact ho
  | own output => cases hd; exact ho
  | call output => cases hd; exact ho.toExpr output
  | argument name =>
    cases hd
    intro o' h
    cases h
    exact ho
  | _ => cases hd

/-- A request that has a site resolved. -/
theorem perform_demanded (K : D.Kept env) (hr : D.Sound env r nested) {s₁ : Pass}
    (hd : demand? env c s = some (site, s₁)) (hs : Stocked env s) (h : D.Inv s) :
    D.Inv (s.perform env r c).2 ∧
      (D.world s.stage (s.perform env r c).2).Answers c (s.perform env r c).1 ∧
      ∀ e ∈ nested site s₁, D.Holds e := by
  obtain ⟨reply, scope, hdel, he, -⟩ := perform_of_demand? r hd
  obtain ⟨hstage, s₀, here, hf, rfl⟩ := demand?_place hd
  have hs₀ := hf.stocked hs
  have hk := hr.keeps site { s₀ with scope := here } ⟨hs₀.instances, hs₀.scopes⟩ hstage
    (K.inv_place (K.inv_prepared h hf.prepared) s₀.stack here s₀.stage)
  rcases hx : r site { s₀ with scope := here } with ⟨o, s₂⟩
  rw [hx] at hk he hdel
  obtain ⟨hi, hgood, hev⟩ := hk
  rw [show site.stage = s.stage from hstage.trans hf.prepared.stage] at hgood
  have hgood' := (K.mono (place_grows s₂ s₂.stack scope s₂.stage) s.stage).good hgood
  rw [he]
  refine ⟨K.inv_place hi s₂.stack scope s₂.stage, ?_, hev⟩
  refine answers_deliver? (fun input wire hc => ?_) hgood' hdel
  subst hc
  rw [demand?] at hd
  split at hd
  · assumption
  · cases hd

/-- A call that does not reach an output of its document. -/
theorem callOutput_undemanded (K : D.Kept env) {output : String}
    (hd : demand? env (.call output) s = none) (hs : Stocked env s) (h : D.Inv s) :
    D.Inv (s.callOutput env r output).2 ∧
      (D.world s.stage (s.callOutput env r output).2).Yields
        (D.world s.stage (s.callOutput env r output).2).Value (s.callOutput env r output).1 := by
  obtain ⟨fault, s₁, he, hf, hfault⟩ := callOutput_of_no_demand r hd
  rw [he]
  refine ⟨K.inv_prepared h hf.prepared, ?_⟩
  rcases hfault with ⟨text, rfl⟩ | rfl | ⟨path, hx⟩
  · exact .inl trivial
  · exact .inl trivial
  · have hr := (follow_sound path hs).2
    rw [hx] at hr
    exact hr.imp_right fun herr => K.lost herr _

/-- A request that has no site resolved. -/
theorem perform_undemanded (K : D.Kept env) (hd : demand? env c s = none) (hs : Stocked env s)
    (hst : s.stack ≠ []) (h : D.Inv s) (ha : (D.world s.stage s).Asks c) :
    D.Inv (s.perform env r c).2 ∧
      (D.world s.stage (s.perform env r c).2).Answers c (s.perform env r c).1 := by
  cases c with
  | read input wire =>
    have hw := demand?_read_eq_none hd
    have he : s.perform env r (.read input wire) = (.missingInput input, s) := if_neg hw
    rw [he]
    refine ⟨h, ?_⟩
    show World.Reads _ input wire (.missingInput input)
    rw [World.Reads, if_neg hw]
  | own output => exact absurd (demand?_own_eq_none hd) hst
  | call output => exact K.callOutput_undemanded hd hs h
  | argument name =>
    obtain ⟨s₁, he, hf⟩ := readArgument_of_no_demand r hd
    rw [show s.perform env r (.argument name) = _ from he]
    exact ⟨K.inv_prepared h hf.prepared, fun o ho => by cases ho⟩
  | warn message => exact ⟨K.inv_push h _, trivial⟩
  | reportMissing input =>
    exact ⟨K.inv_push h _, K.lost (Report.hasErrors_push_error _ _ _ _) _⟩
  | note remark =>
    exact ⟨K.inv_same h ⟨fun _ _ h => h, List.prefix_refl _, List.prefix_refl _,
      List.prefix_refl _, .refl _⟩ rfl rfl rfl rfl rfl, trivial⟩
  | select feature type on off =>
    obtain ⟨hi, hv⟩ := K.emitted h (.select (env.types.name type) s.locals feature.combo on.code
      off.code) ⟨⟨type, rfl⟩, rfl, ⟨feature, ha.1, rfl⟩, ha.2⟩
    exact ⟨hi, hv _ rfl⟩
  | _ => exact K.registered h r trivial ha

/-- A request, whatever it needs. -/
theorem perform (K : D.Kept env) (hr : D.Sound env r nested) (site : Site) (hs : Stocked env s)
    (hst : s.stack ≠ []) (h : D.Inv s) (ha : (D.world s.stage s).Asks c) :
    D.Inv (s.perform env r c).2 ∧
      (D.world s.stage (s.perform env r c).2).Answers c (s.perform env r c).1 ∧
      ∀ e ∈ (match demand? env c s with
        | some (site', s') => nested site' s'
        | none => (added s (s.perform env r c).2).map
            (.emitted site · (s.perform env r c).2)), D.Holds e := by
  rcases hd : demand? env c s with _ | ⟨site', s'⟩
  · obtain ⟨hi, hans⟩ := K.perform_undemanded hd hs hst h ha
    refine ⟨hi, hans, fun e he => ?_⟩
    obtain ⟨statement, -, rfl⟩ := List.mem_map.mp he
    exact hi
  · exact K.perform_demanded hr hd hs h

/-- A plan that meets every world from now on. -/
theorem run (K : D.Kept env) (hr : D.Sound env r nested) (site : Site) {α : Type}
    {ends : Expr → Plan α → Prop} {Q : World → α → Prop} (plan : Plan α) :
    ∀ s : Pass, Stocked env s → s.stack ≠ [] → D.Inv s →
      (∀ W : World, W.Closed env.types → (D.world s.stage s).Le W → plan.Meets W ends (Q W)) →
      D.Inv (Pass.run env r plan s).2 ∧
        (D.world s.stage (Pass.run env r plan s).2).Yields
          (Q (D.world s.stage (Pass.run env r plan s).2)) (Pass.run env r plan s).1 ∧
        ∀ e ∈ runTrace env r nested site plan s, D.Holds e := by
  induction plan with
  | done a | fail fault =>
    intro s hs hst h hp
    exact ⟨h, hp _ (K.closed _ _) (.refl _), fun e he => by cases he⟩
  | ask c next ih =>
    intro s hs hst h hp
    have ha := (hp _ (K.closed s.stage s) (.refl _)).1
    obtain ⟨hi, hans, hev⟩ := K.perform hr site hs hst h ha
    have hret := perform_returns env hr.returning c s
    have hnext := ih (s.perform env r c).1 (s.perform env r c).2 (perform_stocked hr.stocking c hs)
      (by rw [hret.stack]; exact hst) hi (fun W hW hle => by
        -- what was good before the request is good after it
        rw [hret.stage] at hle
        exact (hp W hW ((K.mono hret.toGrows s.stage).trans hle)).2.2 _ (hle.answers hans))
    rw [hret.stage] at hnext
    obtain ⟨hi', hy, hev'⟩ := hnext
    refine ⟨hi', hy, fun e he => ?_⟩
    rcases List.mem_append.mp he with he | he
    · exact hev e he
    · rcases List.mem_cons.mp he with rfl | he
      · refine ⟨hi, ?_⟩
        rw [hret.stage]
        exact hans
      · exact hev' e he

/-! ### Nodes -/

theorem pushFault_lost (K : D.Kept env) {stage : Stage} {fault : Fault}
    (hf : (D.world stage s).Fault fault) (node : NodeId) :
    (D.world stage (s.pushFault node fault)).lost := by
  rcases hf with hf | hf
  · refine K.lost ?_ _
    cases fault with
    | brokenInput input => exact hf.elim
    | cycle chain => exact hf.elim
    | duplicateName name => exact Report.hasErrors_push_fatal _ _ _ _
    | _ => exact Report.hasErrors_push_error _ _ _ _
  · exact (K.mono (pushFault_booked s node fault).returns.toGrows stage).lost hf

/-- A node's value in its place, or its fault reported. -/
theorem conclude (K : D.Kept env) (h : D.Inv s) {stage : Stage} (hst : s.stage = stage)
    {result : Except Fault Expr} (hy : (D.world stage s).Yields (D.world stage s).Value result)
    (node : NodeId) (role : Role) :
    D.Inv (Pass.conclude env node role result s).2 ∧
      (D.world stage (Pass.conclude env node role result s).2).Good
        (Pass.conclude env node role result s).1 := by
  subst hst
  rcases conclude_cases env node role result s with
    ⟨e, rfl, -, he⟩ | ⟨e, rfl, -, he⟩ | ⟨fault, rfl, he⟩
  · rw [he]
    exact ⟨h, hy⟩
  · rw [he]
    obtain ⟨hi, hv⟩ := K.emitted h (.assign (env.types.name e.type) s.locals e.code)
      ⟨⟨e.type, rfl⟩, rfl, hy.1⟩
    exact ⟨hi, hv _ rfl⟩
  · rw [he]
    have hnoted := foldl_push_noted (Diagnostic.ofFault? node fault).toList s
    rw [← pushFault_eq] at hnoted
    refine ⟨K.inv_prepared h hnoted.prepared, ?_⟩
    have hlost := K.pushFault_lost hy node
    cases fault with
    | _ => exact hlost

theorem ask (K : D.Kept env) (hr : D.Sound env r nested) {b : Behavior} (hs : Stocked env s)
    (hb : env.Offers b) (he : b.errors = []) (hn : s.progress? site = none)
    (hstage : site.stage = s.stage) (h : D.Inv s) :
    D.Inv (s.ask env r site b).2 ∧
      (D.world site.stage (s.ask env r site b).2).Good (s.ask env r site b).1 ∧
      ∀ e ∈ nodeTrace env r nested site b s, D.Holds e := by
  have hin := K.inv_enter h hn
  obtain ⟨hi, hy, hev⟩ := K.run hr site (b.plan (frame env site) site.output)
    (s.enter site) ⟨hs.instances, hs.scopes⟩ (by simp [enter]) hin
    (Q := fun W => W.Value) (fun W hW hle => K.plans hb he hW hle (frame env site) site.output rfl)
  have hret := run_returns env hr.returning (b.plan (frame env site) site.output) (s.enter site)
  have hst : (carryOut env r site b s).2.stage = site.stage := hret.stage.trans hstage.symm
  rw [show (s.enter site).stage = site.stage from hstage.symm] at hy
  -- back at the place where the output was asked for
  have hle := K.mono (place_grows (carryOut env r site b s).2 s.stack s.scope
    (carryOut env r site b s).2.stage) site.stage
  obtain ⟨hc, hgood⟩ := K.conclude
    (K.inv_place hi s.stack s.scope (carryOut env r site b s).2.stage) hst
    (hle.yields (fun _ => hle.value) hy) site.node b.role
  -- the outcome is the first one for the site: until now it was only started
  have hnot : ∀ o, (outcomeOf env r site b s).2.progress? site ≠ some (.finished o) := by
    intro o
    have hp : (outcomeOf env r site b s).2.progress? site = some .started := by
      unfold progress? outcomeOf
      rw [conclude_memo]
      exact carryOut_started env hr.returning site b s
    rw [hp]
    simp
  have hend : D.Inv (s.ask env r site b).2 :=
    K.inv_remember hc hnot fun o ho => by cases ho; exact hgood
  refine ⟨hend, (K.mono (remember_grows _ hnot) _).good hgood, fun e he => ?_⟩
  rcases List.mem_cons.mp he with rfl | he
  · exact hin
  · rcases List.mem_append.mp he with he | he
    · exact hev e he
    · obtain ⟨statement, -, rfl⟩ := List.mem_map.mp he
      exact hend

/-- A site that is settled before a node is asked. -/
theorem settled (K : D.Kept env) (ha : s.arrive env site = (.settled o, s')) (hs : Stocked env s)
    (h : D.Inv s) :
    D.Inv s' ∧ (D.world site.stage s').Good o := by
  have harr := arrive_arrives env site s
  rw [ha] at harr
  obtain ⟨hi, hgood⟩ := K.arrive harr hs h
  exact ⟨hi, hgood o rfl⟩

/-- The events of a resolved site: those in between, and that it is asked for and answered. -/
theorem holds_around {l : List Event} (h : D.Inv s) (h' : D.Inv s')
    (ho : (D.world site.stage s').Good o) (hl : ∀ e ∈ l, D.Holds e) :
    ∀ e ∈ .asked site s :: (l ++ [.returned site s o s']), D.Holds e := by
  intro e he
  rcases List.mem_cons.mp he with rfl | he
  · exact h
  · rcases List.mem_append.mp he with he | he
    · exact hl e he
    · rw [List.mem_singleton] at he
      subst he
      exact ⟨h', ho⟩

/-- **A discipline that every step keeps is kept while a site is resolved.** -/
theorem resolve (K : D.Kept env) (room : Nat) :
    D.Sound env (Pass.resolve env room) (trace env room) := by
  refine ⟨resolve_returns env room, resolve_stocked env room, ?_⟩
  induction room with
  | zero =>
    intro site s hs hstage h
    have key : D.Inv (Pass.resolve env 0 site s).2 ∧
        (D.world site.stage (Pass.resolve env 0 site s).2).Good (Pass.resolve env 0 site s).1 := by
      rw [Pass.resolve]
      split
      · next ha => exact K.settled ha hs h
      · next b s' ha =>
        -- there is no room for the node, which is reported
        have harr := arrive_arrives env site s
        rw [ha] at harr
        exact ⟨K.inv_push (K.arrive harr hs h).1 _,
          K.lost (Report.hasErrors_push_fatal _ _ _ _) _⟩
    exact ⟨key.1, key.2, holds_around (l := []) h key.1 key.2 (by simp)⟩
  | succ room ih =>
    intro site s hs hstage h
    have harr := arrive_arrives env site s
    rcases ha : s.arrive env site with ⟨o | b, s'⟩
    · have hr : Pass.resolve env (room + 1) site s = (o, s') := by rw [Pass.resolve, ha]
      obtain ⟨hi, hgood⟩ := K.settled ha hs h
      rw [trace, ha, hr]
      exact ⟨hi, hgood, holds_around (l := []) h hi hgood (by simp)⟩
    · have hr : Pass.resolve env (room + 1) site s =
          s'.ask env (Pass.resolve env room) site b := by rw [Pass.resolve, ha]
      rw [ha] at harr
      obtain ⟨hb, he⟩ := harr.offered hs
      obtain ⟨hi, hgood, hev⟩ := K.ask
        ⟨resolve_returns env room, resolve_stocked env room, ih⟩ (harr.stocked hs) hb he
        harr.progress?_eq_none (hstage.trans harr.returns.stage.symm) (K.arrive harr hs h).1
      rw [trace, ha, hr]
      exact ⟨hi, hgood, holds_around h hi hgood hev⟩

/-- An output that is resolved from outside of all nodes. -/
theorem resolveFor (K : D.Kept env) (hs : Stocked env s) (h : D.Inv s) (stage : Stage)
    (scope : Scope) (node : NodeId) (output : String) :
    D.Inv (s.resolveFor env stage scope node output).2 ∧
      (D.world stage (s.resolveFor env stage scope node output).2).Good
        (s.resolveFor env stage scope node output).1 ∧
      ∀ e ∈ s.traceFor env stage scope node output, D.Holds e := by
  obtain ⟨hi, hgood, hev⟩ := (K.resolve maxDepth).keeps ⟨scope, node, output, stage⟩
    { s with stage } ⟨hs.instances, hs.scopes⟩ rfl (K.inv_place h s.stack s.scope stage)
  rcases hx : Pass.resolve env maxDepth ⟨scope, node, output, stage⟩ { s with stage }
    with ⟨o, s₂⟩
  have he : s.resolveFor env stage scope node output = (o, { s₂ with stage := s.stage }) := by
    simp only [Pass.resolveFor, hx]
  rw [hx] at hi hgood
  have hend := K.inv_place hi s₂.stack s₂.scope s.stage
  rw [traceFor, he]
  refine ⟨hend, (K.mono (place_grows s₂ s₂.stack s₂.scope s.stage) stage).good hgood,
    fun e he => ?_⟩
  rcases List.mem_append.mp he with he | he
  · exact hev e he
  · rw [List.mem_singleton] at he
    subst he
    exact hend

/-- **A discipline that every step keeps is kept in whole passes.** -/
theorem session (K : D.Kept env) {l : List Event} (hl : Session env s s' l) (hs : Stocked env s)
    (h : D.Inv s) : D.Inv s' ∧ ∀ e ∈ l, D.Holds e := by
  induction hl with
  | nil s => exact ⟨h, by simp⟩
  | @root s _ _ _ ih =>
    have hi := K.inv_prepared h (root_prepared env s)
    obtain ⟨h', hev⟩ := ih (root_sound hs).1 hi
    exact ⟨h', List.forall_mem_cons.mpr ⟨hi, hev⟩⟩
  | @report s _ _ ds _ _ ih =>
    have hn := foldl_push_noted ds s
    have hi := K.inv_prepared h hn.prepared
    obtain ⟨h', hev⟩ := ih (hs.of_same hn.instances hn.scopes hn.report) hi
    exact ⟨h', List.forall_mem_cons.mpr ⟨hi, hev⟩⟩
  | resolve stage scope node output _ ih =>
    obtain ⟨hi, -, hev⟩ := K.resolveFor hs h stage scope node output
    obtain ⟨h', hev'⟩ := ih (resolveFor_stocked hs stage scope node output) hi
    refine ⟨h', fun e he => ?_⟩
    rcases List.mem_append.mp he with he | he
    · exact hev e he
    · exact hev' e he

end Kept

/-! ### What is written -/

/-- A pass at rest that keeps a discipline. -/
structure Idle (D : Discipline) (env : Environment) (s : Pass) : Prop where
  stocked : Stocked env s
  rest : AtRest s
  inv : D.Inv s

namespace Idle

variable {D : Discipline} {env : Environment} {s : Pass}

theorem root (K : D.Kept env) (h : D.Idle env s) : D.Idle env (s.root env).2 := by
  have hp := root_prepared env s
  exact ⟨(root_sound h.stocked).1, h.rest.of_prepared hp, K.inv_prepared h.inv hp⟩

theorem remarks (K : D.Kept env) (h : D.Idle env s) (ds : List Diagnostic) :
    D.Idle env (ds.foldl Pass.push s) := by
  have hn := foldl_push_noted ds s
  exact ⟨h.stocked.of_same hn.instances hn.scopes hn.report, h.rest.of_prepared hn.prepared,
    K.inv_prepared h.inv hn.prepared⟩

theorem grows (h : D.Idle env s) (sources : List Write.Source) :
    Grows s (writeSources env sources s).2 := by
  obtain ⟨l, hl⟩ := Session.sources env sources s
  exact hl.grows h.stocked h.rest

/-- A channel is given a good value, or the cause has been reported. -/
theorem fit (K : D.Kept env) (h : D.Idle env s) {source : Write.Source} {x : Option Write × Pass}
    (hx : Pass.fit env source
      (s.resolveFor env source.channel.stage [] source.node source.output) = x) :
    D.Idle env x.2 ∧
      (∀ w, x.1 = some w →
        w.channel = source.channel ∧ (D.world source.channel.stage x.2).Value w.value) ∧
      (x.1 = none → (D.world source.channel.stage x.2).lost) := by
  have hstock := resolveFor_stocked h.stocked source.channel.stage [] source.node source.output
  have hrest := h.rest.resolveFor env source.channel.stage [] source.node source.output
  obtain ⟨hi, hgood, -⟩ :=
    K.resolveFor h.stocked h.inv source.channel.stage [] source.node source.output
  rcases hr : s.resolveFor env source.channel.stage [] source.node source.output with ⟨o, s'⟩
  rw [hr] at hstock hrest hi hgood hx
  have hidle : D.Idle env s' := ⟨hstock, hrest, hi⟩
  subst hx
  cases o with
  | valid e =>
    have hvalue : (D.world source.channel.stage s').Yields (D.world source.channel.stage s').Value
        (source.value env.types e) := by
      unfold Write.Source.value
      split
      · exact (K.closed source.channel.stage s').castTo hgood source.channel.type
      · exact hgood
    rw [Pass.fit]
    cases hv : source.value env.types e with
    | ok value =>
      rw [hv] at hvalue
      exact ⟨hidle, fun w hw => (by cases hw; exact ⟨rfl, hvalue⟩), fun hx => by cases hx⟩
    | error fault =>
      rw [hv] at hvalue
      have hlost := K.pushFault_lost (s := s') hvalue source.node
      dsimp only
      rw [pushFault_eq] at hlost ⊢
      exact ⟨hidle.remarks K _, fun w hw => (by cases hw), fun _ => hlost⟩
  | _ => exact ⟨hidle, fun w hw => (by cases hw), fun _ => hgood⟩

end Idle

end Discipline

/-! ### Names -/

namespace Discipline

open Pass

/-- A discipline to which only the names of globals matter: what has one of the names that
the types give is a good value. -/
structure ByName (D : Discipline) (env : Environment) (N : String → Prop) : Prop where
  /-- What is in the tables has such a name. -/
  tables : D.tables = Globals.Named N
  /-- Later worlds are at least as good. -/
  mono : ∀ {s s'}, Grows s s' → ∀ stage, (D.world stage s).Le (D.world stage s')
  /-- The types give such names. -/
  naming : env.types.Naming N
  /-- Globals are good values. -/
  named : ∀ {stage s name}, N name → (D.world stage s).text name ∧
    ((D.world stage s).shaped → Text.isReference name = true)
  /-- The names of functions are good texts. -/
  sources : ∀ {stage s source name}, (D.world stage s).source source →
    Text.declaredName? (String.ofList (Text.trim source.toList)) = some name →
    (D.world stage s).text name
  /-- Features may be tested. -/
  features : ∀ {stage s f}, Text.isNeutral f.combo = true → (D.world stage s).feature f

namespace ByName

variable {D : Discipline} {env : Environment} {N : String → Prop}

/-- An expression that only names a global. -/
theorem value (B : D.ByName env N) {stage : Stage} {s : Pass} {e : Expr} (h : N e.code) :
    (D.world stage s).Value e := by
  have hn : (D.world stage s).text e.code ∧ ((D.world stage s).shaped → _) := B.named h
  exact ⟨hn.1, fun hs _ => .inr (hn.2 hs)⟩

theorem bindParameter (B : D.ByName env N) (s : Pass) (spec : ParameterSpec) (node : NodeId)
    (stage : Stage) :
    (D.world stage (s.bindParameter env spec node).2).Yields
      (D.world stage (s.bindParameter env spec node).2).Value
      (s.bindParameter env spec node).1 := by
  rw [bindParameter_eq]
  exact (Globals.addParameter_yields B.naming spec node).map fun p hp => B.value hp

theorem bindToggle (B : D.ByName env N) (s : Pass) (name : String) (initial : Bool)
    (stage : Stage) :
    (D.world stage (s.bindToggle env name initial).2).Yields
      (D.world stage (s.bindToggle env name initial).2).Value
      (s.bindToggle env name initial).1 := by
  unfold Pass.bindToggle
  simp only
  split
  · exact .error trivial
  · exact B.bindParameter _ _ _ stage

theorem bindTexture (B : D.ByName env N) {s : Pass} (h : s.globals.Named N) (spec : TextureSpec)
    (name : String) (fallback : Vec4) (stage : Stage) :
    (D.world stage (s.bindTexture env spec name fallback).2).Yields
      (D.world stage (s.bindTexture env spec name fallback).2).Value
      (s.bindTexture env spec name fallback).1 := by
  have hle := B.mono (bindTexture_booked env spec name fallback s).returns.toGrows stage
  have ht := Globals.addTexture_yields (W := D.world stage s) B.naming h spec name fallback
    s.currentNode
  rcases bindTexture_cases env spec name fallback s with
    ⟨fault, globals, hx, he⟩ | ⟨t, isNew, globals, hx, he, -⟩
  · rw [hx] at ht
    rw [he] at hle ⊢
    exact hle.fault ht
  · rw [hx] at ht
    rw [he]
    exact B.value (e := t.expr) ht

/-- **Registrations keep a discipline to which only names matter.** -/
theorem register (B : D.ByName env N) {s : Pass} {c : Command} (h : D.Inv s) (hc : c.Registers)
    (ha : (D.world s.stage s).Asks c) (r : Resolver) :
    D.tables (s.perform env r c).2.globals ∧
      (D.world s.stage (s.perform env r c).2).Answers c (s.perform env r c).1 := by
  have hle := B.mono (register_booked env r hc s).returns.toGrows s.stage
  have hnamed : s.globals.Named N := B.tables ▸ h.tables
  refine ⟨B.tables ▸ (Globals.Named.stable B.naming).perform hnamed r hc fun _ _ => trivial, ?_⟩
  cases c with
  | parameter spec =>
    rw [perform_parameter]
    exact B.bindParameter s spec _ _
  | declare text => trivial
  | function source =>
    have hy := Globals.addFunction_yields (W := D.world s.stage s) (g := s.globals) source
    rw [perform_function] at hle ⊢
    generalize s.globals.addFunction source = x at hle hy ⊢
    exact hle.yields (fun _ hname => hle.text _ (B.sources ha hname)) hy
  | texture spec name fallback =>
    rw [perform_texture]
    exact B.bindTexture hnamed spec name fallback _
  | sampler state =>
    have hn := Globals.addSampler_named B.naming hnamed state
    rw [perform_sampler]
    exact B.value (e := (s.globals.addSampler env.types state).1.expr) hn
  | feature name group =>
    have hy := Globals.addFeature_yields (W := D.world s.stage s) (g := s.globals) name group
    rw [perform_feature] at hle ⊢
    generalize s.globals.addFeature name group = x at hle hy ⊢
    refine hle.yields (fun (f : Feature) hf => B.features ?_) hy
    rw [Feature.combo, hf]
    exact isNeutral_combo (Text.Identifier.isWord_screaming name)
  | toggle name initial =>
    rw [perform_toggle]
    exact B.bindToggle s name initial _
  | _ => exact hc.elim

end ByName

end Discipline

end MaterialGraph
