import MaterialGraph.Proofs.Channels
import MaterialGraph.Proofs.Discipline

/-!
# Shared values are computed once

A pass enters the node at a site at most once. What it remembers of the site is a
constant or the name of something, so that all who ask for the site put the same short
text into their own values, and at most one statement computes what the name stands for.

The only exceptions are the values of result nodes, which nobody shares: they are written
into their channels as they are.

## Main definitions

* `Pass.entries`, `Pass.emissions` — the nodes entered and the statements emitted in a
  part of a pass.
* `Pass.Recorded` — statements that come from emissions only.
* `Pass.Shares`, `Pass.Sharing` — what entries, emissions and remembered values have to
  do with each other.
* `Pass.shaping` — the discipline of values that can be shared.
* `Pass.Shared` — passes in which every value is computed once.

## Main results

* `Pass.Recorded.stepwise` — the statements of a pass are those emitted in it.
* `Pass.Shares.append`, `Pass.Shares.around` — one part after the other, and a node around
  what is entered for it.
* `Pass.Sharing.segmental` — the values of built-in nodes are shared.
* `Compiler.values_shared` — in whole passes every value is computed once.
-/

namespace MaterialGraph

namespace Pass

variable {env : Environment}

/-! ### Entries and emissions -/

/-- The node that is entered at a moment. -/
def Event.entry? : Event → Option (Site × Behavior)
  | .entered site b _ => some (site, b)
  | _ => none

/-- The statement that an event emits, and for which site. -/
def Event.emission? : Event → Option (Site × Statement)
  | .emitted site statement _ => some (site, statement)
  | _ => none

/-- The nodes that are entered, in order. -/
def entries (l : List Event) : List (Site × Behavior) := l.filterMap Event.entry?

/-- The statements that are emitted, in order, each for the site it belongs to. -/
def emissions (l : List Event) : List (Site × Statement) := l.filterMap Event.emission?

@[simp] theorem entries_append (l l' : List Event) : entries (l ++ l') = entries l ++ entries l' :=
  List.filterMap_append

@[simp] theorem emissions_append (l l' : List Event) :
    emissions (l ++ l') = emissions l ++ emissions l' :=
  List.filterMap_append

theorem entries_emitted (site : Site) (s : Pass) (l : List Statement) :
    entries (l.map (.emitted site · s)) = [] := by
  unfold entries
  rw [List.filterMap_map]
  exact List.filterMap_eq_nil_iff.mpr fun _ _ => rfl

theorem emissions_emitted (site : Site) (s : Pass) (l : List Statement) :
    emissions (l.map (.emitted site · s)) = l.map (site, ·) := by
  unfold emissions
  rw [List.filterMap_map]
  exact congrFun (List.filterMap_eq_map (f := (site, ·))) l

theorem Event.Marks.entries_eq_nil {e : Event} (h : e.Marks env) :
    entries [e] = [] := by
  cases e with
  | entered site b s => exact h.elim
  | _ => rfl

theorem Event.Marks.emissions_eq_nil {e : Event} (h : e.Marks env) :
    emissions [e] = [] := by
  cases e with
  | emitted site statement s => exact h.elim
  | _ => rfl

/-! ### Statements are emissions -/

/-- The statements that are emitted for a stage. -/
def emittedFor (stage : Stage) (l : List Event) : List Statement :=
  ((emissions l).filter (·.1.stage = stage)).map Prod.snd

@[simp] theorem emittedFor_append (stage : Stage) (l l' : List Event) :
    emittedFor stage (l ++ l') = emittedFor stage l ++ emittedFor stage l' := by
  unfold emittedFor
  rw [emissions_append, List.filter_append, List.map_append]

theorem emittedFor_emitted (stage : Stage) (site : Site) (statement : Statement) (s : Pass) :
    emittedFor stage [.emitted site statement s] =
      if site.stage = stage then [statement] else [] := by
  simp only [emittedFor, emissions, List.filterMap_cons, Event.emission?, List.filterMap_nil]
  by_cases h : site.stage = stage
  · simp [h]
  · simp [h]

/-- What a node that is asked leaves, after its plan: nothing more and the value that it
gave in its place, or one more statement and its value in a variable. -/
theorem ask_cases (env : Environment) (r : Resolver) (site : Site) (b : Behavior) (s : Pass) :
    (added (carryOut env r site b s).2 (s.ask env r site b).2 = [] ∧
      (s.ask env r site b).2.locals = (carryOut env r site b s).2.locals ∧
      (s.ask env r site b).2.vertex = (carryOut env r site b s).2.vertex ∧
      (s.ask env r site b).2.pixel = (carryOut env r site b s).2.pixel ∧
      ∀ e, (s.ask env r site b).1 = .valid e → (carryOut env r site b s).1 = .ok e ∧
        (b.role = .materialRoot ∨ staysInline e = true)) ∨
    ∃ e, (carryOut env r site b s).1 = .ok e ∧ staysInline e = false ∧
      (s.ask env r site b).1 =
        .valid { e with code := localName (carryOut env r site b s).2.locals } ∧
      added (carryOut env r site b s).2 (s.ask env r site b).2 =
        [.assign (env.types.name e.type) (carryOut env r site b s).2.locals e.code] ∧
      (s.ask env r site b).2.locals = (carryOut env r site b s).2.locals + 1 ∧
      ∀ stage, (s.ask env r site b).2.statements stage =
        (carryOut env r site b s).2.statements stage ++
          if (carryOut env r site b s).2.stage = stage then
            [.assign (env.types.name e.type) (carryOut env r site b s).2.locals e.code]
          else [] := by
  rw [ask_eq]
  generalize hx : outcomeOf env r site b s = x
  generalize hy : carryOut env r site b s = y
  rcases conclude_cases env site.node b.role y.1 { y.2 with stack := s.stack, scope := s.scope }
    with ⟨e, he, hin, hc⟩ | ⟨e, he, hin, hc⟩ | ⟨fault, he, hc⟩
  · rw [outcomeOf, hy, hc] at hx
    subst hx
    -- the value stays where it is
    refine .inl ⟨(Quiet.refl y.2).added_eq_nil, rfl, rfl, rfl, fun e' h => ?_⟩
    cases h
    exact ⟨he, hin⟩
  · rw [outcomeOf, hy, hc] at hx
    subst hx
    -- the value moves into a new variable
    refine .inr ⟨e, he, hin, rfl, ?_, rfl, fun stage => ?_⟩
    · exact added_emit { y.2 with stack := s.stack, scope := s.scope } _ (y.2.locals + 1)
    · exact statements_emit { y.2 with stack := s.stack, scope := s.scope } _ (y.2.locals + 1) stage
  · rw [outcomeOf, hy, hc] at hx
    subst hx
    -- there is no value, and its fault is reported
    have hq := (pushFault_booked { y.2 with stack := s.stack, scope := s.scope } site.node
      fault).quiet
    refine .inl ⟨hq.added_eq_nil, hq.locals, hq.vertex, hq.pixel, fun e' h => ?_⟩
    cases fault with
    | _ => cases h

/-- At every moment of a part of a pass the statements are those there were before and
those emitted since, numbered one after the other. -/
structure Recorded (s s' : Pass) (l : List Event) : Prop where
  /-- There are as many more variables as statements. -/
  locals : s'.locals = s.locals + (emissions l).length
  /-- Each statement declares the next variable. -/
  numbered : (emissions l).map (·.2.index) = List.range' s.locals (emissions l).length
  /-- The statements at the end. -/
  statements : ∀ stage, s'.statements stage = s.statements stage ++ emittedFor stage l
  /-- The statements at each moment. -/
  moments : ∀ before e after, l = before ++ e :: after → ∀ stage,
    e.pass.statements stage = s.statements stage ++ emittedFor stage (before ++ [e])

namespace Recorded

variable {s s' s'' : Pass} {l l' : List Event} {env : Environment}

theorem append (h : Recorded s s' l) (h' : Recorded s' s'' l') : Recorded s s'' (l ++ l') := by
  refine ⟨?_, ?_, fun stage => ?_, fun before e after heq stage => ?_⟩
  · rw [h'.locals, h.locals, emissions_append, List.length_append, Nat.add_assoc]
  · rw [emissions_append, List.map_append, h.numbered, h'.numbered, h.locals, List.length_append,
      List.range'_append_1]
  · rw [h'.statements, h.statements, emittedFor_append, List.append_assoc]
  · rcases List.append_eq_append_iff.mp heq with ⟨before', rfl, hl'⟩ | ⟨rest, rfl, hrest⟩
    · rw [h'.moments before' e after hl', h.statements, List.append_assoc, List.append_assoc,
        ← emittedFor_append]
    · cases rest with
      | nil =>
        rw [h'.moments [] e after hrest.symm, h.statements, List.append_nil, List.append_assoc,
          ← emittedFor_append, List.nil_append]
      | cons e' rest =>
        obtain ⟨rfl, -⟩ := List.cons.inj hrest
        exact h.moments before e rest rfl stage

/-- A step that emits nothing. -/
theorem silent (hl : s'.locals = s.locals) (hv : s'.vertex = s.vertex)
    (hp : s'.pixel = s.pixel) : Recorded s s' [] := by
  refine ⟨hl, rfl, fun stage => ?_, fun before e after heq => by simp at heq⟩
  cases stage with
  | vertex => simp [Pass.statements, hv, emittedFor, emissions]
  | pixel => simp [Pass.statements, hp, emittedFor, emissions]

/-- A single moment, which shows the state that it leads to. -/
theorem single {e : Event} (hl : e.pass.locals = s.locals + (emissions [e]).length)
    (hn : (emissions [e]).map (·.2.index) = List.range' s.locals (emissions [e]).length)
    (hs : ∀ stage, e.pass.statements stage = s.statements stage ++ emittedFor stage [e]) :
    Recorded s e.pass [e] := by
  refine ⟨hl, hn, hs, fun before e' after heq stage => ?_⟩
  rcases List.singleton_eq_append_iff.mp heq with ⟨rfl, hrest⟩ | ⟨rfl, hrest⟩
  · obtain ⟨rfl, -⟩ := List.cons.inj hrest
    exact hs stage
  · cases hrest

theorem mark {e : Event} (h : e.Marks env) : Recorded e.pass e.pass [e] := by
  refine single ?_ ?_ fun stage => ?_
  · rw [h.emissions_eq_nil]; rfl
  · rw [h.emissions_eq_nil]; rfl
  · rw [emittedFor, h.emissions_eq_nil]; simp

theorem emit {site : Site} {statement : Statement} (hi : statement.index = s.locals)
    (hs : site.stage = s.stage) : Recorded s { s.emit statement with locals := s.locals + 1 }
      [.emitted site statement { s.emit statement with locals := s.locals + 1 }] := by
  refine single (e := .emitted site statement _) rfl ?_ fun stage => ?_
  · simp [emissions, Event.emission?, hi]
  · rw [emittedFor_emitted, hs]
    exact statements_emit s statement _ stage

/-- A node that is asked emits what its plan does and, perhaps, its value. -/
theorem ask {r : Resolver} {site : Site} {b : Behavior} (hr : r.Returning)
    (hstage : site.stage = s.stage) (hl : Recorded (s.enter site) (carryOut env r site b s).2 l) :
    Recorded s (s.ask env r site b).2 (.entered site b (s.enter site) ::
      (l ++ (added (carryOut env r site b s).2 (s.ask env r site b).2).map
        (.emitted site · (s.ask env r site b).2))) := by
  have hin : Recorded s (s.enter site) [.entered site b (s.enter site)] := by
    refine single (e := .entered site b (s.enter site)) rfl rfl fun stage => ?_
    cases stage with
    | _ => exact (List.append_nil _).symm
  have hst : (carryOut env r site b s).2.stage = s.stage := (run_returns env hr _ _).stage
  refine hin.append (hl.append ?_)
  rcases ask_cases env r site b s with ⟨hadd, hloc, hv, hp, -⟩ |
    ⟨e, -, -, -, hadd, hloc, hstat⟩
  · rw [hadd]
    exact silent hloc hv hp
  · rw [hadd]
    refine single (e := .emitted site _ _) hloc ?_ fun stage => (hstat stage).trans ?_
    · simp [emissions, Event.emission?, Statement.index]
    · rw [hst, ← hstage]
      exact congrArg _ (emittedFor_emitted stage _ _ _).symm

/-- **The statements of a pass are those emitted in it.** -/
theorem stepwise : Stepwise env Recorded where
  append := append
  quiet hq := silent hq.locals hq.vertex hq.pixel
  mark := mark
  settle _ _ := silent rfl rfl rfl
  emit := emit
  ask hr _ hstage _ hl := ask hr hstage hl

end Recorded

/-! ### One entry, one statement, one value -/

/-- In a part of a pass each site is entered at most once and emits at most one statement.
If it has a value, then the value fits the node that was entered, and names the variable
of the statement. -/
structure Shares (env : Environment) (s s' : Pass) (en : List (Site × Behavior))
    (em : List (Site × Statement)) : Prop where
  finished : ∀ site o, s.progress? site = some (.finished o) →
    s'.progress? site = some (.finished o)
  /-- The sites that are entered were not finished. -/
  fresh : ∀ p ∈ en, ∀ o, s.progress? p.1 ≠ some (.finished o)
  /-- The sites that are entered are finished. -/
  done : ∀ p ∈ en, ∃ o, s'.progress? p.1 = some (.finished o)
  entered : (en.map Prod.fst).Nodup
  /-- Statements are emitted for sites that are entered. -/
  own : ∀ p ∈ em, p.1 ∈ en.map Prod.fst
  emitted : (em.map Prod.fst).Nodup
  /-- A value names the variable that was declared for its site. -/
  named : ∀ p ∈ em, ∀ e, s'.progress? p.1 = some (.finished (.valid e)) →
    e.code = localName p.2.index
  /-- A value fits the node that was entered for its site. -/
  fits : ∀ p ∈ en, env.Offers p.2 ∧ ∀ e, s'.progress? p.1 = some (.finished (.valid e)) →
    p.2.role = .materialRoot ∨ staysInline e = true
  /-- A new value is that of a site that was entered. -/
  values : ∀ site e, s'.progress? site = some (.finished (.valid e)) →
    s.progress? site = some (.finished (.valid e)) ∨ site ∈ en.map Prod.fst

namespace Shares

variable {env : Environment} {s s' s'' : Pass} {en en' : List (Site × Behavior)}
  {em em' : List (Site × Statement)}

/-- A step that changes nothing of what is remembered. -/
theorem silent (hm : s'.memo = s.memo) : Shares env s s' [] [] := by
  have hp (site : Site) : s'.progress? site = s.progress? site := by
    unfold progress?
    rw [hm]
  refine ⟨fun site o h => ?_, by simp, by simp, .nil, by simp, .nil, by simp, by simp,
    fun site e h => .inl ?_⟩
  · rw [hp]; exact h
  · rw [← hp]; exact h

/-- What is known of a site that has been entered stays as it is. -/
theorem earlier (h : Shares env s s' en em) (h' : Shares env s' s'' en' em') {site : Site}
    (hs : site ∈ en.map Prod.fst) {p : Progress} (hp : s''.progress? site = some p) :
    s'.progress? site = some p := by
  obtain ⟨entry, he, rfl⟩ := List.mem_map.mp hs
  obtain ⟨o, ho⟩ := h.done entry he
  rw [h'.finished _ _ ho] at hp
  rw [ho, ← hp]

/-- What has been entered is not entered again. -/
theorem apart (h : Shares env s s' en em) (h' : Shares env s' s'' en' em') :
    ∀ site ∈ en.map Prod.fst, ∀ site' ∈ en'.map Prod.fst, site ≠ site' := by
  rintro site hs site' hs' rfl
  obtain ⟨p, hp, rfl⟩ := List.mem_map.mp hs
  obtain ⟨p', hp', heq⟩ := List.mem_map.mp hs'
  obtain ⟨o, ho⟩ := h.done p hp
  exact h'.fresh p' hp' o (heq ▸ ho)

theorem append (h : Shares env s s' en em) (h' : Shares env s' s'' en' em') :
    Shares env s s'' (en ++ en') (em ++ em') where
  finished site o ho := h'.finished site o (h.finished site o ho)
  fresh p hp := by
    rcases List.mem_append.mp hp with hp | hp
    · exact h.fresh p hp
    · exact fun o ho => h'.fresh p hp o (h.finished _ o ho)
  done p hp := by
    rcases List.mem_append.mp hp with hp | hp
    · obtain ⟨o, ho⟩ := h.done p hp
      exact ⟨o, h'.finished _ o ho⟩
    · exact h'.done p hp
  entered := by
    rw [List.map_append]
    exact List.nodup_append.mpr ⟨h.entered, h'.entered, h.apart h'⟩
  own p hp := by
    rw [List.map_append]
    rcases List.mem_append.mp hp with hp | hp
    · exact List.mem_append_left _ (h.own p hp)
    · exact List.mem_append_right _ (h'.own p hp)
  emitted := by
    rw [List.map_append]
    refine List.nodup_append.mpr ⟨h.emitted, h'.emitted, fun site hs site' hs' => ?_⟩
    obtain ⟨p, hp, rfl⟩ := List.mem_map.mp hs
    obtain ⟨p', hp', rfl⟩ := List.mem_map.mp hs'
    exact h.apart h' _ (h.own p hp) _ (h'.own p' hp')
  named p hp e he := by
    rcases List.mem_append.mp hp with hp | hp
    · exact h.named p hp e (h.earlier h' (h.own p hp) he)
    · exact h'.named p hp e he
  fits p hp := by
    rcases List.mem_append.mp hp with hp | hp
    · have hs : p.1 ∈ en.map Prod.fst := List.mem_map_of_mem hp
      exact ⟨(h.fits p hp).1, fun e he => (h.fits p hp).2 e (h.earlier h' hs he)⟩
    · exact h'.fits p hp
  values site e he := by
    rw [List.map_append]
    rcases h'.values site e he with he | hs
    · exact (h.values site e he).imp_right (List.mem_append_left _)
    · exact .inr (List.mem_append_right _ hs)

/-- A node around what is entered for it, with at most one statement of its own. -/
theorem around {site : Site} {b : Behavior} {o : Outcome} (own : Option Statement)
    (h : Shares env (s.enter site) s' en em) (hn : s.progress? site = none)
    (hst : s'.progress? site = some .started)
    (hp : ∀ other, s''.progress? other =
      if site = other then some (.finished o) else s'.progress? other)
    (hb : env.Offers b) (hv : ∀ e, o = .valid e → b.role = .materialRoot ∨ staysInline e = true)
    (ho : ∀ statement ∈ own, ∀ e, o = .valid e → e.code = localName statement.index) :
    Shares env s s'' ((site, b) :: en) (em ++ own.toList.map (site, ·)) := by
  -- the site is started all the while, so it is not among those entered for it
  have hne : ∀ other ∈ en.map Prod.fst, site ≠ other := by
    rintro other ho' rfl
    obtain ⟨p, hp', rfl⟩ := List.mem_map.mp ho'
    obtain ⟨o', hf⟩ := h.done p hp'
    rw [hst] at hf
    cases hf
  have hsite {e : Expr} (he : s''.progress? site = some (.finished (.valid e))) :
      o = .valid e := by
    rw [hp, if_pos rfl] at he
    cases he
    rfl
  have hother {p : Site × Behavior} (hm : p ∈ en) : s''.progress? p.1 = s'.progress? p.1 := by
    rw [hp, if_neg (hne p.1 (List.mem_map_of_mem hm))]
  have henter {other : Site} (hne : site ≠ other) :
      (s.enter site).progress? other = s.progress? other := by
    rw [progress?_enter, if_neg hne]
  exact {
    finished := fun other o' ho' => by
      have hne' : site ≠ other := by
        rintro rfl
        rw [hn] at ho'
        cases ho'
      rw [hp, if_neg hne']
      exact h.finished other o' ((henter hne').trans ho')
    fresh := fun p hm => by
      rcases List.mem_cons.mp hm with rfl | hm
      · rw [hn]; simp
      · rw [← henter (hne p.1 (List.mem_map_of_mem hm))]
        exact h.fresh p hm
    done := fun p hm => by
      rcases List.mem_cons.mp hm with rfl | hm
      · exact ⟨o, by rw [hp, if_pos rfl]⟩
      · rw [hother hm]
        exact h.done p hm
    entered := List.nodup_cons.mpr ⟨fun hm => hne site hm rfl, h.entered⟩
    own := fun p hm => by
      rcases List.mem_append.mp hm with hm | hm
      · exact List.mem_cons_of_mem _ (h.own p hm)
      · obtain ⟨statement, -, rfl⟩ := List.mem_map.mp hm
        exact List.mem_cons_self
    emitted := by
      rw [List.map_append]
      refine List.nodup_append.mpr ⟨h.emitted, ?_, fun x hx y hy => ?_⟩
      · cases own with
        | none => exact .nil
        | some statement => simp
      · obtain ⟨p, hm, rfl⟩ := List.mem_map.mp hx
        obtain ⟨q, hq, rfl⟩ := List.mem_map.mp hy
        obtain ⟨statement, -, rfl⟩ := List.mem_map.mp hq
        exact (hne _ (h.own p hm)).symm
    named := fun p hm e he => by
      rcases List.mem_append.mp hm with hm | hm
      · rw [hp, if_neg (hne _ (h.own p hm))] at he
        exact h.named p hm e he
      · obtain ⟨statement, hs, rfl⟩ := List.mem_map.mp hm
        exact ho statement (Option.mem_toList.mp hs) e (hsite he)
    fits := fun p hm => by
      rcases List.mem_cons.mp hm with rfl | hm
      · exact ⟨hb, fun e he => hv e (hsite he)⟩
      · rw [hother hm]
        exact h.fits p hm
    values := fun other e he => by
      by_cases heq : site = other
      · exact .inr (List.mem_cons.mpr (.inl heq.symm))
      · rw [hp, if_neg heq] at he
        rcases h.values other e he with he | hm
        · exact .inl ((henter heq).symm.trans he)
        · exact .inr (List.mem_cons_of_mem _ hm) }

end Shares

theorem lax_closed (types : TypeTable) : World.lax.Closed types :=
  ⟨⟨fun _ => trivial, fun _ _ _ => trivial⟩, fun _ => trivial⟩

theorem lax_good (o : Outcome) : World.lax.Good o := by
  cases o with
  | valid e => exact ⟨trivial, False.elim⟩
  | _ => trivial

/-- Where everything is good, every answer is, unless nothing could be read. -/
theorem lax_answers_of_ne {c : Command} (hc : ∀ input wire, c ≠ .read input wire)
    (reply : c.Reply) : World.lax.Answers c reply := by
  have hyields {α : Type} {Q : α → Prop} (hQ : ∀ a, Q a) (x : Except Fault α) :
      World.lax.Yields Q x := by
    cases x with
    | ok a => exact hQ a
    | error fault => exact .inr trivial
  have hvalue (e : Expr) : World.lax.Value e := ⟨trivial, False.elim⟩
  cases c with
  | read input wire => exact absurd rfl (hc input wire)
  | own output => exact lax_good reply
  | call output => exact hyields hvalue reply
  | argument name => exact fun o _ => lax_good o
  | parameter spec => exact hyields hvalue reply
  | function source => exact hyields (fun _ => trivial) reply
  | texture spec name fallback => exact hyields hvalue reply
  | sampler state => exact hvalue reply
  | feature name group => exact hyields (fun _ => trivial) reply
  | toggle name initial => exact hyields hvalue reply
  | select feature type on off => exact hvalue reply
  | _ => trivial

/-- Every request is answered well enough for the world in which everything is good. -/
theorem lax_answers (env : Environment) (r : Resolver) (c : Command) (s : Pass) :
    World.lax.Answers c (s.perform env r c).1 := by
  by_cases hc : ∃ input wire, c = .read input wire
  · obtain ⟨input, wire, rfl⟩ := hc
    show World.lax.Reads input wire (s.readWire r input wire).1
    unfold World.Reads readWire
    split
    · exact lax_good _
    · rfl
  · exact lax_answers_of_ne (fun input wire h => hc ⟨input, wire, h⟩) _

theorem staysInline_of_localName {e : Expr} {n : Nat} (h : e.code = localName n) :
    staysInline e = true := by
  unfold staysInline
  rw [h, isReference_localName, Bool.or_true, Bool.true_or, Bool.true_or]

theorem entries_nodeTrace (env : Environment) (r : Resolver) (nested : Site → Pass → List Event)
    (site : Site) (b : Behavior) (s : Pass) : entries (nodeTrace env r nested site b s) =
      (site, b) ::
        entries
          (runTrace env r nested site (b.plan (frame env site) site.output) (s.enter site)) := by
  unfold nodeTrace
  refine congrArg ((site, b) :: ·) ?_
  rw [← entries, entries_append, entries_emitted, List.append_nil]

theorem emissions_nodeTrace (env : Environment) (r : Resolver) (nested : Site → Pass → List Event)
    (site : Site) (b : Behavior) (s : Pass) : emissions (nodeTrace env r nested site b s) =
      emissions (runTrace env r nested site (b.plan (frame env site) site.output) (s.enter site)) ++
        (added (carryOut env r site b s).2 (s.ask env r site b).2).map (site, ·) := by
  show emissions (_ ++ _) = _
  rw [emissions_append, emissions_emitted]

/-- What `Shares` says, of the entries and emissions of a part of a pass. -/
def Sharing (env : Environment) (s s' : Pass) (l : List Event) : Prop :=
  Shares env s s' (entries l) (emissions l)

namespace Sharing

variable {env : Environment}

theorem append {s s' s'' : Pass} {l l' : List Event} (h : Sharing env s s' l)
    (h' : Sharing env s' s'' l') : Sharing env s s'' (l ++ l') := by
  unfold Sharing
  rw [entries_append, emissions_append]
  exact Shares.append h h'

theorem quiet {s s' : Pass} (h : Quiet s s') : Sharing env s s' [] := .silent h.memo

theorem mark {e : Event} (h : e.Marks env) : Sharing env e.pass e.pass [e] := by
  unfold Sharing
  rw [h.entries_eq_nil, h.emissions_eq_nil]
  exact .silent rfl

theorem settle {s : Pass} {site : Site} (message : String) (hn : s.progress? site = none) :
    Sharing env s (s.remember site (.finished (.error message))) [] := by
  refine ⟨fun other o ho => progress?_remember_of_none hn ho _, by simp [entries],
    by simp [entries], .nil, by simp [emissions], .nil, by simp [emissions], by simp [entries],
    fun other e he => .inl ?_⟩
  rw [progress?_remember] at he
  split at he
  · cases he
  · exact he

/-- A plan that ends with the value that a feature selects, if a feature selects one, emits
that selection and nothing else for its own site. -/
theorem run {room : Nat} {r : Resolver} {nested : Site → Pass → List Event}
    (hn : Nested env (Sharing env) room r nested) (site : Site) {Q : Expr → Prop}
    (plan : Plan Expr) : ∀ s : Pass, plan.Meets .lax selectionLast Q → Stocked env s →
      s.stack.length + room = maxDepth →
      ∃ (em : List (Site × Statement)) (own : Option Statement),
        Shares env s (Pass.run env r plan s).2 (entries (runTrace env r nested site plan s)) em ∧
        emissions (runTrace env r nested site plan s) = em ++ own.toList.map (site, ·) ∧
        ∀ statement ∈ own, ∃ e, (Pass.run env r plan s).1 = .ok e ∧
          e.code = localName statement.index := by
  induction plan with
  | done e => exact fun s _ _ _ => ⟨[], none, .silent rfl, rfl, by simp⟩
  | fail fault => exact fun s _ _ _ => ⟨[], none, .silent rfl, rfl, by simp⟩
  | ask c next ih =>
    intro s hm hs hroom
    obtain ⟨-, hends, hnext⟩ := hm
    -- what comes after a request that emits nothing for the site itself
    have hrest {l : List Event} (hl : Sharing env s (s.perform env r c).2 l)
        (htrace : runTrace env r nested site (.ask c next) s =
          l ++ .performed c s (s.perform env r c).1 (s.perform env r c).2 ::
            runTrace env r nested site (next (s.perform env r c).1) (s.perform env r c).2) :
        ∃ (em : List (Site × Statement)) (own : Option Statement),
          Shares env s (Pass.run env r (.ask c next) s).2
            (entries (runTrace env r nested site (.ask c next) s)) em ∧
          emissions (runTrace env r nested site (.ask c next) s) = em ++ own.toList.map (site, ·) ∧
          ∀ statement ∈ own, ∃ e, (Pass.run env r (.ask c next) s).1 = .ok e ∧
            e.code = localName statement.index := by
      have hret := perform_returns env hn.returning c s
      obtain ⟨em, own, hsh, hem, hown⟩ := ih (s.perform env r c).1 (s.perform env r c).2
        (hnext _ (lax_answers env r c s)) (perform_stocked hn.stocking c hs)
        (by rw [hret.stack]; exact hroom)
      refine ⟨emissions l ++ em, own, ?_, ?_, hown⟩
      · rw [htrace, entries_append]
        exact Shares.append hl hsh
      · rw [htrace, emissions_append, List.append_assoc, ← hem]
        rfl
    rcases hd : demand? env c s with _ | ⟨site', s'⟩
    · rcases perform_silent r hd with hq | ⟨feature, type, on, off, rfl⟩
      · refine hrest (quiet hq.toQuiet) ?_
        rw [runTrace, hd]
        simp only [hq.added_eq_nil, List.map_nil]
      · -- the plan ends here, so the selection is all that it emits for its site
        have hdone : next (s.perform env r (.select feature type on off)).1 = .done _ :=
          hends _
        have hrun : Pass.run env r (.ask (.select feature type on off) next) s =
            (.ok { type, code := localName s.locals },
              (s.perform env r (.select feature type on off)).2) :=
          congrArg (Pass.run env r · (s.perform env r (.select feature type on off)).2) hdone
        refine ⟨[], some (.select (env.types.name type) s.locals feature.combo on.code off.code),
          ?_, ?_, fun statement hst => ?_⟩
        · rw [runTrace, hd, hrun, hdone]
          simp only [perform_select, added_emit]
          exact .silent (emit_memo s _)
        · rw [runTrace, hd, hdone]
          simp only [perform_select, added_emit]
          rfl
        · cases hst
          exact ⟨_, congrArg Prod.fst hrun, rfl⟩
    · refine hrest (hn.demanded append (fun hq => quiet hq.toQuiet) hd hs hroom) ?_
      rw [runTrace, hd]

/-- **The values of built-in nodes are shared.** -/
theorem segmental (hc : env.catalog = .builtin) : Segmental env (Sharing env) where
  append := append
  quiet := quiet
  mark := mark
  settle := settle
  node {room r nested site b s} hn hs hb he hnone hstage hroom := by
    have hplan : (b.plan (frame env site) site.output).Meets .lax selectionLast
        World.lax.Value := hb.meets hc he (lax_closed _) (fun _ => trivial) site.output
    obtain ⟨em, own, hsh, hem, hown⟩ := run hn site (b.plan (frame env site) site.output)
      (s.enter site) hplan ⟨hs.instances, hs.scopes⟩
      (by simp only [enter, List.length_cons]; omega)
    have hst := carryOut_started env hn.returning site b s
    have hp := fun other => progress?_ask env r site other b s
    unfold Sharing
    rw [entries_nodeTrace, emissions_nodeTrace, hem]
    rcases ask_cases env r site b s with ⟨hadd, -, -, -, hval⟩ | ⟨e, hres, hin, hout, hadd, -, -⟩
    · rw [hadd, List.map_nil, List.append_nil]
      refine hsh.around own hnone hst hp hb (fun e he => (hval e he).2) fun statement hm e he => ?_
      obtain ⟨e', hok, hcode⟩ := hown statement hm
      cases (hval e he).1.symm.trans hok
      exact hcode
    · -- a selected value is not moved into a further variable
      have hnot : own = none := by
        cases own with
        | none => rfl
        | some statement =>
          obtain ⟨e', hok, hcode⟩ := hown statement rfl
          cases hres.symm.trans hok
          rw [staysInline_of_localName hcode] at hin
          cases hin
      rw [hadd, hnot]
      simp only [Option.toList_none, List.map_nil, List.append_nil]
      refine hsh.around (some _) hnone hst hp hb (fun e' he' => .inr ?_)
        fun statement hm e' he' => ?_
      · cases hout.symm.trans he'
        exact staysInline_of_localName rfl
      · cases hm
        cases hout.symm.trans he'
        rfl

end Sharing

/-! ### Whole passes -/

/-- The values of all sites are such that they can be shared, if they are not held by a
variable. -/
def shaping : Discipline where
  world _ _ :=
    { text := fun _ => True, shaped := True, feature := fun _ => True, source := fun _ => True
      lost := True }
  tables := Globals.Named fun name => Text.isReference name = true
  extra _ := True

theorem shaping_byName (ht : env.types = .builtin) :
    shaping.ByName env fun name => Text.isReference name = true where
  tables := rfl
  mono _ _ := .refl _
  naming := by
    rw [ht]
    exact fun t raw name => (TypeTable.builtin_naming t raw name).2
  named hn := ⟨trivial, fun _ => hn⟩
  sources _ _ := trivial
  features _ := trivial

theorem shaping_kept (hc : env.catalog = .builtin) (ht : env.types = .builtin) :
    shaping.Kept env where
  closed _ _ := ⟨⟨fun _ => trivial, fun _ _ _ => trivial⟩, fun _ => trivial⟩
  mono := (shaping_byName ht).mono
  lost _ _ := trivial
  register := (shaping_byName ht).register
  same _ _ _ _ _ := trivial
  emit _ _ := ⟨trivial, trivial⟩
  plans hb he _ _ _ hW hle _ output hf :=
    hb.meets hc he (hf ▸ hW) (fun t => (hle.source t).mpr trivial) output

/-- Someone is given the value of a site. -/
def Event.Supplies (env : Environment) (site : Site) (value : Expr) : Event → Prop
  | .returned site' _ o _ => site' = site ∧ o = .valid value
  | .performed c s reply _ => (∃ s', demand? env c s = some (site, s')) ∧
      c.deliver? (.valid value) = some reply
  | _ => False

/-- A pass in which every value is computed once. -/
structure Shared (env : Environment) (l : List Event) : Prop where
  /-- No node is entered twice for the same output, scope and stage. -/
  entered : ((entries l).map Prod.fst).Nodup
  /-- At every moment, what is remembered of a site is a constant or only names something,
  unless the node that was entered for it is a result node. -/
  reference : ∀ e ∈ l, ∀ site x, e.pass.progress? site = some (.finished (.valid x)) →
    ∃ b, (site, b) ∈ entries l ∧
      ((∃ m, b = NodeClass.materialResult.spec.behavior m) ∨
        x.isConstant = true ∨ Text.isReference x.code = true)
  /-- All who are given the value of a site are given what is remembered of it. -/
  supplied : ∀ e ∈ l, ∀ site x, e.Supplies env site x →
    e.pass.progress? site = some (.finished (.valid x))
  /-- What is remembered of a site is always the same. -/
  same : ∀ e ∈ l, ∀ e' ∈ l, ∀ site x x', e.pass.progress? site = some (.finished (.valid x)) →
    e'.pass.progress? site = some (.finished (.valid x')) → x = x'
  /-- No site emits two statements. -/
  emitted : ((emissions l).map Prod.fst).Nodup
  /-- The value of a site that emits a statement names its variable. -/
  named : ∀ p ∈ emissions l, ∀ e ∈ l, ∀ x,
    e.pass.progress? p.1 = some (.finished (.valid x)) → x.code = localName p.2.index
  /-- The statements are numbered, so that no two declare the same variable. -/
  numbered : (emissions l).map (·.2.index) = List.range (emissions l).length
  /-- At every moment there are no statements but those emitted so far. -/
  statements : ∀ before e after, l = before ++ e :: after → ∀ stage,
    e.pass.statements stage = emittedFor stage (before ++ [e])

/-- The value that is given is the one that is remembered. -/
theorem Event.Marks.supplied {e : Event} (h : e.Marks env) {site : Site} {x : Expr}
    (hx : e.Supplies env site x) :
    e.pass.progress? site = some (.finished (.valid x)) := by
  cases e with
  | returned site' s o s' =>
    obtain ⟨rfl, ho⟩ := hx
    exact h.2 x ho
  | performed c s reply s' =>
    obtain ⟨⟨s₁, hd⟩, hdel⟩ := hx
    exact h.2 site s₁ x hd hdel
  | _ => exact hx.elim

/-- A value in its place that has a shape to be shared is a constant or a name. -/
theorem constant_or_reference {e : Expr} (h : staysInline e = true) (hs : e.Shaped) :
    e.isConstant = true ∨ Text.isReference e.code = true := by
  unfold staysInline at h
  simp only [Bool.or_eq_true, beq_iff_eq] at h
  rcases h with ((h | h) | h) | h
  · exact .inl h
  · exact .inr h
  · exact hs (.inl h)
  · exact hs (.inr h)

theorem Session.shared (hc : env.catalog = .builtin) (ht : env.types = .builtin) {s s' : Pass}
    {l : List Event} (hl : Session env s s' l) (hs : Fresh s) : Shared env l := by
  have hstock := hs.stocked env
  have hshare := (Sharing.segmental hc).session hl hstock hs.atRest
  have hrec := Recorded.stepwise.segmental.session hl hstock hs.atRest
  have horder := Between.stepwise.segmental.session hl hstock hs.atRest
  have hmark := Marked.stepwise.segmental.session hl hstock hs.atRest
  have hheld := ((shaping_kept hc ht).session hl hstock (.of_fresh hs trivial (hs.named _))).2
  -- what is remembered at a moment is remembered at the end
  have hend {e : Event} (he : e ∈ l) {site : Site} {x : Expr}
      (hx : e.pass.progress? site = some (.finished (.valid x))) :
      s'.progress? site = some (.finished (.valid x)) :=
    (horder.before e he).finished site _ hx
  exact {
    entered := hshare.entered
    reference := fun e he site x hx => by
      have hsite : site ∈ (entries l).map Prod.fst := by
        refine (hshare.values site x (hend he hx)).resolve_left ?_
        rw [hs.progress?]
        simp
      obtain ⟨⟨_, b⟩, hp, rfl⟩ := List.mem_map.mp hsite
      refine ⟨b, hp, ?_⟩
      obtain ⟨hb, hfits⟩ := hshare.fits _ hp
      -- only a result node has its value in place whatever its shape is
      rcases hfits x (hend he hx) with hrole | hin
      · obtain ⟨_, _, c, m, -, -, -, -, rfl⟩ := hb.builtin hc
        obtain rfl := NodeClass.role_eq_materialRoot hrole
        exact .inl ⟨m, rfl⟩
      · have hvalue := (hheld e he).inv.memo _ _ hx
        exact .inr (constant_or_reference hin (hvalue.2 trivial))
    supplied := fun e he site x hx => by
      rcases hmark e he with hm | ⟨_, _, _, rfl⟩ | ⟨_, _, _, rfl⟩
      · exact hm.supplied hx
      · exact hx.elim
      · exact hx.elim
    same := fun e he e' he' site x x' hx hx' => by
      have heq := (hend he hx).symm.trans (hend he' hx')
      cases heq
      rfl
    emitted := hshare.emitted
    named := fun p hp e he x hx => hshare.named p hp x (hend he hx)
    numbered := by rw [hrec.numbered, hs.locals, List.range_eq_range']
    statements := fun before e after heq stage => by
      rw [hrec.moments before e after heq, hs.statements, List.nil_append] }

end Pass

namespace Compiler

open Pass

/-- **Every value of a pass is computed once** and shared by all who need it, in every
compilation and preview with the built-in classes and types. -/
theorem values_shared (c : Compiler) (hc : c.catalog = .builtin) (ht : c.types = .builtin)
    (d : Document) :
    (∀ o, Shared (c.environment o.mode d) (c.materialTrace d o)) ∧
      ∀ target, Shared (c.environment .preview d) (c.previewTrace d target) := by
  refine ⟨fun o => ?_, fun target => ?_⟩
  · obtain ⟨s', hl, -⟩ := materialTrace_session c d o
    exact hl.shared hc ht (firstPass_fresh o.blend)
  · exact (previewTrace_session c d target).shared hc ht ⟨[], rfl⟩

/-- The square of the time, which two channels and both operands of a sum need. -/
def fanDocument : Document where
  nodes := [
    { id := ⟨1⟩, className := "Time" },
    .of (.binary .multiply) 2
      { (BinaryOp.spec .multiply).initial with a := .ofNode 1, b := .ofNode 1 },
    .of (.binary .add) 3 { (BinaryOp.spec .add).initial with a := .ofNode 2, b := .ofNode 2 },
    .of .materialResult 4 { roughness := .ofNode 2, metalness := .ofNode 2, opacity := .ofNode 3 }]

/-- The square and the sum are variables, each with one statement, although the square is
given away four times. -/
theorem values_shared_fan :
    (emissions (Compiler.materialTrace {} fanDocument {})).map (·.2) =
      [.assign "float" 0 "g_flTime * g_flTime", .assign "float" 1 "l_0 + l_0"] ∧
    (Compiler.materialTrace {} fanDocument {}).countP (fun
      | .performed (.read _ wire) _ (.valid e) _ => wire.node == ⟨2⟩ && e.code == "l_0"
      | _ => false) = 4 ∧
    Shared (Compiler.environment {} .final fanDocument)
      (Compiler.materialTrace {} fanDocument {}) := by
  rw [← and_assoc]
  exact ⟨by decide +kernel, (values_shared {} rfl rfl fanDocument).1 {}⟩

end Compiler

end MaterialGraph
