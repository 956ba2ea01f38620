import MaterialGraph.Proofs.Identifiers
import MaterialGraph.Proofs.Modes

/-!
# Attributes of features

In a final build static switches share a feature if their names have the same screaming identifier.
In a preview a switch asks for an attribute that stands for the feature, a parameter under the
plain identifier of the name. Names with the same screaming identifier have the same plain
identifier, so whatever the tables hold for one switch they hold for the other. The first switch
decides: if it has been given a parameter, all switches of the feature are given it, and if it has
been refused, they all are.

## Main results

* `Globals.Attribute.mono`, `Globals.Refused.mono` — tables that go on keep either.
* `Pass.bindToggle_settles` — a switch finds the attribute, or it is refused.
* `Compiler.switches_share_attribute` — all switches of a feature read one parameter, or none.
* `Compiler.attribute_refused_of_taken_name` — a feature with two switches and no parameter.
-/

namespace MaterialGraph

open Text

theorem ownerOf?_of_extends {owners owners' : List (String × NodeId)} {key : String} {node : NodeId}
    (h : owners <+: owners') (hk : ownerOf? owners key = some node) :
    ownerOf? owners' key = some node := by
  obtain ⟨entry, hentry, rfl⟩ := Option.map_eq_some_iff.mp hk
  rw [ownerOf?, h.find?_eq_some hentry]
  rfl

namespace Globals

/-- The parameter that stands for the feature of a name. Its node is the first switch of the
feature, and the first node to ask for the identifier. -/
structure Attribute (types : TypeTable) (g : Globals) (name : String) (p : Parameter) : Prop where
  nonempty : (Identifier.ofText name).isEmpty = false
  /-- The feature belongs to the node of the parameter. -/
  feature : ownerOf? g.toggles (Identifier.screaming name) = some p.node
  owner : ownerOf? g.parameterNames (Identifier.ofText name) = some p.node
  /-- The parameter is found under its global. -/
  found : g.parameterOf? (types.globalStem .bool ++ Identifier.ofText name) = some p

/-- Why a switch has no attribute, and what it is told: its name is no name of a feature, or what
the attribute needs belongs to another node than the feature. -/
inductive Refused (types : TypeTable) (g : Globals) (name : String) : Fault → Prop
  | nameless (h : (Identifier.screaming name).isEmpty = true) :
    Refused types g name (.message ("invalid feature name \"" ++ name ++ "\""))
  | taken {node other : NodeId}
      (feature : ownerOf? g.toggles (Identifier.screaming name) = some node)
      (owner : ownerOf? g.parameterNames (Identifier.ofText name) = some other)
      (hother : other ≠ node) : Refused types g name (.duplicateName name)
  | occupied {node : NodeId} {p : Parameter}
      (feature : ownerOf? g.toggles (Identifier.screaming name) = some node)
      (found : g.parameterOf? (types.globalStem .bool ++ Identifier.ofText name) = some p)
      (hother : p.node ≠ node) : Refused types g name (.duplicateName name)

variable {types : TypeTable} {g g' : Globals} {a b name : String} {p q : Parameter}

namespace Attribute

theorem mono (h : Attribute types g name p) (hg : g.Within g') : Attribute types g' name p :=
  ⟨h.nonempty, ownerOf?_of_extends hg.toggles h.feature,
    ownerOf?_of_extends hg.parameterNames h.owner, hg.parameters.find?_eq_some h.found⟩

theorem unique (h : Attribute types g name p) (h' : Attribute types g name q) : p = q :=
  Option.some.inj (h.found.symm.trans h'.found)

/-- Names of one feature have one attribute. -/
theorem congr (h : Attribute types g a p)
    (hab : Identifier.screaming a = Identifier.screaming b) : Attribute types g b p := by
  have hname := Identifier.ofText_eq_of_screaming_eq hab
  obtain ⟨hnonempty, hfeature, howner, hfound⟩ := h
  rw [hname] at hnonempty howner hfound
  rw [hab] at hfeature
  exact ⟨hnonempty, hfeature, howner, hfound⟩

theorem mem (h : Attribute types g name p) : p ∈ g.parameters :=
  List.mem_of_find?_eq_some h.found

theorem global_eq (h : Attribute types g name p) :
    p.global = types.globalStem .bool ++ Identifier.ofText name := by
  have hp := List.find?_some (p := fun q : Parameter => q.global == _) h.found
  exact beq_iff_eq.mp hp

/-- The stem tells the type. -/
theorem type_eq (h : Attribute .builtin g name p) (hg : g.Spelled .builtin) : p.type = .bool := by
  have hglobal := h.global_eq
  rw [(hg.parameters p h.mem).global] at hglobal
  have hstem := (TypeTable.globalStem_injective hglobal).1
  generalize p.type = type at hstem
  revert hstem
  cases type <;> decide +kernel

end Attribute

theorem Refused.mono {f : Fault} (h : Refused types g name f) (hg : g.Within g') :
    Refused types g' name f := by
  cases h with
  | nameless h => exact .nameless h
  | taken feature owner hother =>
    exact .taken (ownerOf?_of_extends hg.toggles feature)
      (ownerOf?_of_extends hg.parameterNames owner) hother
  | occupied feature found hother =>
    exact .occupied (ownerOf?_of_extends hg.toggles feature)
      (hg.parameters.find?_eq_some found) hother

theorem Refused.not_attribute {f : Fault} (h : Refused types g name f) :
    ¬Attribute types g name p := by
  intro hp
  cases h with
  | nameless h =>
    have hnone := (Identifier.screaming_isEmpty_iff name).mp h
    rw [hp.nonempty] at hnone
    cases hnone
  | taken feature owner hother =>
    rw [hp.feature] at feature
    exact hother (Option.some.inj ((owner.symm.trans hp.owner).trans feature))
  | occupied feature found hother =>
    obtain rfl := Option.some.inj (found.symm.trans hp.found)
    exact hother (Option.some.inj (hp.feature.symm.trans feature))

/-- The registration for the owner of a feature finds the attribute, or it is refused. -/
theorem addParameter_settles {r : ParameterSpec} {node : NodeId} (htype : r.type = .bool)
    (hexposed : exposureFault? types r = none) (hname : r.identifier.isEmpty = false)
    (howner : ownerOf? g.toggles (Identifier.screaming r.name) = some node) :
    (∃ p, (g.addParameter types r node).1 = .ok p ∧
      Attribute types (g.addParameter types r node).2 r.name p) ∨
    ∃ f, (g.addParameter types r node).1 = .error f ∧
      Refused types (g.addParameter types r node).2 r.name f := by
  have hnamed : ownerOf? (g.named r node).parameterNames r.identifier =
      some ((ownerOf? g.parameterNames r.identifier).getD node) := by
    rw [named, ownerOf?_assignOwner, if_pos rfl]
  rw [addParameter_eq, hexposed]
  dsimp only
  rw [hname, if_neg (by decide), htype]
  split
  · next hother => exact .inr ⟨_, rfl, .taken howner hnamed hother⟩
  · next hself =>
    rw [Decidable.not_not.mp hself] at hnamed
    split
    · next p hp =>
      split
      · next hne => exact .inr ⟨_, rfl, .occupied howner hp hne⟩
      · next heq =>
        obtain rfl := Decidable.not_not.mp heq
        exact .inl ⟨p, rfl, hname, howner, hnamed, hp⟩
    · next hnone =>
      have hglobal : (r.parameter types node).global = types.globalStem .bool ++ r.identifier := by
        rw [← htype]
        rfl
      have hfound : parameterOf? { g.named r node with
          parameters := g.parameters ++ [r.parameter types node] }
          (types.globalStem .bool ++ r.identifier) = _ :=
        parameterOf?_append (g := g) rfl _
      rw [hnone, if_pos hglobal] at hfound
      exact .inl ⟨_, rfl, hname, howner, hnamed, hfound⟩

end Globals

namespace Pass

variable {env : Environment} {nested : Site → Pass → List Event}

/-- **A switch finds the attribute of its feature, or it is refused.** -/
theorem bindToggle_settles (htypes : env.types = .builtin) (name : String) (initial : Bool)
    (s : Pass) :
    (∃ p, (s.bindToggle env name initial).1 = .ok p.expr ∧
      Globals.Attribute .builtin (s.bindToggle env name initial).2.globals name p) ∨
    ∃ f, (s.bindToggle env name initial).1 = .error f ∧
      Globals.Refused .builtin (s.bindToggle env name initial).2.globals name f := by
  unfold bindToggle
  dsimp only
  split
  · next hempty => exact .inr ⟨_, rfl, .nameless hempty⟩
  · next hname =>
    have hid : (Identifier.ofText name).isEmpty = false :=
      Bool.eq_false_iff.mpr fun h => hname ((Identifier.screaming_isEmpty_iff name).mpr h)
    have howner := ownerOf?_assignOwner s.globals.toggles (Identifier.screaming name)
      s.currentNode (Identifier.screaming name)
    rw [if_pos rfl, ← assignOwner_fst] at howner
    rw [bindParameter_eq, htypes]
    -- the attribute is registered for the owner of the feature, whoever asks for it
    have hsettles := Globals.addParameter_settles (g := { s.globals with
        toggles := (assignOwner s.globals.toggles (Identifier.screaming name) s.currentNode).2 })
      (r := { name, type := .bool, initial := some (.bool initial), isAttribute := true })
      rfl (exposureFault?_toggle { name, previewValue := initial }) hid howner
    rcases hsettles with ⟨p, hp, hattribute⟩ | ⟨f, hp, hrefused⟩
    · exact .inl ⟨p, by rw [hp]; rfl, hattribute⟩
    · exact .inr ⟨f, by rw [hp]; rfl, hrefused⟩

/-- What happens in the second part of a plan happens in the plan. -/
theorem mem_runTrace_bind {α β : Type} {r : Resolver} {site : Site} {plan : Plan α}
    {next : α → Plan β} {a : α} {s s' : Pass} {e : Event} (h : run env r plan s = (.ok a, s'))
    (he : e ∈ runTrace env r nested site (next a) s') :
    e ∈ runTrace env r nested site (plan >>= next) s := by
  change e ∈ runTrace env r nested site (plan.bind next) s
  induction plan generalizing s with
  | done b =>
    cases h
    exact he
  | fail fault => cases h
  | ask c k ih => exact List.mem_append_right _ (List.mem_cons_of_mem _ (ih _ h))

/-- In a preview the value of a switch is selected by the answer to its request. -/
theorem switch_reads {r : Resolver} {site : Site} {sw : SwitchSettings} {output : String}
    {s s' : Pass} {e : Expr} (hmode : env.mode = .preview)
    (h : run env r (SwitchSettings.spec.plan sw (frame env site) output) s = (.ok e, s')) :
    ∃ t toggle t' on off, Event.performed (.toggle sw.name sw.previewValue) t (.ok toggle) t' ∈
        runTrace env r nested site (SwitchSettings.spec.plan sw (frame env site) output) s ∧
      e.code = toggle.code ++ " ? " ++ on ++ " : " ++ off := by
  have houtput : output = resultOutput := by
    by_contra hne
    rw [SwitchSettings.plan_eq, Plan.onlyResult, if_neg hne] at h
    cases h
  rw [SwitchSettings.plan_eq, Plan.onlyResult, if_pos houtput] at h ⊢
  obtain ⟨x, s₁, hx, h⟩ := run_bind_eq_ok h
  obtain ⟨y, s₂, hy, h⟩ := run_bind_eq_ok h
  have hframe : (frame env site).mode = .preview := hmode
  rw [hframe] at h ⊢
  -- the request is the first step of the selection, and its answer decides
  have hreply := h
  unfold SwitchSettings.selection at hreply
  obtain ⟨reply, s₃, hask, hreply⟩ := run_bind_eq_ok hreply
  obtain ⟨toggle, s₄, htoggle, hreply⟩ := run_bind_eq_ok hreply
  rw [run_request] at hask
  rw [run_ofExcept] at htoggle
  obtain ⟨hanswer, hafter⟩ := Prod.mk.inj hask
  have hgiven := (Except.ok.inj hanswer).trans (Prod.mk.inj htoggle).1
  cases hreply
  refine ⟨s₂, toggle, s₃, _, _, mem_runTrace_bind hx (mem_runTrace_bind hy ?_), rfl⟩
  have hevent : Event.performed (.toggle sw.name sw.previewValue) s₂
      (s₂.perform env r (.toggle sw.name sw.previewValue)).1
      (s₂.perform env r (.toggle sw.name sw.previewValue)).2 ∈
      runTrace env r nested site (sw.selection .preview y) s₂ :=
    List.mem_append_right _ List.mem_cons_self
  rwa [hgiven, hafter] at hevent

end Pass

namespace Compiler

open Pass

/-- **All switches of a feature read one parameter.** Names with one screaming identifier have one
identifier, and both are empty for the same texts: those without letters and digits. In every
pass, whatever switches of a feature ask for its attribute are given the same boolean parameter,
unless they all are refused because it is no feature or something else has its name. And what a
switch asks for is what selects its value. -/
theorem switches_share_attribute (a b : String) :
    (Identifier.screaming a = Identifier.screaming b →
      Identifier.ofText a = Identifier.ofText b) ∧
    ((Identifier.screaming a).isEmpty = true ↔ (Identifier.ofText a).isEmpty = true) ∧
    ((Identifier.ofText a).isEmpty = true ↔ ∀ c ∈ a.toList, c.isAlphanum = false) ∧
    (∀ (c : Compiler) d l, c.types = .builtin → c.IsTrace d l → ∀ i s x s' j t y t',
      Event.performed (.toggle a i) s x s' ∈ l → Event.performed (.toggle b j) t y t' ∈ l →
      Identifier.screaming a = Identifier.screaming b →
      (∃ p : Parameter, p.type = .bool ∧
        p.global = TypeTable.builtin.globalStem .bool ++ Identifier.ofText a ∧
        p ∈ s'.globals.parameters ∧ p ∈ t'.globals.parameters ∧
        x = .ok p.expr ∧ y = .ok p.expr) ∨
      ∃ f f', x = .error f ∧ s'.globals.Refused .builtin a f ∧
        y = .error f' ∧ t'.globals.Refused .builtin b f') ∧
    ∀ env r nested site (sw : SwitchSettings) output s e s', env.mode = .preview →
      run env r (SwitchSettings.spec.plan sw (frame env site) output) s = (.ok e, s') →
      ∃ t toggle t' on off, Event.performed (.toggle sw.name sw.previewValue) t (.ok toggle) t' ∈
          runTrace env r nested site (SwitchSettings.spec.plan sw (frame env site) output) s ∧
        e.code = toggle.code ++ " ? " ++ on ++ " : " ++ off := by
  refine ⟨Identifier.ofText_eq_of_screaming_eq, Identifier.screaming_isEmpty_iff a,
    Identifier.ofText_isEmpty_iff a, fun c d l htypes htrace i s x s' j t y t' hx hy hab => ?_,
    fun env r nested site sw output s e s' => switch_reads⟩
  obtain ⟨mode, first, last, hfresh, hsession⟩ := htrace.session
  have horder := Between.stepwise.segmental.session hsession (hfresh.stocked _) hfresh.atRest
  have hinvariant : Invariant (c.environment mode d) fun s => s.globals.Spelled c.types :=
    (Globals.spelled_stable c.types).invariant
  obtain ⟨declarations, rfl⟩ := hfresh
  obtain ⟨hspelled, hevents⟩ := hinvariant.session hsession (Globals.spelled_fresh _ _)
  rw [htypes] at hspelled
  -- what an event settles about the feature of a name, and that the last tables go on from it
  have hsettles {n : String} {k : Bool} {u u' : Pass} {z : Except Fault Expr}
      (hz : Event.performed (.toggle n k) u z u' ∈ l) :
      u'.globals.Within last.globals ∧
      ((∃ p, z = .ok p.expr ∧ Globals.Attribute .builtin u'.globals n p) ∨
        ∃ f, z = .error f ∧ Globals.Refused .builtin u'.globals n f) := by
    have hwithin : u'.globals.Within last.globals := (horder.before _ hz).tables
    obtain ⟨-, -, -, r, -, hperform⟩ := hevents _ hz
    rw [perform_toggle] at hperform
    have hknown : (c.environment mode d).types = .builtin := htypes
    have hbind := bindToggle_settles hknown n k u
    rw [hperform] at hbind
    exact ⟨hwithin, hbind⟩
  obtain ⟨hs, ⟨p, rfl, hp⟩ | ⟨f, rfl, hf⟩⟩ := hsettles hx
  · obtain ⟨ht, ⟨q, rfl, hq⟩ | ⟨f, rfl, hf⟩⟩ := hsettles hy
    · have hend := hp.mono hs
      obtain rfl := (hend.congr hab).unique (hq.mono ht)
      exact .inl ⟨p, hend.type_eq hspelled, hp.global_eq, hp.mem, hq.mem, rfl, rfl⟩
    · exact absurd ((hp.mono hs).congr hab) (hf.mono ht).not_attribute
  · obtain ⟨ht, ⟨q, rfl, hq⟩ | ⟨f', rfl, hf'⟩⟩ := hsettles hy
    · exact absurd ((hq.mono ht).congr hab.symm) (hf.mono hs).not_attribute
    · exact .inr ⟨f, f', rfl, hf, rfl, hf'⟩

/-- What a switch has asked for by its name, and the text or the fault it has been given. -/
def Event.toggled? : Event → Option (String × Except Fault String)
  | .performed (.toggle name _) _ reply _ => some (name, Except.map Expr.code reply)
  | _ => none

theorem exists_toggle {l : List Event} {name code : String}
    (h : (name, .ok code) ∈ l.filterMap Event.toggled?) :
    ∃ i s e s', Event.performed (.toggle name i) s (.ok e) s' ∈ l := by
  obtain ⟨e, he, hname⟩ := List.mem_filterMap.mp h
  unfold Event.toggled? at hname
  split at hname
  · next n i s reply s' =>
    obtain ⟨rfl, hreply⟩ := Prod.mk.inj (Option.some.inj hname)
    cases reply with
    | ok value => exact ⟨i, s, value, s', he⟩
    | error fault => cases hreply
  · cases hname

/-- What happens in a preview of a coat. -/
def coatTrace : List Event :=
  (withTint tintDocument).materialTrace coatDocument { mode := .preview }

/-- The two switches of a coat have their names in different spellings. -/
theorem switches_share_attribute_coat :
    coatTrace.filterMap Event.toggled? =
      [("Use Tint", .ok "g_bUseTint"), ("use tint", .ok "g_bUseTint")] ∧
    Identifier.screaming "Use Tint" = Identifier.screaming "use tint" ∧
    ∃ p : Parameter, p.type = .bool ∧ ∃ i s s' j t t',
      Event.performed (.toggle "Use Tint" i) s (.ok p.expr) s' ∈ coatTrace ∧
      Event.performed (.toggle "use tint" j) t (.ok p.expr) t' ∈ coatTrace := by
  have hasked : coatTrace.filterMap Event.toggled? =
      [("Use Tint", .ok "g_bUseTint"), ("use tint", .ok "g_bUseTint")] := by decide +kernel
  have hname : Identifier.screaming "Use Tint" = Identifier.screaming "use tint" := by
    decide +kernel
  obtain ⟨i, s, e, s', he⟩ := exists_toggle (hasked ▸ List.mem_cons_self)
  obtain ⟨j, t, e', t', he'⟩ :=
    exists_toggle (hasked ▸ List.mem_cons_of_mem _ List.mem_cons_self)
  refine ⟨hasked, hname, ?_⟩
  rcases (switches_share_attribute _ _).2.2.2.1 (withTint tintDocument) coatDocument coatTrace rfl
    (.inl ⟨{ mode := .preview }, rfl⟩) _ _ _ _ _ _ _ _ he he' hname with
    ⟨p, htype, -, -, -, hx, hy⟩ | ⟨f, f', hx, -⟩
  · rw [hx] at he
    rw [hy] at he'
    exact ⟨p, htype, i, s, s', j, t, t', he, he'⟩
  · cases hx

/-- A glaze with a number and two switches of one feature, all of them with one name. -/
def glazeDocument : Document where
  nodes := [
    .of .materialResult 1 { opacity := .ofNode 2, roughness := .ofNode 3, metalness := .ofNode 4 },
    .of (.literal .float) 2 { value := zero, name := "Roughness" },
    .of .staticSwitch 3 { name := "Roughness" },
    .of .staticSwitch 4 { name := "roughness" }]

/-- **Switches of a feature can be left without an attribute.** A final build has the feature and
reports nothing. In a preview the number has taken the name of the attribute, so that both switches
are refused, and there is no boolean parameter at any moment. -/
theorem attribute_refused_of_taken_name :
    Identifier.screaming "Roughness" = Identifier.screaming "roughness" ∧
    ((compile {} glazeDocument {}).toOption.map fun r =>
      (r.report.entries, r.program.map fun p => p.features.map Feature.feature)) =
      some ([], some ["F_ROUGHNESS"]) ∧
    (materialTrace {} glazeDocument { mode := .preview }).filterMap Event.toggled? =
      [("Roughness", .error (.duplicateName "Roughness")),
        ("roughness", .error (.duplicateName "roughness"))] ∧
    ((materialTrace {} glazeDocument { mode := .preview }).all fun e =>
      e.pass.globals.parameters.all (·.type != .bool)) = true := by
  decide +kernel

end Compiler

end MaterialGraph
