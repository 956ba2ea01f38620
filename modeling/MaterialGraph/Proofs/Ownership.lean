import MaterialGraph.Proofs.Likeness
import MaterialGraph.Proofs.Naming
import Mathlib.Data.List.Nodup

/-!
# Who owns a name

A parameter is registered for the node that asks for it first, and its name belongs to
that node. The attribute that stands for a feature belongs to the first switch of the
feature. So every parameter is one that a node with the identifier of its owner declares,
and what a named constant gives refers to the parameter that the constant declares, unless
another node with the same identifier declares another parameter under the same name.

## Main definitions

* `Node.declared?`, `Environment.Declares` — the parameters that nodes declare.
* `Environment.Agreed` — nodes with one identifier do not disagree about a name.
* `Globals.Owned` — tables in which everything belongs to the node that declares it.
* `Pass.Remembers` — what holds of the tables of a pass and of the outcomes beside them.
* `Pass.Owned` — tables that are owned, for a pass and the constants it has resolved.

## Main results

* `Text.Identifier.ofText_eq_of_screaming_eq` — a feature's name determines the name of its
  attribute.
* `Globals.Owned.registers`, `Pass.bindToggle_owned` — what registration keeps.
* `Pass.resolve_owned` — resolving an output keeps it.
* `Compiler.parameters_distinct` — the names of the parameters of a program are distinct, and
  constants refer to their own parameters.
* `Compiler.parameters_confused_of_shared_identifier` — this fails for nodes that share an
  identifier.
-/

namespace MaterialGraph

variable {c : NodeClass} {r : ParameterSpec} {env : Environment}

namespace Text.Identifier

/-! ### Two spellings of a name -/

/-- A letter of a screaming identifier as the other spelling has it: small, unless it starts
a word. -/
def letter (start : Bool) (c : Char) : Char := if start then c else c.toLower

/-- A screaming identifier in the other spelling. -/
def spoken : Bool → List Char → List Char
  | _, [] => []
  | start, c :: cs => if c = '_' then spoken true cs else letter start c :: spoken false cs

@[simp] theorem spoken_nil (start : Bool) : spoken start [] = [] := rfl

@[simp] theorem spoken_cons (start : Bool) (c : Char) (cs : List Char) : spoken start (c :: cs) =
    if c = '_' then spoken true cs else letter start c :: spoken false cs := rfl

/-- How the last letter is written depends on the one before it. -/
theorem spoken_concat (c : Char) (cs : List Char) : ∀ start,
    spoken start (cs ++ [c]) = spoken start cs ++
      if c = '_' then [] else [letter ((cs.getLast?.map (· == '_')).getD start) c] := by
  induction cs with
  | nil =>
    intro start
    by_cases hc : c = '_'
    · simp [hc]
    · simp [hc]
  | cons d ds ih =>
    intro start
    have hlast : ((d :: ds).getLast?.map (· == '_')).getD start =
        (ds.getLast?.map (· == '_')).getD (d == '_') := by
      cases ds with
      | nil => rfl
      | cons d' ds => rfl
    rw [hlast, List.cons_append, spoken_cons, spoken_cons]
    by_cases hd : d = '_'
    · rw [if_pos hd, if_pos hd, ih, hd, beq_self_eq_true]
    · rw [if_neg hd, if_neg hd, ih, beq_eq_false_iff_ne.mpr hd]
      rfl

theorem spoken_reverse_cons (c : Char) (acc : List Char) :
    spoken true (c :: acc).reverse = spoken true acc.reverse ++
      if c = '_' then [] else [letter (!canDivide acc) c] := by
  rw [List.reverse_cons, spoken_concat, List.getLast?_reverse]
  cases acc with
  | nil => rfl
  | cons d ds =>
    rw [canDivide, bne, Bool.not_not]
    rfl

/-- Underscores at the end are not spoken. -/
theorem spoken_dropWhile (acc : List Char) :
    spoken true (acc.dropWhile (· == '_')).reverse = spoken true acc.reverse := by
  induction acc with
  | nil => rfl
  | cons c acc ih =>
    rw [List.dropWhile_cons]
    split
    · next hc =>
      rw [ih, spoken_reverse_cons, if_pos (eq_of_beq hc), List.append_nil]
    · rfl

/-- A statement about letters and digits is decided on the characters up to `z`. -/
theorem of_isAlphanum {P : Char → Bool}
    (h : (List.range 128).all (fun n =>
      !(Char.ofNat n).isAlphanum || P (Char.ofNat n)) = true) {c : Char}
    (hc : c.isAlphanum = true) : P c = true := by
  have hlt : c.toNat < 128 := by
    have hval : c.toNat = c.val.toNat := rfl
    rw [Char.isAlphanum, Bool.or_eq_true, isAlpha_iff, isUpper_iff, isLower_iff] at hc
    rcases hc with h | hc
    · omega
    · rw [Char.isDigit, Bool.and_eq_true, decide_eq_true_eq, decide_eq_true_eq] at hc
      have h : c.val.toNat ≤ 57 := UInt32.le_iff_toNat_le.mp hc.2
      omega
  have hn := List.all_eq_true.mp h c.toNat (List.mem_range.mpr hlt)
  rw [Char.ofNat_toNat, hc] at hn
  exact hn

/-- What becomes of a letter or a digit in both spellings. -/
theorem toUpper_cases {c : Char} (hc : c.isAlphanum = true) :
    c.toUpper ≠ '_' ∧ (c.isUpper = true → c.toUpper = c) ∧
      (c.isUpper = false → c.toUpper.toLower = c) := by
  have h := of_isAlphanum (P := fun c => c.toUpper != '_' && (!c.isUpper || c.toUpper == c) &&
    (c.isUpper || c.toUpper.toLower == c)) (by decide +kernel) hc
  simp only [Bool.and_eq_true, Bool.or_eq_true, bne_iff_ne, beq_iff_eq, Bool.not_eq_true'] at h
  obtain ⟨⟨hne, hup⟩, hlow⟩ := h
  refine ⟨hne, fun hu => ?_, fun hu => ?_⟩
  · exact hup.resolve_left (by rw [hu]; decide)
  · exact hlow.resolve_left (by rw [hu]; decide)

/-- One more character: both spellings go on alike. -/
theorem spoken_screamStep (acc : List Char) (c : Char) (cs : List Char) :
    spoken true (screamStep acc c).reverse ++ capitalized (!canDivide (screamStep acc c)) cs =
      spoken true acc.reverse ++ capitalized (!canDivide acc) (c :: cs) := by
  rw [capitalized_cons]
  by_cases hc : c.isAlphanum = true
  · obtain ⟨hne, hup, hlow⟩ := toUpper_cases hc
    have hdiv : ∀ acc, canDivide (c.toUpper :: acc) = true := fun acc => bne_iff_ne.mpr hne
    rw [if_pos hc]
    by_cases hu : c.isUpper = true
    · cases hcan : canDivide acc with
      | true =>
        -- a capital starts a word
        have hstep : screamStep acc c = c.toUpper :: '_' :: acc := by
          simp [screamStep, hu, hcan, hc]
        rw [hstep, hdiv, spoken_reverse_cons, if_neg hne, spoken_reverse_cons, if_pos rfl, hup hu]
        simp [letter, canDivide]
      | false =>
        have hstep : screamStep acc c = c.toUpper :: acc := by simp [screamStep, hcan, hc]
        rw [hstep, hdiv, spoken_reverse_cons, if_neg hne, hcan, hup hu]
        simp [letter]
    · have hstep : screamStep acc c = c.toUpper :: acc := by simp [screamStep, hu, hc]
      rw [hstep, hdiv, spoken_reverse_cons, if_neg hne]
      cases hcan : canDivide acc with
      | true => simp [letter, hlow (Bool.eq_false_iff.mpr hu)]
      | false => simp [letter]
  · have hu : c.isUpper = false := by
      cases hu : c.isUpper with
      | false => rfl
      | true => exact absurd (by rw [Char.isAlphanum, (isAlpha_iff c).mpr (.inl hu)]; rfl) hc
    rw [if_neg hc]
    cases hcan : canDivide acc with
    | true =>
      have hstep : screamStep acc c = '_' :: acc := by simp [screamStep, hu, hcan, hc]
      rw [hstep, spoken_reverse_cons, if_pos rfl, List.append_nil]
      rfl
    | false =>
      have hstep : screamStep acc c = acc := by simp [screamStep, hu, hcan, hc]
      rw [hstep, hcan]
      rfl

theorem spoken_foldl (cs : List Char) : ∀ acc,
    spoken true (cs.foldl screamStep acc).reverse =
      spoken true acc.reverse ++ capitalized (!canDivide acc) cs := by
  induction cs with
  | nil => exact fun acc => (List.append_nil _).symm
  | cons c cs ih => exact fun acc => (ih _).trans (spoken_screamStep acc c cs)

/-- **The screaming spelling of a name determines the other one.** -/
theorem ofText_eq_of_screaming_eq {a b : String} (h : screaming a = screaming b) :
    ofText a = ofText b := by
  have hspoken (text : String) :
      capitalized true text.toList = spoken true (screaming text).toList := by
    rw [screaming, String.toList_ofList, spoken_dropWhile, spoken_foldl]
    rfl
  rw [ofText, ofText, hspoken, hspoken, h]

end Text.Identifier

open Text

/-! ### What nodes declare -/

/-- The parameter that a node declares in a mode. A switch declares one as long as the
feature is decided by an attribute. -/
def NodeClass.declared? (mode : Mode) (c : NodeClass) (s : c.Settings) : Option ParameterSpec :=
  match mode, c.switch? s with
  | .preview, some sw => some sw.toggle
  | _, _ => c.parameter? s

namespace Node

/-- The parameter that a node declares in a mode. -/
def declared? (node : Node) (mode : Mode) : Option ParameterSpec :=
  node.built?.bind fun b => b.1.declared? mode b.2

/-- The parameter that a saved node declares, if it is a named constant. -/
def constant? (node : Node) : Option ParameterSpec := node.built?.bind fun b => b.1.constant? b.2

end Node

namespace Environment

/-- Some node with this identifier declares this parameter. -/
def Declares (env : Environment) (id : NodeId) (r : ParameterSpec) : Prop :=
  ∃ scope node, env.nodeAt? scope id = some node ∧ node.declared? env.mode = some r

/-- Nodes of different documents that have one identifier, and declare parameters under one
name, mean the same type and the same value. -/
def Agreed (env : Environment) : Prop :=
  ∀ id r r', env.Declares id r → env.Declares id r' → r.identifier = r'.identifier →
    r.type = r'.type ∧ r.initial = r'.initial

end Environment

theorem NodeClass.declared?_of_parameter? {mode : Mode} {s : c.Settings}
    (h : c.parameter? s = some r) : c.declared? mode s = some r := by
  cases c with
  | staticSwitch => cases h
  | _ => cases mode <;> exact h

theorem NodeClass.declared?_of_switch? {s : c.Settings} {sw : SwitchSettings}
    (h : c.switch? s = some sw) : c.declared? .preview s = some sw.toggle := by
  unfold declared?
  rw [h]

/-- A switch whose settings are acceptable has a name. -/
theorem NodeClass.identifier_of_switch? {s : c.Settings} {sw : SwitchSettings}
    (h : c.switch? s = some sw) (he : c.spec.errors s = []) :
    sw.toggle.identifier.isEmpty = false := by
  cases c with
  | staticSwitch =>
    cases h
    have he : (if (Identifier.ofText sw.name).isEmpty then ["static switch requires a name"]
      else []) = [] := he
    split at he
    · cases he
    · next hname => exact Bool.eq_false_iff.mpr hname
  | _ => cases h

theorem NodeClass.plan_of_constant? {s : c.Settings} (h : c.constant? s = some r) (frame : Frame)
    (output : String) :
    ∃ name, c.spec.plan s frame output =
      .onlyResult name output (Plan.request (.parameter r) >>= Plan.ofExcept) := by
  cases c with
  | literal k =>
    have h : (if s.name.isEmpty then none else some (Literal.parameter k s)) = some r := h
    split at h
    · cases h
    · next hname =>
      cases h
      refine ⟨k.name, ?_⟩
      show Plan.onlyResult _ _ (if s.name.isEmpty then _ else _) = _
      rw [if_neg hname]
  | bool =>
    have h : (if s.name.isEmpty then none else some s.parameter) = some r := h
    split at h
    · cases h
    · next hname =>
      cases h
      refine ⟨"Bool", ?_⟩
      show Plan.onlyResult _ _ (if s.name.isEmpty then _ else _) = _
      rw [if_neg hname]
  | _ => cases h

theorem Environment.Stands.declares {site : Site} {st : c.Settings} (h : env.Stands site c st)
    (hr : c.declared? env.mode st = some r) : env.Declares site.node r := by
  obtain ⟨node, hnode, hbuilt, -⟩ := h
  refine ⟨site.scope, node, hnode, ?_⟩
  rw [Node.declared?, hbuilt]
  exact hr

theorem Environment.Stands.errors {site : Site} {st : c.Settings} (h : env.Stands site c st) :
    c.spec.errors st = [] := by
  obtain ⟨node, -, -, he⟩ := h
  exact he

/-! ### Registration -/

theorem owner_unique {owners : List (String × NodeId)} (h : (owners.map Prod.fst).Nodup)
    {key : String} {a b : NodeId} (ha : (key, a) ∈ owners) (hb : (key, b) ∈ owners) : a = b :=
  congrArg Prod.snd (List.inj_on_of_nodup_map h ha hb rfl)

namespace Globals

/-- Tables in which every parameter belongs to the node that owns its name, and was declared
by a node with that identifier. -/
structure Owned (env : Environment) (g : Globals) : Prop where
  names : (g.parameterNames.map Prod.fst).Nodup
  /-- A global is registered once. -/
  globals : (g.parameters.map Parameter.global).Nodup
  /-- Parameters belong to the owners of their names. -/
  owner : ∀ p ∈ g.parameters, (p.name, p.node) ∈ g.parameterNames
  declared : ∀ p ∈ g.parameters, ∃ r, env.Declares p.node r ∧ p = r.parameter env.types p.node

/-- The attribute of a feature is that of its owner, unless the name is taken. -/
def Toggled (env : Environment) (g : Globals) (identifier : String) (owner : NodeId) : Prop :=
  ∃ name node, Identifier.screaming name = identifier ∧
    (Identifier.ofText name, node) ∈ g.parameterNames ∧
    (node = owner → ∃ p ∈ g.parameters,
      p.global = env.types.globalStem .bool ++ Identifier.ofText name)

variable {env : Environment} {g g' : Globals} {types : TypeTable} {r : ParameterSpec}
  {node : NodeId} {x : Except Fault Parameter}

theorem Owned.named (h : g.Owned env) (r : ParameterSpec) (node : NodeId) :
    (g.named r node).Owned env where
  names := assignOwner_nodup _ _ h.names
  globals := h.globals
  owner p hp := assignOwner_subset _ _ _ (h.owner p hp)
  declared := h.declared

/-- The parameter that registration gives is in the table, under the global that was asked
for, and belongs to the node. -/
theorem Registers.result {p : Parameter} (h : g.Registers types r node (.ok p) g') :
    p ∈ g'.parameters ∧ p.global = (r.parameter types node).global ∧ p.node = node := by
  cases h with
  | shared p hp hglobal hnode => exact ⟨hp, hglobal, hnode⟩
  | fresh hnew howner => exact ⟨by simp, rfl, rfl⟩

theorem Registers.subset (h : g.Registers types r node x g') :
    g.parameters ⊆ g'.parameters ∧ g.parameterNames ⊆ g'.parameterNames ∧
      g'.toggles = g.toggles := by
  cases h with
  | refused fault h => exact ⟨List.Subset.refl _, List.Subset.refl _, rfl⟩
  | taken fault h | shared p hp hglobal hnode =>
    exact ⟨List.Subset.refl _, assignOwner_subset _ _ _, rfl⟩
  | fresh hnew howner => exact ⟨List.subset_append_left _ _, assignOwner_subset _ _ _, rfl⟩

theorem Toggled.mono {identifier : String} {owner : NodeId} (h : g.Toggled env identifier owner)
    (hp : g.parameters ⊆ g'.parameters) (hn : g.parameterNames ⊆ g'.parameterNames) :
    g'.Toggled env identifier owner := by
  obtain ⟨name, node, hname, hmem, hglobal⟩ := h
  refine ⟨name, node, hname, hn hmem, fun heq => ?_⟩
  obtain ⟨p, hp', he⟩ := hglobal heq
  exact ⟨p, hp hp', he⟩

/-- A registration that adds no parameter, or the parameter of a node that declares it. -/
theorem Owned.registers (h : g.Owned env) (hr : g.Registers env.types r node x g')
    (hd : (∃ p ∈ g.parameters, p.global = (r.parameter env.types node).global) ∨
      (assignOwner g.parameterNames r.identifier node).1 ≠ node ∨ env.Declares node r) :
    g'.Owned env := by
  have hnamed := h.named r node
  cases hr with
  | refused fault _ => exact h
  | taken fault _ => exact hnamed
  | shared p hp hglobal hnode => exact hnamed
  | fresh hnew howner =>
    have hdecl : env.Declares node r := by
      rcases hd with ⟨p, hp, hglobal⟩ | hother | hd
      · exact absurd hglobal (hnew p hp)
      · exact absurd howner hother
      · exact hd
    have hmem : (r.identifier, node) ∈ (g.named r node).parameterNames := by
      have := assignOwner_mem g.parameterNames r.identifier node
      rwa [howner] at this
    exact ⟨hnamed.names, nodup_map_concat h.globals hnew, forall_mem_concat hnamed.owner hmem,
      forall_mem_concat h.declared ⟨r, hdecl, rfl⟩⟩

/-- Once a switch has asked for the attribute of its feature, the feature has one. -/
theorem Registers.toggled {sw : SwitchSettings} (ht : env.types = types)
    (hr : g.Registers types sw.toggle node x g') (hexposed : exposureFault? types sw.toggle = none)
    (hname : sw.toggle.identifier.isEmpty = false) :
    g'.Toggled env (Identifier.screaming sw.name) node := by
  subst ht
  have howner := assignOwner_mem g.parameterNames sw.toggle.identifier node
  cases hr with
  | refused fault h =>
    rw [ParameterSpec.fault?, hexposed, hname] at h
    cases h
  | taken fault h => exact ⟨sw.name, _, rfl, howner, h⟩
  | shared p hp hglobal hnode => exact ⟨sw.name, _, rfl, howner, fun _ => ⟨p, hp, hglobal⟩⟩
  | fresh hnew heq => exact ⟨sw.name, _, rfl, howner, fun _ =>
      ⟨sw.toggle.parameter env.types node, by simp, rfl⟩⟩

/-- Two tables with the same parameters, names and attributes. -/
def SameParameters (g g' : Globals) : Prop :=
  g'.parameters = g.parameters ∧ g'.parameterNames = g.parameterNames ∧ g'.toggles = g.toggles

theorem SameParameters.subset (h : SameParameters g g') :
    g.parameters ⊆ g'.parameters ∧ g.parameterNames ⊆ g'.parameterNames := by
  rw [h.1, h.2.1]
  exact ⟨List.Subset.refl _, List.Subset.refl _⟩

theorem Owned.of_same (h : g.Owned env) (hs : SameParameters g g') : g'.Owned env := by
  obtain ⟨hp, hn, -⟩ := hs
  refine ⟨hn ▸ h.names, hp ▸ h.globals, ?_, ?_⟩
  · rw [hp, hn]
    exact h.owner
  · rw [hp]
    exact h.declared

/-- Parameters are left alone by all other registrations. -/
theorem SameParameters.stable (types : TypeTable) (g : Globals) :
    Stable types (fun r => ∀ spec node, r ≠ .parameter spec node) (SameParameters g) where
  change hr hchange h := by
    cases hchange with
    | named spec node => exact absurd rfl (hr spec node)
    | @parameter _ spec node _ _ _ => exact absurd rfl (hr spec node)
    | _ => exact h
  toggles hr _ _ := absurd rfl (hr _ _)
  develop h _ _ _ _ := h

end Globals

namespace Pass

open Globals

variable {env : Environment} {s s' : Pass} {r : Resolver} {spec : ParameterSpec} {cmd : Command}

/-! ### Passes -/

/-- A pass that knows where scopes lead. Something holds of its tables, and of each outcome that
it remembers beside them. -/
structure Remembers (env : Environment) (T : Globals → Prop) (V : Globals → Site → Outcome → Prop)
    (s : Pass) : Prop where
  faithful : Faithful env s
  tables : T s.globals
  /-- What holds of outcomes. -/
  values : ∀ site o, s.progress? site = some (.finished o) → V s.globals site o

namespace Remembers

variable {T : Globals → Prop} {V : Globals → Site → Outcome → Prop}

/-- A step that leaves the memo alone. -/
theorem of_tables (h : Remembers env T V s) (hf : Faithful env s') (hm : s'.memo = s.memo)
    (ht : T s'.globals) (hv : ∀ site o, V s.globals site o → V s'.globals site o) :
    Remembers env T V s' := by
  refine ⟨hf, ht, fun site o ho => hv site o (h.values site o ?_)⟩
  unfold progress? at ho ⊢
  rw [← hm]
  exact ho

/-- A step that leaves the memo and the tables alone. -/
theorem of_same (h : Remembers env T V s) (hf : Faithful env s') (hm : s'.memo = s.memo)
    (hg : s'.globals = s.globals) : Remembers env T V s' :=
  h.of_tables hf hm (hg ▸ h.tables) fun _ _ hv => hg ▸ hv

theorem of_fresh (h : Fresh s) (ht : T s.globals) : Remembers env T V s :=
  ⟨h.faithful, ht, fun site o ho => by rw [h.progress?] at ho; cases ho⟩

theorem place (h : Remembers env T V s) (stack : List Site) (scope : Scope) (stage : Stage) :
    Remembers env T V { s with stack, scope, stage } :=
  h.of_same (h.faithful.of_same rfl rfl) rfl rfl

theorem push (h : Remembers env T V s) (d : Diagnostic) : Remembers env T V (s.push d) :=
  h.of_same (h.faithful.of_same rfl rfl) rfl rfl

theorem pushFault (h : Remembers env T V s) (node : NodeId) (fault : Fault) :
    Remembers env T V (s.pushFault node fault) := by
  unfold Pass.pushFault
  split
  · exact h.push _
  · exact h

theorem follow (h : Remembers env T V s) (scope : Scope) :
    Remembers env T V (s.follow env scope).2 := by
  have hp := follow_prepared env scope s
  exact h.of_same (follow_faithful scope h.faithful).1 hp.memo hp.globals

theorem followed (h : Remembers env T V s) (hf : Followed env s s') : Remembers env T V s' := by
  rcases hf with rfl | ⟨path, rfl⟩
  · exact h
  · exact h.follow path

theorem root (h : Remembers env T V s) : Remembers env T V (s.root env).2 := by
  have hp := root_prepared env s
  exact h.of_same (root_faithful h.faithful).2.1 hp.memo hp.globals

theorem emit (h : Remembers env T V s) (statement : Statement) (n : Nat) :
    Remembers env T V { s.emit statement with locals := n } := by
  obtain ⟨v, p, he⟩ := s.emit_eq statement
  rw [he]
  exact h.of_same (h.faithful.of_same rfl rfl) rfl rfl

/-- A site is remembered, with an outcome that may be recorded. -/
theorem remember (h : Remembers env T V s) (site : Site) (p : Progress)
    (hp : ∀ o, p = .finished o → V s.globals site o) : Remembers env T V (s.remember site p) := by
  refine ⟨h.faithful.of_same rfl rfl, h.tables, fun other o ho => ?_⟩
  rw [progress?_remember] at ho
  split at ho
  · next heq =>
    subst heq
    exact hp o (Option.some.inj ho)
  · exact h.values other o ho

theorem enter (h : Remembers env T V s) (site : Site) : Remembers env T V (s.enter site) := by
  have hs := h.remember site .started fun o ho => by cases ho
  exact hs.of_same (hs.faithful.of_same rfl rfl) rfl rfl

end Remembers

/-- What a named constant gives refers to a parameter of its own name, type and owner. -/
def Refers (env : Environment) (g : Globals) (site : Site) (e : Expr) : Prop :=
  ∃ node, env.nodeAt? site.scope site.node = some node ∧ ∀ spec, node.constant? = some spec →
    e.code = (spec.parameter env.types site.node).global ∧
      ∃ p ∈ g.parameters, p.global = e.code ∧ p.node = site.node

/-- A pass whose tables are owned, in which features have their attributes and constants refer
to their parameters. -/
abbrev Owned (env : Environment) : Pass → Prop :=
  Remembers env (fun g => g.Owned env ∧ ∀ t ∈ g.toggles, g.Toggled env t.1 t.2)
    fun g site o => ∀ e, o = .valid e → Refers env g site e

theorem Refers.mono {g g' : Globals} {site : Site} {e : Expr} (h : Refers env g site e)
    (hp : g.parameters ⊆ g'.parameters) : Refers env g' site e := by
  obtain ⟨node, hnode, hconst⟩ := h
  refine ⟨node, hnode, fun spec hspec => ?_⟩
  obtain ⟨hcode, p, hmem, hglobal, hown⟩ := hconst spec hspec
  exact ⟨hcode, p, hp hmem, hglobal, hown⟩

namespace Owned

theorem of_fresh (h : Fresh s) : Owned env s := by
  refine Remembers.of_fresh h ?_
  obtain ⟨declarations, rfl⟩ := h
  exact ⟨⟨.nil, .nil, by simp, by simp⟩, by simp⟩

/-- A step that registers something and loses no parameter. -/
theorem of_globals (h : Owned env s) {globals : Globals} (hg : globals.Owned env)
    (ht : ∀ t ∈ globals.toggles, globals.Toggled env t.1 t.2)
    (hp : s.globals.parameters ⊆ globals.parameters) : Owned env { s with globals } :=
  h.of_tables (h.faithful.of_same rfl rfl) rfl ⟨hg, ht⟩ fun _ _ hv e he => (hv e he).mono hp

/-- Owning is kept by what happens around nodes. -/
theorem steady (env : Environment) : Steady env (Owned env) where
  place h := h.place
  push h d := h.push d
  root h := h.root
  follow h scope := h.follow scope
  settle h _ _ := h.remember _ _ fun o ho e he => by cases ho; cases he

end Owned

/-! ### Requests -/

/-- The type of an attribute that stands for a feature can be exposed. -/
theorem exposureFault?_toggle (sw : SwitchSettings) :
    exposureFault? .builtin sw.toggle = none := rfl

theorem bindParameter_owned (h : Owned env s) {node : NodeId} (hd : env.Declares node spec) :
    Owned env (s.bindParameter env spec node).2 := by
  have hreg := s.globals.addParameter_registers env.types spec node
  obtain ⟨hp, hn, ht⟩ := hreg.subset
  rw [bindParameter_eq]
  refine Owned.of_globals h (h.tables.1.registers hreg (.inr (.inr hd))) (fun t hmem => ?_) hp
  rw [ht] at hmem
  exact (h.tables.2 t hmem).mono hp hn

/-- The attribute of a feature belongs to the first switch of the feature. A later switch
registers nothing: it finds the attribute of the first one, or the name is taken. -/
theorem bindToggle_owned (htypes : env.types = .builtin) (h : Owned env s) {sw : SwitchSettings}
    (hname : sw.toggle.identifier.isEmpty = false) (hd : env.Declares s.currentNode sw.toggle) :
    Owned env (s.bindToggle env sw.name sw.previewValue).2 := by
  unfold bindToggle
  dsimp only
  split
  · exact h
  · rw [bindParameter_eq]
    have hcases := assignOwner_cases s.globals.toggles (Identifier.screaming sw.name)
      s.currentNode
    have hsub := assignOwner_subset s.globals.toggles (Identifier.screaming sw.name) s.currentNode
    generalize assignOwner s.globals.toggles (Identifier.screaming sw.name) s.currentNode =
      assigned at hcases hsub
    obtain ⟨owner, toggles⟩ := assigned
    have hreg := addParameter_registers { s.globals with toggles } env.types sw.toggle owner
    obtain ⟨hp, hn, ht⟩ := hreg.subset
    have ht : (addParameter env.types sw.toggle owner { s.globals with toggles }).2.toggles =
        toggles := ht
    have hg : Globals.Owned env { s.globals with toggles } :=
      ⟨h.tables.1.names, h.tables.1.globals, h.tables.1.owner, h.tables.1.declared⟩
    -- the attributes of other features are as they were
    have hold (t) (hmem : t ∈ s.globals.toggles) : Toggled env
        (addParameter env.types sw.toggle owner { s.globals with toggles }).2 t.1 t.2 :=
      (h.tables.2 t hmem).mono hp hn
    have hnew : ∀ t ∈ toggles, Toggled env
        (addParameter env.types sw.toggle owner { s.globals with toggles }).2 t.1 t.2 := by
      intro t hmem
      rcases hcases with ⟨owner', -, he⟩ | ⟨-, he⟩
      · cases he
        exact hold t hmem
      · cases he
        rcases List.mem_append.mp hmem with hmem | hmem
        · exact hold t hmem
        · rw [List.mem_singleton.mp hmem]
          refine hreg.toggled rfl ?_ hname
          rw [htypes]
          exact exposureFault?_toggle sw
    refine Owned.of_globals h (hg.registers hreg ?_) (fun t hmem => hnew t (ht ▸ hmem)) hp
    rcases hcases with ⟨owner', hmem, he⟩ | ⟨-, he⟩
    · cases he
      obtain ⟨name, node, hscream, hnamed, hglobal⟩ := h.tables.2 _ hmem
      rw [Identifier.ofText_eq_of_screaming_eq hscream] at hnamed hglobal
      by_cases hnode : node = owner
      · exact .inl (hglobal hnode)
      · refine .inr (.inl fun howner => hnode ?_)
        have hunique := owner_unique
          (assignOwner_nodup sw.toggle.identifier owner h.tables.1.names)
          (assignOwner_subset _ _ _ hnamed) (assignOwner_mem _ sw.toggle.identifier owner)
        exact hunique.trans howner
    · cases he
      exact .inr (.inr hd)

/-- A request that is answered at once and asks for no parameter leaves the parameters
alone. -/
theorem perform_sameParameters (h : demand? env cmd s = none) (hp : ∀ spec, cmd ≠ .parameter spec)
    (ht : ∀ name initial, cmd ≠ .toggle name initial) :
    SameParameters s.globals (s.perform env r cmd).2.globals := by
  rcases perform_of_no_demand r h with
    hf | hc | ⟨d, -, he⟩ | ⟨remark, rfl⟩ | ⟨feature, type, on, off, rfl⟩
  · rw [hf.prepared.globals]
    exact ⟨rfl, rfl, rfl⟩
  · refine (SameParameters.stable env.types s.globals).perform ⟨rfl, rfl, rfl⟩ r hc ?_
    rintro q hq spec node rfl
    cases cmd with
    | parameter spec => exact hp spec rfl
    | toggle name initial => exact ht name initial rfl
    | texture spec name fallback =>
      obtain ⟨_, hq⟩ := hq
      cases hq
    | _ => cases hq
  · rw [he]
    exact ⟨rfl, rfl, rfl⟩
  · exact ⟨rfl, rfl, rfl⟩
  · obtain ⟨v, p, he⟩ := s.emit_eq (.select (env.types.name type) s.locals feature.combo on.code
      off.code)
    rw [perform_select, he]
    exact ⟨rfl, rfl, rfl⟩

/-- A request that is answered at once keeps what is recorded, if the parameters that it asks for
do. -/
theorem Remembers.perform_of_no_demand {T : Globals → Prop} {V : Globals → Site → Outcome → Prop}
    (hT : ∀ {g g'}, SameParameters g g' → T g → T g')
    (hV : ∀ {g g'}, SameParameters g g' → ∀ site o, V g site o → V g' site o)
    (hparameter : ∀ spec, cmd = .parameter spec →
      Remembers env T V (s.bindParameter env spec s.currentNode).2)
    (htoggle : ∀ name initial, cmd = .toggle name initial →
      Remembers env T V (s.bindToggle env name initial).2) (hd : demand? env cmd s = none)
    (h : Remembers env T V s) :
    Remembers env T V (s.perform env r cmd).2 := by
  by_cases hp : ∃ spec, cmd = .parameter spec
  · obtain ⟨spec, rfl⟩ := hp
    exact hparameter spec rfl
  · by_cases ht : ∃ name initial, cmd = .toggle name initial
    · obtain ⟨name, initial, rfl⟩ := ht
      exact htoggle name initial rfl
    · have hsame : SameParameters s.globals (s.perform env r cmd).2.globals :=
        perform_sameParameters hd (fun spec he => hp ⟨spec, he⟩)
          fun name initial he => ht ⟨name, initial, he⟩
      rcases perform_booked r hd with ⟨s₁, hf, hb⟩ | ⟨feature, type, on, off, rfl⟩
      · have hs₁ := h.followed hf
        have hmemo := hf.prepared.memo
        obtain ⟨_, _, _, _, -, -, he⟩ := hb
        rw [he] at hsame ⊢
        exact h.of_tables (hs₁.faithful.of_same rfl rfl) hmemo (hT hsame h.tables) (hV hsame)
      · exact h.emit _ _

/-- A resolver that keeps passes owned. -/
abbrev Resolver.Owning (env : Environment) (r : Resolver) : Prop := r.Keeps (Owned env)

variable {site : Site} {c : NodeClass} {st : c.Settings}

/-- A request of a built-in node keeps a pass owned. -/
theorem perform_owned (htypes : env.types = .builtin) (hr : r.Owning env) {rest : List Site}
    (hstack : s.stack = site :: rest) (hst : env.Stands site c st)
    (hask : c.MayAsk env.types env.mode st cmd) (h : Owned env s) :
    Owned env (s.perform env r cmd).2 := by
  have hcurrent : s.currentNode = site.node := by
    unfold currentNode
    rw [hstack]
  rcases hd : demand? env cmd s with _ | ⟨site', s'⟩
  · refine h.perform_of_no_demand (fun hsame ht => ⟨ht.1.of_same hsame, fun t hmem =>
        (ht.2 t (hsame.2.2 ▸ hmem)).mono hsame.subset.1 hsame.subset.2⟩)
      (fun hsame _ _ hv e he => (hv e he).mono hsame.subset.1) ?_ ?_ hd
    · rintro spec rfl
      refine bindParameter_owned h ?_
      rw [hcurrent]
      exact hst.declares (NodeClass.declared?_of_parameter? hask)
    · rintro name initial rfl
      obtain ⟨hmode, sw, hsw, rfl, rfl⟩ := hask
      refine bindToggle_owned htypes h (NodeClass.identifier_of_switch? hsw hst.errors) ?_
      rw [hcurrent]
      refine hst.declares ?_
      rw [hmode]
      exact NodeClass.declared?_of_switch? hsw
  · obtain ⟨reply, scope, -, he, -⟩ := perform_of_demand? r hd
    obtain ⟨-, s₁, here, hf, rfl⟩ := demand?_place hd
    rw [he]
    exact (hr site' { s₁ with scope := here } ((h.followed hf).place _ here _)).place _ scope _

/-- A plan of a built-in node, request by request. -/
theorem run_owned (htypes : env.types = .builtin) (hret : r.Returning) (hr : r.Owning env)
    {rest : List Site} (hst : env.Stands site c st) {α : Type} (plan : Plan α) :
    ∀ s : Pass, plan.Confined (c.MayAsk env.types env.mode st) → s.stack = site :: rest →
      Owned env s → Owned env (run env r plan s).2 := by
  induction plan with
  | done a => exact fun s _ _ h => h
  | fail fault => exact fun s _ _ h => h
  | ask cmd next ih =>
    intro s hplan hstack h
    have hs := perform_owned htypes hr hstack hst hplan.1 h
    have hstack' := (perform_returns env hret cmd s).stack.trans hstack
    exact ih _ _ (hplan.2 _) hstack' hs

/-! ### Constants -/

/-- The plan of a named constant carried out: the value is the parameter that the constant
declares. -/
theorem carryOut_constant (hspec : c.constant? st = some spec) {e : Expr}
    (he : (carryOut env r site (c.spec.behavior st) s).1 = .ok e) :
    e.code = (spec.parameter env.types site.node).global ∧
      ∃ p ∈ (carryOut env r site (c.spec.behavior st) s).2.globals.parameters,
        p.global = e.code ∧ p.node = site.node := by
  obtain ⟨name, hplan⟩ := NodeClass.plan_of_constant? hspec (frame env site) site.output
  have hb : (c.spec.behavior st).plan (frame env site) site.output = _ := hplan
  have hcurrent : (s.enter site).currentNode = site.node := rfl
  unfold carryOut at he ⊢
  rw [hb, Plan.onlyResult] at he ⊢
  split at he
  · next hout =>
    rw [if_pos hout]
    have hrun : run env r (Plan.request (.parameter spec) >>= Plan.ofExcept) (s.enter site) =
        (s.enter site).bindParameter env spec site.node := by
      show run env r (Plan.ofExcept ((s.enter site).bindParameter env spec site.node).1)
        ((s.enter site).bindParameter env spec site.node).2 = _
      rcases (s.enter site).bindParameter env spec site.node with ⟨fault | e, s'⟩
      · rfl
      · rfl
    rw [hrun, bindParameter_eq] at he ⊢
    have hreg := (s.enter site).globals.addParameter_registers env.types spec site.node
    dsimp only at he ⊢
    cases hx : ((s.enter site).globals.addParameter env.types spec site.node).1 with
    | error fault =>
      rw [hx] at he
      cases he
    | ok p =>
      rw [hx] at he hreg
      cases he
      obtain ⟨hmem, hglobal, hnode⟩ := hreg.result
      exact ⟨hglobal, p, hmem, rfl, hnode⟩
  · cases he

/-- The global of a parameter of a standard type stays where it is used. -/
theorem staysInline_of_global (htypes : env.types = .builtin) {node : NodeId} {e : Expr}
    (he : e.code = (spec.parameter env.types node).global) :
    staysInline e = true := by
  have href : isReference e.code = true := by
    rw [he, htypes]
    exact (TypeTable.builtin_naming spec.type _ (Identifier.isWord_ofText spec.name)).2
  unfold staysInline
  rw [href, Bool.or_true, Bool.true_or, Bool.true_or]

/-! ### Nodes and sites -/

/-- A built-in node is asked: what it declares is registered for it, and what a constant
gives is remembered as it is. -/
theorem ask_owned (htypes : env.types = .builtin) (hret : r.Returning) (hr : r.Owning env)
    (hst : env.Stands site c st) (h : Owned env s) :
    Owned env (s.ask env r site (c.spec.behavior st)).2 := by
  have hplan : ((c.spec.behavior st).plan (frame env site) site.output).Confined
      (c.MayAsk env.types env.mode st) := c.plan_confined st (frame env site) site.output
  have hrun : Owned env (carryOut env r site (c.spec.behavior st) s).2 :=
    run_owned htypes hret hr hst _ (s.enter site) hplan rfl (h.enter site)
  have hback : Owned env { (carryOut env r site (c.spec.behavior st) s).2 with
      stack := s.stack, scope := s.scope } := hrun.place s.stack s.scope _
  obtain ⟨node, hnode, hbuilt, -⟩ := hst
  have hconst (spec : ParameterSpec) (hspec : node.constant? = some spec) :
      c.constant? st = some spec := by
    rw [Node.constant?, hbuilt] at hspec
    exact hspec
  rw [ask_eq]
  unfold outcomeOf
  rcases conclude_cases env site.node (c.spec.behavior st).role
      (carryOut env r site (c.spec.behavior st) s).1
      { (carryOut env r site (c.spec.behavior st) s).2 with stack := s.stack, scope := s.scope }
    with ⟨e, he, -, hx⟩ | ⟨e, he, hout, hx⟩ | ⟨fault, -, hx⟩
  · rw [hx]
    refine hback.remember site _ fun o ho e' he' => ?_
    cases ho
    cases he'
    exact ⟨node, hnode, fun spec hspec => carryOut_constant (hconst spec hspec) he⟩
  · rw [hx]
    refine (hback.emit _ _).remember site _ fun _ _ e' _ => ⟨node, hnode, fun spec hspec => ?_⟩
    -- a constant is only the name of its parameter, so it is not moved
    rw [staysInline_of_global htypes (carryOut_constant (hconst spec hspec) he).1] at hout
    cases hout
  · rw [hx]
    refine (hback.pushFault site.node fault).remember site _ fun o ho e' he' => ?_
    cases ho
    cases fault <;> cases he'

/-- **Resolving an output keeps a pass owned.** -/
theorem resolve_owned (hc : env.catalog = .builtin) (htypes : env.types = .builtin)
    (room : Nat) : (resolve env room).Owning env := by
  refine (Owned.steady env).resolve (fun {room _ _ _ _} hr h ha h' => ?_) room
  obtain ⟨c, st, hst, rfl⟩ := ha.stands hc h.faithful
  exact ask_owned htypes (resolve_returns env room) hr hst h'

/-- What a pass registers from its beginning to its end is owned. -/
theorem Session.owned (hc : env.catalog = .builtin) (htypes : env.types = .builtin)
    {l : List Event} (hl : Session env s s' l) : Owned env s → Owned env s' :=
  (Owned.steady env).session (resolve_owned hc htypes maxDepth) hl

end Pass

/-! ### Programs -/

/-- The start of a global of a standard type can be told from its third letter. -/
theorem TypeTable.globalStem_injective {t t' : ShaderType} {a b : String}
    (h : builtin.globalStem t ++ a = builtin.globalStem t' ++ b) :
    builtin.globalStem t = builtin.globalStem t' ∧ a = b := by
  have hlength : ∀ t ∈ ShaderType.all, 2 < (builtin.globalStem t).toList.length := by decide
  have hthird : ∀ t ∈ ShaderType.all, ∀ t' ∈ ShaderType.all,
      (builtin.globalStem t).toList[2]? = (builtin.globalStem t').toList[2]? →
      builtin.globalStem t = builtin.globalStem t' := by decide
  have hlist := congrArg String.toList h
  rw [String.toList_append, String.toList_append] at hlist
  have hstem : builtin.globalStem t = builtin.globalStem t' := by
    refine hthird t t.mem_all t' t'.mem_all ?_
    rw [← List.getElem?_append_left (hlength t t.mem_all), hlist,
      List.getElem?_append_left (hlength t' t'.mem_all)]
  rw [hstem] at hlist
  exact ⟨hstem, String.toList_inj.mp (List.append_cancel_left hlist)⟩

/-- The parameters of a program that a pass has made: no two have one name, and what each
named constant of the pass gives refers to one of them, with the type and the value of the
constant. -/
structure Pass.DistinctParameters (env : Environment) (s : Pass) (parameters : List Parameter) :
    Prop where
  names : (parameters.map Parameter.name).Nodup
  /-- Constants refer to their own parameters, wherever they stand. -/
  constants : ∀ site e, s.progress? site = some (.finished (.valid e)) →
    ∃ node, env.nodeAt? site.scope site.node = some node ∧ ∀ r, node.constant? = some r →
      ∃ p ∈ parameters, p.global = e.code ∧ p.type = r.type ∧ p.initial = r.initial ∧
        ∀ q ∈ parameters, q.global = e.code → q = p

theorem NodeClass.parameter?_of_constant? {s : c.Settings} (h : c.constant? s = some r) :
    c.parameter? s = some r := by
  cases c with
  | matrix => cases h
  | _ => exact h

/-- If nodes with one identifier agree, what is owned is distinct. -/
theorem Pass.Owned.distinct (htypes : env.types = .builtin) (ha : env.Agreed) {s : Pass}
    (h : Owned env s) :
    s.DistinctParameters env s.globals.parameters := by
  have hg := h.tables.1
  refine ⟨?_, fun site e he => ?_⟩
  · -- two parameters of one name belong to one node, so they have one type and one global
    have hglobal (p) (hp : p ∈ s.globals.parameters) (q) (hq : q ∈ s.globals.parameters)
        (hname : p.name = q.name) : p.global = q.global := by
      obtain ⟨r, hr, hp'⟩ := hg.declared p hp
      obtain ⟨r', hr', hq'⟩ := hg.declared q hq
      have hnode : p.node = q.node :=
        owner_unique hg.names (hg.owner p hp) (hname ▸ hg.owner q hq)
      rw [hp', hq'] at hname ⊢
      have htype := (ha _ r r' hr (hnode ▸ hr') hname).1
      show env.types.globalStem r.type ++ r.identifier =
        env.types.globalStem r'.type ++ r'.identifier
      rw [htype, show r.identifier = r'.identifier from hname]
    rw [List.nodup_map_iff_inj_on (List.Nodup.of_map _ hg.globals)]
    exact fun p hp q hq hname => List.inj_on_of_nodup_map hg.globals hp hq (hglobal p hp q hq hname)
  · obtain ⟨node, hnode, hconst⟩ := h.values site _ he e rfl
    refine ⟨node, hnode, fun r hr => ?_⟩
    obtain ⟨hcode, p, hp, hpe, hpn⟩ := hconst r hr
    obtain ⟨r', hr', hp'⟩ := hg.declared p hp
    have hown : env.Declares p.node r := by
      rw [Node.constant?, Option.bind_eq_some_iff] at hr
      obtain ⟨b, hb, hr⟩ := hr
      refine ⟨site.scope, node, hpn ▸ hnode, ?_⟩
      rw [Node.declared?, hb]
      exact NodeClass.declared?_of_parameter? (NodeClass.parameter?_of_constant? hr)
    -- a global tells the type and the identifier that it was made of
    have hname : r'.identifier = r.identifier := by
      have heq : env.types.globalStem r'.type ++ r'.identifier =
          env.types.globalStem r.type ++ r.identifier := by
        rw [hp', hcode] at hpe
        exact hpe
      rw [htypes] at heq
      exact (TypeTable.globalStem_injective heq).2
    obtain ⟨htype, hinitial⟩ := ha _ r' r hr' hown hname
    refine ⟨p, hp, hpe, ?_, ?_, fun q hq hqe => ?_⟩
    · rw [hp']; exact htype
    · rw [hp']; exact hinitial
    · exact List.inj_on_of_nodup_map hg.globals hq hp (hqe.trans hpe.symm)

namespace Environment

/-- Nodes agree if any two of them do that stand in documents in reach. -/
theorem agreed_of_nodes {env : Environment} (nodes : List Node)
    (hnodes : ∀ d, env.InReach d → d.nodes ⊆ nodes)
    (h : ∀ n ∈ nodes, ∀ n' ∈ nodes, n.id = n'.id → ∀ r ∈ n.declared? env.mode,
      ∀ r' ∈ n'.declared? env.mode, r.identifier = r'.identifier →
        r.type = r'.type ∧ r.initial = r'.initial) : env.Agreed := by
  have hmem {scope : Scope} {id : NodeId} {node : Node}
      (hn : env.nodeAt? scope id = some node) : node ∈ nodes ∧ node.id = id := by
    obtain ⟨d, hd, hf⟩ := Option.bind_eq_some_iff.mp hn
    refine ⟨hnodes d (inReach_of_documentAt hd) (List.mem_of_find?_eq_some hf), ?_⟩
    simpa using List.find?_some hf
  rintro id r r' ⟨scope, n, hn, hr⟩ ⟨scope', n', hn', hr'⟩ hname
  obtain ⟨hn, hid⟩ := hmem hn
  obtain ⟨hn', hid'⟩ := hmem hn'
  exact h n hn n' hn' (hid.trans hid'.symm) r hr r' hr' hname

end Environment

namespace Compiler

open Pass

/-- **The names of the parameters of a program are distinct, and named constants refer to
their own parameters**, in whichever document they stand, if nodes of different documents
that share an identifier agree about the parameters they declare under one name. -/
theorem parameters_distinct (c : Compiler) (hc : c.catalog = .builtin) (ht : c.types = .builtin)
    (d : Document) :
    (∀ o result program, (c.environment o.mode d).Agreed → c.compile d o = .ok result →
      result.program = some program → ∃ draft, c.materialDraft d o = .ok draft ∧
        draft.pass.DistinctParameters (c.environment o.mode d) program.parameters) ∧
    ∀ o target result program, (c.environment .preview d).Agreed →
      c.preview d o target = .ok result → result.program = some program →
        (c.previewDraft d target).pass.DistinctParameters (c.environment .preview d)
          program.parameters := by
  have hprogram {draft : Draft} {o : Options} {t : Template} {program : Program}
      (hp : (draft.compilation c.types o t).program = some program) :
      program.parameters = draft.pass.globals.parameters := by
    unfold Draft.compilation at hp
    dsimp only at hp
    split at hp
    · cases hp
    · cases hp
      rfl
  refine ⟨fun o result program ha hr hp => ?_, fun o target result program ha hr hp => ?_⟩
  · obtain ⟨t, draft, hdraft, rfl⟩ := compile_eq_ok hr
    obtain ⟨s', hs, hend⟩ := materialTrace_session c d o
    have hown := hs.owned hc ht (.of_fresh (firstPass_fresh o.blend))
    rw [← hend draft hdraft] at hown
    refine ⟨draft, hdraft, ?_⟩
    rw [hprogram hp]
    exact hown.distinct ht ha
  · obtain ⟨t, rfl⟩ := preview_eq_ok hr
    have hown := (previewTrace_session c d target).owned hc ht (.of_fresh ⟨[], rfl⟩)
    rw [hprogram hp]
    exact hown.distinct ht ha

/-- A tint whose strength has the identifier and the name of a number of the documents that
use it. -/
def tintDocument : Document where
  isSubgraph := true
  nodes := [
    .of (.literal .float) 2 { value := one, name := "Strength" },
    .of (.literal .color) 6 { value := .ones, name := "Tint" },
    .of (.binary .multiply) 7
      { (BinaryOp.spec .multiply).initial with a := .ofNode 6, b := .ofNode 2 },
    .of .subgraphOutput 8 { name := "tint", value := .ofNode 7 }]

/-- A material that is tinted by a feature. -/
def paintDocument : Document where
  nodes := [
    .of (.literal .float) 2 { value := one, name := "Strength" },
    .of .staticSwitch 3 { name := "Use Tint", onTrue := .ofNode 5 "tint", onFalse := .ofNode 2 },
    .of .subgraphCall 5 { path := "tint" },
    .of .materialResult 9 { albedo := .ofNode 3, roughness := .ofNode 2 }]

/-- The compiler that knows one document under the path `tint`. -/
def withTint (tint : Document) : Compiler where
  library path := if path = "tint" then some tint else none

/-- The documents in reach of that compiler. -/
theorem inReach_withTint {tint d d' : Document} {mode : Mode}
    (h : ((withTint tint).environment mode d).InReach d') : d' = d ∨ d' = tint := by
  rcases h with h | ⟨path, h⟩
  · exact .inl h
  · have h : (if path = "tint" then some tint else none) = some d' := h
    split at h
    · exact .inr (Option.some.inj h).symm
    · cases h

/-- The parameters of a compilation, if it has a program. -/
def parameters? (x : Except Rejection Compilation) : Option (List Parameter) :=
  x.toOption.bind fun result => result.program.map Program.parameters

/-- The strength is one parameter for both documents, because they agree about it. -/
theorem parameters_distinct_paint :
    ((withTint tintDocument).environment .preview paintDocument).Agreed ∧
    ∃ result program draft,
      (withTint tintDocument).compile paintDocument { mode := .preview } = .ok result ∧
      result.program = some program ∧
      program.parameters.map Parameter.name = ["Tint", "Strength", "UseTint"] ∧
      (withTint tintDocument).materialDraft paintDocument { mode := .preview } = .ok draft ∧
      draft.pass.DistinctParameters ((withTint tintDocument).environment .preview paintDocument)
        program.parameters := by
  have hagreed : ((withTint tintDocument).environment .preview paintDocument).Agreed := by
    refine Environment.agreed_of_nodes (paintDocument.nodes ++ tintDocument.nodes)
      (fun d hd => ?_) (by decide +kernel)
    rcases inReach_withTint hd with rfl | rfl
    · exact List.subset_append_left _ _
    · exact List.subset_append_right _ _
  have hnames : (parameters? ((withTint tintDocument).compile paintDocument
      { mode := .preview })).map (·.map Parameter.name) =
        some ["Tint", "Strength", "UseTint"] := by decide +kernel
  refine ⟨hagreed, ?_⟩
  obtain ⟨parameters, hparameters, hlist⟩ := Option.map_eq_some_iff.mp hnames
  obtain ⟨result, hr, hprogram⟩ := Option.bind_eq_some_iff.mp hparameters
  obtain ⟨program, hp, rfl⟩ := Option.map_eq_some_iff.mp hprogram
  have hr : (withTint tintDocument).compile paintDocument { mode := .preview } = .ok result := by
    cases hx : (withTint tintDocument).compile paintDocument { mode := .preview } with
    | error rejection => rw [hx] at hr; cases hr
    | ok result' => rw [hx] at hr; cases hr; rfl
  obtain ⟨draft, hdraft, hdistinct⟩ := (parameters_distinct (withTint tintDocument) rfl rfl
    paintDocument).1 { mode := .preview } result program hagreed hr hp
  exact ⟨result, program, draft, hr, hp, hlist, hdraft, hdistinct⟩

/-- A document with one output, a constant with the identifier `2`. -/
def constantDocument (k : LiteralKind) (s : LiteralSettings k.Carrier) : Document where
  isSubgraph := true
  nodes := [
    { id := ⟨2⟩, className := k.name, settings := (Literal.spec k).write s },
    .of .subgraphOutput 4 { name := "v", value := .ofNode 2 }]

/-- A vector that is called like a number of the document below. -/
def vectorDocument : Document :=
  constantDocument .vector3 { value := ⟨one, zero, one⟩, name := "P" }

/-- A number that is called like another one of the document below. -/
def numberDocument : Document := constantDocument .float { value := zero, name := "P" }

/-- A material with a number, and a constant from another document. -/
def stripedDocument : Document where
  nodes := [
    .of .materialResult 1 { albedo := .ofNode 3 "v", roughness := .ofNode 2 },
    .of (.literal .float) 2 { value := one, name := "P" },
    .of .subgraphCall 3 { path := "tint" }]

/-- **Nodes of different documents that share an identifier are taken for one node.** If they
give one name to constants of different types, the program has two parameters of that name;
if they give it to different numbers, one of them refers to the number of the other. -/
theorem parameters_confused_of_shared_identifier :
    (parameters? ((withTint vectorDocument).compile stripedDocument {})).map
        (·.map Parameter.name) = some ["P", "P"] ∧
    (parameters? ((withTint numberDocument).compile stripedDocument {})).map
        (·.map fun p => (p.global, p.initial)) = some [("g_flP", some (.float zero))] ∧
    (((withTint numberDocument).materialDraft stripedDocument {}).toOption.bind fun draft =>
        draft.pass.progress? ⟨[], ⟨2⟩, "result", .pixel⟩) =
      some (.finished (.valid { type := .float, code := "g_flP" })) ∧
    ((stripedDocument.find? ⟨2⟩).bind Node.constant?).bind (·.initial) = some (.float one) := by
  decide +kernel

end Compiler

end MaterialGraph
