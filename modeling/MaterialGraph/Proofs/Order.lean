import Mathlib.Data.List.Pairwise
import Mathlib.Data.List.Perm.Basic
import MaterialGraph.Proofs.Metadata
import MaterialGraph.Proofs.Bystanders

/-!
# The order of nodes

The nodes of a material may be saved in any order. Nodes are looked up by their identifiers,
results by their names, and metadata is kept in an order of its own. What does depend on the
order of nodes is the order of diagnostics, and which of several nodes with one name is said to
be the second one. Whether something fatal is reported does not.

## Main results

* `Mirror.hasFatal_made`, `Mirror.metadata_made` — what is said about a document when it is made
  ready.
* `Compiler.Reordered.lockstep` — passes over both orders are in step.
* `Compiler.order_unseen` — the order of its nodes does not change the program of a material.
-/

namespace MaterialGraph

open Pass

/-- What is looked for is found in every order if it is there only once. -/
theorem find?_eq_of_perm {α : Type} {l l' : List α} {p : α → Bool} (hperm : l'.Perm l)
    (hone : ∀ a ∈ l, ∀ b ∈ l, p a = true → p b = true → a = b) : l'.find? p = l.find? p := by
  cases hfind : l.find? p with
  | none =>
    rw [List.find?_eq_none] at hfind ⊢
    exact fun a ha => hfind a (hperm.mem_iff.mp ha)
  | some a =>
    have ha := List.mem_of_find?_eq_some hfind
    have hpa := List.find?_some hfind
    obtain ⟨b, hb⟩ := Option.isSome_iff_exists.mp
      (List.find?_isSome.mpr ⟨a, hperm.mem_iff.mpr ha, hpa⟩)
    have hmem := hperm.mem_iff.mp (List.mem_of_find?_eq_some hb)
    rw [hb, hone a ha b hmem hpa (List.find?_some hb)]

/-! ### What is said about a document -/

namespace Environment

variable {env : Environment}

theorem foldl_extend_eq (nodes : List Node) : ∀ g : Instance,
    (∀ node ∈ nodes, g.state? node.id = none) → (nodes.map Node.id).Nodup →
      nodes.foldl env.extend g = g ++ nodes.map fun node => (node.id, env.stateOf node) := by
  induction nodes with
  | nil => exact fun g _ _ => (List.append_nil g).symm
  | cons node nodes ih =>
    intro g hnew hnodup
    obtain ⟨hnone, hnew⟩ := List.forall_mem_cons.mp hnew
    obtain ⟨hfirst, hnodup⟩ := List.nodup_cons.mp hnodup
    rw [List.foldl_cons, extend, hnone, if_neg (by simp), ih _ (fun m hm => ?_) hnodup,
      List.append_assoc]
    · rfl
    · have hne : node.id ≠ m.id := fun heq => hfirst (heq ▸ List.mem_map_of_mem hm)
      rw [state?_append, hnew m hm, if_neg hne]
      rfl

/-- A document whose nodes have different identifiers has all of them. -/
theorem instanceOf_eq_map {d : Document} (h : (d.nodes.map Node.id).Nodup) :
    env.instanceOf d = d.nodes.map fun node => (node.id, env.stateOf node) :=
  foldl_extend_eq d.nodes [] (fun _ _ => rfl) h

end Environment

namespace Pass

theorem addAll_congr (entries : List (String × String)) : ∀ s t : Pass,
    s.metadata = t.metadata → (s.addAll entries).metadata = (t.addAll entries).metadata := by
  induction entries with
  | nil => exact fun s t h => h
  | cons entry entries ih =>
    intro s t h
    exact ih (s.addMetadata entry.1 entry.2) (t.addMetadata entry.1 entry.2)
      (addMetadata_congr entry.1 entry.2 h)

/-- A state after which there is more metadata, but nothing fatal. -/
structure Gathers (s : Pass) (entries : List (String × String)) (s' : Pass) : Prop where
  fatal : s'.report.hasFatal = s.report.hasFatal
  metadata : s'.metadata = (s.addAll entries).metadata

namespace Gathers

variable {s s' s'' : Pass} {entries entries' : List (String × String)}

theorem addAll (s : Pass) (entries : List (String × String)) :
    Gathers s entries (s.addAll entries) :=
  ⟨by rw [report_addAll], rfl⟩

theorem append (h : Gathers s entries s') (h' : Gathers s' entries' s'') :
    Gathers s (entries ++ entries') s'' := by
  refine ⟨h'.fatal.trans h.fatal, h'.metadata.trans ?_⟩
  unfold Pass.addAll
  rw [List.foldl_append]
  exact addAll_congr entries' _ _ h.metadata

theorem after (h : Harmless s s') (h' : Gathers s' entries s'') : Gathers s entries s'' := by
  have hnone : Gathers s [] s' := ⟨h.fatal, h.metadata⟩
  exact hnone.append h'

end Gathers

/-- Nothing fatal is said about a node when it is made, and it adds its metadata. -/
theorem makeNode_gathers (env : Environment) (s : Pass) (node : Node) :
    Gathers s (env.pieces node) (s.makeNode env node).2 := by
  rw [makeNode_eq]
  exact .after (.foldl_push (fun d hd => (Environment.mem_remarks hd).2.2) s) (.addAll _ _)

/-- Nothing fatal is said about nodes that have different identifiers. -/
theorem makeNodes_gathers (env : Environment) (nodes : List Node) : ∀ (g : Instance) (s : Pass),
    (∀ node ∈ nodes, g.state? node.id = none) → (nodes.map Node.id).Nodup →
      Gathers s (nodes.flatMap env.pieces) (makeNodes env g nodes s).2 := by
  induction nodes with
  | nil => exact fun g s _ _ => .addAll s []
  | cons node nodes ih =>
    intro g s hnew hnodup
    obtain ⟨hnone, hnew⟩ := List.forall_mem_cons.mp hnew
    obtain ⟨hfirst, hnodup⟩ := List.nodup_cons.mp hnodup
    rw [makeNodes, hnone, if_neg (by simp)]
    refine (makeNode_gathers env s node).append (ih _ _ (fun m hm => ?_) hnodup)
    -- the first identifier is taken now, but no later node has it
    have hne : node.id ≠ m.id := fun heq => hfirst (heq ▸ List.mem_map_of_mem hm)
    rw [Environment.state?_append, hnew m hm, if_neg hne]
    rfl

/-! ### The names of inputs and outputs -/

/-- The name of a node that is an input. -/
def inputName? (b : Behavior) : Option String :=
  match b.role with
  | .subgraphInput name => some name
  | _ => none

/-- The name of a node that is an output. -/
def outputName? (b : Behavior) : Option String :=
  match b.role with
  | .subgraphOutput name _ => some name
  | _ => none

/-- Two inputs or two outputs with one name. -/
def Clash (inputs outputs : List String) (bs : List (NodeId × Behavior)) : Prop :=
  ¬(bs.filterMap (inputName? ·.2) ++ inputs).Nodup ∨
    ¬(bs.filterMap (outputName? ·.2) ++ outputs).Nodup

theorem checkName_said (kind : String) {seen : List String} (hseen : seen.Nodup) (id : NodeId)
    (name : String) (names : List String) (s : Pass) :
    (s.checkName kind seen id name).2.metadata = s.metadata ∧
    (s.checkName kind seen id name).1.Nodup ∧
    ((s.checkName kind seen id name).2.report.hasFatal = true ∨
        ¬(names ++ (s.checkName kind seen id name).1).Nodup ↔
      s.report.hasFatal = true ∨ ¬(name :: names ++ seen).Nodup) := by
  unfold checkName
  by_cases hname : name ∈ seen
  · have hclash : ¬(name :: names ++ seen).Nodup := fun h =>
      (List.nodup_cons.mp h).1 (List.mem_append_right names hname)
    have hfatal : (s.push (.fatal .duplicateName id
        ("duplicate subgraph " ++ kind ++ " \"" ++ name ++ "\""))).report.hasFatal = true :=
      hasFatal_push_fatal _ _ _ _
    rw [if_pos hname]
    exact ⟨rfl, hseen, iff_of_true (.inl hfatal) (.inr hclash)⟩
  · rw [if_neg hname]
    refine ⟨rfl, List.nodup_cons.mpr ⟨hname, hseen⟩, ?_⟩
    rw [List.perm_middle.nodup_iff]
    rfl

/-- **Something fatal is said about checked nodes just if names clash.** -/
theorem checkNodes_said (g : Instance) (bs : List (NodeId × Behavior)) :
    ∀ (inputs outputs : List String) (s : Pass), inputs.Nodup → outputs.Nodup →
      (checkNodes g inputs outputs bs s).metadata = s.metadata ∧
      ((checkNodes g inputs outputs bs s).report.hasFatal = true ↔
        s.report.hasFatal = true ∨ Clash inputs outputs bs) := by
  unfold Clash
  induction bs with
  | nil =>
    intro inputs outputs s hi ho
    refine ⟨rfl, ?_⟩
    simp [checkNodes, hi, ho]
  | cons entry bs ih =>
    obtain ⟨id, b⟩ := entry
    intro inputs outputs s hi ho
    have hw := checkWires_harmless g id b s
    -- names are checked against those in front, so both lists of names seen are generalized
    rw [checkNodes]
    dsimp only
    cases hrole : b.role with
    | subgraphInput name =>
      obtain ⟨hmetadata, hnodup, hiff⟩ := checkName_said "input" hi id name
        (bs.filterMap (inputName? ·.2)) (s.checkWires g id b)
      obtain ⟨hmetadata', hiff'⟩ := ih _ outputs _ hnodup ho
      refine ⟨hmetadata'.trans (hmetadata.trans hw.metadata), hiff'.trans ?_⟩
      rw [← or_assoc, hiff, hw.fatal, or_assoc]
      simp [inputName?, outputName?, hrole]
    | subgraphOutput name channel =>
      obtain ⟨hmetadata, hnodup, hiff⟩ := checkName_said "output" ho id name
        (bs.filterMap (outputName? ·.2)) (s.checkWires g id b)
      obtain ⟨hmetadata', hiff'⟩ := ih inputs _ _ hi hnodup
      refine ⟨hmetadata'.trans (hmetadata.trans hw.metadata), hiff'.trans ?_⟩
      rw [or_left_comm, hiff, hw.fatal, or_left_comm]
      simp [inputName?, outputName?, hrole]
    | _ =>
      obtain ⟨hmetadata, hiff⟩ := ih inputs outputs (s.checkWires g id b) hi ho
      refine ⟨hmetadata.trans hw.metadata, hiff.trans ?_⟩
      rw [hw.fatal]
      simp [inputName?, outputName?, hrole]

theorem Clash.of_perm {bs bs' : List (NodeId × Behavior)} (hperm : bs'.Perm bs) :
    Clash [] [] bs' ↔ Clash [] [] bs := by
  have hinputs := ((hperm.filterMap (inputName? ·.2)).append_right []).nodup_iff
  have houtputs := ((hperm.filterMap (outputName? ·.2)).append_right []).nodup_iff
  exact or_congr (not_congr hinputs) (not_congr houtputs)

theorem outputNode?_eq_find? (g : Instance) (name : String) :
    outputNode? g name =
      (g.behaviors.find? fun entry => outputName? entry.2 == some name).map (·.1) := by
  unfold outputNode?
  refine congrArg (Option.map _) (congrArg (g.behaviors.find? ·) (funext fun entry => ?_))
  obtain ⟨id, b⟩ := entry
  unfold outputName?
  dsimp only
  cases b.role with
  | subgraphOutput other channel => simp
  | _ => rfl

/-- Names that do not clash are found in every order. -/
theorem outputNode?_of_perm {g g' : Instance} (hperm : g'.behaviors.Perm g.behaviors)
    (hclash : ¬Clash [] [] g.behaviors) (name : String) :
    outputNode? g' name = outputNode? g name := by
  have hnodup := not_not.mp (not_or.mp hclash).2
  rw [List.append_nil] at hnodup
  rw [outputNode?_eq_find?, outputNode?_eq_find?,
    find?_eq_of_perm hperm fun x hx y hy hpx hpy => ?_]
  have hsymm : Std.Symm fun x y : NodeId × Behavior => ∀ n, outputName? x.2 = some n →
      ∀ n', outputName? y.2 = some n' → n ≠ n' :=
    ⟨fun x y h n hn n' hn' => (h n' hn' n hn).symm⟩
  by_contra hne
  exact (List.pairwise_filterMap.mp hnodup).forall hx hy hne name (eq_of_beq hpx) name
    (eq_of_beq hpy) rfl

end Pass

/-! ### Materials in another order -/

namespace Mirror

variable (env : Environment) {d : Document} (hids : (d.nodes.map Node.id).Nodup) (s : Pass)
include hids

theorem made_gathers : Gathers s (d.nodes.flatMap env.pieces) (makeNodes env [] d.nodes s).2 :=
  makeNodes_gathers env d.nodes [] s (fun _ _ => rfl) hids

/-- Something fatal is said about a document just if names clash. -/
theorem hasFatal_made : (made env d s).report.hasFatal = true ↔
    s.report.hasFatal = true ∨ Clash [] [] (env.instanceOf d).behaviors := by
  rw [← (made_gathers env hids s).fatal]
  exact (checkNodes_said _ _ [] [] _ .nil .nil).2

/-- All nodes of a document add their metadata. -/
theorem metadata_made :
    (made env d s).metadata = (s.addAll (d.nodes.flatMap env.pieces)).metadata :=
  (checkNodes_said _ _ [] [] _ .nil .nil).1.trans (made_gathers env hids s).metadata

end Mirror

namespace Compiler.Reordered

/-- A material on the left, the same material with its nodes in another order on the right. -/
def mirror (c : Compiler) (mode : Mode) (d : Document) (nodes : List Node) : Mirror where
  left := c.environment mode d
  right := c.environment mode { d with nodes }
  names _ := True
  alike b b' := b' = b
  reports r r' := r'.hasFatal = r.hasFatal
  remarks m m' := m' = m ∧ m.InOrder
  role h := by rw [h]
  blank := (rfl : ({} : Pass).report.hasFatal = false)
  bare := ⟨rfl, .nil⟩
  push := @Report.hasFatal_push_congr
  add key value h := ⟨addMetadata_congr key value h.1, inOrder_addMetadata key value h.2⟩

variable {c : Compiler} (mode : Mode) {d : Document} {nodes : List Node}
  (hperm : nodes.Perm d.nodes) (hids : (d.nodes.map Node.id).Nodup)
include hperm hids

theorem nodup : (nodes.map Node.id).Nodup := (hperm.map Node.id).nodup_iff.mpr hids

theorem behaviors_perm : ((mirror c mode d nodes).right.instanceOf { d with nodes }).behaviors.Perm
    ((mirror c mode d nodes).left.instanceOf d).behaviors := by
  rw [Environment.instanceOf_eq_map hids, Environment.instanceOf_eq_map (nodup hperm hids)]
  exact (hperm.map _).filterMap _

/-- Nodes are found in every order. -/
theorem state? (id : NodeId) :
    ((mirror c mode d nodes).right.instanceOf { d with nodes }).state? id =
      ((mirror c mode d nodes).left.instanceOf d).state? id := by
  have hfind : Document.find? { d with nodes } id = d.find? id := by
    refine find?_eq_of_perm hperm fun m hm m' hm' hid hid' => ?_
    exact List.inj_on_of_nodup_map hids hm hm' ((eq_of_beq hid).trans (eq_of_beq hid').symm)
  rw [Environment.state?_instanceOf, Environment.state?_instanceOf, hfind]
  rfl

/-- The root document is made ready alike if its names do not clash. -/
theorem makes (hclash : ¬Clash [] [] ((c.environment mode d).instanceOf d).behaviors) :
    (mirror c mode d nodes).Makes d { d with nodes } := by
  have hbehaviors := behaviors_perm (c := c) mode hperm hids
  have hnodup := nodup hperm hids
  refine ⟨⟨fun id _ => ?_, outputNode?_of_perm hbehaviors hclash, fun _ _ _ => trivial⟩,
    fun s t h => ⟨?_, ?_, ?_⟩⟩
  · rw [state? mode hperm hids]
    cases ((mirror c mode d nodes).left.instanceOf d).state? id with
    | none => exact .none
    | some state =>
      cases state with
      | ready b => exact .some (.ready rfl)
      | broken message => exact .some (.broken message)
  · have hreport : t.report.hasFatal = s.report.hasFatal := h.report
    refine Bool.eq_iff_iff.mpr ?_
    rw [Mirror.hasFatal_made _ hids, Mirror.hasFatal_made _ hnodup, hreport,
      Clash.of_perm hbehaviors]
  · rw [Mirror.metadata_made _ hids, Mirror.metadata_made _ hnodup]
    refine addAll_perm ?_ h.metadata.1 (h.metadata.1 ▸ h.metadata.2)
    exact hperm.flatMap fun node _ => .refl _
  · rw [Mirror.metadata_made _ hids]
    exact inOrder_addAll _ s h.metadata.2

/-- **Passes over both orders are in step** if names do not clash. -/
theorem lockstep (hclash : ¬Clash [] [] ((c.environment mode d).instanceOf d).behaviors) :
    (mirror c mode d nodes).Lockstep := by
  refine .of_plans (fun _ => trivial) rfl rfl (makes mode hperm hids hclash) (fun path => ?_)
    (fun _ _ hb => hb) fun _ _ _ => rfl
  show Option.Rel _ (c.library path) (c.library path)
  cases c.library path with
  | none => exact .none
  | some x =>
    exact .some (Mirror.Makes.refl (M := mirror c mode d nodes) (fun _ => trivial) rfl
      (fun _ _ hb => hb) fun _ _ _ _ => rfl)

variable (hc : c.catalog = .builtin)
  (hone : d.nodes.countP (·.className == NodeClass.materialResult.name) ≤ 1)
include hc

omit hperm hids in
/-- Only nodes of one class are the result of a material. -/
theorem length_resultNodes (nodes : List Node) :
    (resultNodes (nodes.map fun node => (node.id, (c.environment mode d).stateOf node))).length ≤
      nodes.countP (·.className == NodeClass.materialResult.name) := by
  unfold resultNodes Instance.behaviors
  rw [← List.countP_eq_length_filter, List.filterMap_map, List.countP_filterMap]
  refine List.countP_mono_left fun node _ h => ?_
  dsimp only [Function.comp] at h
  cases hstate : (c.environment mode d).stateOf node with
  | broken message =>
    rw [hstate] at h
    cases h
  | ready b =>
    rw [hstate] at h
    have hrole : b.role = .materialRoot := of_decide_eq_true h
    obtain ⟨kind, hkind, hbuild⟩ := Environment.stateOf_eq_ready hstate
    have hkind : c.catalog.find? node.className = some kind := hkind
    rw [hc] at hkind
    obtain ⟨k, st, hname, -, rfl⟩ := Catalog.builtin_build hkind hbuild
    rw [hname]
    cases k with
    | materialResult => exact beq_self_eq_true _
    | _ => cases hrole

include hone

/-- There is one result in every order. -/
theorem resultNodes_eq :
    resultNodes ((mirror c mode d nodes).right.instanceOf { d with nodes }) =
      resultNodes ((mirror c mode d nodes).left.instanceOf d) := by
  have hperm' : (resultNodes ((mirror c mode d nodes).right.instanceOf { d with nodes })).Perm
      (resultNodes ((mirror c mode d nodes).left.instanceOf d)) :=
    (behaviors_perm (c := c) mode hperm hids).filter _
  have hlength : (resultNodes ((mirror c mode d nodes).left.instanceOf d)).length ≤ 1 := by
    rw [Environment.instanceOf_eq_map hids]
    exact (length_resultNodes mode hc d.nodes).trans hone
  cases hl : resultNodes ((mirror c mode d nodes).left.instanceOf d) with
  | nil =>
    rw [hl] at hperm'
    exact hperm'.eq_nil
  | cons entry rest =>
    rw [hl, List.length_cons] at hlength
    obtain rfl := List.eq_nil_of_length_eq_zero (l := rest) (by omega)
    rw [hl] at hperm'
    exact List.perm_singleton.mp hperm'

theorem rooted (hsub : d.isSubgraph = false) : (mirror c mode d nodes).Rooted where
  results := resultNodes_eq mode hperm hids hc hone
  outputs h := by
    have h : d.isSubgraph = true := h
    rw [hsub] at h
    cases h
  named _ _ := trivial

end Compiler.Reordered

/-! ### Names that clash -/

namespace Compiler

theorem hasFatal_root {env : Environment} (hids : (env.root.nodes.map Node.id).Nodup) {s : Pass}
    (h : Fresh s) : (s.root env).2.report.hasFatal = true ↔
      Clash [] [] (env.instanceOf env.root).behaviors := by
  have hmade := Mirror.hasFatal_made env hids s
  have hgraph : (makeNodes env [] env.root.nodes s).1 = env.instanceOf env.root :=
    makeNodes_fst env.root.nodes [] s
  obtain ⟨ds, rfl⟩ := h
  unfold Mirror.made at hmade
  rw [← hgraph] at hmade ⊢
  refine hmade.trans (or_iff_right ?_)
  rintro ⟨⟩

theorem materialWrites_cases (env : Environment) {s : Pass} (h : Fresh s) :
    (resultNodes (env.instanceOf env.root) = [] ∧
      s.materialWrites env = .error .noMaterialResult) ∨
    (resultNodes (env.instanceOf env.root) ≠ [] ∧ ∃ ws p, s.materialWrites env = .ok (ws, p)) := by
  unfold materialWrites
  dsimp only
  rw [Mirror.root_of_fresh env h]
  cases resultNodes (env.instanceOf env.root) with
  | nil => exact .inl ⟨rfl, rfl⟩
  | cons entry rest => exact .inr ⟨List.cons_ne_nil _ _, _, _, rfl⟩

section Drafts

variable {c : Compiler} {d : Document} (hsub : d.isSubgraph = false) (o : Options)
include hsub

/-- A material is rejected just if it has no result. -/
theorem materialDraft_cases :
    (resultNodes ((c.environment o.mode d).instanceOf d) = [] ∧
      c.materialDraft d o = .error .noMaterialResult) ∨
    (resultNodes ((c.environment o.mode d).instanceOf d) ≠ [] ∧
      ∃ draft, c.materialDraft d o = .ok draft) := by
  rcases materialWrites_cases (c.environment o.mode d) (firstPass_fresh o.blend) with
    ⟨hnil, hw⟩ | ⟨hcons, ws, p, hw⟩
  · refine .inl ⟨hnil, ?_⟩
    unfold materialDraft
    rw [hsub, if_neg Bool.false_ne_true, hw]
    rfl
  · have hwrites : (if d.isSubgraph then (firstPass o.blend).subgraphWrites (c.environment o.mode d)
        else (firstPass o.blend).materialWrites (c.environment o.mode d)) = .ok (ws, p) := by
      rw [hsub, if_neg Bool.false_ne_true, hw]
    exact .inr ⟨hcons, _, materialDraft_of_writes hwrites⟩

/-- A material whose names clash has no program. -/
theorem program_of_clash (hids : (d.nodes.map Node.id).Nodup)
    (hclash : Clash [] [] ((c.environment o.mode d).instanceOf d).behaviors) {draft : Draft}
    (h : c.materialDraft d o = .ok draft) (types : TypeTable) (t : Template) :
    (draft.compilation types o t).program = none := by
  have hfresh := firstPass_fresh o.blend
  obtain ⟨ws, hw, -⟩ := materialDraft_eq_ok h
  obtain ⟨s', hs, hp⟩ := Session.material (c.environment o.mode d) (firstPass o.blend)
  rw [hsub, if_neg Bool.false_ne_true] at hw
  rw [← hp ws _ hw] at hs
  have hroot : ((firstPass o.blend).root (c.environment o.mode d)).2.report.hasFatal = true :=
    (hasFatal_root hids hfresh).mpr hclash
  have hgrows := hs.grows (root_sound (hfresh.stocked _)).1
    (hfresh.atRest.of_prepared (root_prepared _ _))
  refine if_pos ?_
  by_contra hnot
  rw [Report.no_fatal_of_extends hgrows.report (Bool.eq_false_iff.mpr hnot)] at hroot
  cases hroot

omit hsub in
/-- Drafts that are in step have the same program. -/
theorem program_eq {mode : Mode} {nodes : List Node} {x y : Draft}
    (h : Mirror.Drafts (Reordered.mirror c mode d nodes).Pair x y) (types : TypeTable)
    (t : Template) :
    (y.compilation types o t).program = (x.compilation types o t).program := by
  obtain ⟨hsame, hpass⟩ := h
  have hfatal : y.pass.report.hasFatal = x.pass.report.hasFatal := hpass.beside.report
  have hmetadata : y.pass.metadata = x.pass.metadata := hpass.beside.metadata.1
  have hreset := hpass.same
  rw [hmetadata] at hreset
  unfold Draft.compilation
  rw [hfatal]
  cases x.pass.report.hasFatal with
  | true => rfl
  | false =>
    rw [hsame, hreset]
    rfl

/-- A material is drafted alike in every order, or rejected for the same reason. -/
theorem materialDraft_order (hc : c.catalog = .builtin) (hids : (d.nodes.map Node.id).Nodup)
    (hone : d.nodes.countP (·.className == NodeClass.materialResult.name) ≤ 1)
    {nodes : List Node} (hperm : nodes.Perm d.nodes) :
    (∃ e, c.materialDraft d o = .error e ∧ c.materialDraft { d with nodes } o = .error e) ∨
    ∃ x y, c.materialDraft d o = .ok x ∧ c.materialDraft { d with nodes } o = .ok y ∧
      ∀ types t, (y.compilation types o t).program = (x.compilation types o t).program := by
  by_cases hclash : Clash [] [] ((c.environment o.mode d).instanceOf d).behaviors
  · -- nothing is known about the passes then, but that both find the clash
    have hclash' := (Clash.of_perm (Reordered.behaviors_perm (c := c) o.mode hperm hids)).mpr hclash
    have hresults := Reordered.resultNodes_eq o.mode hperm hids hc hone
    rcases materialDraft_cases (c := c) hsub o with ⟨hnil, hx⟩ | ⟨hcons, x, hx⟩
    · rcases materialDraft_cases (c := c) (d := { d with nodes }) hsub o with
        ⟨-, hy⟩ | ⟨hcons', -⟩
      · exact .inl ⟨_, hx, hy⟩
      · exact absurd (hresults.trans hnil) hcons'
    · rcases materialDraft_cases (c := c) (d := { d with nodes }) hsub o with
        ⟨hnil', -⟩ | ⟨-, y, hy⟩
      · exact absurd (hresults.symm.trans hnil') hcons
      · refine .inr ⟨x, y, hx, hy, fun types t => ?_⟩
        rw [program_of_clash hsub o hids hclash hx types t]
        exact program_of_clash (d := { d with nodes }) hsub o (Reordered.nodup hperm hids) hclash'
          hy types t
  · rcases (Reordered.lockstep o.mode hperm hids hclash).materialDraft
      (Reordered.rooted o.mode hperm hids hc hone hsub) rfl rfl rfl with
      ⟨e, hx, hy⟩ | ⟨x, y, hx, hy, hdrafts⟩
    · exact .inl ⟨e, hx, hy⟩
    · -- in step, down to the order of the tables
      exact .inr ⟨x, y, hx, hy, program_eq o hdrafts⟩

end Drafts

/-- **The order of its nodes does not change the program of a material.** If its nodes have
different identifiers and at most one of them is a result, it is rejected for the same reason in
every order, or it has the same program in every order, or none. -/
theorem order_unseen (c : Compiler) (hc : c.catalog = .builtin) (d : Document)
    (hsub : d.isSubgraph = false) (hids : (d.nodes.map Node.id).Nodup)
    (hone : d.nodes.countP (·.className == NodeClass.materialResult.name) ≤ 1)
    (nodes : List Node) (hperm : nodes.Perm d.nodes) (o : Options) :
    (c.compile { d with nodes } o).map (·.program) = (c.compile d o).map (·.program) := by
  unfold compile
  cases o.templateOr .material with
  | error e => exact (rfl : Except.error e = Except.error e)
  | ok t =>
    rcases materialDraft_order hsub o hc hids hone hperm with
      ⟨e, hx, hy⟩ | ⟨x, y, hx, hy, hprogram⟩
    · rw [hx, hy]
    · rw [hx, hy]
      exact congrArg Except.ok (hprogram c.types t)

/-- A material with two features and a call, and the same material upside down. -/
theorem order_unseen_coat :
    (coatDocument.nodes.map Node.id).Nodup ∧
    coatDocument.nodes.countP (·.className == NodeClass.materialResult.name) ≤ 1 ∧
    coatDocument.nodes.reverse.Perm coatDocument.nodes ∧
    ((withTint tintDocument).compile { coatDocument with nodes := coatDocument.nodes.reverse }
      {}).map (·.program) = ((withTint tintDocument).compile coatDocument {}).map (·.program) ∧
    ((withTint tintDocument).compile coatDocument {}).toOption.bind
        (·.program.map fun p => (p.parameters.map Parameter.name, p.metadata)) =
      some (["Tint", "Strength"],
        [("feature", ["Use Tint", "use tint"]), ("subgraph", ["tint"])]) := by
  have hids : (coatDocument.nodes.map Node.id).Nodup := by decide
  have hone : coatDocument.nodes.countP (·.className == NodeClass.materialResult.name) ≤ 1 := by
    decide +kernel
  have hperm := List.reverse_perm coatDocument.nodes
  exact ⟨hids, hone, hperm, order_unseen (withTint tintDocument) rfl coatDocument rfl hids hone _
    hperm {}, by decide +kernel⟩

end Compiler

end MaterialGraph
