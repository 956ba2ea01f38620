import Mathlib.Data.List.Forall2
import MaterialGraph.Proofs.Likeness

/-!
# Documents side by side

Some changes to a document are not seen by a pass: another node that nothing refers to,
another order of the nodes. To show that, two passes are compared step by step, one over
each of two environments. This module compares what they do with documents. The documents
stand for each other, node by node, and there may be further nodes on the right; what is
reported and added to the metadata may differ in a way that depends on the change and that
no further remark undoes.

## Main definitions

* `Mirror` — two environments, and what is compared; `Mirror.verbatim`, if that is everything.
* `Mirror.Instances` — documents that stand for each other.
* `Mirror.Makes` — saved documents that are made ready alike.
* `Mirror.Beside` — passes that keep documents which stand for each other.
* `Mirror.Interleaved`, `Mirror.Extra` — further nodes on the right.

## Main results

* `Mirror.follow_beside` — a scope leads to documents that stand for each other.
* `Mirror.Makes.of_nodes` — documents are made ready alike if their nodes are.
-/

namespace MaterialGraph

open Pass

/-- What a node is for, if it is not what its document is compiled or called for. -/
def Role.IsInner : Role → Bool
  | .materialRoot => false
  | .subgraphInput _ => false
  | .subgraphOutput _ _ => false
  | _ => true

/-- One more diagnostic keeps reports alike that say something fatal or not. -/
theorem Report.hasFatal_push_congr {r r' : Report} (d : Diagnostic)
    (h : r'.hasFatal = r.hasFatal) : (r'.push d).hasFatal = (r.push d).hasFatal := by
  rw [hasFatal_push, hasFatal_push, h]

/-- Metadata of two passes stays the same if both add the same piece. -/
theorem Pass.addMetadata_congr {s t : Pass} (key value : String) (h : t.metadata = s.metadata) :
    (t.addMetadata key value).metadata = (s.addMetadata key value).metadata := by
  unfold addMetadata
  rw [h]

/-- Two environments, and what passes over them have in common. -/
structure Mirror where
  left : Environment
  right : Environment
  /-- The identifiers under which nodes are looked up. -/
  names : NodeId → Prop
  /-- Nodes that stand for each other. -/
  alike : Behavior → Behavior → Prop
  /-- Reports that may stand side by side. -/
  reports : Report → Report → Prop
  /-- Metadata that may stand side by side. -/
  remarks : Dictionary (List String) → Dictionary (List String) → Prop
  /-- Nodes that stand for each other play the same role. -/
  role : ∀ {b b'}, alike b b' → b'.role = b.role
  blank : reports {} {}
  bare : remarks [] []
  /-- A diagnostic may be reported on both sides. -/
  push : ∀ {r r'} d, reports r r' → reports (r.push d) (r'.push d)
  /-- A piece of metadata may be added on both sides. -/
  add : ∀ {s t : Pass} key value, remarks s.metadata t.metadata →
    remarks (s.addMetadata key value).metadata (t.addMetadata key value).metadata

namespace Mirror

/-- Environments with the same nodes, in which passes say the same. -/
def verbatim (left right : Environment) (alike : Behavior → Behavior → Prop)
    (same : ∀ {b b'}, alike b b' → b' = b) : Mirror where
  left
  right
  names _ := True
  alike
  reports r r' := r' = r
  remarks m m' := m' = m
  role h := by rw [same h]
  blank := rfl
  bare := (rfl : ({} : Pass).metadata = [])
  push d h := by rw [h]
  add := @addMetadata_congr

/-! ### Documents side by side -/

/-- The same node on both sides. -/
inductive States (M : Mirror) : NodeState → NodeState → Prop where
  | ready {b b' : Behavior} (h : M.alike b b') : States M (.ready b) (.ready b')
  | broken (message : String) : States M (.broken message) (.broken message)

/-- The same document on both sides. -/
structure Instances (M : Mirror) (g g' : Instance) : Prop where
  /-- The nodes that are looked up stand for each other. -/
  state : ∀ id, M.names id → Option.Rel M.States (g.state? id) (g'.state? id)
  /-- The outputs are those of the same nodes. -/
  output : ∀ name, outputNode? g' name = outputNode? g name
  /-- The nodes of the outputs may be looked up. -/
  named : ∀ name node, outputNode? g name = some node → M.names node

/-- Where a scope leads on both sides. -/
inductive Results (M : Mirror) : Except Fault Instance → Except Fault Instance → Prop where
  | ok {g g' : Instance} (h : M.Instances g g') : Results M (.ok g) (.ok g')
  | error (fault : Fault) : Results M (.error fault) (.error fault)

/-- Tables with the same keys, under which there are documents that stand for each other. -/
def Tables {κ : Type} (M : Mirror) (l l' : List (κ × Instance)) : Prop :=
  List.Forall₂ (fun x y => y.1 = x.1 ∧ M.Instances x.2 y.2) l l'

/-- Passes that have been told the same, as far as that is compared. -/
structure Remarked (M : Mirror) (s t : Pass) : Prop where
  report : M.reports s.report t.report
  metadata : M.remarks s.metadata t.metadata

/-- Passes that keep documents which stand for each other. -/
structure Beside (M : Mirror) (s t : Pass) : Prop extends Remarked M s t where
  instances : M.Tables s.instances t.instances
  scopes : M.Tables s.scopes t.scopes

/-- A document made ready, but not kept yet. -/
def made (env : Environment) (d : Document) (s : Pass) : Pass :=
  checkNodes (env.instanceOf d) [] [] (env.instanceOf d).behaviors (makeNodes env [] d.nodes s).2

/-- Saved documents that are made ready alike. -/
structure Makes (M : Mirror) (d d' : Document) : Prop where
  instances : M.Instances (M.left.instanceOf d) (M.right.instanceOf d')
  /-- There is the same to say about them, as far as that is compared. -/
  remarked : ∀ s t, M.Remarked s t → M.Remarked (made M.left d s) (made M.right d' t)

variable {M : Mirror} {s t s' t' : Pass} {g g' : Instance} {bs bs' : List (NodeId × Behavior)}

theorem Instances.behavior? (h : M.Instances g g') {id : NodeId} (hid : M.names id) :
    Option.Rel M.alike (g.behavior? id) (g'.behavior? id) := by
  have hstate := h.state id hid
  unfold Instance.behavior?
  generalize g.state? id = x at hstate
  generalize g'.state? id = y at hstate
  cases hstate with
  | none => exact .none
  | some hs =>
    cases hs with
    | ready h => exact .some h
    | broken message => exact .none

theorem Instances.role (h : M.Instances g g') {id : NodeId} (hid : M.names id) :
    (g'.behavior? id).map Behavior.role = (g.behavior? id).map Behavior.role := by
  have hbehavior := h.behavior? hid
  generalize g.behavior? id = x at hbehavior
  generalize g'.behavior? id = y at hbehavior
  cases hbehavior with
  | none => rfl
  | some hb => exact congrArg some (M.role hb)

theorem Tables.find? {κ : Type} [BEq κ] {l l' : List (κ × Instance)} (h : M.Tables l l')
    (key : κ) : Option.Rel (fun x y => y.1 = x.1 ∧ M.Instances x.2 y.2)
      (l.find? (·.1 == key)) (l'.find? (·.1 == key)) := by
  induction h with
  | nil => exact .none
  | @cons x y l l' hxy _ ih =>
    rw [List.find?_cons, List.find?_cons, hxy.1]
    cases x.1 == key with
    | true => exact .some hxy
    | false => exact ih

theorem Tables.keys {κ : Type} {l l' : List (κ × Instance)} (h : M.Tables l l') :
    l'.map Prod.fst = l.map Prod.fst := by
  induction h with
  | nil => rfl
  | cons hxy _ ih => rw [List.map_cons, List.map_cons, hxy.1, ih]

theorem Tables.filter {κ : Type} {l l' : List (κ × Instance)} (h : M.Tables l l')
    (p : κ → Bool) : M.Tables (l.filter (p ·.1)) (l'.filter (p ·.1)) := by
  induction h with
  | nil => exact .nil
  | @cons x y l l' hxy _ ih =>
    rw [List.filter_cons, List.filter_cons, hxy.1]
    cases p x.1 with
    | true => exact .cons hxy ih
    | false => exact ih

namespace Remarked

theorem push (h : M.Remarked s t) (d : Diagnostic) : M.Remarked (s.push d) (t.push d) :=
  ⟨M.push d h.report, h.metadata⟩

theorem addMetadata (h : M.Remarked s t) (key value : String) :
    M.Remarked (s.addMetadata key value) (t.addMetadata key value) :=
  ⟨h.report, M.add key value h.metadata⟩

theorem foldl {α : Type} {f : Pass → α → Pass}
    (hf : ∀ s t a, M.Remarked s t → M.Remarked (f s a) (f t a)) (l : List α)
    (h : M.Remarked s t) : M.Remarked (l.foldl f s) (l.foldl f t) := by
  induction l generalizing s t with
  | nil => exact h
  | cons a l ih => exact ih (hf s t a h)

end Remarked

namespace Beside

theorem push (h : M.Beside s t) (d : Diagnostic) : M.Beside (s.push d) (t.push d) :=
  ⟨h.toRemarked.push d, h.instances, h.scopes⟩

theorem rememberScope (h : M.Beside s t) (scope : Scope) (hg : M.Instances g g') :
    M.Beside (s.rememberScope scope g) (t.rememberScope scope g') :=
  ⟨⟨h.report, h.metadata⟩, h.instances, .cons ⟨rfl, hg⟩ (h.scopes.filter (· != scope))⟩

end Beside

/-- A document is made ready on both sides, or it has been before. -/
theorem prepare_along (path : String) {d d' : Document} (hd : M.Makes d d') (h : M.Remarked s t)
    (hi : M.Tables s.instances t.instances) :
    M.Instances (s.prepare M.left path d).1 (t.prepare M.right path d').1 ∧
      M.Remarked (s.prepare M.left path d).2 (t.prepare M.right path d').2 ∧
      M.Tables (s.prepare M.left path d).2.instances (t.prepare M.right path d').2.instances := by
  have hfind := hi.find? path
  unfold prepare
  generalize s.instances.find? (·.1 == path) = x at hfind
  generalize t.instances.find? (·.1 == path) = y at hfind
  cases hfind with
  | some hxy => exact ⟨hxy.2, h, hi⟩
  | none =>
    have hg : (makeNodes M.left [] d.nodes s).1 = M.left.instanceOf d := makeNodes_fst d.nodes [] s
    have hg' : (makeNodes M.right [] d'.nodes t).1 = M.right.instanceOf d' :=
      makeNodes_fst d'.nodes [] t
    have hnoted := makeDocument_noted M.left d s
    have hnoted' := makeDocument_noted M.right d' t
    have hmade := hd.remarked s t h
    unfold made at hmade
    rw [hg] at hnoted
    rw [hg'] at hnoted'
    dsimp only
    rw [hg, hg']
    refine ⟨hd.instances, ⟨hmade.report, hmade.metadata⟩, .cons ⟨rfl, hd.instances⟩ ?_⟩
    rw [hnoted.instances, hnoted'.instances]
    exact hi

theorem prepare_beside (path : String) {d d' : Document} (hd : M.Makes d d')
    (h : M.Beside s t) : M.Instances (s.prepare M.left path d).1 (t.prepare M.right path d').1 ∧
      M.Beside (s.prepare M.left path d).2 (t.prepare M.right path d').2 := by
  obtain ⟨hg, hremarked, htables⟩ := prepare_along path hd h.toRemarked h.instances
  refine ⟨hg, hremarked, htables, ?_⟩
  rw [prepare_scopes, prepare_scopes]
  exact h.scopes

section Follow

variable (hroot : M.Makes M.left.root M.right.root)
  (hlib : ∀ path, Option.Rel M.Makes (M.left.library path) (M.right.library path))
include hroot

theorem root_beside (h : M.Beside s t) :
    M.Instances (s.root M.left).1 (t.root M.right).1 ∧
      M.Beside (s.root M.left).2 (t.root M.right).2 :=
  prepare_beside rootPath hroot h

include hlib

omit hroot in
theorem walk_beside (scope : Scope) (hscope : ∀ call ∈ scope, M.names call) :
    ∀ (before : Scope) (paths : List String) (g g' : Instance) (s t : Pass),
      M.Instances g g' → M.Beside s t →
      M.Results (walk M.left before paths g scope s).1 (walk M.right before paths g' scope t).1 ∧
        M.Beside (walk M.left before paths g scope s).2
          (walk M.right before paths g' scope t).2 := by
  induction scope with
  | nil => exact fun _ _ _ _ _ _ hg h => ⟨.ok hg, h⟩
  | cons call rest ih =>
    intro before paths g g' s t hg h
    rw [walk, walk, hg.role (hscope call List.mem_cons_self)]
    split
    · next path _ =>
      by_cases hpath : path ∈ paths
      · rw [if_pos hpath, if_pos hpath]
        exact ⟨.error _, h.push _⟩
      · have hd := hlib path
        rw [if_neg hpath, if_neg hpath]
        generalize M.left.library path = x at hd
        generalize M.right.library path = y at hd
        cases hd with
        | none => exact ⟨.error _, h⟩
        | some hd =>
          obtain ⟨hg', h'⟩ := prepare_beside path hd h
          exact ih (fun c hc => hscope c (List.mem_cons_of_mem _ hc)) _ _ _ _ _ _ hg'
            (h'.rememberScope _ hg')
    · exact ⟨.error _, h⟩
    · exact ⟨.error _, h⟩

/-- **A scope leads to documents that stand for each other**, or nowhere on both sides. -/
theorem follow_beside (scope : Scope) (hscope : ∀ call ∈ scope, M.names call)
    (h : M.Beside s t) :
    M.Results (s.follow M.left scope).1 (t.follow M.right scope).1 ∧
      M.Beside (s.follow M.left scope).2 (t.follow M.right scope).2 := by
  have hfind := h.scopes.find? scope
  unfold follow scope?
  generalize s.scopes.find? (·.1 == scope) = x at hfind
  generalize t.scopes.find? (·.1 == scope) = y at hfind
  cases hfind with
  | some hxy => exact ⟨.ok hxy.2, h⟩
  | none =>
    obtain ⟨hg, hr⟩ := root_beside hroot h
    have hw := walk_beside hlib scope hscope [] [] _ _ _ _ hg hr
    dsimp only [Option.map_none]
    rcases hx : walk M.left [] [] (s.root M.left).1 scope (s.root M.left).2 with ⟨x, s₁⟩
    rcases hy : walk M.right [] [] (t.root M.right).1 scope (t.root M.right).2 with ⟨y, t₁⟩
    rw [hx, hy] at hw
    obtain ⟨hres, hb⟩ := hw
    dsimp only at hres hb
    cases hres with
    | ok hg => exact ⟨.ok hg, hb.rememberScope scope hg⟩
    | error fault => exact ⟨.error fault, hb⟩

end Follow

/-! ### Making documents ready -/

/-- A node that is on the right side only. Nobody looks it up, and there may be remarks
about it on that side. -/
structure Extra (M : Mirror) (id : NodeId) (state : NodeState) : Prop where
  unnamed : ¬M.names id
  /-- It is not what its document is compiled or called for. -/
  inner : ∀ b, state = .ready b → b.role.IsInner = true
  /-- Nothing fatal may be reported about it. -/
  push : ∀ {r r'} d, d.node = id → (d.severity == .fatal) = false → M.reports r r' →
    M.reports r (r'.push d)
  add : ∀ b, state = .ready b → ∀ entry ∈ b.metadata, ∀ {m} {t : Pass},
    M.remarks m t.metadata → M.remarks m (t.addMetadata entry.1 entry.2).metadata

/-- Saved nodes that are made alike. -/
structure Nodes (M : Mirror) (node node' : Node) : Prop where
  id : node'.id = node.id
  named : M.names node.id
  state : M.States (M.left.stateOf node) (M.right.stateOf node')
  made : ∀ s t, M.Remarked s t →
    M.Remarked (s.makeNode M.left node).2 (t.makeNode M.right node').2

/-- Lists whose members stand for each other in order, with further members on the right. -/
inductive Interleaved {α β : Type} (R : α → β → Prop) (E : β → Prop) : List α → List β → Prop
    where
  | nil : Interleaved R E [] []
  | both {a : α} {b : β} {l : List α} {l' : List β} (h : R a b) (rest : Interleaved R E l l') :
      Interleaved R E (a :: l) (b :: l')
  | right {b : β} {l : List α} {l' : List β} (h : E b) (rest : Interleaved R E l l') :
      Interleaved R E l (b :: l')

namespace Interleaved

variable {α β : Type} {R : α → β → Prop} {E : β → Prop} {l k : List α} {l' k' : List β}

theorem append (h : Interleaved R E l l') (h' : Interleaved R E k k') :
    Interleaved R E (l ++ k) (l' ++ k') := by
  induction h with
  | nil => exact h'
  | both h rest ih => exact .both h ih
  | right h rest ih => exact .right h ih

/-- The same list on both sides. -/
theorem same {R : α → α → Prop} {E : α → Prop} {l : List α} (h : ∀ a ∈ l, R a a) :
    Interleaved R E l l := by
  induction l with
  | nil => exact .nil
  | cons a l ih =>
    obtain ⟨ha, hl⟩ := List.forall_mem_cons.mp h
    exact .both ha (ih hl)

/-- One further member. -/
theorem insert {b : β} (hb : E b) {before after : List β} (h : List.Forall₂ R l (before ++ after)) :
    Interleaved R E l (before ++ b :: after) := by
  have hafter {l : List α} {l' : List β} (h : List.Forall₂ R l l') : Interleaved R E l l' := by
    induction h with
    | nil => exact .nil
    | cons h _ ih => exact .both h ih
  induction before generalizing l with
  | nil => exact .right hb (hafter h)
  | cons b' before ih =>
    cases h with
    | cons h rest => exact .both h (ih rest)

/-- The further members aside, the members stand for each other. -/
theorem filter {p : α → Bool} {q : β → Bool} (h : Interleaved R E l l')
    (hR : ∀ a b, R a b → q b = p a) (hE : ∀ b, E b → q b = false) :
    List.Forall₂ R (l.filter p) (l'.filter q) := by
  induction h with
  | nil => exact .nil
  | @both a b l l' h rest ih =>
    rw [List.filter_cons, List.filter_cons, hR a b h]
    split
    · exact .cons h ih
    · exact ih
  | right h rest ih =>
    rw [List.filter_cons, hE _ h]
    exact ih

/-- The further members aside, lists of the same members are the same. -/
theorem filter_eq {R : α → α → Prop} {E : α → Prop} {l l' : List α} (h : Interleaved R E l l')
    (hR : ∀ a b, R a b → b = a) {p : α → Bool} (hE : ∀ b, E b → p b = false) :
    l'.filter p = l.filter p := by
  have hfilter := (h.filter (fun a b hab => by rw [hR a b hab]) hE).imp
    fun a b hab => (hR a b hab).symm
  exact (List.forall₂_eq_eq_eq ▸ hfilter : l.filter p = l'.filter p).symm

end Interleaved

/-- The nodes of documents that stand for each other, with further nodes on the right. -/
def Entries (M : Mirror) : Instance → Instance → Prop :=
  Interleaved (fun x y => y.1 = x.1 ∧ M.names x.1 ∧ M.States x.2 y.2) fun y => M.Extra y.1 y.2

/-- Nodes that can be asked, with further nodes on the right. -/
def Behaviors (M : Mirror) : List (NodeId × Behavior) → List (NodeId × Behavior) → Prop :=
  Interleaved (fun x y => y.1 = x.1 ∧ M.names x.1 ∧ M.alike x.2 y.2)
    fun y => M.Extra y.1 (.ready y.2)

namespace Entries

theorem state? (h : M.Entries g g') {id : NodeId} (hid : M.names id) :
    Option.Rel M.States (g.state? id) (g'.state? id) := by
  unfold Instance.state?
  induction h with
  | nil => exact .none
  | @both x y l l' hxy _ ih =>
    rw [List.find?_cons, List.find?_cons, hxy.1]
    cases x.1 == id with
    | true => exact .some hxy.2.2
    | false => exact ih
  | @right y l l' hy _ ih =>
    have hne : y.1 ≠ id := fun heq => hy.unnamed (heq ▸ hid)
    rw [List.find?_cons, beq_eq_false_iff_ne.mpr hne]
    exact ih

theorem named (h : M.Entries g g') : ∀ entry ∈ g, M.names entry.1 := by
  induction h with
  | nil => exact List.forall_mem_nil _
  | both hxy _ ih => exact List.forall_mem_cons.mpr ⟨hxy.2.1, ih⟩
  | right hy _ ih => exact ih

theorem behaviors (h : M.Entries g g') : M.Behaviors g.behaviors g'.behaviors := by
  unfold Instance.behaviors
  induction h with
  | nil => exact .nil
  | @both x y l l' hxy _ ih =>
    obtain ⟨id, state⟩ := x
    obtain ⟨id', state'⟩ := y
    obtain ⟨hid, hname, hstate⟩ := hxy
    cases hstate with
    | ready hb => exact .both ⟨hid, hname, hb⟩ ih
    | broken message => exact ih
  | @right y l l' hy _ ih =>
    obtain ⟨id, state⟩ := y
    cases state with
    | ready b => exact .right hy ih
    | broken message => exact ih

end Entries

theorem isSome_of_rel {α β : Type} {R : α → β → Prop} {x : Option α} {y : Option β}
    (h : Option.Rel R x y) : y.isSome = x.isSome := by
  cases h with
  | none => rfl
  | some h => rfl

theorem Behaviors.outputNode? (h : M.Behaviors bs bs') (hg : g.behaviors = bs)
    (hg' : g'.behaviors = bs') (name : String) :
    Pass.outputNode? g' name = Pass.outputNode? g name ∧
      ∀ node, Pass.outputNode? g name = some node → M.names node := by
  unfold Pass.outputNode?
  rw [hg, hg']
  clear hg hg'
  induction h with
  | nil => exact ⟨rfl, nofun⟩
  | @both x y l l' hxy _ ih =>
    obtain ⟨hid, hname, hb⟩ := hxy
    rw [List.find?_cons, List.find?_cons]
    dsimp only
    rw [M.role hb]
    split
    · exact ⟨congrArg some hid, fun node hn => Option.some.inj hn ▸ hname⟩
    · exact ih
  | @right y l l' hy _ ih =>
    have hrole := hy.inner y.2 rfl
    rw [List.find?_cons]
    dsimp only
    cases hr : y.2.role with
    | subgraphOutput other channel =>
      rw [hr] at hrole
      cases hrole
    | _ => exact ih

namespace Extra

variable {n : Node} {id : NodeId} {state : NodeState}

theorem remarked_push (hn : M.Extra id state) {d : Diagnostic} (hd : d.node = id)
    (hsev : (d.severity == .fatal) = false) (h : M.Remarked s t) : M.Remarked s (t.push d) :=
  ⟨hn.push d hd hsev h.report, h.metadata⟩

theorem foldl {α : Type} {f : Pass → α → Pass} (l : List α)
    (hf : ∀ t, ∀ a ∈ l, M.Remarked s t → M.Remarked s (f t a)) :
    ∀ t, M.Remarked s t → M.Remarked s (l.foldl f t) := by
  induction l with
  | nil => exact fun _ h => h
  | cons a l ih =>
    intro t h
    exact ih (fun t b hb => hf t b (List.mem_cons_of_mem _ hb)) _ (hf t a List.mem_cons_self h)

/-- What is said about a node that is made on the right only. -/
theorem makeNode {env : Environment} (hn : M.Extra n.id (env.stateOf n)) (h : M.Remarked s t) :
    M.Remarked s (t.makeNode env n).2 := by
  rw [makeNode_eq]
  have hremarks := foldl (env.remarks n) (fun t d hd h => by
    obtain ⟨hnode, -, hsev⟩ := Environment.mem_remarks hd
    exact hn.remarked_push hnode hsev h) t h
  refine foldl (f := fun t entry => t.addMetadata entry.1 entry.2) (env.pieces n)
    (fun t entry hentry h => ⟨h.report, ?_⟩) _ hremarks
  unfold Environment.pieces at hentry
  split at hentry
  · next b hb => exact hn.add b hb entry hentry h.metadata
  · cases hentry

theorem checkWires (g : Instance) (b : Behavior) (hn : M.Extra id state) (h : M.Remarked s t) :
    M.Remarked s (t.checkWires g id b) := by
  rw [Pass.checkWires_eq]
  refine foldl _ (fun t d hd h => ?_) t h
  obtain ⟨entry, -, rfl⟩ := List.mem_map.mp hd
  exact hn.remarked_push rfl rfl h

end Extra

/-- Nodes are made one after the other on both sides. No further node has the identifier of
another node. -/
theorem makeNodes_remarked {nodes nodes' : List Node}
    (hnodes : Interleaved M.Nodes (fun n => M.Extra n.id (M.right.stateOf n)) nodes nodes')
    (hdistinct : nodes'.Pairwise fun m m' => M.names m.id ∨ m'.id ≠ m.id) :
    ∀ (g g' : Instance) (s t : Pass), M.Entries g g' → M.Remarked s t →
      (∀ m ∈ nodes', ¬M.names m.id → g'.state? m.id = none) →
      M.Entries (nodes.foldl M.left.extend g) (nodes'.foldl M.right.extend g') ∧
        M.Remarked (makeNodes M.left g nodes s).2 (makeNodes M.right g' nodes' t).2 := by
  induction hnodes with
  | nil => exact fun _ _ _ _ hg h _ => ⟨hg, h⟩
  | @both node node' nodes nodes' hnode _ ih =>
    intro g g' s t hg h hnew
    obtain ⟨hfirst, hdistinct⟩ := List.pairwise_cons.mp hdistinct
    obtain ⟨-, hnew⟩ := List.forall_mem_cons.mp hnew
    have hsome : (g'.state? node'.id).isSome = (g.state? node.id).isSome := by
      rw [hnode.id]
      exact isSome_of_rel (hg.state? hnode.named)
    rw [List.foldl_cons, List.foldl_cons, Environment.extend, Environment.extend, makeNodes,
      makeNodes, hsome]
    split
    · rw [hnode.id]
      exact ih hdistinct _ _ _ _ hg (h.push _) hnew
    · dsimp only
      rw [makeNode_fst, makeNode_fst]
      refine ih hdistinct _ _ _ _ (hg.append (.both ⟨hnode.id, hnode.named, hnode.state⟩ .nil))
        (hnode.made s t h) fun m hm hunnamed => ?_
      have hne : node'.id ≠ m.id := by
        rw [hnode.id]
        exact fun heq => hunnamed (heq ▸ hnode.named)
      rw [Environment.state?_append, hnew m hm hunnamed, if_neg hne]
      rfl
  | @right node' nodes nodes' hnode _ ih =>
    intro g g' s t hg h hnew
    obtain ⟨hfirst, hdistinct⟩ := List.pairwise_cons.mp hdistinct
    obtain ⟨hnone, hnew⟩ := List.forall_mem_cons.mp hnew
    -- no other node has its identifier, so the further node is made, on the right only
    rw [List.foldl_cons, Environment.extend, makeNodes, hnone hnode.unnamed]
    dsimp only [Option.isSome_none]
    rw [if_neg Bool.false_ne_true, if_neg Bool.false_ne_true, makeNode_fst]
    refine ih hdistinct _ _ _ _ ?_ (hnode.makeNode h) fun m hm hunnamed => ?_
    · have hentry : M.Entries [] [(node'.id, M.right.stateOf node')] := .right hnode .nil
      have happend := hg.append hentry
      rw [List.append_nil] at happend
      exact happend
    · have hne : node'.id ≠ m.id := fun heq =>
        ((hfirst m hm).resolve_left hnode.unnamed) heq.symm
      rw [Environment.state?_append, hnew m hm hunnamed, if_neg hne]
      rfl

theorem checkName_remarked (kind : String) (seen : List String) (id : NodeId) (name : String)
    (h : M.Remarked s t) :
    (t.checkName kind seen id name).1 = (s.checkName kind seen id name).1 ∧
      M.Remarked (s.checkName kind seen id name).2 (t.checkName kind seen id name).2 := by
  unfold checkName
  split
  · exact ⟨rfl, h.push _⟩
  · exact ⟨rfl, h⟩

/-- Nodes are checked alike if their wires are. -/
theorem checkNodes_remarked (hwires : ∀ {b b'}, M.alike b b' → ∀ id s t, M.Remarked s t →
      M.Remarked (s.checkWires g id b) (t.checkWires g' id b')) (hbs : M.Behaviors bs bs') :
    ∀ (inputs outputs : List String) (s t : Pass), M.Remarked s t →
      M.Remarked (checkNodes g inputs outputs bs s) (checkNodes g' inputs outputs bs' t) := by
  induction hbs with
  | nil => exact fun _ _ _ _ h => h
  | @both x y l l' hxy _ ih =>
    obtain ⟨id, b⟩ := x
    obtain ⟨id', b'⟩ := y
    obtain ⟨hid, -, hb⟩ := hxy
    dsimp only at hid hb
    subst hid
    intro inputs outputs s t h
    have hw := hwires hb id' s t h
    rw [checkNodes, checkNodes, M.role hb]
    dsimp only
    split
    · next name _ =>
      obtain ⟨hseen, hn⟩ := checkName_remarked "input" inputs id' name hw
      rw [hseen]
      exact ih _ _ _ _ hn
    · next name _ _ =>
      obtain ⟨hseen, hn⟩ := checkName_remarked "output" outputs id' name hw
      rw [hseen]
      exact ih _ _ _ _ hn
    · exact ih _ _ _ _ hw
  | @right y l l' hy _ ih =>
    obtain ⟨id, b⟩ := y
    intro inputs outputs s t h
    have hrole := hy.inner b rfl
    -- the further node is neither an input nor an output: no name is checked
    have hrest := ih inputs outputs s _ (hy.checkWires g' b h)
    rw [checkNodes]
    cases hr : b.role with
    | subgraphInput name =>
      rw [hr] at hrole
      cases hrole
    | subgraphOutput name channel =>
      rw [hr] at hrole
      cases hrole
    | _ => exact hrest

section Documents

variable {d d' : Document}
  (hnodes : Interleaved M.Nodes (fun n => M.Extra n.id (M.right.stateOf n)) d.nodes d'.nodes)
  (hdistinct : d'.nodes.Pairwise fun m m' => M.names m.id ∨ m'.id ≠ m.id)
include hnodes hdistinct

theorem entries_instanceOf : M.Entries (M.left.instanceOf d) (M.right.instanceOf d') :=
  (makeNodes_remarked hnodes hdistinct [] [] {} {} .nil ⟨M.blank, M.bare⟩
    fun _ _ _ => rfl).1

/-- **Documents are made ready alike** if their nodes are made and checked alike. -/
theorem Makes.of_nodes
    (hwires : M.Instances (M.left.instanceOf d) (M.right.instanceOf d') →
      ∀ {b b'}, M.alike b b' → ∀ id s t, M.Remarked s t →
        M.Remarked (s.checkWires (M.left.instanceOf d) id b)
          (t.checkWires (M.right.instanceOf d') id b')) : M.Makes d d' := by
  have hentries := entries_instanceOf hnodes hdistinct
  have hinstances : M.Instances (M.left.instanceOf d) (M.right.instanceOf d') :=
    ⟨fun id hid => hentries.state? hid,
      fun name => (hentries.behaviors.outputNode? rfl rfl name).1,
      fun name => (hentries.behaviors.outputNode? rfl rfl name).2⟩
  refine ⟨hinstances, fun s t h => ?_⟩
  exact checkNodes_remarked (hwires hinstances) hentries.behaviors [] [] _ _
    (makeNodes_remarked hnodes hdistinct [] [] s t .nil h fun _ _ _ => rfl).2

end Documents

/-! The same nodes on both sides. -/

/-- Nodes about which the same is said. -/
theorem makeNode_remarked {node node' : Node}
    (hremarks : M.right.remarks node' = M.left.remarks node)
    (hpieces : M.right.pieces node' = M.left.pieces node) (h : M.Remarked s t) :
    M.Remarked (s.makeNode M.left node).2 (t.makeNode M.right node').2 := by
  rw [makeNode_eq, makeNode_eq, hremarks, hpieces]
  have hsaid := Remarked.foldl (fun _ _ d h => h.push d) (M.left.remarks node) h
  exact Remarked.foldl (fun _ _ entry h => h.addMetadata entry.1 entry.2) (M.left.pieces node) hsaid

theorem stateOf_eq (hcat : M.right.catalog = M.left.catalog) (node : Node) :
    M.right.stateOf node = M.left.stateOf node := by
  unfold Environment.stateOf
  rw [hcat]

/-- A node stands for itself if nothing refers to what must not be looked up. -/
theorem Nodes.same (hcat : M.right.catalog = M.left.catalog) {node : Node}
    (hname : M.names node.id) (hb : ∀ b, M.left.stateOf node = .ready b → M.alike b b) :
    M.Nodes node node := by
  refine ⟨rfl, hname, ?_, fun s t h => makeNode_remarked ?_ ?_ h⟩
  · rw [stateOf_eq hcat]
    cases hstate : M.left.stateOf node with
    | ready b => exact .ready (hb b hstate)
    | broken message => exact .broken message
  · unfold Environment.remarks
    rw [hcat]
  · unfold Environment.pieces
    rw [stateOf_eq hcat]

/-- Wires are checked alike if they lead to what may be looked up. -/
theorem checkWires_remarked (hg : M.Instances g g') (id : NodeId) {b : Behavior}
    (hwires : ∀ entry ∈ b.connections, entry.2.isConnected = true → M.names entry.2.node)
    (h : M.Remarked s t) : M.Remarked (s.checkWires g id b) (t.checkWires g' id b) := by
  have hstrays : b.strays g' id = b.strays g id := by
    refine congrArg (List.map _) (List.filter_congr fun entry hentry => ?_)
    cases hc : entry.2.isConnected with
    | false => rfl
    | true =>
      rw [← Option.not_isSome, ← Option.not_isSome,
        isSome_of_rel (hg.state _ (hwires entry hentry hc))]
  rw [checkWires_eq, checkWires_eq, hstrays]
  exact Remarked.foldl (fun _ _ d h => h.push d) _ h

end Mirror

end MaterialGraph
