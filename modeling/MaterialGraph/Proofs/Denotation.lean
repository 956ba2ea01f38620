import MaterialGraph.Proofs.Cycles
import MaterialGraph.Proofs.Inlining

/-!
# The document that a scope denotes

A scope is a list of calls, and it denotes a document without any pass: the first call is looked up
in the root document, the library gives the document under its path, the next call is looked up
there, and so on. A pass finds its way through what it has kept of earlier ways, by path and by
scope. This module shows that at every moment of a pass a scope that leads to a document leads
to the one it denotes.

There is one exception. The root document is kept under the empty path, so a call with the empty
path leads back to the root document, whatever the library has under that path.

## Main results

* `Environment.documentAt_eq_denoted?` — where calls lead, by what they denote.
* `Compiler.faithful_of_mem` — at every moment of a pass, what is kept of documents is right.
* `Compiler.scopes_denote` — **a scope leads to the document that it denotes, or nowhere.**
-/

namespace MaterialGraph

open Pass

namespace Environment

/-! ### What a scope denotes -/

/-- The path of the document that a saved node calls. -/
def callPath? (env : Environment) (node : Node) : Option String :=
  match env.stateOf node with
  | .ready b =>
    match b.role with
    | .subgraphCall path => some path
    | _ => none
  | .broken _ => none

/-- The document that a call in another document names. -/
def called? (env : Environment) (d : Document) (call : NodeId) : Option Document :=
  (d.find? call).bind fun node => (env.callPath? node).bind env.library

/-- The document that a scope names from the root. -/
def denoted? (env : Environment) (scope : Scope) : Option Document :=
  scope.foldlM env.called? env.root

/-- No call of the scope has the empty path. -/
def NamesEach (env : Environment) (scope : Scope) : Prop :=
  ∀ before call after, scope = before ++ call :: after →
    ∀ d node, env.denoted? before = some d → d.find? call = some node →
      env.callPath? node ≠ some rootPath

variable {env : Environment}

@[simp] theorem denoted?_append (scope : Scope) (call : NodeId) :
    env.denoted? (scope ++ [call]) = (env.denoted? scope).bind (env.called? · call) := by
  unfold denoted?
  rw [List.foldlM_append]
  cases List.foldlM env.called? env.root scope with
  | none => rfl
  | some d => exact bind_pure (env.called? d call)

theorem NamesEach.of_append {scope : Scope} {call : NodeId} (h : env.NamesEach (scope ++ [call])) :
    env.NamesEach scope := by
  intro before c after heq
  apply h before c (after ++ [call])
  rw [heq, List.append_assoc, List.cons_append]

/-- If the library has nothing under the empty path, no call of a scope that denotes a document has
that path. -/
theorem NamesEach.of_library {scope : Scope} {d : Document} (hlib : env.library rootPath = none)
    (hd : env.denoted? scope = some d) : env.NamesEach scope := by
  rintro before call after rfl d' node hbefore hnode hpath
  have hcalled : env.called? d' call = none := by
    rw [called?, hnode, Option.bind_some, hpath, Option.bind_some, hlib]
  have hat : env.denoted? (before ++ [call]) = none := by
    rw [denoted?_append, hbefore, Option.bind_some, hcalled]
  unfold denoted? at hat hd
  rw [List.append_cons, List.foldlM_append, hat] at hd
  cases hd

/-- One call leads to the document that it names, unless its path is empty. -/
theorem calledFrom?_eq_called? {d : Document} {call : NodeId}
    (h : ∀ node, d.find? call = some node → env.callPath? node ≠ some rootPath) :
    env.calledFrom? d call = env.called? d call := by
  unfold calledFrom? called? Instance.behavior?
  rw [state?_instanceOf]
  cases hf : d.find? call with
  | none => rfl
  | some node =>
    have hne := h node hf
    unfold callPath? at hne ⊢
    rw [Option.map_some, Option.bind_some]
    cases hs : env.stateOf node with
    | broken m => rfl
    | ready b =>
      rw [hs] at hne
      dsimp only [Option.map_some] at hne ⊢
      cases hr : b.role with
      | subgraphCall path =>
        rw [hr] at hne
        have hpath : path ≠ rootPath := fun heq => hne (congrArg some heq)
        dsimp only
        rw [Option.bind_some, documentOf?, if_neg hpath]
        cases env.library path with
        | none => rfl
        | some d' => rfl
      | _ => rfl

/-- Calls lead to what the scope denotes, if none of them has the empty path. -/
theorem documentAt_eq_denoted? {scope : Scope} (h : env.NamesEach scope) :
    env.documentAt scope = env.denoted? scope := by
  -- from the back: the last call is looked up in what the calls before it denote
  induction scope using List.reverseRecOn with
  | nil => rfl
  | append_singleton scope call ih =>
    rw [documentAt_append, denoted?_append, ih h.of_append]
    cases hd : env.denoted? scope with
    | none => rfl
    | some d =>
      exact calledFrom?_eq_called? fun node => h scope call [] rfl d node hd

end Environment

namespace Compiler

/-! ### What a pass has kept -/

/-- What is kept of documents does not depend on the mode. -/
theorem faithful_of_mode {c : Compiler} {d : Document} {mode : Mode} {s : Pass}
    (h : Faithful (c.environment mode d) s) (mode' : Mode) :
    Faithful (c.environment mode' d) s :=
  ⟨h.instances, h.scopes⟩

/-- **At every moment of a pass, what is kept of documents is right.** -/
theorem faithful_of_mem {c : Compiler} {d : Document} {l : List Event} (hl : c.IsTrace d l)
    {e : Event} (he : e ∈ l) (mode : Mode) : Faithful (c.environment mode d) e.pass := by
  obtain ⟨mode₀, s₀, s', hfresh, hsession⟩ := hl.session
  have hcourse := hsession.course (hfresh.stocked _) hfresh.atRest
  have htrack := (hcourse.tracked (List.Subset.refl l) (.of_fresh hfresh)).2
  exact faithful_of_mode (htrack e he).faithful mode

/-- **A scope leads to the document that it denotes.** This holds at every moment of a pass, for
every scope of which no call has the empty path. If a scope leads nowhere it denotes nothing. -/
theorem scopes_denote (c : Compiler) (d : Document) (l : List Event) (hl : c.IsTrace d l)
    (e : Event) (he : e ∈ l) (mode : Mode) (scope : Scope)
    (hscope : (c.environment mode d).NamesEach scope) :
    (∀ g, (e.pass.follow (c.environment mode d) scope).1 = .ok g →
      ∃ d', (c.environment mode d).denoted? scope = some d' ∧
        g = (c.environment mode d).instanceOf d') ∧
    ∀ text, (e.pass.follow (c.environment mode d) scope).1 = .error (.message text) →
      (c.environment mode d).denoted? scope = none := by
  have hleads := (follow_faithful scope (faithful_of_mem hl he mode)).2
  rw [← Environment.documentAt_eq_denoted? hscope]
  refine ⟨fun g hg => ?_, fun text ht => ?_⟩
  · rw [hg] at hleads
    exact hleads
  · rw [ht] at hleads
    rcases hleads with ⟨-, hnone⟩ | ⟨⟨chain, hchain⟩, -⟩
    · exact hnone
    · cases hchain

/-- The events of a pass over a material that calls the same document on three ways. -/
def layersTrace : List Event := layering.materialTrace layersDocument {}

/-- A call from within a call: the last call is looked up in the document of the first. -/
theorem scopes_denote_layers :
    layering.IsTrace layersDocument layersTrace ∧
    (layering.environment .final layersDocument).NamesEach [⟨3⟩, ⟨31⟩] ∧
    ∃ e ∈ layersTrace,
      (e.pass.follow (layering.environment .final layersDocument) [⟨3⟩, ⟨31⟩]).1 =
        .ok ((layering.environment .final layersDocument).instanceOf halfDocument) := by
  have htrace : layering.IsTrace layersDocument layersTrace := .inl ⟨{}, rfl⟩
  have hdenoted : (layering.environment .final layersDocument).denoted? [⟨3⟩, ⟨31⟩] =
      some halfDocument := rfl
  have hnames := Environment.NamesEach.of_library rfl hdenoted
  have hfound : (layersTrace.any fun e =>
      (e.pass.follow (layering.environment .final layersDocument) [⟨3⟩, ⟨31⟩]).1.toOption.isSome) =
      true := by decide +kernel
  obtain ⟨e, he, hsome⟩ := List.any_eq_true.mp hfound
  refine ⟨htrace, hnames, e, he, ?_⟩
  cases hg : (e.pass.follow (layering.environment .final layersDocument) [⟨3⟩, ⟨31⟩]).1 with
  | error fault =>
    rw [hg] at hsome
    cases hsome
  | ok g =>
    obtain ⟨d', hd', rfl⟩ :=
      (scopes_denote layering layersDocument layersTrace htrace e he .final _ hnames).1 g hg
    rw [hdenoted] at hd'
    cases hd'
    rfl

/-- A document under the empty path, with one node. -/
def hiddenDocument : Document where
  isSubgraph := true
  nodes := [
    .of (.literal .float) 2 { value := one }]

/-- A material with a call of the empty path. Its roughness is wired to a node inside the call. -/
def lostDocument : Document where
  nodes := [
    .of .materialResult 1 { roughness := { node := ⟨2⟩, output := "result", path := [⟨3⟩] } },
    .of (.literal .float) 2 { value := one },
    .of .subgraphCall 3 { path := "" }]

/-- The compiler that knows a document under the empty path. -/
def untitled : Compiler where
  library path := if path = "" then some hiddenDocument else none

/-- The empty path stands for the root document, so the call does not lead to the document that
the library has there: the document it denotes has one node, and three are found. -/
theorem root_found_of_empty_path :
    (untitled.environment .final lostDocument).denoted? [⟨3⟩] = some hiddenDocument ∧
    ((untitled.environment .final lostDocument).instanceOf hiddenDocument).length = 1 ∧
    ∃ e ∈ untitled.materialTrace lostDocument {}, ∃ g : Instance,
      (e.pass.follow (untitled.environment .final lostDocument) [⟨3⟩]).1 = .ok g ∧
        g.length = 3 := by
  have hfound : ((untitled.materialTrace lostDocument {}).any fun e =>
      (e.pass.follow (untitled.environment .final lostDocument) [⟨3⟩]).1.toOption.any
        (·.length == 3)) = true := by decide +kernel
  obtain ⟨e, he, hlength⟩ := List.any_eq_true.mp hfound
  refine ⟨rfl, rfl, e, he, ?_⟩
  cases hg : (e.pass.follow (untitled.environment .final lostDocument) [⟨3⟩]).1 with
  | error fault =>
    rw [hg] at hlength
    cases hlength
  | ok g =>
    rw [hg] at hlength
    exact ⟨g, rfl, beq_iff_eq.mp hlength⟩

end Compiler

end MaterialGraph
