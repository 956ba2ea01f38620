import MaterialGraph.Proofs.Bystanders

/-!
# Documents without switches

A switch is the only node whose plan depends on the mode. Where no document has one, two
passes in different modes are in step and report the same, so that the mode cannot be told
from the result of a compilation.

## Main results

* `Environment.SwitchFree.lockstep` — passes in two modes are in step.
* `Compiler.mode_unseen` — without switches, a compilation is the same in both modes.
-/

namespace MaterialGraph

open Pass

/-- The node does the same in every mode. -/
def Behavior.IgnoresMode (b : Behavior) : Prop :=
  ∀ (frame : Frame) (mode : Mode) (output : String),
    b.plan { frame with mode } output = b.plan frame output

theorem NodeClass.ignoresMode {c : NodeClass} (hc : c ≠ .staticSwitch) (st : c.Settings) :
    (c.spec.behavior st).IgnoresMode := by
  intro frame mode output
  cases c with
  | staticSwitch => exact absurd rfl hc
  | _ => rfl

/-- No document that can be reached has a switch. -/
def Environment.SwitchFree (env : Environment) : Prop :=
  ∀ d, env.InReach d → ∀ node ∈ d.nodes, node.className ≠ NodeClass.staticSwitch.name

namespace Environment.SwitchFree

/-- One document, in two modes. -/
def mirror (c : Compiler) (mode mode' : Mode) (d : Document) : Mirror :=
  .verbatim (c.environment mode d) (c.environment mode' d) (fun b b' => b' = b ∧ b.IgnoresMode)
    And.left

variable {c : Compiler} (hc : c.catalog = .builtin) {mode : Mode} {d : Document}
  (h : (c.environment mode d).SwitchFree) (mode' : Mode)
include hc h

theorem makes {x : Document} (hx : (c.environment mode d).InReach x) :
    (mirror c mode mode' d).Makes x x := by
  refine Mirror.Makes.refl (M := mirror c mode mode' d) (fun _ => trivial) rfl (fun _ _ hb => hb.1)
    fun node hnode b hb => ⟨rfl, ?_⟩
  obtain ⟨kind, hkind, hbuild⟩ := Environment.stateOf_eq_ready hb
  have hkind : c.catalog.find? node.className = some kind := hkind
  rw [hc] at hkind
  obtain ⟨k, st, hname, -, rfl⟩ := Catalog.builtin_build hkind hbuild
  refine NodeClass.ignoresMode (fun heq => h x hx node hnode ?_) st
  rw [hname, heq]

/-- **Passes in two modes are in step.** -/
theorem lockstep : (mirror c mode mode' d).Lockstep := by
  refine .of_plans (fun _ => trivial) rfl rfl (h.makes hc mode' (.inl rfl)) (fun path => ?_)
    (fun _ _ hb => hb.1) fun b hb site => hb.2 (frame (c.environment mode d) site) mode' site.output
  show Option.Rel _ (c.library path) (c.library path)
  cases hpath : c.library path with
  | none => exact .none
  | some x => exact .some (h.makes hc mode' (.inr ⟨path, hpath⟩))

omit hc h in
theorem rooted : (mirror c mode mode' d).Rooted := ⟨rfl, fun _ => rfl, fun _ _ => trivial⟩

end Environment.SwitchFree

namespace Compiler

open Environment

/-- Drafts that differ in the documents of their passes give the same compilation. -/
theorem compilation_eq {c : Compiler} {mode mode' : Mode} {d : Document} {x y : Draft}
    (h : Mirror.Drafts (SwitchFree.mirror c mode mode' d).Pair x y) (types : TypeTable)
    (o : Options) (t : Template) :
    y.compilation types { o with mode := mode' } t = x.compilation types o t := by
  obtain ⟨hsame, hpass⟩ := h
  have hreport : y.pass.report = x.pass.report := hpass.beside.report
  have hmetadata : y.pass.metadata = x.pass.metadata := hpass.beside.metadata
  have hreset := hpass.same
  rw [hreport, hmetadata] at hreset
  rw [hsame, hreset]
  rfl

/-- **Without switches, a compilation is the same in both modes.** The document is rejected for
the same reason, or the program, the report and the textures that are compiled are the same. -/
theorem mode_unseen (c : Compiler) (hc : c.catalog = .builtin) (d : Document)
    (h : (c.environment .final d).SwitchFree) (o : Options) :
    c.compile d { o with mode := .preview } = c.compile d { o with mode := .final } := by
  have hcompile (mode : Mode) : c.compile d { o with mode } = (do
      let t ← o.templateOr .material
      let draft ← c.materialDraft d { o with mode }
      return draft.compilation c.types { o with mode } t) := rfl
  have hdrafts := (h.lockstep hc .preview).materialDraft (o := { o with mode := .final })
    (SwitchFree.rooted .preview) rfl rfl rfl
  rw [hcompile, hcompile]
  cases o.templateOr .material with
  | error e => exact (rfl : Except.error e = Except.error e)
  | ok t =>
    rcases hdrafts with ⟨e, hx, hy⟩ | ⟨x, y, hx, hy, hdrafts⟩
    · dsimp only at hy
      rw [hx, hy]
      exact (rfl : Except.error e = Except.error e)
    · dsimp only at hy
      rw [hx, hy]
      exact congrArg Except.ok (compilation_eq hdrafts c.types { o with mode := .final } t)

/-- A material that calls another document: both modes give the same program. -/
theorem mode_unseen_striped :
    ((withTint vectorDocument).environment .final stripedDocument).SwitchFree ∧
    (withTint vectorDocument).compile stripedDocument { mode := .preview } =
      (withTint vectorDocument).compile stripedDocument { mode := .final } ∧
    (parameters? ((withTint vectorDocument).compile stripedDocument { mode := .preview })).map
      (·.map Parameter.name) = some ["P", "P"] := by
  have hfree : ((withTint vectorDocument).environment .final stripedDocument).SwitchFree := by
    intro d hd
    rcases inReach_withTint hd with rfl | rfl
    · decide +kernel
    · decide +kernel
  exact ⟨hfree, mode_unseen _ rfl stripedDocument hfree {}, by decide +kernel⟩

/-- With a switch, the modes give programs with different parameters. -/
example :
    (parameters? ((withTint tintDocument).compile paintDocument { mode := .preview })).map
        (·.map Parameter.name) = some ["Tint", "Strength", "UseTint"] ∧
      (parameters? ((withTint tintDocument).compile paintDocument { mode := .final })).map
        (·.map Parameter.name) = some ["Tint", "Strength"] := by
  decide +kernel

end Compiler

end MaterialGraph
