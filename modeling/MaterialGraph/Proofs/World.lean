import MaterialGraph.Proofs.Stock
import MaterialGraph.Proofs.Words

/-!
# What plans may ask and what they give

A plan is a dialogue. A *world* says which texts are good, which features may be tested,
which sources may be registered as functions, and whether something has been reported. A plan meets
a world if it asks only for what is good there and ends with a good value or with a
fault that will be, or has been, reported, as long as it is answered with what is
good. Worlds grow in the course of a pass: what is good at one moment is good later.

## Main definitions

* `World`, `World.Value`, `World.Good` — good values and good outcomes.
* `World.Asks`, `World.Answers` — good requests and good answers.
* `World.Le` — worlds that grow.
* `Plan.Meets` — plans that are good partners.

## Main results

* `World.Le.answers` — good answers stay good.
-/

namespace MaterialGraph

/-! ### Worlds -/

/-- A value that no variable can hold is at least one that need not be held: it is
constant, or only names something. -/
def Expr.Shaped (e : Expr) : Prop :=
  e.type.isObject = true ∨ e.type = .any → e.isConstant = true ∨ Text.isReference e.code = true

/-- The types whose values variables can hold. -/
def ShaderType.Storable (t : ShaderType) : Prop := t.isObject = false ∧ t ≠ .any

theorem Expr.shaped_of_storable {e : Expr} (h : e.type.Storable) : e.Shaped := by
  rintro (ho | ha)
  · rw [h.1] at ho; cases ho
  · exact absurd ha h.2

/-- What is good at a moment of a pass. -/
structure World where
  /-- The texts that are good. -/
  text : String → Prop
  /-- Whether values must have a shape that can be shared. -/
  shaped : Prop
  /-- The features that may be tested. -/
  feature : Feature → Prop
  /-- The sources that may be registered as functions. -/
  source : String → Prop
  /-- Whether an output may be without value: what went wrong has been reported. -/
  lost : Prop

namespace World

/-- The world in which everything is good. -/
def lax : World where
  text _ := True
  shaped := False
  feature _ := True
  source _ := True
  lost := True

/-- A good value. -/
def Value (W : World) (e : Expr) : Prop := W.text e.code ∧ (W.shaped → e.Shaped)

/-- A fault that is reported for whoever has it, or the cause of which has been. -/
def Fault (W : World) (fault : MaterialGraph.Fault) : Prop := fault.IsReported ∨ W.lost

/-- A good outcome. -/
def Good (W : World) : Outcome → Prop
  | .valid e => W.Value e
  | _ => W.lost

/-- A result that is good, or a fault that is. -/
def Yields {α : Type} (W : World) (Q : α → Prop) : Except MaterialGraph.Fault α → Prop
  | .ok a => Q a
  | .error fault => W.Fault fault

/-- What a node may ask. -/
def Asks (W : World) : Command → Prop
  | .parameter spec => spec.type.Storable
  | .function source => W.source source
  | .select feature _ on off => W.feature feature ∧ W.text on.code ∧ W.text off.code
  | _ => True

/-- What is read along a wire. -/
def Reads (W : World) (input : String) (wire : Wire) (o : Outcome) : Prop :=
  if wire.isConnected then W.Good o else o = .missingInput input

/-- What a node may be told. -/
def Answers (W : World) : (c : Command) → c.Reply → Prop
  | .read input wire, o => W.Reads input wire o
  | .own _, o => W.Good o
  | .call _, x => W.Yields W.Value x
  | .argument _, x => ∀ o, x = some o → W.Good o
  | .parameter _, x => W.Yields W.Value x
  | .declare _, _ => True
  | .function _, x => W.Yields W.text x
  | .texture _ _ _, x => W.Yields W.Value x
  | .sampler _, e => W.Value e
  | .feature _ _, x => W.Yields W.feature x
  | .toggle _ _, x => W.Yields W.Value x
  | .select _ _ _ _, e => W.Value e
  | .warn _, _ => True
  | .reportMissing _, _ => W.lost
  | .note _, _ => True

/-- A world in which everything that is put together from good texts is good. -/
structure Closed (W : World) (types : TypeTable) : Prop where
  /-- Texts can be put together. -/
  spelling : Text.Spelling W.text
  names : ∀ t, W.text (types.name t)

/-- The world `W'` is at least as good as `W`. -/
structure Le (W W' : World) : Prop where
  text : ∀ t, W.text t → W'.text t
  /-- No other shape is asked for. -/
  shaped : W'.shaped → W.shaped
  /-- Features that may be tested stay so. -/
  feature : ∀ f, W.feature f → W'.feature f
  /-- The same sources may be registered. -/
  source : ∀ t, W'.source t ↔ W.source t
  /-- What has been reported stays reported. -/
  lost : W.lost → W'.lost

namespace Le

variable {W W' W'' : World}

theorem refl (W : World) : W.Le W := ⟨fun _ h => h, id, fun _ h => h, fun _ => .rfl, id⟩

theorem trans (h : W.Le W') (h' : W'.Le W'') : W.Le W'' :=
  ⟨fun t ht => h'.text t (h.text t ht), fun hs => h.shaped (h'.shaped hs),
    fun f hf => h'.feature f (h.feature f hf), fun t => (h'.source t).trans (h.source t),
    fun hl => h'.lost (h.lost hl)⟩

theorem value (h : W.Le W') {e : Expr} (he : W.Value e) : W'.Value e :=
  ⟨h.text _ he.1, fun hs => he.2 (h.shaped hs)⟩

theorem fault (h : W.Le W') {f : MaterialGraph.Fault} (hf : W.Fault f) : W'.Fault f :=
  hf.imp_right h.lost

theorem good (h : W.Le W') {o : Outcome} (ho : W.Good o) : W'.Good o := by
  cases o with
  | valid e => exact h.value ho
  | error text => exact h.lost ho
  | missingInput text => exact h.lost ho

theorem reads (h : W.Le W') {input : String} {wire : Wire} {o : Outcome}
    (ho : W.Reads input wire o) : W'.Reads input wire o := by
  unfold Reads at ho ⊢
  split
  · next hw => rw [if_pos hw] at ho; exact h.good ho
  · next hw => rw [if_neg hw] at ho; exact ho

theorem yields (h : W.Le W') {α : Type} {Q Q' : α → Prop} (hQ : ∀ a, Q a → Q' a)
    {x : Except MaterialGraph.Fault α} (hx : W.Yields Q x) : W'.Yields Q' x := by
  cases x with
  | ok a => exact hQ a hx
  | error fault => exact h.fault hx

/-- Good answers stay good. -/
theorem answers (h : W.Le W') {c : Command} {reply : c.Reply} (hr : W.Answers c reply) :
    W'.Answers c reply := by
  cases c with
  | read input wire => exact h.reads hr
  | own output => exact h.good hr
  | call output | parameter spec | texture spec name fallback | toggle name initial =>
    exact h.yields (fun _ => h.value) hr
  | argument name => exact fun o ho => h.good (hr o ho)
  | declare text | warn message | note remark => trivial
  | function source => exact h.yields (fun t => h.text t) hr
  | sampler state | select feature type on off => exact h.value hr
  | feature name group => exact h.yields (fun f => h.feature f) hr
  | reportMissing input => exact h.lost hr

end Le

/-! ### Results that may be faults -/

namespace Yields

variable {W : World} {α β : Type} {Q : α → Prop} {R : β → Prop}

theorem ok {a : α} (h : Q a) : W.Yields Q (.ok a) := h

theorem pure {a : α} (h : Q a) : W.Yields Q (pure a) := h

theorem error {fault : MaterialGraph.Fault} (h : fault.IsReported) :
    W.Yields Q (.error fault) :=
  .inl h

theorem bind {x : Except MaterialGraph.Fault α} {k : α → Except MaterialGraph.Fault β}
    (hx : W.Yields Q x) (hk : ∀ a, Q a → W.Yields R (k a)) : W.Yields R (x >>= k) := by
  cases x with
  | ok a => exact hk a hx
  | error fault => exact hx

theorem imp {Q' : α → Prop} {x : Except MaterialGraph.Fault α} (hx : W.Yields Q x)
    (h : ∀ a, Q a → Q' a) : W.Yields Q' x := by
  cases x with
  | ok a => exact h a hx
  | error fault => exact hx

theorem map {x : Except MaterialGraph.Fault α} {f : α → β} (hx : W.Yields Q x)
    (h : ∀ a, Q a → R (f a)) : W.Yields R (x.map f) := by
  cases x with
  | ok a => exact h a hx
  | error fault => exact hx

end Yields

/-- A good outcome for an input gives a good value, or the fault of the consumer. -/
theorem Good.toExpr {W : World} {o : Outcome} (h : W.Good o) (input : String) :
    W.Yields W.Value (o.toExpr input) := by
  cases o with
  | valid e => exact h
  | error text => exact .inr h
  | missingInput text => exact .inl trivial

theorem Closed.constant {W : World} {types : TypeTable} (hW : W.Closed types) (c : Constant) :
    W.Value (c.expr types) :=
  ⟨hW.spelling.literal hW.names c, fun _ _ => .inl rfl⟩

end World

/-! ### Plans -/

/-- What a plan does with the variable that a feature selects. -/
def Command.Ends {α : Type} (ends : Expr → Plan α → Prop) :
    (c : Command) → (c.Reply → Plan α) → Prop
  | .select _ _ _ _, next => ∀ e, ends e (next e)
  | _, _ => True

/-- A plan that asks for what is good and, answered with what is good, ends with a result
that satisfies `Q` or with a fault that is accounted for. What follows the selection of a
value by a feature is as `ends` says. -/
def Plan.Meets {α : Type} (W : World) (ends : Expr → Plan α → Prop) (Q : α → Prop) :
    Plan α → Prop
  | .done a => Q a
  | .fail fault => W.Fault fault
  | .ask c next => W.Asks c ∧ c.Ends ends next ∧
      ∀ reply, W.Answers c reply → (next reply).Meets W ends Q

/-- No value is selected by a feature. -/
def noSelection {α : Type} : Expr → Plan α → Prop := fun _ _ => False

/-- A value that is selected by a feature is the result. -/
def selectionLast : Expr → Plan Expr → Prop := fun e plan => plan = .done e

end MaterialGraph
