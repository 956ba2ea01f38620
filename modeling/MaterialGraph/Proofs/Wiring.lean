import Mathlib.Data.List.Forall2
import MaterialGraph.Proofs.Likeness

/-!
# Nodes along other wires

What a node does with its inputs does not depend on where their wires lead. If the wires of a
node are replaced by others, one by one, its plan asks for the same things in the same order,
along the other wires. And it goes on in the same way as long as the values that it gets are the
same: of an input that has no value it sees whether the input failed or is missing, not why.

## Main results

* `NodeClass.Moved.plan` — the plan of a node with other wires is its plan along them.
* `NodeClass.Moved.connections`, `NodeClass.Moved.same` — so are its inputs; the rest is as it was.
-/

namespace MaterialGraph

/-! ### Plans along other wires -/

/-- Outcomes that no node tells apart. -/
inductive Outcome.Kin : Outcome → Outcome → Prop where
  | valid (e : Expr) : Kin (.valid e) (.valid e)
  | error (text text' : String) : Kin (.error text) (.error text')
  | missingInput (text text' : String) : Kin (.missingInput text) (.missingInput text')

/-- Answers that no node tells apart. -/
def Command.Kin : (c : Command) → c.Reply → c.Reply → Prop
  | .read _ _, o, o' => Outcome.Kin o o'
  | .own _, o, o' => Outcome.Kin o o'
  | .argument _, x, x' => Option.Rel Outcome.Kin x x'
  | _, r, r' => r' = r

/-- Two plans that ask for the same, and go on in the same way, along wires that are related
by `R`. -/
inductive Plan.Along {α : Type} (R : Wire → Wire → Prop) : Plan α → Plan α → Prop where
  | done (a : α) : Along R (.done a) (.done a)
  | fail (fault : Fault) : Along R (.fail fault) (.fail fault)
  | read (input : String) {x x' : Wire} (hx : R x x') {next next' : Outcome → Plan α}
      (h : ∀ o o', o.Kin o' → Along R (next o) (next' o')) :
      Along R (.ask (.read input x) next) (.ask (.read input x') next')
  | ask (c : Command) (hc : ∀ input wire, c ≠ .read input wire) {next next' : c.Reply → Plan α}
      (h : ∀ r r', c.Kin r r' → Along R (next r) (next' r')) :
      Along R (.ask c next) (.ask c next')

theorem Outcome.Kin.refl (o : Outcome) : o.Kin o := by
  cases o with
  | valid e => exact .valid e
  | error text => exact .error text text
  | missingInput text => exact .missingInput text text

theorem Outcome.Kin.toExpr {o o' : Outcome} (h : o.Kin o') (input : String) :
    o'.toExpr input = o.toExpr input := by
  cases h with
  | valid e => rfl
  | error text text' => rfl
  | missingInput text text' => rfl

theorem Outcome.Kin.rel_refl (x : Option Outcome) : Option.Rel Outcome.Kin x x := by
  cases x with
  | none => exact .none
  | some o => exact .some (.refl o)

theorem Command.Kin.refl (c : Command) (r : c.Reply) : c.Kin r r := by
  cases c with
  | read input wire => exact Outcome.Kin.refl r
  | own output => exact Outcome.Kin.refl r
  | argument name => exact Outcome.Kin.rel_refl r
  | _ => rfl

/-- The bond between plans that are told what no node tells apart, along wires related by `R`. -/
def Bond.along (R : Wire → Wire → Prop) : Bond where
  value e e' := e' = e
  fault f g := g = f
  reads _ x x' := R x x' ∧ x'.isConnected = x.isConnected
  told _ _ := Outcome.Kin
  asks _ := True
  answers := Command.Kin
  name t t' := t' = t
  feature f f' := f' = f
  toggle e e' := e' = e
  choice p q := q = p
  returns _ := True

namespace Bond

variable {R : Wire → Wire → Prop}

theorem along_heard {input : String} {o o' : Outcome} (h : o.Kin o') :
    (along R).Heard input o o' := by
  cases h with
  | valid e => exact .valid rfl
  | error text text' => exact .error text text' rfl
  | missingInput text text' => exact .missingInput text text'

theorem along_refl {α : Type} {Q : α → α → Prop} (hQ : ∀ a, Q a a) (x : Except Fault α) :
    Matched (along R).fault Q x x :=
  Matched.refl (F := (along R).fault) (fun _ => rfl) hQ x

theorem along_matched {α : Type} {x x' : Except Fault α} (h : x' = x) :
    Matched (along R).fault (fun a b => b = a) x x' := by
  subst h
  exact along_refl (Q := fun a b => b = a) (fun _ => rfl) x'

theorem along_values {es es' : List Expr} (h : List.Forall₂ (along R).value es es') : es' = es := by
  induction h with
  | nil => rfl
  | cons he _ ih => rw [ih, show _ = _ from he]

/-- The operations of the classes give the same for the same values. -/
theorem along_lawful (R : Wire → Wire → Prop) (types : TypeTable) : (along R).Lawful types where
  connected h := h.2
  reported _ := rfl
  told := along_heard
  own := along_heard
  argument {name x x'} h := by
    have h : Option.Rel Outcome.Kin x x' := h
    cases h with
    | none => exact .none
    | some ho => exact .some (along_heard ho)
  call := along_matched
  parameter := along_matched
  function := along_matched
  texture := along_matched
  sampler := id
  feature := along_matched
  toggle := along_matched
  type := congrArg Expr.type
  constant _ := rfl
  surface _ _ := along_matched rfl
  matrix _ := rfl
  -- from here on equal operands are enough: the operations are functions
  cast n h := along_matched (congrArg (·.cast types n) h)
  castTo t h := along_matched (congrArg (·.castTo types t) h)
  binary op ha hb := by
    obtain ⟨⟨⟩, ⟨⟩⟩ := And.intro ha hb
    apply along_refl
    exact fun _ => rfl
  unary op h := by
    cases h
    apply along_refl
    exact fun _ => rfl
  lerp ha hb hc := by
    obtain ⟨⟨⟩, ⟨⟩, ⟨⟩⟩ := And.intro ha (And.intro hb hc)
    exact along_matched rfl
  clamp ha hb hc := by
    obtain ⟨⟨⟩, ⟨⟩, ⟨⟩⟩ := And.intro ha (And.intro hb hc)
    exact along_matched rfl
  remap s h := along_matched (congrArg s.emit h)
  transform s ha hb := along_matched (congrArg₂ s.emit ha hb)
  split index _ h := along_matched (congrArg (SplitSettings.emit · _ index) h)
  swizzle indices h := along_matched (congrArg (SwizzleSettings.emit · indices) h)
  combine _ h := by
    cases along_values h
    rfl
  sample stage ht hs hc := by
    obtain ⟨⟨⟩, ⟨⟩, ⟨⟩⟩ := And.intro ht (And.intro hs hc)
    rfl
  channel _ h := by
    cases h
    rfl
  branch s ha hb hc hd := by
    obtain ⟨⟨⟩, ⟨⟩, ⟨⟩, ⟨⟩⟩ := And.intro ha (And.intro hb (And.intro hc hd))
    exact along_matched rfl
  choose ha hb := by
    obtain ⟨⟨⟩, ⟨⟩⟩ := And.intro ha hb
    exact along_refl (fun _ => ⟨rfl, rfl⟩) _
  preview he hab := by
    obtain ⟨⟨⟩, ⟨⟩⟩ := And.intro he hab
    rfl
  ofCall hn h _ := by
    cases along_values h
    cases hn
    rfl
  returns_float := trivial

end Bond

namespace Plan

variable {α β : Type} {R : Wire → Wire → Prop}

theorem Linked.along {ends : Expr → Plan α → Prop} {Q : α → α → Prop} {p p' : Plan α}
    (h : p.Linked (.along R) ends Q p') (hQ : ∀ a b, Q a b → b = a) : p.Along R p' := by
  induction h with
  | @done a b h =>
    rw [hQ a b h]
    exact .done a
  | @fail f g h =>
    rw [show g = f from h]
    exact .fail f
  | read input hx h ih => exact .read input hx.1 ih
  | ask c hplain hc h ih => exact .ask c (by rintro input wire rfl; cases hplain) ih
  | select hf hab hc hends h ih =>
    cases hf
    cases hab
    exact .ask _ (by rintro input wire ⟨⟩) ih

/-- What is known of the wires that a plan may ask for. -/
theorem Along.confine {A : Wire → Prop} {R' : Wire → Wire → Prop} {p p' : Plan α}
    (h : p.Along R p') (hA : p.Confined fun c => ∀ input wire, c = .read input wire → A wire)
    (hR : ∀ {x x'}, R x x' → A x → R' x x') : p.Along R' p' := by
  induction h with
  | done a => exact .done a
  | fail fault => exact .fail fault
  | read input hx h ih =>
    exact .read input (hR hx (hA.1 input _ rfl)) fun o o' ho => ih o o' ho (hA.2 o)
  | ask c hc h ih => exact .ask c hc fun r r' hr => ih r r' hr (hA.2 r)

end Plan

/-! ### Nodes with other wires -/

/-- The errors about arguments depend on their names only. -/
theorem FunctionSettings.argumentListErrors_eq {l l' : List FunctionArgument}
    (h : l'.map (·.name) = l.map (·.name)) {earlier earlier' : List FunctionArgument}
    (he : earlier'.map (·.name) = earlier.map (·.name)) :
    argumentListErrors earlier' l' = argumentListErrors earlier l := by
  have hany (name : String) (l : List FunctionArgument) :
      l.any (·.name == name) = (l.map (·.name)).any (· == name) := by
    rw [List.any_map]
    rfl
  induction l generalizing l' earlier earlier' with
  | nil =>
    rw [List.map_nil, List.map_eq_nil_iff] at h
    rw [h]
    rfl
  | cons a l ih =>
    obtain ⟨a', l', rfl, ha, hl⟩ := List.map_eq_cons_iff.mp h
    have he' : (earlier' ++ [a']).map (·.name) = (earlier ++ [a]).map (·.name) := by
      simp only [List.map_append, he, List.map_cons, ha, List.map_nil]
    rw [argumentListErrors, argumentListErrors, ih hl he']
    unfold argumentErrors
    rw [hany, hany, he, ha]

namespace NodeClass.Moved

variable {R : Wire → Wire → Prop} {c : NodeClass} {s s' : c.Settings}

/-- The inputs have the same names, and the other wires. -/
theorem connections (h : Moved R c s s') :
    List.Forall₂ (fun x y : String × Wire => y.1 = x.1 ∧ R x.2 y.2) (c.spec.connections s)
      (c.spec.connections s') := by
  cases c with
  | remap | unary op | split | swizzle | subgraphOutput =>
    obtain ⟨_, hx, rfl⟩ := h
    exact .cons ⟨rfl, hx⟩ .nil
  | binary op | transform | staticSwitch =>
    obtain ⟨_, _, hx, hy, rfl⟩ := h
    exact .cons ⟨rfl, hx⟩ (.cons ⟨rfl, hy⟩ .nil)
  | lerp | clamp | sample k | fresnel =>
    obtain ⟨_, _, _, hx, hy, hz, rfl⟩ := h
    exact .cons ⟨rfl, hx⟩ (.cons ⟨rfl, hy⟩ (.cons ⟨rfl, hz⟩ .nil))
  | combine | branch =>
    obtain ⟨_, _, _, _, hx, hy, hz, hw, rfl⟩ := h
    exact .cons ⟨rfl, hx⟩ (.cons ⟨rfl, hy⟩ (.cons ⟨rfl, hz⟩ (.cons ⟨rfl, hw⟩ .nil)))
  | function =>
    obtain ⟨arguments, harguments, rfl⟩ := h
    show List.Forall₂ _ (List.map _ _) (List.map _ _)
    rw [List.forall₂_map_left_iff, List.forall₂_map_right_iff]
    refine harguments.imp fun a a' ha => ?_
    obtain ⟨input, hinput, rfl⟩ := ha
    exact ⟨rfl, hinput⟩
  | subgraphCall =>
    obtain ⟨inputs, hinputs, rfl⟩ := h
    exact hinputs
  | materialResult =>
    show List.Forall₂ _ (List.map _ _) (List.map _ _)
    rw [List.forall₂_map_left_iff, List.forall₂_map_right_iff]
    exact List.forall₂_same.mpr fun channel _ => ⟨rfl, h channel⟩
  | reroute => exact .cons ⟨rfl, h⟩ .nil
  | _ => exact .nil

variable (hR : ∀ {x x'}, R x x' → x'.isConnected = x.isConnected)
include hR

/-- What the node says about itself does not depend on where its wires lead. -/
theorem same (h : Moved R c s s') :
    c.spec.errors s' = c.spec.errors s ∧ c.spec.warnings s' = c.spec.warnings s ∧
      c.spec.metadata s' = c.spec.metadata s ∧ c.spec.role s' = c.spec.role s := by
  cases c with
  | lerp | clamp | sample k | fresnel =>
    obtain ⟨_, _, _, _, _, _, rfl⟩ := h
    exact ⟨rfl, rfl, rfl, rfl⟩
  | remap | unary op | split | swizzle | subgraphCall =>
    obtain ⟨_, _, rfl⟩ := h
    exact ⟨rfl, rfl, rfl, rfl⟩
  | combine | branch =>
    obtain ⟨_, _, _, _, _, _, _, _, rfl⟩ := h
    exact ⟨rfl, rfl, rfl, rfl⟩
  | binary op | transform | staticSwitch =>
    obtain ⟨_, _, _, _, rfl⟩ := h
    exact ⟨rfl, rfl, rfl, rfl⟩
  | function =>
    obtain ⟨arguments, harguments, rfl⟩ := h
    refine ⟨?_, rfl, rfl, rfl⟩
    show FunctionSettings.errors _ = FunctionSettings.errors s
    unfold FunctionSettings.errors
    rw [FunctionSettings.argumentListErrors_eq (FunctionArgument.map_eq harguments
      fun _ _ => rfl) rfl]
  | subgraphOutput =>
    obtain ⟨value, hvalue, rfl⟩ := h
    refine ⟨rfl, ?_, rfl, rfl⟩
    -- the warning about an output that is not connected
    show (if value.isConnected then _ else _) = if s.value.isConnected then _ else _
    rw [hR hvalue]
  | materialResult | reroute => exact ⟨rfl, rfl, rfl, rfl⟩
  | _ =>
    obtain rfl : s' = s := h
    exact ⟨rfl, rfl, rfl, rfl⟩

/-- The plan of a node with other wires is its plan along them. -/
theorem plan (h : Moved R c s s') (frame : Frame) (output : String) :
    (c.spec.plan s frame output).Along R (c.spec.plan s' frame output) := by
  have hadmitted : c.Admitted (.along R) frame.types frame.mode s s' :=
    ⟨h.connections.imp fun _ _ hxy => ⟨hxy.2, hR hxy.2⟩, fun _ _ => trivial, fun _ => trivial⟩
  exact (plan_linked (Bond.along_lawful R _) h hadmitted frame.node rfl output).along
    fun _ _ => id

end NodeClass.Moved

end MaterialGraph
