import MaterialGraph.Proofs.Dialogue

/-!
# The built-in nodes are good partners

Every built-in operation makes good values out of good values, and every fault of
its own is one that is reported. So the plan of every built-in node meets every world
in which texts can be put together.

Most results have a type whose values variables can hold. The others are textures
and samplers, and those are only ever named.

## Main results

* `World.Closed.cast`, `World.Closed.castTo` — changes of width and of type.
* `NodeClass.plan_meets` — the plans of the built-in nodes.
* `Environment.Offers.builtin` — the nodes that the built-in catalog offers.
-/

namespace MaterialGraph

/-! ### Types -/

namespace ShaderType

theorem storable_of_isNumeric {t : ShaderType} (h : t.isNumeric = true) : t.Storable := by
  constructor
  · cases t with
    | sampler | texture2D | textureCube => cases h
    | _ => rfl
  · rintro rfl
    cases h

theorem storable_matrix4 : Storable .matrix4 := ⟨rfl, by decide⟩

theorem storable_of_components {t : ShaderType} {n : Nat} (h : t.components = some n) :
    t.Storable :=
  storable_of_isNumeric (by rw [isNumeric, h]; rfl)

theorem isNumeric_of_vector? {n : Nat} {t : ShaderType} (h : vector? n = some t) :
    t.isNumeric = true := by
  unfold vector? at h
  split at h
  all_goals cases h
  all_goals rfl

theorem isNumeric_of_combine {s t r : ShaderType} (h : s.combine t = some r) :
    r.isNumeric = true := by
  unfold combine at h
  split at h
  · split at h
    all_goals cases h
    all_goals rfl
  · next ht => cases h; rw [isNumeric, ht]; rfl
  · next hs _ => cases h; rw [isNumeric, hs]; rfl
  · next hs ht =>
    split at h
    · split at h
      · cases h; rw [isNumeric, hs]; rfl
      · exact isNumeric_of_vector? h
    · cases h
  · cases h

end ShaderType

namespace World

variable {W : World}

/-- A good value that a variable can hold. -/
structure Stored (W : World) (e : Expr) : Prop where
  text : W.text e.code
  storable : e.type.Storable

theorem Stored.value {e : Expr} (h : W.Stored e) : W.Value e :=
  ⟨h.text, fun _ => Expr.shaped_of_storable h.storable⟩

end World

/-! ### Values -/

namespace World.Closed

variable {W : World} {types : TypeTable} {e a b : Expr}

theorem operand (hW : W.Closed types) (he : W.text e.code) : W.text e.operand := by
  unfold Expr.operand
  split
  · exact he
  · exact hW.spelling.trail (hW.spelling.lead he (by decide)) (by decide)

/-- A value in the form of a vector: a type's name and its components. -/
theorem construct (hW : W.Closed types) (t : ShaderType) {l : List String}
    (hl : ∀ x ∈ l, W.text x) :
    W.text (types.name t ++ "( " ++ ", ".intercalate l ++ " )") :=
  hW.spelling.trail (hW.spelling.join (hW.names t) (hW.spelling.intercalate hl) (by decide))
    (by decide)

/-- A value that is cut to its first components. -/
theorem swizzle (hW : W.Closed types) (he : W.text e.code) (n : Nat) :
    W.text (e.operand ++ "." ++ Expr.swizzle n) := by
  have hs : W.text (Expr.swizzle n) := by
    refine hW.spelling.neutral (Text.isNeutral_of_no_underscore fun c hc => ?_)
    rw [Expr.swizzle, String.toList_ofList] at hc
    have hletter : ∀ d ∈ ['x', 'y', 'z', 'w'], d ≠ '_' ∧ d ≠ '\n' := by simp
    exact hletter c (List.mem_of_mem_take hc)
  exact hW.spelling.join (hW.operand he) hs (by decide)

theorem cast (hW : W.Closed types) (he : W.text e.code) (n : Nat) :
    W.Yields W.Stored (e.cast types n) := by
  unfold Expr.cast
  split
  · exact .error trivial
  · next target ht =>
    have hs := ShaderType.storable_of_isNumeric (ShaderType.isNumeric_of_vector? ht)
    split
    · exact .error trivial
    · next width hw =>
      -- the width is right, or one component is repeated, or the first ones are taken
      split
      · exact .ok ⟨he, ShaderType.storable_of_components hw⟩
      · split
        · refine .ok ⟨hW.construct target fun x hx => ?_, hs⟩
          rw [List.eq_of_mem_replicate hx]
          exact hW.operand he
        · split
          · exact .ok ⟨hW.swizzle he n, hs⟩
          · exact .error trivial

theorem castTo (hW : W.Closed types) (he : W.Value e) (t : ShaderType) :
    W.Yields W.Value (e.castTo types t) := by
  unfold Expr.castTo
  split
  · exact .ok he
  · split
    · exact .error trivial
    · next n hn =>
      refine (hW.cast he.1 n).map fun r hr => ?_
      split
      · exact Stored.value ⟨hr.text, ShaderType.storable_of_components hn⟩
      · exact hr.value

theorem castTo_stored (hW : W.Closed types) (he : W.text e.code) {t : ShaderType}
    (ht : t.isNumeric = true) : W.Yields W.Stored (e.castTo types t) := by
  have hs := ShaderType.storable_of_isNumeric ht
  unfold Expr.castTo
  split
  · next h =>
    rcases h with h | h
    · exact .ok ⟨he, h ▸ hs⟩
    · exact absurd h hs.2
  · split
    · exact .error trivial
    · exact (hW.cast he _).map fun r hr => by
        split
        · exact ⟨hr.text, hs⟩
        · exact hr

end World.Closed

/-! ### Operations -/

theorem numericType_yields (W : World) (e : Expr) :
    W.Yields (fun t => t.isNumeric = true) (numericType e) := by
  unfold numericType
  split
  · next h => exact .ok h
  · exact .error trivial

theorem combinedType_yields (W : World) (a b : Expr) :
    W.Yields (fun t => t.isNumeric = true) (combinedType a b) := by
  unfold combinedType
  refine (numericType_yields W a).bind fun s _ => ?_
  refine (numericType_yields W b).bind fun t _ => ?_
  split
  · next r hr => exact .ok (ShaderType.isNumeric_of_combine hr)
  · exact .error trivial

namespace World.Closed

variable {W : World} {types : TypeTable} {e a b : Expr}

theorem widened (hW : W.Closed types) (ha : W.text a.code) (hb : W.text b.code) :
    W.Yields (fun p => W.Stored p.1 ∧ W.Stored p.2) (widened types a b) := by
  unfold MaterialGraph.widened
  refine (combinedType_yields W a b).bind fun t _ => ?_
  split
  · next n hn =>
    refine (hW.cast ha n).bind fun a' ha' => ?_
    exact (hW.cast hb n).bind fun b' hb' => .pure ⟨ha', hb'⟩
  · exact .error trivial

theorem selectOperands (hW : W.Closed types) (ha : W.text a.code) (hb : W.text b.code) :
    W.Yields (fun p => p.1.Storable ∧ W.Stored p.2.1 ∧ W.Stored p.2.2)
      (selectOperands types a b) := by
  unfold MaterialGraph.selectOperands
  split
  · exact .error trivial
  · next t ht =>
    have hn := ShaderType.isNumeric_of_combine ht
    refine (hW.castTo_stored ha hn).bind fun a' ha' => ?_
    exact (hW.castTo_stored hb hn).bind fun b' hb' =>
      .pure ⟨ShaderType.storable_of_isNumeric hn, ha', hb'⟩

end World.Closed

namespace BinaryOp

variable {W : World} {types : TypeTable} {a b : Expr}

theorem operatorCode_text (hW : W.Closed types) (ha : W.text a.code) (hb : W.text b.code)
    {operator : String} (ho : Text.isNeutral operator = true) :
    W.text (operatorCode operator a b) :=
  hW.spelling.join (hW.spelling.join (hW.operand ha) (hW.spelling.neutral ho) (by decide))
    (hW.operand hb) (by decide)

theorem callCode_text (hW : W.Closed types) (ha : W.text a.code) (hb : W.text b.code)
    {function : String} (hf : Text.isNeutral function = true) : W.text (callCode function a b) :=
  hW.spelling.trail
    (hW.spelling.join (hW.spelling.join (hW.spelling.neutral hf) ha (by decide)) hb (by decide))
    (by decide)

/-- The result of an operation on two operands. -/
theorem emit_yields (hW : W.Closed types) (op : BinaryOp) (ha : W.text a.code)
    (hb : W.text b.code) :
    W.Yields (fun p => p.1.Storable ∧ W.text p.2) (op.emit types a b) := by
  have combined {code : String} (hc : W.text code) : W.Yields
      (fun p : ShaderType × String => p.1.Storable ∧ W.text p.2)
      (do return (← combinedType a b, code)) :=
    (combinedType_yields W a b).bind fun t ht => .pure ⟨ShaderType.storable_of_isNumeric ht, hc⟩
  have scalar {function : String} (hf : Text.isNeutral function = true) : W.Yields
      (fun p : ShaderType × String => p.1.Storable ∧ W.text p.2)
      (do
        let p ← widened types a b
        return (.float, callCode function p.1 p.2)) :=
    (hW.widened ha hb).bind fun p hp =>
      .pure ⟨ShaderType.storable_of_isNumeric rfl, callCode_text hW hp.1.text hp.2.text hf⟩
  cases op with
  | add | subtract | multiply | divide => exact combined (operatorCode_text hW ha hb (by decide))
  | min | max | power => exact combined (callCode_text hW ha hb (by decide))
  | dot => exact scalar (by decide)
  | cross =>
    refine (hW.cast ha 3).bind fun a' ha' => ?_
    refine (hW.cast hb 3).bind fun b' hb' => ?_
    exact .pure ⟨ShaderType.storable_of_isNumeric rfl,
      callCode_text hW ha'.text hb'.text (by decide)⟩
  | distance => exact scalar (by decide)

end BinaryOp

namespace UnaryOp

variable {W : World} {types : TypeTable} {e : Expr}

theorem code_text (hW : W.Closed types) (op : UnaryOp) (he : W.text e.code) :
    W.text (op.code e) := by
  have call {function : String} (hf : Text.isNeutral function = true) :
      W.text (callCode function e) :=
    hW.spelling.trail (hW.spelling.join (hW.spelling.neutral hf) he (by decide)) (by decide)
  cases op with
  | negate | oneMinus => exact hW.spelling.lead (hW.operand he) (by decide)
  | _ => exact call (by decide)

/-- The result of an operation on one operand. -/
theorem emit_yields (hW : W.Closed types) (op : UnaryOp) (he : W.text e.code) :
    W.Yields (fun p => p.1.Storable ∧ W.text p.2) (op.emit e) := by
  unfold emit
  refine (numericType_yields W e).bind fun t ht => .pure ⟨?_, code_text hW op he⟩
  split
  · exact ShaderType.storable_of_isNumeric rfl
  · exact ShaderType.storable_of_isNumeric ht

end UnaryOp

section Operations

variable {W : World} {types : TypeTable} {e a b t on off : Expr}

theorem LerpSettings.emit_yields (hW : W.Closed types) (ha : W.text a.code) (hb : W.text b.code)
    (ht : W.text t.code) : W.Yields W.Stored (LerpSettings.emit types a b t) := by
  unfold LerpSettings.emit
  refine (hW.widened ha hb).bind fun p hp => ?_
  refine (combinedType_yields W p.1 p.2).bind fun type htype => ?_
  have hcode : W.text ("lerp( " ++ p.1.code ++ ", " ++ p.2.code ++ ", " ++ t.code ++ " )") :=
    hW.spelling.trail (hW.spelling.join (hW.spelling.join
      (hW.spelling.lead hp.1.text (by decide)) hp.2.text (by decide)) ht (by decide)) (by decide)
  have hs := ShaderType.storable_of_isNumeric htype
  split
  · exact (combinedType_yields W p.1 t).bind fun _ _ => .pure ⟨hcode, hs⟩
  · exact .pure ⟨hcode, hs⟩

theorem ClampSettings.emit_yields (hW : W.Closed types) (he : W.text e.code)
    (ha : W.text a.code) (hb : W.text b.code) :
    W.Yields W.Stored (ClampSettings.emit e a b) := by
  unfold ClampSettings.emit
  refine (combinedType_yields W e a).bind fun partly _ => ?_
  refine (numericType_yields W b).bind fun high _ => ?_
  split
  · exact .error trivial
  · next type htype =>
    exact .pure ⟨hW.spelling.trail (hW.spelling.join (hW.spelling.join
      (hW.spelling.lead he (by decide)) ha (by decide)) hb (by decide)) (by decide),
      ShaderType.storable_of_isNumeric (ShaderType.isNumeric_of_combine htype)⟩

theorem RemapSettings.emit_yields (hW : W.Closed types) (s : RemapSettings)
    (he : W.text e.code) : W.Yields W.Stored (s.emit e) := by
  have hnum (x : Number.Single) : W.text (floatLiteral x) :=
    hW.spelling.neutral (isNeutral_floatLiteral x)
  have h := hW.spelling
  unfold RemapSettings.emit
  refine (numericType_yields W e).bind fun type htype => ?_
  refine .pure ⟨?_, ShaderType.storable_of_isNumeric htype⟩
  refine h.trail (h.join (h.join (h.join (h.join (h.join (h.join (hnum _) ?_ ?_) (hnum _) ?_)
    (hnum _) ?_) (hnum _) ?_) (hnum _) ?_) (hnum _) ?_) ?_
  · exact hW.operand he
  all_goals decide

theorem SplitSettings.emit_yields (hW : W.Closed types) (he : W.text e.code) {letter : String}
    (hl : letter ∈ componentLetters) (index : Nat) :
    W.Yields W.Stored (SplitSettings.emit e letter index) := by
  have hplain : ∀ l ∈ componentLetters, Text.isNeutral l = true := by decide
  unfold SplitSettings.emit
  split
  · exact .error trivial
  · split
    · exact .error trivial
    · exact .ok ⟨hW.spelling.join (hW.operand he) (hW.spelling.neutral (hplain _ hl)) (by decide),
        ShaderType.storable_of_isNumeric rfl⟩

/-- The letters of components, one after the other. -/
theorem isNeutral_letters (indices : List Nat) :
    Text.isNeutral (String.join (indices.map SwizzleSettings.letter)) = true := by
  have hletters : (componentLetters.all fun l => l.toList.all fun c => c != '_' && c != '\n') =
      true := by decide
  refine Text.isNeutral_of_no_underscore fun c hc => ?_
  rw [String.toList_join, List.mem_flatMap] at hc
  obtain ⟨l, hl, hc⟩ := hc
  obtain ⟨index, -, rfl⟩ := List.mem_map.mp hl
  unfold SwizzleSettings.letter at hc
  cases hi : componentLetters[index]? with
  | none => rw [hi] at hc; cases hc
  | some l =>
    rw [hi] at hc
    have hl := List.all_eq_true.mp hletters l (List.mem_of_getElem? hi)
    simpa using List.all_eq_true.mp hl c hc

theorem SwizzleSettings.emit_yields (hW : W.Closed types) (he : W.text e.code)
    (indices : List Nat) : W.Yields W.Stored (SwizzleSettings.emit e indices) := by
  unfold SwizzleSettings.emit
  split
  · exact .error trivial
  · split
    · exact .error trivial
    · split
      · exact .error trivial
      · next type htype =>
        have hletters := hW.spelling.neutral (isNeutral_letters indices)
        exact .ok ⟨hW.spelling.join (hW.operand he) hletters (by decide),
          ShaderType.storable_of_isNumeric (ShaderType.isNumeric_of_vector? htype)⟩

theorem SurfaceInput.expr_yields (hW : W.Closed types) (i : SurfaceInput) (stage : Stage) :
    W.Yields W.Stored (i.expr stage) := by
  have hcode : ∀ code, i.code? stage = some code → Text.isNeutral code = true := by
    cases i <;> cases stage <;> intro code hc <;> cases hc <;> decide
  unfold SurfaceInput.expr
  split
  · next code hc =>
    refine .ok ⟨hW.spelling.neutral (hcode code hc), ShaderType.storable_of_isNumeric ?_⟩
    cases i <;> rfl
  · exact .error trivial

theorem TransformSettings.emit_yields (hW : W.Closed types) (s : TransformSettings)
    (ha : W.text a.code) (hb : W.text b.code) : W.Yields W.Stored (s.emit a b) := by
  have hmul : W.text ("mul( " ++ a.code) := hW.spelling.lead ha (by decide)
  unfold TransformSettings.emit
  split
  · exact .ok ⟨hW.spelling.trail (hW.spelling.join (hW.spelling.join hmul hb (by decide))
      (hW.spelling.neutral (isNeutral_floatLiteral s.w)) (by decide)) (by decide),
      ShaderType.storable_of_isNumeric rfl⟩
  · exact .ok ⟨hW.spelling.trail (hW.spelling.join hmul hb (by decide)) (by decide),
      ShaderType.storable_of_isNumeric rfl⟩
  · exact .error trivial

theorem BranchSettings.emit_yields (hW : W.Closed types) (s : BranchSettings)
    (ha : W.text a.code) (hb : W.text b.code) (hon : W.text on.code) (hoff : W.text off.code) :
    W.Yields W.Stored (s.emit types a b on off) := by
  have h := hW.spelling
  have hsymbol : Text.isNeutral s.comparison.symbol = true := by
    cases s.comparison <;> decide
  unfold BranchSettings.emit
  refine (hW.selectOperands hon hoff).bind fun p hp => ?_
  exact .pure ⟨h.join (h.join (h.join (h.join (h.lead ha (by decide)) (h.neutral hsymbol)
    (by decide)) hb (by decide)) (hW.operand hp.2.1.text) (by decide))
    (hW.operand hp.2.2.text) (by decide), hp.1⟩

theorem ofCall_text (hW : W.Closed types) {name : String} (hn : W.text name) {l : List Expr}
    (hl : ∀ e ∈ l, W.text e.code) (type : ShaderType) : W.text (Expr.ofCall name l type).code := by
  unfold Expr.ofCall
  split
  · exact hW.spelling.trail hn (by decide)
  · refine hW.spelling.trail (hW.spelling.join hn (hW.spelling.intercalate fun x hx => ?_)
      (by decide)) (by decide)
    obtain ⟨e, he, rfl⟩ := List.mem_map.mp hx
    exact hl e he

theorem SampleSettings.code_text (hW : W.Closed types) (stage : Stage) {t s c : Expr}
    (ht : W.text t.code) (hs : W.text s.code) (hc : W.text c.code) :
    W.text (SampleSettings.code stage t s c) := by
  have h := hW.spelling
  cases stage with
  | pixel => exact h.trail (h.join (h.join ht hs (by decide)) hc (by decide)) (by decide)
  | vertex => exact h.trail (h.join (h.join ht hs (by decide)) hc (by decide)) (by decide)

end Operations

/-! ### Plans -/

/-- A world as a bond between a plan and itself. -/
def World.bond (W : World) : Bond where
  value e e' := e' = e ∧ W.Value e
  fault f g := g = f ∧ W.Fault f
  reads _ x x' := x' = x
  told input x o o' := o' = o ∧ W.Reads input x o
  asks c := c.isPlain = true → W.Asks c
  answers c r r' := r' = r ∧ W.Answers c r
  name t t' := t' = t ∧ W.text t
  feature f f' := f' = f ∧ W.feature f
  toggle e e' := e' = e ∧ W.Value e
  choice p q := q = p ∧ p.1.Storable ∧ W.Stored p.2.1 ∧ W.Stored p.2.2
  returns := ShaderType.Storable

namespace World.Closed

variable {W : World} {types : TypeTable}

theorem heard {input : String} {o o' : Outcome} (h : o' = o ∧ W.Good o) :
    W.bond.Heard input o o' := by
  obtain ⟨rfl, h⟩ := h
  cases o' with
  | valid e => exact .valid ⟨rfl, h⟩
  | error text => exact .error text text ⟨rfl, .inr h⟩
  | missingInput text => exact .missingInput text text

theorem told {input : String} {x : Wire} {o o' : Outcome} (h : o' = o ∧ W.Reads input x o) :
    W.bond.Heard input o o' := by
  obtain ⟨rfl, h⟩ := h
  unfold Reads at h
  split at h
  · exact heard ⟨rfl, h⟩
  · subst h
    exact .missingInput input input

/-- Values that are good beside themselves, one by one. -/
theorem texts {es es' : List Expr} (h : List.Forall₂ W.bond.value es es') :
    es' = es ∧ ∀ e ∈ es, W.text e.code := by
  induction h with
  | nil => exact ⟨rfl, by simp⟩
  | cons he _ ih =>
    obtain ⟨rfl, he⟩ := he
    obtain ⟨rfl, ih⟩ := ih
    exact ⟨rfl, List.forall_mem_cons.mpr ⟨he.1, ih⟩⟩

/-- The operations of the classes make good values of good values. -/
theorem lawful (hW : W.Closed types) : W.bond.Lawful types where
  connected h := h ▸ rfl
  reported h := ⟨rfl, .inl h⟩
  told := told
  own := heard
  argument {name x x'} h := by
    obtain ⟨rfl, h⟩ := h
    cases x' with
    | none => exact .none
    | some o => exact .some (heard ⟨rfl, h o rfl⟩)
  call := Yields.both
  parameter := Yields.both
  function := Yields.both
  texture := Yields.both
  sampler := id
  feature := Yields.both
  toggle := Yields.both
  type h := h.1 ▸ rfl
  constant c := ⟨rfl, hW.constant c⟩
  surface i stage := (i.expr_yields hW stage).matched fun _ he => ⟨rfl, he.value⟩
  matrix {o code} h := by
    have hneutral : Text.isNeutral code = true := by cases o <;> cases h <;> decide
    exact ⟨rfl, Stored.value ⟨hW.spelling.neutral hneutral, ShaderType.storable_matrix4⟩⟩
  cast n h := by
    obtain ⟨rfl, h⟩ := h
    exact (hW.cast h.1 n).matched fun _ hr => ⟨rfl, hr.value⟩
  castTo t h := by
    obtain ⟨rfl, h⟩ := h
    exact (hW.castTo h t).matched fun _ hr => ⟨rfl, hr⟩
  binary op ha hb := by
    obtain ⟨rfl, ha⟩ := ha
    obtain ⟨rfl, hb⟩ := hb
    exact (op.emit_yields hW ha.1 hb.1).matched fun _ hp => ⟨rfl, Stored.value ⟨hp.2, hp.1⟩⟩
  unary op he := by
    obtain ⟨rfl, he⟩ := he
    exact (op.emit_yields hW he.1).matched fun _ hp => ⟨rfl, Stored.value ⟨hp.2, hp.1⟩⟩
  lerp ha hb ht := by
    obtain ⟨⟨rfl, ha⟩, ⟨rfl, hb⟩, rfl, ht⟩ := And.intro ha (And.intro hb ht)
    exact (LerpSettings.emit_yields hW ha.1 hb.1 ht.1).matched fun _ hr => ⟨rfl, hr.value⟩
  clamp he ha hb := by
    obtain ⟨⟨rfl, he⟩, ⟨rfl, ha⟩, rfl, hb⟩ := And.intro he (And.intro ha hb)
    exact (ClampSettings.emit_yields hW he.1 ha.1 hb.1).matched fun _ hr => ⟨rfl, hr.value⟩
  remap s he := by
    obtain ⟨rfl, he⟩ := he
    exact (s.emit_yields hW he.1).matched fun _ hr => ⟨rfl, hr.value⟩
  transform s ha hb := by
    obtain ⟨⟨rfl, ha⟩, rfl, hb⟩ := And.intro ha hb
    exact (s.emit_yields hW ha.1 hb.1).matched fun _ hr => ⟨rfl, hr.value⟩
  split index hl he := by
    obtain ⟨rfl, he⟩ := he
    exact (SplitSettings.emit_yields hW he.1 hl index).matched fun _ hr => ⟨rfl, hr.value⟩
  swizzle indices he := by
    obtain ⟨rfl, he⟩ := he
    exact (SwizzleSettings.emit_yields hW he.1 indices).matched fun _ hr => ⟨rfl, hr.value⟩
  combine {n type es es'} ht hes := by
    obtain ⟨rfl, hes⟩ := texts hes
    refine ⟨rfl, Stored.value ⟨hW.construct type fun x hx => ?_, ?_⟩⟩
    · obtain ⟨e, he, rfl⟩ := List.mem_map.mp hx
      exact hes e he
    · exact ShaderType.storable_of_isNumeric (ShaderType.isNumeric_of_vector? ht)
  sample stage ht hs hc := by
    obtain ⟨⟨rfl, ht⟩, ⟨rfl, hs⟩, rfl, hc⟩ := And.intro ht (And.intro hs hc)
    exact ⟨rfl, Stored.value ⟨SampleSettings.code_text hW stage ht.1 hs.1 hc.1,
      ShaderType.storable_of_isNumeric rfl⟩⟩
  channel {output e e'} ho he := by
    have hplain : ∀ l ∈ SampleSettings.channelOutputs, Text.isNeutral l = true := by decide
    obtain ⟨rfl, he⟩ := he
    exact ⟨rfl, Stored.value ⟨hW.spelling.join (hW.operand he.1)
      (hW.spelling.neutral (hplain _ ho)) (by decide), ShaderType.storable_of_isNumeric rfl⟩⟩
  branch s ha hb hc hd := by
    obtain ⟨⟨rfl, ha⟩, ⟨rfl, hb⟩, ⟨rfl, hc⟩, rfl, hd⟩ :=
      And.intro ha (And.intro hb (And.intro hc hd))
    exact (s.emit_yields hW ha.1 hb.1 hc.1 hd.1).matched fun _ hr => ⟨rfl, hr.value⟩
  choose ha hb := by
    obtain ⟨⟨rfl, ha⟩, rfl, hb⟩ := And.intro ha hb
    exact (hW.selectOperands ha.1 hb.1).matched fun _ hp => ⟨rfl, rfl, hp⟩
  preview he hab := by
    obtain ⟨rfl, he⟩ := he
    obtain ⟨hsame, htype, ha, hb⟩ := hab
    cases hsame
    have h := hW.spelling
    exact ⟨rfl, Stored.value ⟨h.join (h.join he.1 (hW.operand ha.text) (by decide))
      (hW.operand hb.text) (by decide), htype⟩⟩
  ofCall hn hes ht := by
    obtain ⟨rfl, hn⟩ := hn
    obtain ⟨rfl, hes⟩ := texts hes
    exact ⟨rfl, Stored.value ⟨ofCall_text hW hn hes _, ht⟩⟩
  returns_float := ShaderType.storable_of_isNumeric rfl

end World.Closed

theorem Plan.Linked.meets {W : World} {α β : Type} {ends : Expr → Plan α → Prop} {Q : α → Prop}
    {R : α → β → Prop} {p : Plan α} {q : Plan β} (h : p.Linked W.bond ends R q)
    (hR : ∀ a b, R a b → Q a) : p.Meets W ends Q := by
  induction h with
  | done h => exact hR _ _ h
  | fail h => exact h.2
  | read input hx h ih => exact ⟨trivial, trivial, fun o ho => ih o o ⟨rfl, ho⟩⟩
  | ask c hplain hc h ih =>
    refine ⟨hc hplain, ?_, fun r hr => ih r r ⟨rfl, hr⟩⟩
    cases c with
    | select feature type on off => cases hplain
    | _ => trivial
  | select hf hab hc hends h ih =>
    exact ⟨⟨hf.2, hab.2.2.1.text, hab.2.2.2.text⟩, hends, fun e he => ih e e ⟨rfl, he⟩⟩

/-! ### All classes -/

theorem FunctionSettings.storable_of_errors {s : FunctionSettings} (h : s.errors = []) :
    s.resultType.Storable := by
  unfold FunctionSettings.errors at h
  obtain ⟨-, h⟩ := List.append_eq_nil_iff.mp (List.append_eq_nil_iff.mp h).1
  split at h
  · cases h
  · next hr =>
    rw [not_or, Bool.not_eq_true] at hr
    exact ⟨hr.2, hr.1⟩

namespace NodeClass

/-- The parameters that nodes declare can be held in variables. -/
theorem storable_of_parameter? {c : NodeClass} {s : c.Settings} {spec : ParameterSpec}
    (h : c.parameter? s = some spec) : spec.type.Storable := by
  cases c with
  | literal k =>
    obtain ⟨-, h⟩ := Option.ite_none_left_eq_some.mp h
    cases h
    exact ShaderType.storable_of_isNumeric (by cases k <;> rfl)
  | bool =>
    obtain ⟨-, h⟩ := Option.ite_none_left_eq_some.mp h
    cases h
    exact ShaderType.storable_of_isNumeric rfl
  | matrix =>
    obtain ⟨-, h⟩ := Option.ite_none_right_eq_some.mp h
    cases h
    exact ShaderType.storable_matrix4
  | _ => cases h

/-- **The plan of every built-in node meets every world that is closed and admits the
functions of the node.** -/
theorem plan_meets {W : World} {frame : Frame} (hW : W.Closed frame.types) (c : NodeClass)
    (s : c.Settings) (he : c.spec.errors s = []) (hs : ∀ t ∈ c.sources frame.types s, W.source t)
    (output : String) : (c.spec.plan s frame output).Meets W selectionLast W.Value := by
  have hadmitted : c.Admitted W.bond frame.types frame.mode s s := by
    refine ⟨List.forall₂_same.mpr fun _ _ => rfl, fun cmd hcmd hplain => ?_, fun hf => ?_⟩
    · cases cmd with
      | parameter spec => exact storable_of_parameter? hcmd
      | function source => exact hs source hcmd
      | select feature type on off => cases hplain
      | _ => trivial
    · cases c with
      | function =>
        cases hf
        exact FunctionSettings.storable_of_errors he
      | _ => cases hf
  exact (plan_linked hW.lawful (Moved.refl (fun _ => rfl) c s) hadmitted frame.node rfl
    output).meets fun _ _ h => h.2

end NodeClass

/-- What the built-in catalog makes of saved settings is a node of a built-in class. -/
theorem Catalog.builtin_build {name : String} {settings : Json} {kind : NodeKind} {b : Behavior}
    (hf : Catalog.builtin.find? name = some kind) (hb : kind.build settings = .ok b) :
    ∃ (c : NodeClass) (s : c.Settings), name = c.name ∧ c.spec.build settings = .ok s ∧
      b = c.spec.behavior s := by
  unfold Catalog.find? Catalog.builtin at hf
  obtain ⟨c, -, rfl⟩ := List.mem_map.mp (List.mem_of_find?_eq_some hf)
  have hname := List.find?_some hf
  rw [beq_iff_eq] at hname
  have hb : (c.spec.build settings).map c.spec.behavior = .ok b := hb
  cases hs : c.spec.build settings with
  | error m =>
    rw [hs] at hb
    cases hb
  | ok s =>
    rw [hs] at hb
    cases hb
    exact ⟨c, s, hname.symm, hs, rfl⟩

/-- The nodes that the built-in catalog offers are those of the built-in classes. -/
theorem Environment.Offers.builtin {env : Environment} (hc : env.catalog = .builtin)
    {b : Behavior} (h : env.Offers b) :
    ∃ (d : Document) (node : Node) (c : NodeClass) (s : c.Settings), env.InReach d ∧
      node ∈ d.nodes ∧ node.className = c.name ∧ c.spec.build node.settings = .ok s ∧
      b = c.spec.behavior s := by
  obtain ⟨d, node, kind, hd, hn, hf, hb⟩ := h
  rw [hc] at hf
  obtain ⟨c, s, hname, hs, he⟩ := Catalog.builtin_build hf hb
  exact ⟨d, node, c, s, hd, hn, hname, hs, he⟩

/-- Over the built-in classes every plan meets a closed world that admits all functions. -/
theorem Environment.Offers.meets {env : Environment} (hc : env.catalog = .builtin) {b : Behavior}
    (hb : env.Offers b) (he : b.errors = []) {W : World} {frame : Frame}
    (hW : W.Closed frame.types) (hs : ∀ t, W.source t) (output : String) :
    (b.plan frame output).Meets W selectionLast W.Value := by
  obtain ⟨_, _, c, s, -, -, -, -, rfl⟩ := hb.builtin hc
  exact c.plan_meets hW s he (fun t _ => hs t) output

end MaterialGraph
