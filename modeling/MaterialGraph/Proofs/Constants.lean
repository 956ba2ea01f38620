import MaterialGraph.Proofs.Capture
import MaterialGraph.Proofs.Closed

/-!
# Constant values

A value that a node marks as constant stays where it is: it is never moved into a variable,
and every consumer gets a copy of its text. That is right as long as the text is closed. The
mark is set by each class on its own, from the marks of its operands, so every class has to
be looked at: whatever its inputs are, if constant inputs are closed then so is a constant
result. What the tables of a pass answer, parameters and textures, samplers and selected
values, is never constant.

From one node to a whole pass it is one step. What a node reads has been remembered before,
so if everything constant that has been remembered is closed, it stays so.

## Main results

* `NodeClass.plan_seals` — the plans of the built-in nodes are of that kind.
* `Pass.run_seals`, `Pass.ask_seals` — what a plan and a node leave behind.
* `Compiler.constants_closed` — the constant values of every pass are closed.
* `Compiler.constant_calls_function` — one that calls a function of the user.
-/

namespace MaterialGraph

open Grammar

/-! ### Plans -/

/-- If there is a value, it is closed or not constant. -/
def Outcome.Sealed (o : Outcome) : Prop := ∀ e, o = .valid e → e.Sealed

/-- The values that an answer brings are closed or not constant. -/
def Command.Brings : (c : Command) → c.Reply → Prop
  | .read _ _, o => o.Sealed
  | .own _, o => o.Sealed
  | .call _, x => World.lax.Yields Expr.Sealed x
  | .argument _, x => ∀ o, x = some o → o.Sealed
  | .parameter _, x => World.lax.Yields Expr.Sealed x
  | .texture _ _ _, x => World.lax.Yields Expr.Sealed x
  | .sampler _, e => e.Sealed
  | .toggle _ _, x => World.lax.Yields Expr.Sealed x
  | .select _ _ _ _, e => e.Sealed
  | _, _ => True

/-- A plan that ends as `Q` says if the values it is answered with are closed or not
constant. -/
def Plan.Seals {α : Type} (Q : α → Prop) : Plan α → Prop
  | .done a => Q a
  | .fail _ => True
  | .ask c next => ∀ reply, c.Brings reply → (next reply).Seals Q

theorem Outcome.Sealed.toExpr {o : Outcome} (h : o.Sealed) (input : String) :
    World.lax.Yields Expr.Sealed (o.toExpr input) := by
  cases o with
  | valid e => exact h e rfl
  | error text => exact .inr trivial
  | missingInput text => exact .inr trivial

/-! ### The classes -/

/-- The bond of a plan with itself if the values it is answered with are closed or not
constant. -/
def Bond.sealed : Bond where
  value e e' := e' = e ∧ e.Sealed
  fault f g := g = f ∧ World.lax.Fault f
  reads _ x x' := x' = x
  told _ _ o o' := o' = o ∧ o.Sealed
  asks _ := True
  answers c r r' := r' = r ∧ c.Brings r
  name t t' := t' = t ∧ True
  feature f f' := f' = f ∧ True
  toggle e e' := e' = e ∧ e.Sealed
  choice p q := q = p
  returns _ := True

namespace Bond

open World

theorem sealed_heard {input : String} {o o' : Outcome} (h : o' = o ∧ o.Sealed) :
    sealed.Heard input o o' := by
  obtain ⟨rfl, h⟩ := h
  cases o' with
  | valid e => exact .valid ⟨rfl, h e rfl⟩
  | error text => exact .error text text ⟨rfl, .inr trivial⟩
  | missingInput text => exact .missingInput text text

theorem lax_yields {α : Type} (x : Except MaterialGraph.Fault α) :
    World.lax.Yields (fun _ => True) x := by
  cases x with
  | ok a => trivial
  | error fault => exact .inr trivial

theorem sealed_values {es es' : List Expr} (h : List.Forall₂ sealed.value es es') :
    es' = es ∧ ∀ e ∈ es, e.Sealed := by
  induction h with
  | nil => exact ⟨rfl, by simp⟩
  | cons he _ ih =>
    obtain ⟨rfl, he⟩ := he
    obtain ⟨rfl, ih⟩ := ih
    exact ⟨rfl, List.forall_mem_cons.mpr ⟨he, ih⟩⟩

/-- The operations of the classes make closed constants of closed constants. -/
theorem sealed_lawful : sealed.Lawful .builtin where
  connected h := h ▸ rfl
  reported h := ⟨rfl, .inl h⟩
  told := sealed_heard
  own := sealed_heard
  argument {name x x'} h := by
    obtain ⟨rfl, h⟩ := h
    cases x' with
    | none => exact .none
    | some o => exact .some (sealed_heard ⟨rfl, h o rfl⟩)
  call := Yields.both
  parameter := Yields.both
  function h := Yields.both ⟨h.1, lax_yields _⟩
  texture := Yields.both
  sampler := id
  feature h := Yields.both ⟨h.1, lax_yields _⟩
  toggle := Yields.both
  type h := h.1 ▸ rfl
  constant c := ⟨rfl, fun _ => isClosed_literal c⟩
  surface i stage := by
    unfold SurfaceInput.expr
    split
    · exact ⟨rfl, Expr.sealed_of_isConstant_eq_false rfl⟩
    · exact ⟨rfl, .inr trivial⟩
  matrix _ := ⟨rfl, Expr.sealed_of_isConstant_eq_false rfl⟩
  cast {e e'} n h := by
    obtain ⟨rfl, h⟩ := h
    exact (e'.cast_follows n).matched fun _ hr => ⟨rfl, hr.sealed h⟩
  castTo {e e'} t h := by
    obtain ⟨rfl, h⟩ := h
    exact (e'.castTo_follows t).matched fun _ hr => ⟨rfl, hr.sealed h⟩
  binary op ha hb := by
    obtain ⟨⟨rfl, ha⟩, rfl, hb⟩ := And.intro ha hb
    exact (op.emit_sealed ha hb).matched fun _ hp => ⟨rfl, hp⟩
  unary op he := by
    obtain ⟨rfl, he⟩ := he
    exact (op.emit_sealed he).matched fun _ hp => ⟨rfl, hp⟩
  lerp ha hb ht := by
    obtain ⟨⟨rfl, ha⟩, ⟨rfl, hb⟩, rfl, ht⟩ := And.intro ha (And.intro hb ht)
    exact Yields.both ⟨rfl, LerpSettings.emit_sealed ha hb ht⟩
  clamp he ha hb := by
    obtain ⟨⟨rfl, he⟩, ⟨rfl, ha⟩, rfl, hb⟩ := And.intro he (And.intro ha hb)
    exact Yields.both ⟨rfl, ClampSettings.emit_sealed he ha hb⟩
  remap s he := by
    obtain ⟨rfl, he⟩ := he
    exact Yields.both ⟨rfl, s.emit_sealed he⟩
  transform s ha hb := by
    obtain ⟨⟨rfl, -⟩, rfl, -⟩ := And.intro ha hb
    unfold TransformSettings.emit
    split
    · exact ⟨rfl, Expr.sealed_of_isConstant_eq_false rfl⟩
    · exact ⟨rfl, Expr.sealed_of_isConstant_eq_false rfl⟩
    · exact ⟨rfl, .inr trivial⟩
  split index hl he := by
    obtain ⟨rfl, he⟩ := he
    exact Yields.both ⟨rfl, SplitSettings.emit_sealed he hl index⟩
  swizzle indices he := by
    obtain ⟨rfl, he⟩ := he
    exact Yields.both ⟨rfl, SwizzleSettings.emit_sealed he indices⟩
  combine {n type es es'} _ hes := by
    obtain ⟨rfl, hes⟩ := sealed_values hes
    refine ⟨rfl, fun hc => ?_⟩
    -- the vector is constant only if each of its components is
    apply isClosed_construct type
    intro x hx
    obtain ⟨e, he, rfl⟩ := List.mem_map.mp hx
    exact hes e he (List.all_eq_true.mp hc e he)
  sample stage ht hs hc := by
    obtain ⟨⟨rfl, -⟩, ⟨rfl, -⟩, rfl, -⟩ := And.intro ht (And.intro hs hc)
    exact ⟨rfl, Expr.sealed_of_isConstant_eq_false rfl⟩
  channel _ he := by
    obtain ⟨rfl, -⟩ := he
    exact ⟨rfl, Expr.sealed_of_isConstant_eq_false rfl⟩
  branch s ha hb hc hd := by
    obtain ⟨⟨rfl, ha⟩, ⟨rfl, hb⟩, ⟨rfl, hc⟩, rfl, hd⟩ :=
      And.intro ha (And.intro hb (And.intro hc hd))
    exact Yields.both ⟨rfl, s.emit_sealed ha hb hc hd⟩
  choose ha hb := by
    obtain ⟨⟨rfl, -⟩, rfl, -⟩ := And.intro ha hb
    exact (lax_yields _).matched fun _ _ => ⟨rfl, rfl⟩
  preview he hab := by
    obtain ⟨⟨rfl, -⟩, ⟨⟩⟩ := And.intro he hab
    exact ⟨rfl, Expr.sealed_of_isConstant_eq_false rfl⟩
  ofCall hn hes _ := by
    obtain ⟨⟨rfl, -⟩, rfl, -⟩ := And.intro hn (sealed_values hes)
    exact ⟨rfl, Expr.sealed_of_isConstant_eq_false rfl⟩
  returns_float := trivial

end Bond

theorem Plan.Linked.seals {α β : Type} {ends : Expr → Plan α → Prop} {Q : α → Prop}
    {R : α → β → Prop} {p : Plan α} {q : Plan β} (h : p.Linked .sealed ends R q)
    (hR : ∀ a b, R a b → Q a) : p.Seals Q := by
  induction h with
  | done h => exact hR _ _ h
  | fail h => trivial
  | read input hx h ih => exact fun o ho => ih o o ⟨rfl, ho⟩
  | ask c hplain hc h ih => exact fun r hr => ih r r ⟨rfl, hr⟩
  | select hf hab hc hends h ih => exact fun e he => ih e e ⟨rfl, he⟩

/-- **Every built-in class makes closed constants of closed constants.** -/
theorem NodeClass.plan_seals (c : NodeClass) (s : c.Settings) {frame : Frame}
    (ht : frame.types = .builtin) (output : String) :
    (c.spec.plan s frame output).Seals Expr.Sealed := by
  have hadmitted : c.Admitted .sealed frame.types frame.mode s s :=
    ⟨List.forall₂_same.mpr fun _ _ => rfl, fun _ _ => trivial, fun _ => trivial⟩
  exact (plan_linked (ht ▸ Bond.sealed_lawful) (Moved.refl (fun _ => rfl) c s) hadmitted frame.node
    rfl output).seals fun _ _ h => h.2

namespace Pass

variable {env : Environment} {r : Resolver} {s s' : Pass}

/-! ### What is answered -/

/-- Every constant value that the pass remembers is closed. -/
def SealedMemo (s : Pass) : Prop :=
  ∀ site e, s.progress? site = some (.finished (.valid e)) → e.Sealed

theorem SealedMemo.of_memo (h : SealedMemo s) (hm : s'.memo = s.memo) : SealedMemo s' := by
  intro site e he
  unfold progress? at he
  rw [hm] at he
  exact h site e he

/-- An answer that delivers an outcome brings what the outcome holds. -/
theorem brings_of_deliver? {c : Command} {o : Outcome} {reply : c.Reply}
    (hreply : c.deliver? o = some reply) (ho : o.Sealed) : c.Brings reply := by
  cases c with
  | read input wire =>
    cases hreply
    exact ho
  | own output =>
    cases hreply
    exact ho
  | call output =>
    cases hreply
    exact ho.toExpr output
  | argument name =>
    cases hreply
    rintro _ ⟨⟩
    exact ho
  | _ => cases hreply

theorem bindParameter_sealed (spec : ParameterSpec) (node : NodeId) (s : Pass) :
    World.lax.Yields Expr.Sealed (s.bindParameter env spec node).1 := by
  rw [bindParameter_eq]
  cases (s.globals.addParameter env.types spec node).1 with
  | ok p => exact .ok (Expr.sealed_of_isConstant_eq_false rfl)
  | error fault => exact .inr trivial

theorem bindToggle_sealed (name : String) (initial : Bool) (s : Pass) :
    World.lax.Yields Expr.Sealed (s.bindToggle env name initial).1 := by
  unfold bindToggle
  dsimp only
  split
  · exact .inr trivial
  · exact bindParameter_sealed _ _ _

theorem bindTexture_sealed (spec : TextureSpec) (name : String) (fallback : Vec4) (s : Pass) :
    World.lax.Yields Expr.Sealed (s.bindTexture env spec name fallback).1 := by
  have ht (t : Texture) : t.expr.Sealed := Expr.sealed_of_isConstant_eq_false rfl
  unfold bindTexture
  dsimp only
  split
  · exact .inr trivial
  · next t isNew globals hadd =>
    split
    · split
      · exact .ok (ht t)
      · exact .ok (ht t)
    · exact .ok (ht t)

/-- A request that demands nothing is not answered with constants. -/
theorem brings_of_no_demand (r : Resolver) {c : Command} (hd : demand? env c s = none) :
    c.Brings (s.perform env r c).1 := by
  cases c with
  | read input wire =>
    show Outcome.Sealed (s.readWire r input wire).1
    rw [readWire, if_neg (demand?_read_eq_none hd)]
    intro e he
    cases he
  | own output =>
    show Outcome.Sealed (s.readOwn r output).1
    simp only [readOwn, demand?_own_eq_none hd]
    intro e he
    cases he
  | call output =>
    obtain ⟨fault, s₂, he, -⟩ := callOutput_of_no_demand r hd
    show World.lax.Yields Expr.Sealed (s.callOutput env r output).1
    rw [he]
    exact .inr trivial
  | argument name =>
    obtain ⟨s₂, he, -⟩ := readArgument_of_no_demand r hd
    show ∀ o, (s.readArgument env r name).1 = some o → o.Sealed
    rw [he]
    intro o ho
    cases ho
  | parameter spec => exact bindParameter_sealed spec s.currentNode s
  | texture spec name fallback => exact bindTexture_sealed spec name fallback s
  | sampler state => exact Expr.sealed_of_isConstant_eq_false rfl
  | toggle name initial => exact bindToggle_sealed name initial s
  | select feature type on off => exact Expr.sealed_of_isConstant_eq_false rfl
  | _ => trivial

/-- **What a request is answered with.** A value that it has resolved is remembered, so it is
closed if it is constant; all other answers bring no constants. -/
theorem perform_brings {P : Pass → Pass → List Event → Prop} {room : Nat}
    {nested : Site → Pass → List Event} (hn : Nested env P room r nested) (c : Command)
    (h : SealedMemo (s.perform env r c).2) : c.Brings (s.perform env r c).1 := by
  rcases hd : demand? env c s with _ | ⟨site, s₁⟩
  · exact brings_of_no_demand r hd
  · have hmark := (hn.marks c s).2
    obtain ⟨reply, scope, hreply, he, -⟩ := perform_of_demand? r hd
    rw [he] at hmark h ⊢
    apply brings_of_deliver? hreply
    intro e ho
    rw [ho] at hreply
    exact h site e (hmark site s₁ e hd hreply)

/-! ### What is remembered -/

/-- Closed constants stay closed. -/
def Seals (s s' : Pass) (_ : List Event) : Prop := SealedMemo s → SealedMemo s'

namespace Seals

theorem append {s s' s'' : Pass} {l l' : List Event} (h : Seals s s' l) (h' : Seals s' s'' l') :
    Seals s s'' (l ++ l') :=
  fun hs => h' (h hs)

theorem sequential : Sequential env Seals where
  append := append
  silent hq hs := hs.of_memo hq.memo
  performed _ := id
  emit _ _ hs := hs.of_memo (emit_memo _ _)

end Seals

variable {room : Nat} {nested : Site → Pass → List Event}

/-- **A plan ends with a closed constant** if it makes such of what it reads. -/
theorem run_seals {α : Type} {Q : α → Prop} (hn : Nested env Seals room r nested) {site : Site}
    (plan : Plan α) : ∀ s : Pass, Stocked env s → site.stage = s.stage →
      s.stack.length + room = maxDepth → SealedMemo s → plan.Seals Q →
      World.lax.Yields Q (run env r plan s).1 := by
  induction plan with
  | done a => exact fun s _ _ _ _ hplan => hplan
  | fail fault => exact fun s _ _ _ _ _ => .inr trivial
  | ask c next ih =>
    intro s hs hstage hroom hmemo hplan
    have hafter := Seals.sequential.perform hn c hs hstage hroom hmemo
    have hret := perform_returns env hn.returning c s
    have hdepth : (s.perform env r c).2.stack.length + room = maxDepth := by
      rw [hret.stack]
      exact hroom
    exact ih _ _ (perform_stocked hn.stocking c hs) (hstage.trans hret.stage.symm) hdepth hafter
      (hplan _ (perform_brings hn c hafter))

/-- A value that stays in place is what the plan gave; one that moves is not constant. -/
theorem outcomeOf_sealed {site : Site} {b : Behavior}
    (h : World.lax.Yields Expr.Sealed (carryOut env r site b s).1) :
    (outcomeOf env r site b s).1.Sealed := by
  intro e he
  unfold outcomeOf at he
  rcases conclude_cases env site.node b.role (carryOut env r site b s).1
    { (carryOut env r site b s).2 with stack := s.stack, scope := s.scope } with
    ⟨e', hresult, -, hc⟩ | ⟨e', hresult, hmoved, hc⟩ | ⟨fault, -, hc⟩
  · rw [hc] at he
    cases he
    rw [hresult] at h
    exact h
  · rw [hc] at he
    cases he
    refine Expr.sealed_of_isConstant_eq_false ?_
    unfold staysInline at hmoved
    simp only [Bool.or_eq_false_iff] at hmoved
    exact hmoved.1.1.1
  · rw [hc] at he
    cases fault <;> cases he

/-- **A node that is asked** leaves closed constants behind. -/
theorem ask_seals (hc : env.catalog = .builtin) (ht : env.types = .builtin)
    (hn : Nested env Seals room r nested) {site : Site} {b : Behavior} (hs : Stocked env s)
    (hb : env.Offers b) (hstage : site.stage = s.stage)
    (hroom : s.stack.length + (room + 1) = maxDepth) (hmemo : SealedMemo s) :
    SealedMemo (s.ask env r site b).2 := by
  have henter : SealedMemo (s.enter site) := by
    intro other e he
    rw [progress?_enter] at he
    split at he
    · cases he
    · exact hmemo other e he
  have hstocked : Stocked env (s.enter site) := ⟨hs.instances, hs.scopes⟩
  have hdepth : (s.enter site).stack.length + room = maxDepth := by
    simp only [enter, List.length_cons]
    omega
  have hafter : SealedMemo (carryOut env r site b s).2 :=
    Seals.sequential.run hn _ _ hstocked hstage hdepth henter
  obtain ⟨_, _, c, st, -, -, -, -, rfl⟩ := hb.builtin hc
  have hplan : Plan.Seals Expr.Sealed ((c.spec.behavior st).plan (frame env site) site.output) :=
    c.plan_seals st ht _
  have hresult := run_seals hn _ _ hstocked hstage hdepth henter hplan
  intro other e he
  rw [progress?_ask] at he
  split at he
  · -- the site itself: its outcome is that of the plan
    exact outcomeOf_sealed hresult e (by simpa [ask_eq] using he)
  · exact hafter other e he

theorem Seals.segmental (hc : env.catalog = .builtin) (ht : env.types = .builtin) :
    Segmental env Seals where
  append := append
  quiet hq hs := hs.of_memo hq.memo
  mark _ := id
  settle {s site} message _ hs other e he := by
    rw [progress?_remember] at he
    split at he
    · cases he
    · exact hs other e he
  node hn hs hb _ _ hstage hroom := ask_seals hc ht hn hs hb hstage hroom

end Pass

/-! ### The constants of a pass -/

namespace Compiler

open Pass Text

/-- At every moment of a pass the constant values that are remembered are closed. -/
theorem sealedMemo_of_mem {c : Compiler} (hc : c.catalog = .builtin) (ht : c.types = .builtin)
    {d : Document} {l : List Event} (hl : c.IsTrace d l) {e : Event} (he : e ∈ l) :
    SealedMemo e.pass := by
  obtain ⟨mode, s₀, s', hfresh, hsession⟩ := hl.session
  have hstocked := hfresh.stocked (c.environment mode d)
  have hfirst : SealedMemo s₀ := by
    intro site x hx
    rw [hfresh.progress?] at hx
    cases hx
  have hlast := (Seals.segmental hc ht).session hsession hstocked hfresh.atRest hfirst
  -- what is remembered at a moment is remembered at the end
  have hgrows := (Between.stepwise.segmental.session hsession hstocked hfresh.atRest).before e he
  exact fun site x hx => hlast site x (hgrows.finished site _ hx)

/-- **Constant expressions are closed.** At every moment of every pass with the built-in
classes and the standard types, a value that is remembered as constant has a closed text. Its
names are the components of vectors, the truth values, and what it calls; none is that of a
local variable, of a global or of the input of a stage, and it calls types and functions of the
language only. So if it has the name of a function that is registered, be it later, then the
name is one of those, and a node of the user has given it to the function. -/
theorem constants_closed (c : Compiler) (hc : c.catalog = .builtin) (ht : c.types = .builtin)
    (d : Document) (l : List Event) (hl : c.IsTrace d l) (e : Event) (he : e ∈ l) (site : Site)
    (x : Expr) (hx : e.pass.progress? site = some (.finished (.valid x)))
    (hconst : x.isConstant = true) :
    isClosed x.code = true ∧
    (∀ w, Token.word w ∈ tokens x.code →
      (String.ofList w ∈ callable ∨ isSwizzle w = true ∨ String.ofList w ∈ truths) ∧
      isLocalWord (String.ofList w) = false ∧ isGlobalWord (String.ofList w) = false ∧
      String.ofList w ≠ "i") ∧
    (∀ name, Invokes x.code name → name ∈ callable) ∧
    ∀ e' ∈ l, ∀ f ∈ e'.pass.globals.functions, Token.word f.name.toList ∈ tokens x.code →
      c.NamesFunction d f.name := by
  have hclosed := sealedMemo_of_mem hc ht hl he site x hx hconst
  refine ⟨hclosed, fun w hw => ?_, fun name => callable_of_isClosed hclosed,
    fun e' he' f hf hw => ?_⟩
  · exact ⟨word_of_isClosed hclosed hw, foreign_of_isClosed hclosed hw⟩
  · obtain ⟨mode, s₀, s', hfresh, hsession⟩ := hl.session
    have hlast := (Between.stepwise.segmental.session hsession (hfresh.stocked _)
      hfresh.atRest).before e' he'
    rcases session_functions hc ht hsession hfresh f (hlast.tables.functions.subset hf)
      with hname | hname
    · -- the function of the library is not named like anything that a closed text can name
      have hword := word_of_isClosed hclosed hw
      rw [String.ofList_toList, hname] at hword
      exact absurd hword (by decide)
    · exact hname

/-- The larger of two numbers, and a function of the user with the same name. -/
def peakDocument : Document where
  nodes := [
    .of .materialResult 1 { opacity := .ofNode 2, roughness := .ofNode 2, metalness := .ofNode 3 },
    .of (.binary .max) 2 (BinaryOp.spec .max).initial,
    .of .function 3
      { name := "max", body := "return a;", arguments := [{ name := "a" }, { name := "b" }] }]

/-- The larger number as the pass remembers it. -/
def peak : Expr where
  type := .float
  code := "max( 0.0f, 0.0f )"
  isConstant := true

/-- The options of a program that is just the end of its last stage. -/
def tailOptions : Options := { template := some "\x7b8\x7d" }

/-- A constant that calls a function of the language. -/
theorem peak_invokes_max : Invokes peak.code "max" :=
  ⟨[], (tokens peak.code).drop 2, by decide +kernel⟩

theorem peak_remembered : ∃ e ∈ materialTrace {} peakDocument tailOptions,
    e.pass.progress? ⟨[], ⟨2⟩, "result", .pixel⟩ = some (.finished (.valid peak)) ∧
    "max" ∈ e.pass.globals.functions.map Function.name := by
  have hfound : ((materialTrace {} peakDocument tailOptions).any fun e =>
      e.pass.progress? ⟨[], ⟨2⟩, "result", .pixel⟩ == some (.finished (.valid peak)) &&
      (e.pass.globals.functions.map Function.name).contains "max") = true := by
    decide +kernel
  obtain ⟨e, he, hx⟩ := List.any_eq_true.mp hfound
  rw [Bool.and_eq_true, beq_iff_eq, List.contains_iff_mem] at hx
  exact ⟨e, he, hx⟩

/-- What it calls is in the language, and a node of the user has taken the name. -/
theorem constants_closed_peak : ∃ e ∈ materialTrace {} peakDocument tailOptions,
    e.pass.progress? ⟨[], ⟨2⟩, "result", .pixel⟩ = some (.finished (.valid peak)) ∧
    peak.isConstant = true ∧ isClosed peak.code = true ∧ Invokes peak.code "max" ∧
    "max" ∈ callable ∧ NamesFunction {} peakDocument "max" := by
  obtain ⟨e, he, hx, hmax⟩ := peak_remembered
  obtain ⟨hclosed, -, hinvokes, hnames⟩ := constants_closed {} rfl rfl peakDocument _
    (.inl ⟨tailOptions, rfl⟩) e he _ peak hx rfl
  obtain ⟨f, hf, hname⟩ := List.mem_map.mp hmax
  obtain ⟨before, after, htokens⟩ := peak_invokes_max
  have hword : Token.word f.name.toList ∈ tokens peak.code := by
    rw [htokens, hname]
    simp
  exact ⟨e, he, hx, rfl, hclosed, peak_invokes_max, hinvokes _ peak_invokes_max,
    hname ▸ hnames e he f hf hword⟩

/-- **A constant can call a function of the user**, which is called like one of the language. The
constant is copied, so the function is called again for each channel. -/
theorem constant_calls_function :
    ((compile {} peakDocument tailOptions).toOption.map fun r =>
      (r.report.entries, r.program.map fun p => (p.functions, p.source))) =
      some ([], some (["max"],
        "        m.Opacity = max( 0.0f, 0.0f );\n        m.Roughness = max( 0.0f, 0.0f );\n" ++
        "        m.Metalness = l_0;\n        return ShadingModelStandard::Shade( i, m );")) ∧
    (∃ e ∈ materialTrace {} peakDocument tailOptions,
      e.pass.progress? ⟨[], ⟨2⟩, "result", .pixel⟩ = some (.finished (.valid peak)) ∧
      "max" ∈ e.pass.globals.functions.map Function.name) ∧
    peak.isConstant = true ∧ Invokes peak.code "max" :=
  ⟨by decide +kernel, peak_remembered, rfl, peak_invokes_max⟩

end Compiler

end MaterialGraph
