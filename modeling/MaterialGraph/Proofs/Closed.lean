import MaterialGraph.Proofs.Grouping

/-!
# Closed texts

A text is closed if its value depends on nothing but itself. Its tokens show that: numbers
and marks aside there are only the names of types and of functions of the language, each in
front of its parenthesis, the components of vectors, each behind its point, and the two truth
values. A closed text can stand anywhere and be written as often as it is needed: it reads
neither a variable nor an input of the stage, samples no texture and calls no function that
a node declares, unless that has taken the name of one of the language.

Whether a name is closed depends on its two neighbours, so texts may be put together where
no name gets a new neighbour that matters. All the pieces that nodes put around their
operands are of that kind.

## Main definitions

* `Grammar.Token.isClosed`, `Grammar.closedFrom`, `Grammar.isClosed` — closed tokens and texts.
* `Expr.Sealed` — a value that is closed if it is constant.
* `Expr.Follows` — a value made of another one and of nothing else.

## Main results

* `Grammar.closedFrom_append` — tokens put together.
* `Grammar.callable_of_isClosed`, `Grammar.word_of_isClosed` — what a closed text can name.
* `Grammar.foreign_of_isClosed` — what it cannot.
* `Grammar.isClosed_literal` — constants are closed.
* `Expr.cast_follows` — a value of another width is made of the value alone.
* `BinaryOp.emit_sealed`, `BranchSettings.emit_sealed`, … — what nodes make of closed operands.
-/

namespace MaterialGraph

namespace Grammar

open Text

/-! ### Names in closed texts -/

/-- The functions of the language that nodes call. -/
def intrinsics : List String :=
  ["min", "max", "pow", "dot", "cross", "distance", "abs", "saturate", "normalize", "length",
    "sin", "cos", "frac", "floor", "ceil", "sqrt", "lerp", "clamp"]

/-- The names that a closed text may call: the standard types and the functions of the
language. -/
def callable : List String := ShaderType.all.map TypeTable.builtin.name ++ intrinsics

/-- The truth values. -/
def truths : List String := ["true", "false"]

/-- One to four letters of components. -/
def isSwizzle (w : List Char) : Bool :=
  0 < w.length && w.length ≤ 4 && w.all (['x', 'y', 'z', 'w'].contains ·)

/-- Whether a token may stand in a closed text between its two neighbours. A name is that of
something called, of a component, or a truth value, and its neighbours say of which. -/
def Token.isClosed (before after : Option Token) : Token → Bool
  | .word w =>
    if after = some (.symbol '(') then
      before != some (.symbol '.') && callable.contains (String.ofList w)
    else if before = some (.symbol '.') then isSwizzle w
    else truths.contains (String.ofList w)
  | _ => true

/-- Whether tokens are closed that follow the token `before`. -/
def closedFrom : (before : Option Token) → List Token → Bool
  | _, [] => true
  | before, tok :: ts => tok.isClosed before ts.head? && closedFrom (some tok) ts

@[simp] theorem closedFrom_nil (before : Option Token) : closedFrom before [] = true := rfl

@[simp] theorem closedFrom_cons (before : Option Token) (tok : Token) (ts : List Token) :
    closedFrom before (tok :: ts) = (tok.isClosed before ts.head? && closedFrom (some tok) ts) :=
  rfl

/-- Whether a text is closed as a whole. -/
def isClosed (text : String) : Bool := closedFrom none (tokens text)

/-- The text calls something by the name. -/
def Invokes (text name : String) : Prop :=
  ∃ before after, tokens text = before ++ .word name.toList :: .symbol '(' :: after

/-- Whether the name behind a token is not one of a component. -/
def Token.endsFreely : Token → Bool
  | .word _ => false
  | .symbol c => c != '.'
  | _ => true

/-- Whether the name in front of a token is not one of something called. -/
def Token.startsFreely : Token → Bool
  | .word _ => false
  | .symbol c => c != '('
  | _ => true

theorem isClosed_of_before {before after : Option Token} {tok : Token}
    (hj : before.all Token.endsFreely = true ∨ tok.startsFreely = true)
    (h : tok.isClosed none after = true) : tok.isClosed before after = true := by
  cases tok with
  | word w =>
    have hpoint : before ≠ some (.symbol '.') := by
      rintro rfl
      simp [Token.endsFreely, Token.startsFreely] at hj
    simpa [Token.isClosed, hpoint] using h
  | _ => rfl

theorem isClosed_of_after {before after : Option Token} {tok : Token}
    (hj : tok.endsFreely = true ∨ after.all Token.startsFreely = true)
    (h : tok.isClosed before none = true) : tok.isClosed before after = true := by
  cases tok with
  | word w =>
    have hopen : after ≠ some (.symbol '(') := by
      rintro rfl
      simp [Token.endsFreely, Token.startsFreely] at hj
    simpa [Token.isClosed, hopen] using h
  | _ => rfl

/-- The last token, after one that is passed. -/
theorem getLast?_cons_or (tok : Token) (ts : List Token) (before : Option Token) :
    (tok :: ts).getLast?.or before = ts.getLast?.or (some tok) := by
  rw [List.getLast?_cons]
  cases ts.getLast? with
  | none => rfl
  | some last => rfl

/-- **Closed tokens can be put together** where no name gets a neighbour that matters. -/
theorem closedFrom_append {us : List Token} (hus : closedFrom none us = true) :
    ∀ (ts : List Token) (before : Option Token), closedFrom before ts = true →
      ((ts.getLast?.or before).all Token.endsFreely = true ∨
        us.head?.all Token.startsFreely = true) → closedFrom before (ts ++ us) = true := by
  intro ts
  induction ts with
  | nil =>
    intro before _ hj
    cases us with
    | nil => rfl
    | cons tok us =>
      simp only [closedFrom_cons, Bool.and_eq_true] at hus
      simp only [List.nil_append, closedFrom_cons, Bool.and_eq_true]
      exact ⟨isClosed_of_before hj hus.1, hus.2⟩
  | cons tok ts ih =>
    intro before hts hj
    rw [getLast?_cons_or] at hj
    simp only [closedFrom_cons, Bool.and_eq_true] at hts
    simp only [List.cons_append, closedFrom_cons, Bool.and_eq_true]
    refine ⟨?_, ih (some tok) hts.2 hj⟩
    cases ts with
    | nil =>
      -- the last token of the first part gets the first of the second as its neighbour
      exact isClosed_of_after hj hts.1
    | cons tok' ts => exact hts.1

/-! ### What a closed text can name -/

theorem closedFrom_of_append {us : List Token} :
    ∀ (ts : List Token) (before : Option Token), closedFrom before (ts ++ us) = true →
      closedFrom (ts.getLast?.or before) us = true := by
  intro ts
  induction ts with
  | nil => exact fun before h => h
  | cons tok ts ih =>
    intro before h
    simp only [List.cons_append, closedFrom_cons, Bool.and_eq_true] at h
    rw [getLast?_cons_or]
    exact ih (some tok) h.2

/-- A token among closed ones, between its neighbours. -/
theorem isClosed_of_mem {ts before after : List Token} {tok : Token}
    (h : closedFrom none ts = true) (hts : ts = before ++ tok :: after) :
    tok.isClosed before.getLast? after.head? = true := by
  rw [hts] at h
  have := closedFrom_of_append before none h
  simp only [closedFrom_cons, Bool.and_eq_true, Option.or_none] at this
  exact this.1

/-- **A closed text calls types and functions of the language only.** -/
theorem callable_of_isClosed {text name : String} (h : isClosed text = true)
    (hname : Invokes text name) : name ∈ callable := by
  obtain ⟨before, after, htokens⟩ := hname
  have hw := isClosed_of_mem h htokens
  simp only [Token.isClosed, List.head?_cons, if_true, Bool.and_eq_true, String.ofList_toList] at hw
  exact List.contains_iff_mem.mp hw.2

/-- **The names in a closed text** are those of what it calls, of components, and the truth
values. -/
theorem word_of_isClosed {text : String} (h : isClosed text = true) {w : List Char}
    (hw : Token.word w ∈ tokens text) :
    String.ofList w ∈ callable ∨ isSwizzle w = true ∨ String.ofList w ∈ truths := by
  obtain ⟨before, after, htokens⟩ := List.append_of_mem hw
  have hw := isClosed_of_mem h htokens
  simp only [Token.isClosed] at hw
  split at hw
  · rw [Bool.and_eq_true] at hw
    exact .inl (List.contains_iff_mem.mp hw.2)
  · split at hw
    · exact .inr (.inl hw)
    · exact .inr (.inr (List.contains_iff_mem.mp hw))

/-- **What a closed text cannot name**: a variable, a global, the inputs of the stage. -/
theorem foreign_of_isClosed {text : String} (h : isClosed text = true) {w : List Char}
    (hw : Token.word w ∈ tokens text) :
    isLocalWord (String.ofList w) = false ∧ isGlobalWord (String.ofList w) = false ∧
      String.ofList w ≠ "i" := by
  have hnames : ((callable ++ truths).all fun name =>
      !isLocalWord name && !isGlobalWord name && name != "i") = true := by decide
  have hname (hm : String.ofList w ∈ callable ++ truths) := List.all_eq_true.mp hnames _ hm
  rcases word_of_isClosed h hw with hm | hs | hm
  · simpa [and_assoc] using hname (List.mem_append_left _ hm)
  · -- a component has neither an underscore nor another letter in its name
    simp only [isSwizzle, Bool.and_eq_true, List.all_eq_true] at hs
    have hmem {c : Char} (hc : c ∈ (String.ofList w).toList) : ['x', 'y', 'z', 'w'].contains c := by
      rw [String.toList_ofList] at hc
      exact hs.2 c hc
    refine ⟨?_, ?_, ?_⟩
    · rw [← Bool.not_eq_true]
      exact fun hl => absurd (hmem (underscore_mem_of_isLocalWord hl)) (by decide)
    · rw [← Bool.not_eq_true]
      exact fun hg => absurd (hmem (underscore_mem_of_isGlobalWord hg)) (by decide)
    · intro hi
      rw [hi] at hmem
      exact absurd (hmem List.mem_cons_self) (by decide)
  · simpa [and_assoc] using hname (List.mem_append_right _ hm)

/-! ### Closed texts put together -/

/-- Whether a piece of text can stand in front of closed texts. -/
def isLead (piece : String) : Bool :=
  isClosed piece && (tokens piece).getLast?.any Token.endsFreely &&
    piece.toList.getLast?.any isBlank

/-- Whether a piece of text can stand behind closed texts. -/
def isTrail (piece : String) : Bool :=
  isClosed piece && (tokens piece).head?.any Token.startsFreely && piece.toList.head?.any divides

theorem tokens_append_of_blank {a b : String} (h : a.toList.getLast?.any isBlank = true) :
    tokens (a ++ b) = tokens a ++ tokens b := by
  obtain ⟨c, hlast, hc⟩ := (Option.any_eq_true _ _).mp h
  obtain ⟨cs, hcs⟩ := List.getLast?_eq_some_iff.mp hlast
  rw [tokens_append, tokens, hcs, List.append_assoc, List.singleton_append,
    lexFrom_append_blank hc, lexFrom_append_blank hc]
  simp [Reading.flush, tokens]

theorem tokens_append_of_divides {a b : String} (h : b.toList.head?.any divides = true) :
    tokens (a ++ b) = tokens a ++ tokens b := by
  obtain ⟨c, hfirst, hc⟩ := (Option.any_eq_true _ _).mp h
  obtain ⟨cs, hcs⟩ := List.head?_eq_some_iff.mp hfirst
  rw [tokens_append, hcs, lexFrom_append_of_divides hc, ← hcs]
  rfl

section Pieces

variable {a b piece : String}

theorem isClosed_lead (ha : isClosed a = true) (hp : isLead piece = true) :
    isClosed (piece ++ a) = true := by
  unfold isLead at hp
  simp only [Bool.and_eq_true] at hp
  obtain ⟨⟨hclosed, hlast⟩, hblank⟩ := hp
  obtain ⟨tok, htok, hfree⟩ := (Option.any_eq_true _ _).mp hlast
  unfold isClosed
  rw [tokens_append_of_blank hblank]
  exact closedFrom_append ha _ _ hclosed (.inl (by simpa [htok] using hfree))

theorem isClosed_trail (ha : isClosed a = true) (hp : isTrail piece = true) :
    isClosed (a ++ piece) = true := by
  unfold isTrail at hp
  simp only [Bool.and_eq_true] at hp
  obtain ⟨⟨hclosed, hfirst⟩, hdivides⟩ := hp
  obtain ⟨tok, htok, hfree⟩ := (Option.any_eq_true _ _).mp hfirst
  unfold isClosed
  rw [tokens_append_of_divides hdivides]
  exact closedFrom_append hclosed _ _ ha (.inr (by simpa [htok] using hfree))

/-- A piece that can stand behind closed texts still can when a closed text follows it. -/
theorem isTrail_append (hb : isClosed b = true) (hp : (isLead piece && isTrail piece) = true) :
    isTrail (piece ++ b) = true := by
  obtain ⟨hlead, htrail⟩ := Bool.and_eq_true_iff.mp hp
  have hclosed := isClosed_lead hb hlead
  unfold isLead at hlead
  unfold isTrail at htrail ⊢
  simp only [Bool.and_eq_true] at hlead htrail ⊢
  obtain ⟨tok, htok, hfree⟩ := (Option.any_eq_true _ _).mp htrail.1.2
  obtain ⟨c, hc, hdivides⟩ := (Option.any_eq_true _ _).mp htrail.2
  refine ⟨⟨hclosed, ?_⟩, ?_⟩
  · rw [tokens_append_of_blank hlead.2, List.head?_append, htok]
    exact hfree
  · rw [String.toList_append, List.head?_append, hc]
    exact hdivides

/-- A piece between two texts. -/
theorem isClosed_join (ha : isClosed a = true) (hb : isClosed b = true)
    (hp : (isLead piece && isTrail piece) = true) : isClosed (a ++ piece ++ b) = true := by
  rw [String.append_assoc]
  exact isClosed_trail ha (isTrail_append hb hp)

/-- Texts in a list with commas between them. -/
theorem isClosed_intercalate {l : List String} (hl : ∀ x ∈ l, isClosed x = true) :
    isClosed (", ".intercalate l) = true := by
  induction l with
  | nil => decide
  | cons x l ih =>
    cases l with
    | nil =>
      rw [String.intercalate_singleton]
      exact hl x List.mem_cons_self
    | cons y l =>
      rw [String.intercalate_cons_cons]
      exact isClosed_join (hl x List.mem_cons_self)
        (ih fun z hz => hl z (List.mem_cons_of_mem _ hz)) (by decide)

/-- Components of a value. -/
theorem isClosed_member {name : String} (ha : isClosed a = true)
    (hname : isIdentifier name = true) (hs : isSwizzle name.toList = true) :
    isClosed (a ++ "." ++ name) = true := by
  have hmember : closedFrom none [.symbol '.', .word name.toList] = true := by
    simp [Token.isClosed, hs]
  unfold isClosed
  rw [tokens_member hname]
  exact closedFrom_append hmember _ _ ha (.inr rfl)

end Pieces

/-! ### Numbers -/

/-- A number with one sign at most. -/
def IsSigned (cs : List Char) : Prop :=
  ∃ ds, lexFrom .idle ds = [.number ds] ∧ (cs = ds ∨ cs = '-' :: ds)

theorem IsSigned.isClosed {text : String} (h : IsSigned text.toList) : isClosed text = true := by
  obtain ⟨ds, hlex, h | h⟩ := h
  · rw [Grammar.isClosed, tokens, h, hlex]
    rfl
  · have hminus : lexFrom .idle ('-' :: ds) = .symbol '-' :: lexFrom .idle ds := rfl
    rw [Grammar.isClosed, tokens, h, hminus, hlex]
    rfl

theorem isSigned_floatLiteral (x : Number.Single) : IsSigned (floatLiteral x).toList := by
  obtain ⟨cs, hlex, -, htext⟩ := floatLiteral_numeral x
  exact ⟨cs, hlex, htext⟩

/-- A decimal without exponent is one token, also without a suffix. -/
theorem lex_positional (d : Number.Decimal) :
    lexFrom .idle d.positional.toList = [.number d.positional.toList] := by
  rcases positional_numeral d with ⟨hdigits, hne⟩ | ⟨-, h⟩
  · exact lexFrom_digits hne hdigits
  · obtain ⟨whole, fraction, hwhole, hfraction, hw, hf, heq⟩ := h
    rw [List.append_cancel_right heq]
    have hlex : lexFrom .idle (whole ++ '.' :: fraction ++ []) = _ :=
      lexFrom_decimal hwhole hfraction hw hf (by simp)
    rwa [List.append_nil] at hlex

theorem isSigned_componentText (x : Number.Single) : IsSigned (componentText x).toList := by
  have hsign (text : String) (h : lexFrom .idle text.toList = [.number text.toList]) :
      IsSigned (x.signText ++ text).toList := by
    refine ⟨text.toList, h, ?_⟩
    rw [String.toList_append]
    unfold Number.Binary.signText
    split
    · exact .inr rfl
    · exact .inl rfl
  unfold componentText
  split
  · exact ⟨_, by decide, .inl rfl⟩
  · next hnan =>
    split
    · exact hsign _ (by decide)
    · next hinf =>
      split
      · exact ⟨_, by decide, .inl rfl⟩
      · next hzero =>
        rw [Number.Binary.positional, if_neg hnan, if_neg hinf, if_neg hzero]
        exact hsign _ (lex_positional _)

theorem isSigned_intRepr (n : Int) : IsSigned (toString n).toList := by
  have hnat (m : Nat) : lexFrom .idle m.repr.toList = [.number m.repr.toList] := by
    rw [Nat.repr, String.toList_ofList]
    exact lexFrom_digits Nat.toDigits_ne_nil
      fun c hc => Nat.isDigit_of_mem_toDigits (by decide) (by decide) hc
  rw [Int.toString_eq_repr, Int.repr_eq_if]
  split
  · exact ⟨_, hnat _, .inl rfl⟩
  · exact ⟨_, hnat _, .inr (by rw [String.toList_append]; rfl)⟩

/-! ### Types and constants -/

theorem isLead_name (t : ShaderType) : isLead (TypeTable.builtin.name t ++ "( ") = true := by
  cases t <;> decide

/-- A value in the form of a vector: a type's name and its components. -/
theorem isClosed_construct (t : ShaderType) {l : List String}
    (hl : ∀ x ∈ l, isClosed x = true) :
    isClosed (TypeTable.builtin.name t ++ "( " ++ ", ".intercalate l ++ " )") = true :=
  isClosed_trail (isClosed_lead (isClosed_intercalate hl) (isLead_name t)) (by decide)

theorem isClosed_literal (c : Constant) : isClosed (c.literal .builtin) = true := by
  have hvec (t : ShaderType) (xs : List Number.Single) :
      isClosed (vectorLiteral (TypeTable.builtin.name t) xs) = true := by
    refine isClosed_construct t fun text ht => ?_
    obtain ⟨x, -, rfl⟩ := List.mem_map.mp ht
    exact (isSigned_componentText x).isClosed
  cases c with
  | bool b => cases b <;> decide
  | int n => exact (isSigned_intRepr _).isClosed
  | float x => exact (isSigned_floatLiteral x).isClosed
  | vector2 v => exact hvec _ _
  | vector3 v => exact hvec _ _
  | vector4 v => exact hvec _ _
  | color v => exact hvec _ _

end Grammar

open Grammar World

/-! ### Values of another width or type -/

namespace Expr

variable {e a b : Expr}

theorem operand_closed (h : isClosed e.code = true) : isClosed e.operand = true := by
  unfold operand
  split
  · exact h
  · exact isClosed_trail (isClosed_lead h (by decide)) (by decide)

/-- A value that is made of another one and of nothing else. -/
structure Follows (e e' : Expr) : Prop where
  isConstant : e'.isConstant = e.isConstant
  closed : isClosed e.code = true → isClosed e'.code = true

theorem Follows.refl (e : Expr) : Follows e e := ⟨rfl, id⟩

/-- If a value is constant, its text is closed. -/
def Sealed (e : Expr) : Prop := e.isConstant = true → isClosed e.code = true

theorem sealed_of_isConstant_eq_false (h : e.isConstant = false) : e.Sealed := by
  intro hc
  rw [h] at hc
  cases hc

theorem Follows.sealed {e' : Expr} (h : e.Follows e') (he : e.Sealed) : e'.Sealed :=
  fun hc => h.closed (he (h.isConstant ▸ hc))

theorem isSwizzle_swizzle {n : Nat} {t : ShaderType} (h : ShaderType.vector? n = some t) :
    isSwizzle (swizzle n).toList = true := by
  unfold ShaderType.vector? at h
  split at h <;> first | decide | cases h

theorem cast_follows (e : Expr) (n : Nat) : World.lax.Yields e.Follows (e.cast .builtin n) := by
  unfold cast
  split
  · exact .error trivial
  · next target ht =>
    split
    · exact .error trivial
    · next width hw =>
      -- the width is right, or one component is repeated, or the first ones are taken
      split
      · exact .ok (.refl e)
      · split
        · refine .ok ⟨rfl, fun he => isClosed_construct target fun x hx => ?_⟩
          rw [List.eq_of_mem_replicate hx]
          exact operand_closed he
        · split
          · exact .ok ⟨rfl, fun he => isClosed_member (operand_closed he)
              (isIdentifier_swizzle ht) (isSwizzle_swizzle ht)⟩
          · exact .error trivial

theorem castTo_follows (e : Expr) (t : ShaderType) :
    World.lax.Yields e.Follows (e.castTo .builtin t) := by
  unfold castTo
  split
  · exact .ok (.refl e)
  · split
    · exact .error trivial
    · next n hn =>
      refine (cast_follows e n).map fun r hr => ?_
      split
      · exact ⟨hr.isConstant, hr.closed⟩
      · exact hr

end Expr

theorem widened_follows (a b : Expr) :
    World.lax.Yields (fun p => a.Follows p.1 ∧ b.Follows p.2) (widened .builtin a b) := by
  unfold widened
  refine (combinedType_yields .lax a b).bind fun t _ => ?_
  split
  · next n hn =>
    refine (a.cast_follows n).bind fun a' ha' => ?_
    exact (b.cast_follows n).bind fun b' hb' => .pure ⟨ha', hb'⟩
  · exact .error trivial

theorem selectOperands_follows (on off : Expr) :
    World.lax.Yields (fun p => on.Follows p.2.1 ∧ off.Follows p.2.2)
      (selectOperands .builtin on off) := by
  unfold selectOperands
  split
  · exact .error trivial
  · next t ht =>
    refine (on.castTo_follows t).bind fun on' hon' => ?_
    exact (off.castTo_follows t).bind fun off' hoff' => .pure ⟨hon', hoff'⟩

/-! ### Operations -/

namespace BinaryOp

variable {a b : Expr}

theorem operatorCode_closed (ha : isClosed a.code = true) (hb : isClosed b.code = true)
    {operator : String} (ho : (isLead (" " ++ operator ++ " ") &&
      isTrail (" " ++ operator ++ " ")) = true) :
    isClosed (operatorCode operator a b) = true := by
  have hcode : operatorCode operator a b = a.operand ++ (" " ++ operator ++ " ") ++ b.operand := by
    simp only [operatorCode, String.append_assoc]
  rw [hcode]
  exact isClosed_join (Expr.operand_closed ha) (Expr.operand_closed hb) ho

theorem callCode_closed (ha : isClosed a.code = true) (hb : isClosed b.code = true)
    {function : String} (hf : isLead (function ++ "( ") = true) :
    isClosed (callCode function a b) = true :=
  isClosed_trail (isClosed_join (isClosed_lead ha hf) hb (by decide)) (by decide)

/-- The result of an operation on two closed operands. -/
theorem emit_closed (op : BinaryOp) (ha : isClosed a.code = true) (hb : isClosed b.code = true) :
    World.lax.Yields (fun p => isClosed p.2 = true) (op.emit .builtin a b) := by
  have combined {code : String} (hc : isClosed code = true) :
      World.lax.Yields (fun p : ShaderType × String => isClosed p.2 = true)
        (do return (← combinedType a b, code)) :=
    (combinedType_yields .lax a b).bind fun t _ => .pure hc
  have scalar {function : String} (hf : isLead (function ++ "( ") = true) :
      World.lax.Yields (fun p : ShaderType × String => isClosed p.2 = true)
        (do
          let p ← widened .builtin a b
          return (.float, callCode function p.1 p.2)) :=
    (widened_follows a b).bind fun p hp =>
      .pure (callCode_closed (hp.1.closed ha) (hp.2.closed hb) hf)
  cases op with
  | add | subtract | multiply | divide => exact combined (operatorCode_closed ha hb (by decide))
  | min | max | power => exact combined (callCode_closed ha hb (by decide))
  | dot => exact scalar (by decide)
  | cross =>
    refine (a.cast_follows 3).bind fun a' ha' => ?_
    refine (b.cast_follows 3).bind fun b' hb' => ?_
    exact .pure (callCode_closed (ha'.closed ha) (hb'.closed hb) (by decide))
  | distance => exact scalar (by decide)

/-- The result is constant if both operands are, and closed then. -/
theorem emit_sealed (op : BinaryOp) (ha : a.Sealed) (hb : b.Sealed) :
    World.lax.Yields (fun p => (a.isConstant && b.isConstant) = true → isClosed p.2 = true)
      (op.emit .builtin a b) := by
  cases hc : a.isConstant && b.isConstant with
  | true =>
    obtain ⟨hca, hcb⟩ := Bool.and_eq_true_iff.mp hc
    exact (op.emit_closed (ha hca) (hb hcb)).imp fun p hp _ => hp
  | false =>
    cases op.emit .builtin a b with
    | ok p =>
      intro hfalse
      cases hfalse
    | error fault => exact .inr trivial

end BinaryOp

namespace UnaryOp

variable {e : Expr}

theorem code_closed (op : UnaryOp) (he : isClosed e.code = true) :
    isClosed (op.code e) = true := by
  have call {function : String} (hf : isLead (function ++ "( ") = true) :
      isClosed (callCode function e) = true :=
    isClosed_trail (isClosed_lead he hf) (by decide)
  cases op with
  | negate =>
    have htokens : tokens ("-" ++ e.operand) = [.symbol '-'] ++ tokens e.operand := by
      rw [tokens_append]
      rfl
    show isClosed ("-" ++ e.operand) = true
    unfold isClosed
    rw [htokens]
    exact closedFrom_append (Expr.operand_closed he) _ _ rfl (.inl rfl)
  | oneMinus => exact isClosed_lead (Expr.operand_closed he) (by decide)
  | _ => exact call (by decide)

theorem emit_sealed (op : UnaryOp) (he : e.Sealed) :
    World.lax.Yields (fun p => e.isConstant = true → isClosed p.2 = true) (op.emit e) := by
  unfold emit
  exact (numericType_yields .lax e).bind fun type _ => .pure fun hc => op.code_closed (he hc)

end UnaryOp

section Operations

variable {e a b t on off : Expr}

/-- A call with three arguments. -/
theorem isClosed_call {head : String} (ha : isClosed a.code = true) (hb : isClosed b.code = true)
    (ht : isClosed t.code = true) (hh : isLead head = true) :
    isClosed (head ++ a.code ++ ", " ++ b.code ++ ", " ++ t.code ++ " )") = true :=
  isClosed_trail (isClosed_join (isClosed_join (isClosed_lead ha hh) hb (by decide)) ht
    (by decide)) (by decide)

theorem LerpSettings.emit_sealed (ha : a.Sealed) (hb : b.Sealed) (ht : t.Sealed) :
    World.lax.Yields Expr.Sealed (LerpSettings.emit .builtin a b t) := by
  unfold LerpSettings.emit
  refine (widened_follows a b).bind fun p hp => ?_
  refine (combinedType_yields .lax p.1 p.2).bind fun type _ => ?_
  have hcode (hc : (p.1.isConstant && p.2.isConstant && t.isConstant) = true) :
      isClosed ("lerp( " ++ p.1.code ++ ", " ++ p.2.code ++ ", " ++ t.code ++ " )") = true := by
    simp only [Bool.and_eq_true] at hc
    exact isClosed_call (hp.1.sealed ha hc.1.1) (hp.2.sealed hb hc.1.2) (ht hc.2) (by decide)
  split
  · exact (combinedType_yields .lax p.1 t).bind fun _ _ => .pure hcode
  · exact .pure hcode

theorem ClampSettings.emit_sealed (he : e.Sealed) (ha : a.Sealed) (hb : b.Sealed) :
    World.lax.Yields Expr.Sealed (ClampSettings.emit e a b) := by
  unfold ClampSettings.emit
  refine (combinedType_yields .lax e a).bind fun partly _ => ?_
  refine (numericType_yields .lax b).bind fun high _ => ?_
  split
  · exact .error trivial
  · refine .pure fun hc => ?_
    simp only [Bool.and_eq_true] at hc
    exact isClosed_call (he hc.1.1) (ha hc.1.2) (hb hc.2) (by decide)

theorem RemapSettings.emit_sealed (s : RemapSettings) (he : e.Sealed) :
    World.lax.Yields Expr.Sealed (s.emit e) := by
  have hnum (x : Number.Single) : isClosed (floatLiteral x) = true :=
    (isSigned_floatLiteral x).isClosed
  unfold RemapSettings.emit
  refine (numericType_yields .lax e).bind fun type _ => .pure fun hc => ?_
  refine isClosed_trail (isClosed_join (isClosed_join (isClosed_join (isClosed_join
    (isClosed_join (isClosed_join (hnum _) ?_ ?_) (hnum _) ?_) (hnum _) ?_) (hnum _) ?_)
    (hnum _) ?_) (hnum _) ?_) ?_
  · exact Expr.operand_closed (he hc)
  all_goals decide

theorem SplitSettings.emit_sealed (he : e.Sealed) {letter : String}
    (hl : letter ∈ componentLetters) (index : Nat) :
    World.lax.Yields Expr.Sealed (SplitSettings.emit e letter index) := by
  have hletters : (componentLetters.all fun l =>
      Text.isIdentifier l && isSwizzle l.toList) = true := by decide
  have hletter := Bool.and_eq_true_iff.mp (List.all_eq_true.mp hletters letter hl)
  unfold SplitSettings.emit
  split
  · exact .error trivial
  · split
    · exact .error trivial
    · exact .ok fun hc => isClosed_member (Expr.operand_closed (he hc)) hletter.1 hletter.2

theorem SwizzleSettings.letters_components (indices : List Nat) (h : ∀ i ∈ indices, i < 4) :
    (letters indices).toList.length = indices.length ∧
      (letters indices).toList.all (['x', 'y', 'z', 'w'].contains ·) = true := by
  have hletter : ∀ i < 4, (letter i).toList.length = 1 ∧
      (letter i).toList.all (['x', 'y', 'z', 'w'].contains ·) = true := by decide
  induction indices with
  | nil => exact ⟨rfl, rfl⟩
  | cons i indices ih =>
    obtain ⟨hlength, hall⟩ := hletter i (h i List.mem_cons_self)
    obtain ⟨hlengths, halls⟩ := ih fun j hj => h j (List.mem_cons_of_mem i hj)
    have hcons : (letters (i :: indices)).toList =
        (letter i).toList ++ (letters indices).toList := by
      simp [letters, String.toList_join]
    rw [hcons, List.length_append, List.all_append, hlength, hlengths, hall, halls]
    exact ⟨Nat.add_comm 1 _, rfl⟩

theorem SwizzleSettings.emit_sealed (he : e.Sealed) (indices : List Nat) :
    World.lax.Yields Expr.Sealed (SwizzleSettings.emit e indices) := by
  unfold SwizzleSettings.emit
  split
  · exact .error trivial
  · next n hn =>
    split
    · exact .error trivial
    · next hfind =>
      split
      · exact .error trivial
      · next type htype =>
        have hwidth : n ≤ 4 := ShaderType.components_le hn
        have hbound : ∀ i ∈ indices, i < 4 := by
          intro i hi
          have := List.find?_eq_none.mp hfind i hi
          simp only [decide_eq_true_eq] at this
          omega
        obtain ⟨hlength, hall⟩ := SwizzleSettings.letters_components indices hbound
        have hcount : 0 < indices.length ∧ indices.length ≤ 4 := by
          unfold ShaderType.vector? at htype
          split at htype <;> first | omega | cases htype
        refine .ok fun hc => isClosed_member (Expr.operand_closed (he hc))
          (SwizzleSettings.isIdentifier_letters (List.ne_nil_of_length_pos hcount.1) hbound) ?_
        show isSwizzle (SwizzleSettings.letters indices).toList = true
        simpa [isSwizzle, hlength, hcount] using hall

theorem BranchSettings.emit_sealed (s : BranchSettings) (ha : a.Sealed) (hb : b.Sealed)
    (hon : on.Sealed) (hoff : off.Sealed) :
    World.lax.Yields Expr.Sealed (s.emit .builtin a b on off) := by
  have hsymbol : (isLead (" " ++ s.comparison.symbol ++ " ") &&
      isTrail (" " ++ s.comparison.symbol ++ " ")) = true := by
    cases s.comparison <;> decide
  unfold BranchSettings.emit
  refine (selectOperands_follows on off).bind fun p hp => .pure fun hc => ?_
  simp only [Bool.and_eq_true] at hc
  have hcode : "( " ++ a.code ++ " " ++ s.comparison.symbol ++ " " ++ b.code =
      "( " ++ a.code ++ (" " ++ s.comparison.symbol ++ " ") ++ b.code := by
    simp only [String.append_assoc]
  have hlead : isClosed ("( " ++ a.code) = true := isClosed_lead (ha hc.1.1.1) (by decide)
  have hcondition := isClosed_join hlead (hb hc.1.1.2) hsymbol
  rw [← hcode] at hcondition
  have hons := hp.1.closed (hon hc.1.2)
  have hoffs := hp.2.closed (hoff hc.2)
  exact isClosed_join (isClosed_join hcondition (Expr.operand_closed hons) (by decide))
    (Expr.operand_closed hoffs) (by decide)

end Operations

end MaterialGraph
