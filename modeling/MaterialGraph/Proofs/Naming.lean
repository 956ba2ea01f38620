import MaterialGraph.Proofs.Changes
import MaterialGraph.Proofs.World

/-!
# The names of globals

What users call their parameters, textures and features is turned into words, and
the globals of the standard types are words that start with `g_`. So the name of a
global is never that of a local variable, and an expression that is only such a name
need not be held by one.

## Main results

* `Text.Identifier.isWord_ofText`, `Text.Identifier.isWord_screaming` — identifiers are
  words.
* `TypeTable.builtin_naming` — the globals of the standard types.
* `Globals.Named.stable` — the names in the tables are such as the types give.
* `Globals.addParameter_yields`, `Globals.addTexture_yields`, `Globals.addSampler_named` —
  what registration gives.
-/

namespace MaterialGraph

namespace Text

/-! ### Words -/

/-- The text consists of characters of words. -/
def IsWord (text : String) : Prop := ∀ c ∈ text.toList, isWordChar c = true

theorem IsWord.of_all {text : String} (h : text.toList.all isWordChar = true) : IsWord text :=
  List.all_eq_true.mp h

theorem IsWord.append {a b : String} (ha : IsWord a) (hb : IsWord b) : IsWord (a ++ b) := by
  intro c hc
  rw [String.toList_append] at hc
  exact (List.mem_append.mp hc).elim (ha c) (hb c)

theorem isWordChar_of_isAlphanum {c : Char} (h : c.isAlphanum = true) : isWordChar c = true := by
  rw [isWordChar, h]
  rfl

theorem isWord_toString (n : Nat) : IsWord (toString n) := by
  intro c hc
  rw [Nat.toString_eq_repr, Nat.repr, String.toList_ofList] at hc
  have hd := Nat.isDigit_of_mem_toDigits (by decide) (by decide) hc
  exact isWordChar_of_isAlphanum (by rw [Char.isAlphanum, hd, Bool.or_true])

/-- A capital for a letter or a digit is one of them. -/
theorem isAlphanum_toUpper {c : Char} (h : c.isAlphanum = true) :
    c.toUpper.isAlphanum = true := by
  unfold Char.toUpper
  split
  · next hc =>
    rw [UInt32.le_iff_toNat_le, UInt32.le_iff_toNat_le] at hc
    have hlow : 97 ≤ c.val.toNat := hc.1
    have hhigh : c.val.toNat ≤ 122 := hc.2
    -- the difference between the letters wraps around, and so does the sum
    have hval : (c.val + ('A'.val - 'a'.val)).toNat = c.val.toNat - 32 := by
      rw [UInt32.toNat_add]
      show (c.val.toNat + 4294967264) % 4294967296 = c.val.toNat - 32
      omega
    have hrange : 'A'.val ≤ c.val + ('A'.val - 'a'.val) ∧
        c.val + ('A'.val - 'a'.val) ≤ 'Z'.val := by
      rw [UInt32.le_iff_toNat_le, UInt32.le_iff_toNat_le, hval]
      exact ⟨show 65 ≤ _ by omega, show _ ≤ 90 by omega⟩
    exact Bool.or_eq_true_iff.mpr (.inl (Bool.or_eq_true_iff.mpr (.inl (decide_eq_true hrange))))
  · exact h

namespace Identifier

theorem isAlphanum_of_mem_capitalized {d : Char} (cs : List Char) :
    ∀ start, d ∈ capitalized start cs → d.isAlphanum = true := by
  induction cs with
  | nil => exact fun _ h => by cases h
  | cons c cs ih =>
    intro start h
    rw [capitalized_cons] at h
    split at h
    · next hc =>
      rcases List.mem_cons.mp h with rfl | h
      · split
        · exact isAlphanum_toUpper hc
        · exact hc
      · exact ih _ h
    · exact ih _ h

theorem isWord_ofText (text : String) : IsWord (ofText text) := by
  intro c hc
  rw [ofText, String.toList_ofList] at hc
  have hcap := @isAlphanum_of_mem_capitalized c text.toList true
  cases hl : capitalized true text.toList with
  | nil =>
    rw [hl] at hc
    cases hc
  | cons d ds =>
    rw [hl] at hc hcap
    rw [guardDigit] at hc
    split at hc
    · rcases List.mem_cons.mp hc with rfl | hc
      · rfl
      · exact isWordChar_of_isAlphanum (hcap hc)
    · exact isWordChar_of_isAlphanum (hcap hc)

theorem isWordChar_of_mem_screamStep {acc : List Char} {c d : Char}
    (hacc : ∀ x ∈ acc, isWordChar x = true) (h : d ∈ screamStep acc c) : isWordChar d = true := by
  have hmore : ∀ x ∈ '_' :: acc, isWordChar x = true :=
    List.forall_mem_cons.mpr ⟨rfl, hacc⟩
  unfold screamStep at h
  -- the part written so far, perhaps with a divider
  have hpart : ∀ x ∈ (if (c.isUpper && canDivide acc) = true then '_' :: acc else acc),
      isWordChar x = true := by
    split
    · exact hmore
    · exact hacc
  simp only at h
  generalize (if (c.isUpper && canDivide acc) = true then '_' :: acc else acc) = part at h hpart
  split at h
  · next hc =>
    rcases List.mem_cons.mp h with rfl | h
    · exact isWordChar_of_isAlphanum (isAlphanum_toUpper hc)
    · exact hpart d h
  · split at h
    · rcases List.mem_cons.mp h with rfl | h
      · rfl
      · exact hpart d h
    · exact hpart d h

theorem isWord_screaming (text : String) : IsWord (screaming text) := by
  have hfold : ∀ (cs acc : List Char), (∀ x ∈ acc, isWordChar x = true) →
      ∀ x ∈ cs.foldl screamStep acc, isWordChar x = true := by
    intro cs
    induction cs with
    | nil => exact fun _ hacc => hacc
    | cons c cs ih =>
      exact fun acc hacc => ih _ fun x hx => isWordChar_of_mem_screamStep hacc hx
  intro c hc
  rw [screaming, String.toList_ofList, List.mem_reverse] at hc
  exact hfold _ [] (by simp) c (List.dropWhile_sublist _ |>.mem hc)

end Identifier

/-! ### References -/

theorem isReference_of_isWord {text : String} (h : IsWord text) (hne : text.toList ≠ []) :
    isReference text = true := by
  unfold isReference
  cases hl : text.toList with
  | nil => exact absurd hl hne
  | cons c cs =>
    have hw : ∀ d ∈ c :: cs, isWordChar d = true := hl ▸ h
    have hc := hw c List.mem_cons_self
    simp only [Bool.and_eq_true, List.all_eq_true, bne_iff_ne]
    refine ⟨?_, fun d hd => ?_⟩
    · rintro rfl
      cases hc
    · rw [isPathChar, hw d hd]
      rfl

end Text

open Text

theorem isWord_localName (n : Nat) : IsWord (localName n) :=
  IsWord.append (.of_all (by decide)) (isWord_toString n)

theorem localName_toList (n : Nat) : (localName n).toList = 'l' :: '_' :: (toString n).toList := by
  rw [localName, String.toList_append]
  rfl

/-- A local variable is only named where it is used. -/
theorem isReference_localName (n : Nat) : isReference (localName n) = true :=
  isReference_of_isWord (isWord_localName n) (by rw [localName_toList]; simp)

/-! ### The names of globals -/

/-- What all names of globals have, whatever word stands at their end. -/
def TypeTable.Naming (types : TypeTable) (N : String → Prop) : Prop :=
  ∀ t name, IsWord name → N (types.globalStem t ++ name)

/-- The global of a standard type is a word that starts with a `g`. -/
theorem TypeTable.builtin_global (t : ShaderType) {name : String} (hname : IsWord name) :
    ∃ cs, (TypeTable.builtin.globalStem t ++ name).toList = 'g' :: cs ∧
      ∀ c ∈ cs, isWordChar c = true := by
  have hstem : ∃ cs, (TypeTable.builtin.globalStem t).toList = 'g' :: cs ∧
      ∀ c ∈ cs, isWordChar c = true := by
    cases t <;> exact ⟨_, rfl, List.all_eq_true.mp (by decide)⟩
  obtain ⟨cs, hcs, hw⟩ := hstem
  refine ⟨cs ++ name.toList, by rw [String.toList_append, hcs, List.cons_append], fun c hc => ?_⟩
  exact (List.mem_append.mp hc).elim (hw c) (hname c)

theorem TypeTable.builtin_isWord : TypeTable.builtin.Naming IsWord := by
  intro t name hname
  obtain ⟨cs, hlist, hcs⟩ := builtin_global t hname
  intro c hc
  rw [hlist] at hc
  rcases List.mem_cons.mp hc with rfl | hc
  · rfl
  · exact hcs c hc

/-- The global of a standard type is a reference, and not to a local variable. -/
theorem TypeTable.builtin_naming :
    TypeTable.builtin.Naming fun name => isPlain name = true ∧ isReference name = true := by
  intro t name hname
  obtain ⟨cs, hlist, -⟩ := builtin_global t hname
  have hword := builtin_isWord t name hname
  refine ⟨isPlain_of_word hword ?_, isReference_of_isWord hword (by rw [hlist]; simp)⟩
  -- the first letter is enough to tell it from a local variable
  unfold isLocalWord
  rw [hlist]
  rfl

/-- What program text tests for a feature is neither a local variable nor a global. -/
theorem isNeutral_combo {identifier : String} (h : IsWord identifier) :
    isNeutral ("S_" ++ identifier) = true := by
  refine isNeutral_of_word (IsWord.append (.of_all (by decide)) h) ?_ ?_
  · unfold isLocalWord
    rw [String.toList_append]
    rfl
  · unfold isGlobalWord
    rw [String.toList_append]
    rfl

namespace Globals

/-- The names in the tables that are looked up by something else than the name. -/
structure Named (N : String → Prop) (g : Globals) : Prop where
  textures : ∀ t ∈ g.textures, N t.global
  samplers : ∀ s ∈ g.samplers, N s.global

variable {W : World} {N : String → Prop} {types : TypeTable} {g : Globals}

theorem Named.of_same {g' : Globals} (h : g.Named N) (ht : g'.textures = g.textures)
    (hs : g'.samplers = g.samplers) : g'.Named N :=
  ⟨ht ▸ h.textures, hs ▸ h.samplers⟩

/-! ### Registration -/

/-- **The tables keep to such names as the types give.** -/
theorem Named.stable (hN : types.Naming N) : Stable types (fun _ => True) (Named N) where
  change {_ g _} _ hchange h := by
    cases hchange with
    | sampler _ =>
      refine ⟨h.textures, forall_mem_concat h.samplers ?_⟩
      rw [samplerName, String.append_assoc]
      exact hN .sampler _ (IsWord.append (.of_all (by decide)) (isWord_toString _))
    | @texture _ spec name fallback node word hword =>
      refine ⟨forall_mem_concat h.textures (hN spec.type word ?_), h.samplers⟩
      rcases hword with ⟨rfl, -⟩ | rfl
      · exact Identifier.isWord_ofText name
      · exact IsWord.append (.of_all (by decide)) (isWord_toString _)
    | _ => exact h.of_same rfl rfl
  toggles _ h _ := h.of_same rfl rfl
  develop h t ht asset fallback := by
    -- a texture that is compiled replaces its entry, under the same name
    refine ⟨fun u hu => ?_, h.samplers⟩
    obtain ⟨u', hu', rfl⟩ := List.mem_map.mp hu
    split
    · exact h.textures t ht
    · exact h.textures u' hu'

theorem addParameter_yields (hN : types.Naming N) (spec : ParameterSpec) (node : NodeId) :
    W.Yields (fun p => N p.global) (g.addParameter types spec node).1 := by
  have hglobal := hN spec.type _ (Identifier.isWord_ofText spec.name)
  have hregisters := g.addParameter_registers types spec node
  generalize (g.addParameter types spec node).1 = x at hregisters ⊢
  generalize (g.addParameter types spec node).2 = g' at hregisters
  cases hregisters with
  | refused fault h =>
    unfold ParameterSpec.fault? exposureFault? at h
    grind [World.Yields.error, Fault.IsReported]
  | taken _ _ => exact .error trivial
  | shared p _ hshared _ => exact .ok (hshared ▸ hglobal)
  | fresh _ _ _ => exact .ok hglobal

theorem addSampler_named (hN : types.Naming N) (h : g.Named N) (state : SamplerState) :
    N (g.addSampler types state).1.global :=
  ((Named.stable hN).register h (r := .sampler state) trivial).samplers _
    (g.addSampler_within types state).2

theorem addTexture_yields (hN : types.Naming N) (h : g.Named N) (spec : TextureSpec)
    (name : String) (fallback : Vec4) (node : NodeId) :
    W.Yields (fun p => N p.1.global) (g.addTexture types spec name fallback node).1 := by
  have hnamed := (Named.stable hN).register h (r := .texture spec name fallback node) trivial
  have hadds := g.addTexture_adds types spec name fallback node
  rw [Registration.register] at hnamed
  generalize g.addTexture types spec name fallback node = x at hadds hnamed ⊢
  cases hadds with
  | taken _ => exact .error trivial
  | stored ht _ => exact .ok (h.textures _ ht)
  | fresh _ _ _ => exact .ok (hnamed.textures _ (List.mem_append_right _ (.head _)))

theorem addFeature_yields (name group : String) :
    W.Yields (fun f => f.identifier = Identifier.screaming name) (g.addFeature name group).1 := by
  unfold addFeature
  simp only
  split
  · exact .error trivial
  · refine .ok ?_
    split
    · next f hf =>
      have he := List.find?_some hf
      rw [beq_iff_eq] at he
      exact he
    · rfl

theorem addFunction_yields (source : String) :
    W.Yields (fun name => declaredName? (String.ofList (trim source.toList)) = some name)
      (g.addFunction source).1 := by
  unfold addFunction
  simp only
  split
  · exact .error trivial
  · next name hname =>
    split
    · split
      · exact .ok hname
      · exact .error trivial
    · exact .ok hname

end Globals

end MaterialGraph
