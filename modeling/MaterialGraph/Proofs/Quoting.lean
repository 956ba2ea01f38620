import MaterialGraph.Proofs.Entries

/-!
# Texts between quotes

A program has texts of the user between quotes: its description, the names of attributes, and the
groups of parameters and features. The description has apostrophes for its quotes, and names are
identifiers, so these texts end where they are meant to. Groups are written as they are. So a
declaration has two quotes for each text that it quotes just if its group has none.

## Main results

* `Text.quotes_append`, `Text.quotes_intercalate` — the quotes of texts that are put together.
* `Draft.quotes_descriptionLine` — a description is quoted well, whatever it is.
* `Parameter.quotes_declaration`, `Texture.quotes_declaration`, `Feature.quotes_declaration` — the
  quotes in declarations.
* `Compiler.quoted_texts_closed` — the quotes of a program.
* `Compiler.quoted_group_open` — a group that closes its quotes.
-/

namespace MaterialGraph

open Text

/-! ### Quotes -/

namespace Text

/-- The number of quotation marks in a text. -/
def quotes (text : String) : Nat := text.toList.count '"'

@[simp] theorem quotes_append (a b : String) : quotes (a ++ b) = quotes a + quotes b := by
  rw [quotes, String.toList_append, List.count_append, quotes, quotes]

theorem quotes_eq_zero_iff {text : String} : quotes text = 0 ↔ '"' ∉ text.toList :=
  List.count_eq_zero

theorem quotes_of_isWord {text : String} (h : IsWord text) : quotes text = 0 :=
  quotes_eq_zero_iff.mpr fun hq => absurd (h _ hq) (by decide)

theorem quotes_of_isNumberText {text : String} (h : IsNumberText text) : quotes text = 0 :=
  quotes_eq_zero_iff.mpr fun hq => absurd (h _ hq) (by decide)

/-- How often the texts of a list have a quote. -/
def quotesIn : List String → Nat
  | [] => 0
  | a :: l => quotes a + quotesIn l

@[simp] theorem quotesIn_nil : quotesIn [] = 0 := rfl

@[simp] theorem quotesIn_cons (a : String) (l : List String) :
    quotesIn (a :: l) = quotes a + quotesIn l := rfl

@[simp] theorem quotesIn_append (l l' : List String) :
    quotesIn (l ++ l') = quotesIn l + quotesIn l' := by
  induction l with
  | nil => simp
  | cons a l ih => simp [ih, Nat.add_assoc]

/-- Texts without quotes. -/
theorem quotesIn_eq_zero {l : List String} (h : ∀ a ∈ l, quotes a = 0) : quotesIn l = 0 := by
  induction l with
  | nil => rfl
  | cons a l ih =>
    rw [quotesIn_cons, h a List.mem_cons_self, ih fun b hb => h b (List.mem_cons_of_mem _ hb)]

/-- Texts in a list, with something between them that has no quotes. -/
theorem quotes_intercalate {between : String} (h : quotes between = 0) (l : List String) :
    quotes (between.intercalate l) = quotesIn l := by
  induction l with
  | nil => rfl
  | cons a l ih =>
    cases l with
    | nil => simp
    | cons b l =>
      rw [String.intercalate_cons_cons, quotes_append, quotes_append, h, ih, Nat.add_zero,
        ← quotesIn]

theorem quotes_componentList (xs : List Number.Single) : quotes (componentList xs) = 0 := by
  rw [componentList, quotes_intercalate (by decide)]
  refine quotesIn_eq_zero fun a ha => ?_
  obtain ⟨x, -, rfl⟩ := List.mem_map.mp ha
  exact quotes_of_isNumberText (isNumberText_componentText x)

end Text

/-! ### Descriptions -/

/-- An apostrophe takes the place of a quote. -/
theorem Draft.quotes_unquoted (text : String) : quotes (unquoted text) = 0 := by
  rw [quotes_eq_zero_iff, unquoted, String.toList_ofList, List.mem_map]
  rintro ⟨c, -, hc⟩
  split at hc
  · exact absurd hc (by decide)
  · next hne => exact hne hc

/-- **A description is quoted well**, whatever it is. -/
theorem Draft.quotes_descriptionLine (description : String) :
    quotes (descriptionLine description) = 2 := by
  rw [descriptionLine, quotes_append, quotes_append, quotes_unquoted]
  decide

/-! ### Declarations -/

theorem TypeTable.quotes_builtin_name (t : ShaderType) : quotes (builtin.name t) = 0 := by
  cases t <;> decide

theorem quotes_declarationText (type global : String) (annotations : List String) :
    quotes (declarationText type global annotations) =
      quotes type + quotes global + quotesIn annotations := by
  unfold declarationText
  split
  · next hnone =>
    rw [List.isEmpty_iff.mp hnone]
    simp only [quotes_append]
    rfl
  · simp only [quotes_append, quotes_intercalate (show quotes " " = 0 from rfl)]
    show quotes type + 0 + quotes global + 0 + _ + 0 = _
    omega

namespace Parameter

/-- All annotations of a parameter. -/
def annotations (p : Parameter) : List String :=
  p.sourceAnnotations ++ p.initialAnnotations ++ p.rangeAnnotations

/-- The annotations that quote something. -/
def quotedAnnotations (p : Parameter) : List String := p.annotations.filter ('"' ∈ ·.toList)

variable {p : Parameter}

/-- Values are written with numbers. -/
theorem quotes_of_mem_values {a : String} (h : a ∈ p.initialAnnotations ++ p.rangeAnnotations) :
    quotes a = 0 := by
  have hnumber (n : Nat) : quotes (toString n) = 0 := quotes_of_isWord (isWord_toString n)
  rcases List.mem_append.mp h with h | h
  · unfold initialAnnotations at h
    split at h
    · cases h
    · rw [List.mem_singleton.mp h]
      simp only [quotes_append, hnumber, Constant.annotation, quotes_componentList]
      rfl
  · unfold rangeAnnotations at h
    split at h
    · cases h
    · rw [List.mem_singleton.mp h]
      simp only [quotes_append, hnumber, Constant.annotation, quotes_componentList]
      rfl

/-- A parameter quotes its name if it is an attribute, and else its group if it has one. -/
theorem annotations_quotes (hname : quotes p.name = 0) :
    quotesIn p.annotations = 2 * p.quotedAnnotations.length +
      if p.isAttribute then 0 else quotes p.hint.group := by
  have hvalues : (p.initialAnnotations ++ p.rangeAnnotations).filter ('"' ∈ ·.toList) = [] := by
    refine List.filter_eq_nil_iff.mpr fun a ha => ?_
    simpa using quotes_eq_zero_iff.mp (quotes_of_mem_values ha)
  unfold quotedAnnotations annotations
  rw [List.append_assoc, quotesIn_append, quotesIn_eq_zero fun _ => quotes_of_mem_values,
    List.filter_append, hvalues, List.append_nil, Nat.add_zero]
  unfold sourceAnnotations
  by_cases hattribute : p.isAttribute = true
  · rw [if_pos hattribute, if_pos hattribute, quotesIn, quotesIn, Nat.add_zero,
      List.filter_cons_of_pos (by simp [String.toList_append]), quotes_append, quotes_append, hname]
    rfl
  · have hwidget (w : Widget) : quotes ("UiType( " ++ w.text ++ " );") = 0 := by
      cases w <;> decide
    rw [if_neg hattribute, if_neg hattribute, quotesIn, hwidget, Nat.zero_add,
      List.filter_cons_of_neg (by simpa using quotes_eq_zero_iff.mp (hwidget _))]
    split
    · next hgroup =>
      rw [String.isEmpty_iff.mp hgroup]
      rfl
    · rw [quotesIn, quotesIn, Nat.add_zero,
        List.filter_cons_of_pos (by simp [String.toList_append]), quotes_append, quotes_append]
      show 1 + quotes p.hint.group + 1 = 2 * 1 + quotes p.hint.group
      omega

/-- **The quotes in the declaration of a parameter** are two for each annotation that quotes
something, and those of the group if there are more. -/
theorem quotes_declaration (h : p.Spelled .builtin) :
    quotes (p.declaration .builtin) = 2 * p.quotedAnnotations.length +
      if p.isAttribute then 0 else quotes p.hint.group := by
  rw [declaration, quotes_declarationText, ← annotations,
    annotations_quotes (quotes_of_isWord h.isWord), TypeTable.quotes_builtin_name, h.global,
    quotes_of_isWord (TypeTable.builtin_isWord p.type p.name h.isWord), Nat.zero_add]

theorem quotes_declaration_iff (h : p.Spelled .builtin) :
    quotes (p.declaration .builtin) = 2 * p.quotedAnnotations.length ↔
      p.isAttribute = true ∨ '"' ∉ p.hint.group.toList := by
  rw [quotes_declaration h, ← quotes_eq_zero_iff]
  cases p.isAttribute <;> simp

end Parameter

/-- **The declaration of a texture quotes its name**, and that has no quotes. -/
theorem Texture.quotes_declaration {t : Texture} (h : t.Spelled .builtin) :
    quotes (t.declaration .builtin) = 2 := by
  have hread : quotes ("SrgbRead( " ++ (if t.spec.colorSpace = .srgb then "True" else "False") ++
      " );") = 0 := by
    split <;> decide
  rw [declaration, quotes_declarationText, TypeTable.quotes_builtin_name, h.global,
    quotes_of_isWord (TypeTable.builtin_isWord _ t.name h.isWord), quotesIn, quotesIn, quotesIn,
    hread]
  simp only [quotes_append, quotes_of_isWord h.isWord, quotes_componentList]
  rfl

/-- **The declaration of a feature quotes its group**, which has its own quotes. -/
theorem Feature.quotes_declaration {f : Feature} (h : f.Spelled) :
    quotes f.declaration = 2 + quotes f.group := by
  obtain ⟨text, -, hid, -⟩ := h
  have hgroup : quotes (if f.group.isEmpty then "Material" else f.group) = quotes f.group := by
    split
    · next hempty =>
      rw [String.isEmpty_iff.mp hempty]
      rfl
    · rfl
  have hfeature : quotes f.feature = 0 := by
    rw [feature, quotes_append, hid, quotes_of_isWord (Identifier.isWord_screaming text)]
    rfl
  unfold declaration
  simp only [quotes_append, hgroup, hfeature]
  show 0 + 0 + 1 + quotes f.group + 1 = _
  omega

/-- The declarations of a program that may quote something: those of parameters, textures and
features. -/
def Program.quoting (p : Program) : List (List String) :=
  [p.parameters.map (·.declaration .builtin), p.textures.map (·.declaration .builtin),
    p.features.map (·.declaration)]

namespace Compiler

/-- **Texts of the user stay between their quotes, but for groups.** The line that describes a
program has two quotes whatever the description is, and so have the declarations of textures. The
declaration of a parameter has two for each annotation that quotes something just if it is an
attribute or its group has none, and that of a feature has two just if its group has none. -/
theorem quoted_texts_closed (c : Compiler) (ht : c.types = .builtin) (d : Document) (o : Options)
    (result : Compilation) (p : Program)
    (h : c.compile d o = .ok result ∨ ∃ target, c.preview d o target = .ok result)
    (hp : result.program = some p) :
    (∃ (draft : Draft) (t : Template), p = draft.program c.types o t ∧
      draft.filling c.types o .header =
        indentLines Globals.margin [Draft.descriptionLine o.description]) ∧
    quotes (Draft.descriptionLine o.description) = 2 ∧
    (∀ q ∈ p.parameters, quotes (q.declaration c.types) = 2 * q.quotedAnnotations.length ↔
      q.isAttribute = true ∨ '"' ∉ q.hint.group.toList) ∧
    (∀ t ∈ p.textures, quotes (t.declaration c.types) = 2) ∧
    ∀ f ∈ p.features, quotes f.declaration = 2 ↔ '"' ∉ f.group.toList := by
  obtain ⟨draft, t, rfl, hspelled⟩ := program_spelled h hp
  rw [ht] at hspelled ⊢
  refine ⟨⟨draft, t, rfl, rfl⟩, Draft.quotes_descriptionLine _, fun q hq => ?_, fun u hu => ?_,
    fun f hf => ?_⟩
  · exact Parameter.quotes_declaration_iff (hspelled.parameters q hq)
  · exact Texture.quotes_declaration (hspelled.textures u hu)
  · rw [Feature.quotes_declaration (hspelled.features f hf), ← quotes_eq_zero_iff]
    omega

/-- A sign with a parameter, an image and a switch, the names of which have quotes. The parameter
and the switch are in the same group. -/
def signDocument (group : String) : Document where
  nodes := [
    .of .materialResult 1 { albedo := .ofNode 4, roughness := .ofNode 2, metalness := .ofNode 3 },
    .of (.literal .float) 2 { value := zero, name := "\"gloss\"", hint := { group } },
    .of .staticSwitch 3 { name := "\"wet\"", group },
    .of (.sample .flat) 4 { source := { image := "wood.png", name := "\"wood\"" } }]

theorem quoted_texts_closed_sign : ∃ result p,
    compile {} (signDocument "look") { description := "the \"old\" sign" } = .ok result ∧
    result.program = some p ∧
    p.quoting = [["float g_flGloss < UiType( Slider ); UiGroup( \"look\" ); Default1( 0 ); >;"],
      ["Texture2D g_tWood < Attribute( \"Wood\" ); SrgbRead( True ); Default4( 1, 1, 1, 1 ); >;"],
      ["Feature( F_WET, 0..1, \"look\" );"]] ∧
    (∀ q ∈ p.parameters, quotes (q.declaration .builtin) = 2 * q.quotedAnnotations.length) ∧
    (∀ t ∈ p.textures, quotes (t.declaration .builtin) = 2) ∧
    ∀ f ∈ p.features, quotes f.declaration = 2 := by
  obtain ⟨result, p, hr, hp, hf⟩ := exists_program (c := {}) (d := signDocument "look")
    (o := { description := "the \"old\" sign" })
    (f := fun _ p => (p.quoting, p.parameters.map (·.hint.group), p.features.map (·.group)))
    (a := ([["float g_flGloss < UiType( Slider ); UiGroup( \"look\" ); Default1( 0 ); >;"],
      ["Texture2D g_tWood < Attribute( \"Wood\" ); SrgbRead( True ); Default4( 1, 1, 1, 1 ); >;"],
      ["Feature( F_WET, 0..1, \"look\" );"]], ["look"], ["look"])) (by decide +kernel)
  obtain ⟨hquoting, hgroups, hfeatures⟩ : _ ∧ _ ∧ _ := by
    simpa only [Prod.mk.injEq] using hf
  obtain ⟨-, -, hp', ht', hf'⟩ := quoted_texts_closed {} rfl _ _ result p (.inl hr) hp
  refine ⟨result, p, hr, hp, hquoting, fun q hq => (hp' q hq).mpr (.inr ?_), ht', fun f hf =>
    (hf' f hf).mpr ?_⟩
  · have hgroup : q.hint.group ∈ p.parameters.map (·.hint.group) := List.mem_map_of_mem hq
    rw [hgroups, List.mem_singleton] at hgroup
    rw [hgroup]
    decide
  · have hgroup : f.group ∈ p.features.map (·.group) := List.mem_map_of_mem hf
    rw [hfeatures, List.mem_singleton] at hgroup
    rw [hgroup]
    decide

/-- **A group with a quote closes its quotes**, in the declaration of a parameter as in that of a
feature: each quotes one text and has three quotes. -/
theorem quoted_group_open : ∃ result p,
    compile {} (signDocument "a\"b") {} = .ok result ∧ result.program = some p ∧
    p.parameters.map (fun q => (q.declaration .builtin, q.quotedAnnotations.length)) =
      [("float g_flGloss < UiType( Slider ); UiGroup( \"a\"b\" ); Default1( 0 ); >;", 1)] ∧
    p.features.map (·.declaration) = ["Feature( F_WET, 0..1, \"a\"b\" );"] ∧
    (∀ q ∈ p.parameters, quotes (q.declaration .builtin) ≠ 2 * q.quotedAnnotations.length) ∧
    ∀ f ∈ p.features, quotes f.declaration ≠ 2 := by
  obtain ⟨result, p, hr, hp, hf⟩ := exists_program (c := {}) (d := signDocument "a\"b") (o := {})
    (f := fun _ p =>
      (p.parameters.map (fun q => (q.declaration .builtin, q.quotedAnnotations.length)),
        p.features.map (·.declaration)))
    (a := ([("float g_flGloss < UiType( Slider ); UiGroup( \"a\"b\" ); Default1( 0 ); >;", 1)],
      ["Feature( F_WET, 0..1, \"a\"b\" );"])) (by decide +kernel)
  obtain ⟨hparameters, hfeatures⟩ := Prod.mk.inj hf
  refine ⟨result, p, hr, hp, hparameters, hfeatures, fun q hq => ?_, fun f hf => ?_⟩
  · have hmem := List.mem_map_of_mem hq
      (f := fun q : Parameter => (q.declaration .builtin, q.quotedAnnotations.length))
    rw [hparameters, List.mem_singleton] at hmem
    obtain ⟨htext, hcount⟩ := Prod.mk.inj hmem
    rw [htext, hcount]
    decide
  · have hmem := List.mem_map_of_mem hf (f := Feature.declaration)
    rw [hfeatures, List.mem_singleton] at hmem
    rw [hmem]
    decide

end Compiler

end MaterialGraph
