import MaterialGraph.Proofs.Capture

/-!
# The shape of names

Users type names, and programs have identifiers. An identifier that is made from a text starts with
a capital or an underscore, and making an identifier of it again changes nothing. A screaming
identifier has single underscores between its words and nowhere else. Both are empty for the same
texts: those without a letter or a digit.

So all names that tables get from registrations are identifiers: globals are a stem and a word,
what stands for a feature has a letter in front, and the text of a function is searched for an
identifier.

## Main results

* `Text.Identifier.ofText_ofText` — an identifier stays as it is.
* `Text.Identifier.screaming_divided` — the words of a screaming identifier.
* `Text.Identifier.screaming_isEmpty_iff`, `Text.Identifier.ofText_isEmpty_iff` — empty spellings.
* `Registration.names_well_formed` — the names in tables after any registrations.
-/

namespace MaterialGraph

open Text

namespace Text

/-- An identifier that starts with a capital or an underscore. -/
def isCapitalized (text : String) : Bool :=
  match text.toList with
  | [] => false
  | c :: cs => (c.isUpper || c == '_') && cs.all isWordChar

/-- Capitals and digits, with single underscores between them and none around them. -/
structure Divided (cs : List Char) : Prop where
  /-- There is nothing but capitals, digits and underscores. -/
  chars : ∀ c ∈ cs, c.isUpper = true ∨ c.isDigit = true ∨ c = '_'
  /-- No underscore stands in front. -/
  head : cs.head? ≠ some '_'
  /-- No underscore stands at the end. -/
  last : cs.getLast? ≠ some '_'
  /-- No two underscores stand together. -/
  single : ¬['_', '_'] <:+: cs

namespace Identifier

/-! ### Identifiers of identifiers -/

/-- Letters and digits that go on a word stay as they are. -/
theorem capitalized_false {cs : List Char} (h : ∀ c ∈ cs, c.isAlphanum = true) :
    capitalized false cs = cs := by
  induction cs with
  | nil => rfl
  | cons c cs ih =>
    rw [capitalized_cons, if_pos (h c List.mem_cons_self),
      ih fun d hd => h d (List.mem_cons_of_mem c hd)]
    rfl

theorem toUpper_of_isDigit {c : Char} (h : c.isDigit = true) : c.toUpper = c := by
  have hall := of_isAlphanum (P := fun c => !c.isDigit || c.toUpper == c) (by decide +kernel)
    (c := c) (by rw [Char.isAlphanum, h, Bool.or_true])
  rw [h, Bool.not_true, Bool.false_or] at hall
  exact beq_iff_eq.mp hall

/-- What has been capitalized is so, with or without an underscore in front. -/
theorem capitalized_guardDigit (cs : List Char) :
    capitalized true (guardDigit (capitalized true cs)) = capitalized true cs := by
  have hhead := capitalized_head cs
  have hchars (d : Char) (hd : d ∈ capitalized true cs) : d.isAlphanum = true :=
    isAlphanum_of_mem_capitalized cs true hd
  cases hl : capitalized true cs with
  | nil => rfl
  | cons c ds =>
    rw [hl] at hhead
    rw [hl] at hchars
    have hc := hchars c List.mem_cons_self
    have hds (d : Char) (hd : d ∈ ds) := hchars d (List.mem_cons_of_mem c hd)
    have hup : c.toUpper = c := by
      rcases hhead c rfl with h | h
      · exact (toUpper_cases hc).2.1 h
      · exact toUpper_of_isDigit h
    have hsame : capitalized true (c :: ds) = c :: ds := by
      rw [capitalized_cons, if_pos hc, if_pos rfl, hup, capitalized_false hds]
    rw [guardDigit]
    split
    · -- the underscore divides words, and there is none before it
      exact hsame
    · exact hsame

/-- **The identifier of an identifier is the identifier itself.** -/
theorem ofText_ofText (text : String) : ofText (ofText text) = ofText text := by
  rw [ofText, ofText, String.toList_ofList, capitalized_guardDigit]

/-- **An identifier is empty, or it is capitalized.** -/
theorem ofText_isCapitalized (text : String) :
    (ofText text).isEmpty = true ∨ isCapitalized (ofText text) = true := by
  have hword := isWord_ofText text
  have hhead := ofText_head text
  unfold isCapitalized
  rw [IsWord] at hword
  rw [String.isEmpty_iff, ← String.toList_eq_nil_iff]
  cases hl : (ofText text).toList with
  | nil => exact .inl rfl
  | cons c cs =>
    rw [hl] at hword hhead
    refine .inr (Bool.and_eq_true_iff.mpr ⟨?_, ?_⟩)
    · rcases hhead c rfl with h | h
      · rw [h, Bool.true_or]
      · rw [h]
        rfl
    · exact List.all_eq_true.mpr fun d hd => hword d (List.mem_cons_of_mem c hd)

/-! ### Words in capitals -/

/-- What is written back to front of a screaming identifier: it may end in a divider. -/
structure Written (acc : List Char) : Prop where
  /-- There is nothing but capitals, digits and underscores. -/
  chars : ∀ c ∈ acc, c.isUpper = true ∨ c.isDigit = true ∨ c = '_'
  /-- It does not start with an underscore. -/
  head : acc.getLast? ≠ some '_'
  /-- No two underscores stand together. -/
  single : acc.IsChain fun c d => ¬(c = '_' ∧ d = '_')

namespace Written

variable {acc : List Char} {c : Char}

theorem divide (h : Written acc) (hd : canDivide acc = true) : Written ('_' :: acc) := by
  cases acc with
  | nil => cases hd
  | cons d ds =>
    have hne : d ≠ '_' := bne_iff_ne.mp hd
    refine ⟨List.forall_mem_cons.mpr ⟨.inr (.inr rfl), h.chars⟩, ?_, ?_⟩
    · rw [List.getLast?_cons_cons]
      exact h.head
    · exact .cons_cons (fun hboth => hne hboth.2) h.single

theorem letter (h : Written acc) (hc : c.isAlphanum = true) : Written (c.toUpper :: acc) := by
  have hne := (toUpper_cases hc).1
  refine ⟨List.forall_mem_cons.mpr ⟨?_, h.chars⟩, ?_, ?_⟩
  · exact (isUpper_or_isDigit_toUpper hc).imp_right .inl
  · cases acc with
    | nil => exact fun he => hne (Option.some.inj he)
    | cons d ds =>
      rw [List.getLast?_cons_cons]
      exact h.head
  · exact List.isChain_cons.mpr ⟨fun _ _ hboth => hne hboth.1, h.single⟩

theorem step (h : Written acc) (c : Char) : Written (screamStep acc c) := by
  have hpart : Written (if (c.isUpper && canDivide acc) = true then '_' :: acc else acc) := by
    split
    · next hd => exact h.divide (Bool.and_eq_true_iff.mp hd).2
    · exact h
  unfold screamStep
  dsimp only
  generalize (if (c.isUpper && canDivide acc) = true then '_' :: acc else acc) = part at hpart ⊢
  split
  · next hc => exact hpart.letter hc
  · split
    · next hd => exact hpart.divide hd
    · exact hpart

theorem foldl (h : Written acc) (cs : List Char) : Written (cs.foldl screamStep acc) := by
  induction cs generalizing acc with
  | nil => exact h
  | cons c cs ih => exact ih (h.step c)

/-- A divider at the end is left out, and then there is none around the words. -/
theorem divided (h : Written acc) : Divided (acc.dropWhile (· == '_')).reverse := by
  have hsuffix := List.dropWhile_suffix (l := acc) (· == '_')
  refine ⟨fun c hc => h.chars c (hsuffix.subset (List.mem_reverse.mp hc)), fun he => ?_,
    fun he => ?_, fun hinfix => ?_⟩
  · rw [List.head?_reverse] at he
    obtain ⟨front, hfront⟩ := hsuffix
    refine h.head ?_
    rw [← hfront, List.getLast?_append, he]
    rfl
  · rw [List.getLast?_reverse] at he
    have hstop := List.head?_dropWhile_not (· == '_') acc
    rw [he] at hstop
    cases hstop
  · have htwo : ['_', '_'] <:+: acc :=
      List.IsInfix.trans (List.reverse_infix.mp (by simpa using hinfix)) hsuffix.isInfix
    have hchain := h.single.infix htwo
    rw [List.isChain_pair] at hchain
    exact hchain ⟨rfl, rfl⟩

end Written

/-- **A screaming identifier has single underscores between its words.** -/
theorem screaming_divided (text : String) : Divided (screaming text).toList := by
  have hstart : Written [] := ⟨List.forall_mem_nil _, by decide, .nil⟩
  rw [screaming, String.toList_ofList]
  exact (hstart.foldl text.toList).divided

/-! ### Empty spellings -/

theorem capitalized_eq_nil_iff {cs : List Char} :
    ∀ {start}, capitalized start cs = [] ↔ ∀ c ∈ cs, c.isAlphanum = false := by
  induction cs with
  | nil => simp
  | cons c cs ih =>
    intro start
    rw [capitalized_cons, List.forall_mem_cons]
    split
    · next hc => simp [hc]
    · next hc => rw [ih, Bool.eq_false_iff.mpr hc, and_iff_right rfl]

/-- **An identifier is empty if its text has no letter and no digit.** -/
theorem ofText_isEmpty_iff (text : String) :
    (ofText text).isEmpty = true ↔ ∀ c ∈ text.toList, c.isAlphanum = false := by
  have hguard (cs : List Char) : guardDigit cs = [] ↔ cs = [] := by
    cases cs with
    | nil => exact Iff.rfl
    | cons c cs =>
      rw [guardDigit]
      split <;> simp
  rw [String.isEmpty_iff, ofText, String.ofList_eq_empty_iff, hguard, capitalized_eq_nil_iff]

/-- **Both spellings are empty for the same texts.** -/
theorem screaming_isEmpty_iff (text : String) :
    (screaming text).isEmpty = true ↔ (ofText text).isEmpty = true := by
  constructor
  · intro h
    have hnone : screaming text = screaming "" := String.isEmpty_iff.mp h
    rw [ofText_eq_of_screaming_eq hnone]
    rfl
  · rw [ofText_isEmpty_iff]
    intro h
    -- nothing is written for characters that only divide words
    have hfold : text.toList.foldl screamStep [] = [] := by
      generalize text.toList = cs at h
      induction cs with
      | nil => rfl
      | cons c cs ih =>
        have hc := h c List.mem_cons_self
        have hstep : screamStep [] c = [] := by simp [screamStep, canDivide, hc]
        rw [List.foldl_cons, hstep]
        exact ih fun d hd => h d (List.mem_cons_of_mem c hd)
    rw [screaming, hfold]
    rfl

end Identifier

end Text

/-! ### The names in tables -/

theorem isIdentifier_of_cons {name : String} {c : Char} {cs : List Char}
    (h : name.toList = c :: cs) (hc : c.isAlpha = true) (hcs : ∀ d ∈ cs, isWordChar d = true) :
    isIdentifier name = true := by
  rw [isIdentifier, h]
  exact Bool.and_eq_true_iff.mpr ⟨by rw [hc]; rfl, List.all_eq_true.mpr hcs⟩

namespace Globals

/-- The names of all that is declared in tables: parameters, samplers, textures, features, what
program text tests for them, and functions. -/
def allNames (g : Globals) : List String :=
  g.variableNames ++ g.features.map Feature.feature ++ g.features.map Feature.combo ++
    g.functions.map Function.name

/-- **All names in tables are identifiers**, if entries are spelled as they should be. -/
theorem Spelled.isIdentifier {g : Globals} (h : g.Spelled .builtin) :
    ∀ name ∈ g.allNames, isIdentifier name = true := by
  have hfeature {f : Feature} (hf : f ∈ g.features) : IsWord f.identifier := by
    obtain ⟨text, -, hid, -⟩ := h.features f hf
    exact hid ▸ Text.Identifier.isWord_screaming text
  have hmarked {c : Char} (hc : c.isAlpha = true) {f : Feature} (hf : f ∈ g.features)
      {name : String} (hname : name.toList = c :: '_' :: f.identifier.toList) :
      Text.isIdentifier name = true :=
    isIdentifier_of_cons hname hc (List.forall_mem_cons.mpr ⟨rfl, hfeature hf⟩)
  intro name hname
  rcases List.mem_append.mp hname with hname | hname
  · rcases List.mem_append.mp hname with hname | hname
    · rcases List.mem_append.mp hname with hname | hname
      · obtain ⟨t, word, hword, rfl⟩ := h.stem_word name hname
        obtain ⟨cs, hlist, hcs⟩ := TypeTable.builtin_global t hword
        exact isIdentifier_of_cons hlist rfl hcs
      · obtain ⟨f, hf, rfl⟩ := List.mem_map.mp hname
        exact hmarked (c := 'F') rfl hf (by rw [Feature.feature, String.toList_append]; rfl)
    · obtain ⟨f, hf, rfl⟩ := List.mem_map.mp hname
      exact hmarked (c := 'S') rfl hf (by rw [Feature.combo, String.toList_append]; rfl)
  · obtain ⟨f, hf, rfl⟩ := List.mem_map.mp hname
    exact (h.functions f hf).identifier

end Globals

namespace Registration

theorem registerAll_keeps {types : TypeTable} {G : Globals → Prop}
    (h : Globals.Stable types (fun _ => True) G) (rs : List Registration) {g : Globals} (hg : G g) :
    G (registerAll types rs g) := by
  induction rs generalizing g with
  | nil => exact hg
  | cons r rs ih => exact ih (h.register hg trivial)

/-- **Names are well formed.** The identifier of an identifier is itself, and an identifier is empty
or starts with a capital or an underscore and goes on with letters, digits and underscores. A
screaming identifier has capitals and digits with single underscores between them. After any
registrations, all names in the tables are identifiers. -/
theorem names_well_formed :
    (∀ text, Identifier.ofText (Identifier.ofText text) = Identifier.ofText text ∧
      ((Identifier.ofText text).isEmpty = true ∨ isCapitalized (Identifier.ofText text) = true) ∧
      Divided (Identifier.screaming text).toList) ∧
    ∀ rs, ∀ name ∈ (registerAll .builtin rs {}).allNames, isIdentifier name = true := by
  refine ⟨fun text => ⟨Identifier.ofText_ofText text, Identifier.ofText_isCapitalized text,
    Identifier.screaming_divided text⟩, fun rs => ?_⟩
  have hspelled : (registerAll .builtin rs {}).Spelled .builtin :=
    registerAll_keeps (Globals.spelled_stable .builtin) rs (Globals.spelled_fresh .builtin [])
  exact hspelled.isIdentifier

/-- A name with a digit in front, and one with dividers around its words. -/
theorem names_well_formed_layers :
    (registerAll .builtin [.parameter { name := "2nd layer", type := .float } ⟨7⟩,
      .feature "--use Fog 2--" "Fog"] {}).allNames =
        ["g_fl_2ndLayer", "F_USE_FOG_2", "S_USE_FOG_2"] ∧
    isIdentifier "g_fl_2ndLayer" = true := by
  refine ⟨by decide +kernel, names_well_formed.2
    [.parameter { name := "2nd layer", type := .float } ⟨7⟩, .feature "--use Fog 2--" "Fog"] _ ?_⟩
  decide +kernel

end Registration

end MaterialGraph
