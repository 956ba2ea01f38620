import MaterialGraph.Compile

/-!
# The words of program text

Program text is put together from pieces. Its words are the longest runs of
letters, digits and underscores, and they are the words of the pieces as long as no
word runs on from one piece into the next. Everything a node writes keeps to that:
where two pieces meet, one of them has a mark or a blank.

So a property of texts that neutral pieces have, and that survives such meetings,
holds of everything that is written. `Spelling` names these two conditions.

## Main definitions

* `Text.words` — the words of a text.
* `Text.isLocalWord` — the words that name local variables.
* `Text.isGlobalWord`, `Text.engineGlobals` — the words that name globals, and those that
  every program has.
* `Text.isPlain` — a text on one line that names no local variable.
* `Text.isNeutral` — a plain text that names no global but those of the engine.
* `Text.Spelling` — a property of texts that is kept when pieces meet.

## Main results

* `Text.words_append` — the words of two pieces that meet at a mark.
* `Text.Spelling.join`, `Text.Spelling.intercalate` — pieces with something in
  between.
* `isNeutral_floatLiteral`, `Text.Spelling.literal` — numbers and constants.
-/

namespace MaterialGraph

namespace Text

variable {text : String}

/-! ### Letters -/

theorem isUpper_iff (c : Char) : c.isUpper = true ↔ 65 ≤ c.val.toNat ∧ c.val.toNat ≤ 90 := by
  refine (decide_eq_true_iff (p := c.val ≥ 'A'.val ∧ c.val ≤ 'Z'.val)).trans ?_
  rw [ge_iff_le, UInt32.le_iff_toNat_le, UInt32.le_iff_toNat_le]
  exact Iff.rfl

theorem isLower_iff (c : Char) : c.isLower = true ↔ 97 ≤ c.val.toNat ∧ c.val.toNat ≤ 122 := by
  show (decide (c.val ≥ 97) && decide (c.val ≤ 122)) = true ↔ _
  rw [Bool.and_eq_true, decide_eq_true_eq, decide_eq_true_eq, ge_iff_le,
    UInt32.le_iff_toNat_le, UInt32.le_iff_toNat_le]
  exact Iff.rfl

theorem isAlpha_iff (c : Char) : c.isAlpha = true ↔ c.isUpper = true ∨ c.isLower = true :=
  Iff.of_eq (Bool.or_eq_true c.isUpper c.isLower)

/-! ### Words -/

/-- The word that has been read back to front, if there is one. -/
def closeWord : List Char → List (List Char)
  | [] => []
  | c :: cs => [(c :: cs).reverse]

/-- The words of a text when the word being read already holds `acc`, back to front. -/
def wordsFrom : List Char → List Char → List (List Char)
  | acc, [] => closeWord acc
  | acc, c :: cs =>
    if isWordChar c then wordsFrom (c :: acc) cs else closeWord acc ++ wordsFrom [] cs

@[simp] theorem wordsFrom_nil (acc : List Char) : wordsFrom acc [] = closeWord acc := rfl

@[simp] theorem wordsFrom_cons (acc : List Char) (c : Char) (cs : List Char) :
    wordsFrom acc (c :: cs) =
      if isWordChar c then wordsFrom (c :: acc) cs else closeWord acc ++ wordsFrom [] cs := rfl

/-- The words of a text. -/
def words (text : String) : List String := (wordsFrom [] text.toList).map String.ofList

/-- Whether a word names a local variable: `l_` and a number. -/
def isLocalWord (word : String) : Bool :=
  match word.toList with
  | 'l' :: '_' :: c :: cs => (c :: cs).all Char.isDigit
  | _ => false

/-- Whether a word names a global: it starts with `g_`. -/
def isGlobalWord (word : String) : Bool :=
  match word.toList with
  | 'g' :: '_' :: _ => true
  | _ => false

/-- The globals that the engine gives to every program. -/
def engineGlobals : List String :=
  ["g_flTime", "g_vCameraPositionWs", "g_matObjectToWorld", "g_matWorldToView",
    "g_matViewToProjection"]

/-- Whether no word runs on into a text from what stands before it. -/
def startsOpen (text : String) : Bool :=
  match text.toList with
  | [] => true
  | c :: _ => !isWordChar c

/-- Whether no word runs on from a text into what stands after it. -/
def endsOpen (text : String) : Bool :=
  match text.toList.getLast? with
  | none => true
  | some c => !isWordChar c

/-- Whether a text has one line and names no local variable. -/
def isPlain (text : String) : Bool :=
  (words text).all (!isLocalWord ·) && text.toList.all (· != '\n')

/-- Whether a plain text names no global but those of the engine. -/
def isNeutral (text : String) : Bool :=
  isPlain text && (words text).all fun w => !isGlobalWord w || engineGlobals.contains w

theorem wordsFrom_append_cons {c : Char} (hc : isWordChar c = false) (ds : List Char) :
    ∀ acc cs : List Char, wordsFrom acc (cs ++ c :: ds) = wordsFrom acc cs ++ wordsFrom [] ds := by
  intro acc cs
  induction cs generalizing acc with
  | nil => simp [hc]
  | cons d cs ih =>
    rw [List.cons_append, wordsFrom_cons, wordsFrom_cons]
    split
    · exact ih (d :: acc)
    · rw [ih [], List.append_assoc]

/-- **The words of two pieces are those of the first and those of the second**, if no
word runs on from one into the other. -/
theorem words_append {a b : String} (h : endsOpen a = true ∨ startsOpen b = true) :
    words (a ++ b) = words a ++ words b := by
  unfold words
  rw [String.toList_append, ← List.map_append]
  congr 1
  rcases h with h | h
  · -- the mark at the end of the first piece closes the last word of that piece
    unfold endsOpen at h
    split at h
    · next hn => rw [List.getLast?_eq_none_iff.mp hn]; rfl
    · next c hc =>
      obtain ⟨cs, hcs⟩ := List.getLast?_eq_some_iff.mp hc
      have hw : isWordChar c = false := by simpa using h
      rw [hcs, List.append_assoc, List.singleton_append, wordsFrom_append_cons hw,
        wordsFrom_append_cons hw []]
      simp [closeWord]
  · unfold startsOpen at h
    split at h
    · next hn => rw [hn, List.append_nil]; simp [closeWord]
    · next c cs hc =>
      have hw : isWordChar c = false := by simpa using h
      rw [hc, wordsFrom_append_cons hw]
      simp [hw, closeWord]

theorem mem_of_mem_wordsFrom {w : List Char} {x : Char} (hx : x ∈ w) :
    ∀ acc cs : List Char, w ∈ wordsFrom acc cs → x ∈ acc ∨ x ∈ cs := by
  have close : ∀ acc, w ∈ closeWord acc → x ∈ acc := by
    intro acc hw
    cases acc with
    | nil => cases hw
    | cons c acc =>
      rw [List.mem_singleton.mp hw, List.mem_reverse] at hx
      exact hx
  intro acc cs
  induction cs generalizing acc with
  | nil => exact fun hw => .inl (close acc hw)
  | cons c cs ih =>
    intro hw
    rw [wordsFrom_cons] at hw
    split at hw
    · rcases ih _ hw with h | h
      · rcases List.mem_cons.mp h with rfl | h
        · exact .inr List.mem_cons_self
        · exact .inl h
      · exact .inr (List.mem_cons_of_mem _ h)
    · rcases List.mem_append.mp hw with hw | hw
      · exact .inl (close acc hw)
      · rcases ih _ hw with h | h
        · cases h
        · exact .inr (List.mem_cons_of_mem _ h)

theorem wordsFrom_of_all {cs : List Char} (h : ∀ c ∈ cs, isWordChar c = true) :
    ∀ acc : List Char, wordsFrom acc cs = closeWord (cs.reverse ++ acc) := by
  induction cs with
  | nil => exact fun acc => rfl
  | cons c cs ih =>
    intro acc
    rw [wordsFrom_cons, if_pos (h c List.mem_cons_self),
      ih (fun d hd => h d (List.mem_cons_of_mem _ hd))]
    simp

theorem words_of_all (hne : text.toList ≠ []) (h : ∀ c ∈ text.toList, isWordChar c = true) :
    words text = [text] := by
  unfold words
  rw [wordsFrom_of_all h, List.append_nil]
  cases hr : text.toList.reverse with
  | nil => exact absurd (List.reverse_eq_nil_iff.mp hr) hne
  | cons c cs =>
    rw [closeWord, ← hr, List.reverse_reverse]
    simp

/-! ### Plain texts -/

/-- A name that is not that of a local variable is plain. -/
theorem isPlain_of_word (h : ∀ c ∈ text.toList, isWordChar c = true)
    (hl : isLocalWord text = false) : isPlain text = true := by
  unfold isPlain
  rw [Bool.and_eq_true]
  constructor
  · by_cases hne : text.toList = []
    · simp [words, hne, closeWord]
    · rw [words_of_all hne h]
      simp [hl]
  · rw [List.all_eq_true]
    intro c hc
    have := h c hc
    rw [bne_iff_ne]
    rintro rfl
    cases this

/-- A local variable has an underscore in its name. -/
theorem underscore_mem_of_isLocalWord {word : String} (h : isLocalWord word = true) :
    '_' ∈ word.toList := by
  unfold isLocalWord at h
  split at h
  · next hw => rw [hw]; simp
  · cases h

/-- The words of a text without underscores have none. -/
theorem underscore_not_mem_words {w : String} (h : ∀ c ∈ text.toList, c ≠ '_' ∧ c ≠ '\n')
    (hw : w ∈ words text) : '_' ∉ w.toList := by
  intro hu
  obtain ⟨cs, hcs, rfl⟩ := List.mem_map.mp hw
  rw [String.toList_ofList] at hu
  rcases mem_of_mem_wordsFrom hu [] text.toList hcs with hm | hm
  · cases hm
  · exact (h '_' hm).1 rfl

/-- A text without underscores on one line is plain. -/
theorem isPlain_of_no_underscore (h : ∀ c ∈ text.toList, c ≠ '_' ∧ c ≠ '\n') :
    isPlain text = true := by
  unfold isPlain
  rw [Bool.and_eq_true, List.all_eq_true, List.all_eq_true]
  refine ⟨fun w hw => ?_, fun c hc => by simpa using (h c hc).2⟩
  rw [Bool.not_eq_true', ← Bool.not_eq_true]
  exact fun hl => underscore_not_mem_words h hw (underscore_mem_of_isLocalWord hl)

/-! ### Neutral texts -/

theorem isPlain_of_isNeutral (h : isNeutral text = true) : isPlain text = true :=
  (Bool.and_eq_true_iff.mp h).1

/-- The globals that a neutral text names are those of the engine. -/
theorem mem_engineGlobals_of_isNeutral {w : String} (h : isNeutral text = true)
    (hw : w ∈ words text) (hg : isGlobalWord w = true) : w ∈ engineGlobals := by
  have hall := List.all_eq_true.mp (Bool.and_eq_true_iff.mp h).2 w hw
  rw [hg, Bool.not_true, Bool.false_or] at hall
  exact List.contains_iff_mem.mp hall

/-- A name that is neither that of a local variable nor that of a global is neutral. -/
theorem isNeutral_of_word (h : ∀ c ∈ text.toList, isWordChar c = true)
    (hl : isLocalWord text = false) (hg : isGlobalWord text = false) :
    isNeutral text = true := by
  unfold isNeutral
  rw [Bool.and_eq_true]
  refine ⟨isPlain_of_word h hl, ?_⟩
  by_cases hne : text.toList = []
  · simp [words, hne, closeWord]
  · rw [words_of_all hne h]
    simp [hg]

/-- A global has an underscore in its name. -/
theorem underscore_mem_of_isGlobalWord {word : String} (h : isGlobalWord word = true) :
    '_' ∈ word.toList := by
  unfold isGlobalWord at h
  split at h
  · next hw => rw [hw]; simp
  · cases h

/-- A text without underscores on one line is neutral. -/
theorem isNeutral_of_no_underscore (h : ∀ c ∈ text.toList, c ≠ '_' ∧ c ≠ '\n') :
    isNeutral text = true := by
  unfold isNeutral
  rw [Bool.and_eq_true, List.all_eq_true]
  refine ⟨isPlain_of_no_underscore h, fun w hw => ?_⟩
  cases hg : isGlobalWord w with
  | false => rfl
  | true => exact absurd (underscore_mem_of_isGlobalWord hg) (underscore_not_mem_words h hw)

/-! ### Spelling -/

/-- A property of texts that neutral texts have and that is kept when texts meet, unless a
word runs on from one into the other. -/
structure Spelling (T : String → Prop) : Prop where
  neutral : ∀ {text}, isNeutral text = true → T text
  /-- It is kept when texts meet. -/
  append : ∀ {a b}, T a → T b → endsOpen a = true ∨ startsOpen b = true → T (a ++ b)

namespace Spelling

variable {T : String → Prop} {a b piece : String}

theorem lead (h : Spelling T) (hb : T b) (hp : isNeutral piece = true ∧ endsOpen piece = true) :
    T (piece ++ b) :=
  h.append (h.neutral hp.1) hb (.inl hp.2)

theorem trail (h : Spelling T) (ha : T a) (hp : isNeutral piece = true ∧ startsOpen piece = true) :
    T (a ++ piece) :=
  h.append ha (h.neutral hp.1) (.inr hp.2)

theorem endsOpen_append (hne : piece.toList ≠ []) (hp : endsOpen piece = true) :
    endsOpen (a ++ piece) = true := by
  unfold endsOpen at hp ⊢
  rw [String.toList_append, List.getLast?_append]
  obtain ⟨c, hc⟩ := Option.ne_none_iff_exists'.mp
    (fun hn => hne (List.getLast?_eq_none_iff.mp hn))
  rw [hc] at hp ⊢
  exact hp

/-- A neutral piece between two texts. -/
theorem join (h : Spelling T) (ha : T a) (hb : T b)
    (hp : isNeutral piece = true ∧ startsOpen piece = true ∧ endsOpen piece = true ∧
      piece.toList ≠ []) : T (a ++ piece ++ b) :=
  h.append (h.trail ha ⟨hp.1, hp.2.1⟩) hb (.inl (endsOpen_append hp.2.2.2 hp.2.2.1))

/-- Texts in a list with commas between them. -/
theorem intercalate (h : Spelling T) {l : List String} (hl : ∀ x ∈ l, T x) :
    T (", ".intercalate l) := by
  induction l with
  | nil => exact h.neutral (by decide)
  | cons x l ih =>
    cases l with
    | nil =>
      rw [String.intercalate_singleton]
      exact hl x List.mem_cons_self
    | cons y l =>
      rw [String.intercalate_cons_cons]
      exact h.join (hl x List.mem_cons_self)
        (ih fun z hz => hl z (List.mem_cons_of_mem _ hz)) (by decide)

end Spelling

end Text

/-! ### Numbers -/

/-- The characters that numbers are written with. -/
def isNumberChar (c : Char) : Bool := c.isAlphanum || c == '.' || c == '-' || c == '+'

/-- A text is written with the characters of numbers. -/
def IsNumberText (text : String) : Prop := ∀ c ∈ text.toList, isNumberChar c = true

namespace IsNumberText

theorem of_all {text : String} (h : text.toList.all isNumberChar = true) : IsNumberText text :=
  List.all_eq_true.mp h

theorem append {a b : String} (ha : IsNumberText a) (hb : IsNumberText b) :
    IsNumberText (a ++ b) := by
  intro c hc
  rw [String.toList_append] at hc
  exact (List.mem_append.mp hc).elim (ha c) (hb c)

theorem isNeutral {text : String} (h : IsNumberText text) : Text.isNeutral text = true := by
  refine Text.isNeutral_of_no_underscore fun c hc => ?_
  have hn := h c hc
  constructor
  · rintro rfl
    cases hn
  · rintro rfl
    cases hn

end IsNumberText

theorem isNumberChar_of_mem_toDigits {n : Nat} {c : Char} (h : c ∈ Nat.toDigits 10 n) :
    isNumberChar c = true := by
  have hd := Nat.isDigit_of_mem_toDigits (by decide) (by decide) h
  simp [isNumberChar, Char.isAlphanum, hd]

theorem isNumberChar_of_mem_zeros {n : Nat} {c : Char} (h : c ∈ Number.zeros n) :
    isNumberChar c = true := by
  rw [List.eq_of_mem_replicate h]
  rfl

/-- A decimal without exponent is written with digits and a point. -/
theorem isNumberText_positional (d : Number.Decimal) : IsNumberText d.positional := by
  have hdigit := @isNumberChar_of_mem_toDigits d.digits
  intro c hc
  unfold Number.Decimal.positional at hc
  simp only at hc
  -- zeros follow the digits, or the point is among them, or zeros come first
  split at hc
  · rw [String.toList_ofList] at hc
    exact (List.mem_append.mp hc).elim hdigit isNumberChar_of_mem_zeros
  · split at hc
    · rw [String.toList_ofList] at hc
      rcases List.mem_append.mp hc with hc | hc
      · exact hdigit (List.mem_of_mem_take hc)
      · rcases List.mem_cons.mp hc with rfl | hc
        · rfl
        · exact hdigit (List.mem_of_mem_drop hc)
    · rw [String.toList_ofList] at hc
      rcases List.mem_append.mp hc with hc | hc
      · rcases List.mem_cons.mp hc with rfl | hc
        · rfl
        · rcases List.mem_cons.mp hc with rfl | hc
          · rfl
          · exact isNumberChar_of_mem_zeros hc
      · exact hdigit hc

theorem isNumberText_signText {f : Number.Format} (x : Number.Binary f) :
    IsNumberText x.signText := by
  unfold Number.Binary.signText
  split
  · exact fun c hc => by rw [List.mem_singleton.mp hc]; rfl
  · exact fun c hc => by cases hc

theorem isNumberText_componentText (x : Number.Single) : IsNumberText (componentText x) := by
  unfold componentText
  split
  · exact .of_all (by decide)
  · next hnan =>
    split
    · exact (isNumberText_signText x).append (.of_all (by decide))
    · next hinf =>
      split
      · exact .of_all (by decide)
      · next hzero =>
        rw [Number.Binary.positional, if_neg hnan, if_neg hinf, if_neg hzero]
        exact (isNumberText_signText x).append (isNumberText_positional _)

theorem isNeutral_floatLiteral (x : Number.Single) : Text.isNeutral (floatLiteral x) = true := by
  have hx := isNumberText_componentText x
  unfold floatLiteral
  simp only
  split
  · exact (hx.append (.of_all (by decide))).isNeutral
  · exact (hx.append (.of_all (by decide))).isNeutral

theorem isNumberText_natRepr (n : Nat) : IsNumberText n.repr := by
  intro c hc
  rw [Nat.repr, String.toList_ofList] at hc
  exact isNumberChar_of_mem_toDigits hc

theorem isNumberText_intRepr (n : Int) : IsNumberText (toString n) := by
  rw [Int.toString_eq_repr, Int.repr_eq_if]
  split
  · exact isNumberText_natRepr _
  · refine IsNumberText.append (fun c hc => ?_) (isNumberText_natRepr _)
    rw [List.mem_singleton.mp hc]
    rfl

/-! ### Constants -/

theorem Text.Spelling.componentList {T : String → Prop} (h : Spelling T)
    (xs : List Number.Single) : T (componentList xs) := by
  refine h.intercalate fun text ht => ?_
  obtain ⟨x, -, rfl⟩ := List.mem_map.mp ht
  exact h.neutral (isNumberText_componentText x).isNeutral

/-- A constant in program text, if the names of the types are spelled well. -/
theorem Text.Spelling.literal {T : String → Prop} (h : Spelling T) {types : TypeTable}
    (hn : ∀ t, T (types.name t)) (c : Constant) : T (c.literal types) := by
  have hvec (t : ShaderType) (xs : List Number.Single) :
      T (vectorLiteral (types.name t) xs) := by
    unfold vectorLiteral
    exact h.trail (h.join (hn t) (h.componentList xs) (by decide)) (by decide)
  cases c with
  | bool b =>
    have hb : isNeutral (if b then "true" else "false") = true := by
      revert b
      decide
    exact h.neutral hb
  | int n => exact h.neutral (isNumberText_intRepr _).isNeutral
  | float x => exact h.neutral (isNeutral_floatLiteral x)
  | vector2 v => exact hvec _ _
  | vector3 v => exact hvec _ _
  | vector4 v => exact hvec _ _
  | color v => exact hvec _ _

end MaterialGraph
