import MaterialGraph.Proofs.Discipline

/-!
# Local variables in program text

A line of a stage declares a local variable if it starts with the name of a type, a blank
and the variable, and goes on with its value or ends. Every other local variable that is
named in the line is used there. Lines are *scoped* if each variable is declared in front
of the lines that use it.

Everything here is about lines as they stand in the program, not about what they were
made from; what is shown is that the lines of statements are scoped if the texts in the
statements are.

## Main definitions

* `Text.Knows` — texts that name none but given variables.
* `TypeTable.declared`, `TypeTable.used` — the variables of a line.
* `TypeTable.Scoped` — lines that use what has been declared.
* `TypeTable.IsBlock` — the lines that belong together.
* `TypeTable.UsesOnly` — lines that declare nothing.
* `Statement.Ordered` — statements that use what has been declared.

## Main results

* `Text.Knows.spelling` — such texts can be put together.
* `TypeTable.declaration?_declares`, `TypeTable.declaration?_eq_none` — the lines that
  declare a variable, and those that do not.
* `Statement.Ordered.scoped` — the lines of ordered statements are scoped.
-/

namespace MaterialGraph

open Text

/-! ### The names of variables -/

/-- The number of a variable can be read off its name. -/
theorem ofDigitChars_localName (n : Nat) :
    Nat.ofDigitChars 10 ((localName n).toList.drop 2) 0 = n := by
  rw [localName_toList, Nat.toString_eq_repr, Nat.repr, String.toList_ofList]
  exact Nat.ofDigitChars_toDigits (by decide) (by decide)

theorem localName_injective {m n : Nat} (h : localName m = localName n) : m = n := by
  rw [← ofDigitChars_localName m, h, ofDigitChars_localName n]

theorem isLocalWord_localName (n : Nat) : isLocalWord (localName n) = true := by
  have hd : ∀ c ∈ (toString n).toList, c.isDigit = true := by
    intro c hc
    rw [Nat.toString_eq_repr, Nat.repr, String.toList_ofList] at hc
    exact Nat.isDigit_of_mem_toDigits (by decide) (by decide) hc
  have hne : (toString n).toList ≠ [] := by
    rw [Nat.toString_eq_repr, Nat.repr, String.toList_ofList]
    exact Nat.toDigits_ne_nil
  unfold isLocalWord
  rw [localName_toList]
  cases hl : (toString n).toList with
  | nil => exact absurd hl hne
  | cons c cs => exact List.all_eq_true.mpr (hl ▸ hd)

theorem words_localName (n : Nat) : words (localName n) = [localName n] :=
  words_of_all (by rw [localName_toList]; simp) (isWord_localName n)

namespace Text

/-- A text cut in front of the first character that is not of the given kind. -/
theorem takeWhile_split {p : Char → Bool} {cs : List Char} {c : Char}
    (hcs : ∀ x ∈ cs, p x = true) (hc : p c = false) (ds : List Char) :
    (cs ++ c :: ds).takeWhile p = cs ∧ (cs ++ c :: ds).dropWhile p = c :: ds := by
  have hc' : ¬p c = true := by simp [hc]
  rw [List.takeWhile_append_of_pos hcs, List.dropWhile_append_of_pos hcs,
    List.takeWhile_cons_of_neg hc', List.dropWhile_cons_of_neg hc', List.append_nil]
  exact ⟨rfl, rfl⟩

/-- The local variables that a text names, in order. -/
def localWords (text : String) : List String := (words text).filter (isLocalWord ·)

theorem localWords_append {a b : String} (h : endsOpen a = true ∨ startsOpen b = true) :
    localWords (a ++ b) = localWords a ++ localWords b := by
  unfold localWords
  rw [words_append h, List.filter_append]

/-- A text on one line that names no local variables but those with the given numbers. -/
def Knows (known : List Nat) (text : String) : Prop :=
  '\n' ∉ text.toList ∧ ∀ w ∈ localWords text, w ∈ known.map localName

namespace Knows

variable {known known' : List Nat}

theorem of_isPlain {text : String} (h : isPlain text = true) : Knows known text := by
  unfold isPlain at h
  rw [Bool.and_eq_true, List.all_eq_true, List.all_eq_true] at h
  refine ⟨fun hn => by simpa using h.2 _ hn, fun w hw => ?_⟩
  obtain ⟨hw, hl⟩ := List.mem_filter.mp hw
  have hno := h.1 w hw
  rw [hl] at hno
  cases hno

/-- Such texts can be put together. -/
theorem spelling (known : List Nat) : Spelling (Knows known) where
  neutral h := of_isPlain (isPlain_of_isNeutral h)
  append ha hb h := by
    refine ⟨fun hn => ?_, fun w hw => ?_⟩
    · rw [String.toList_append] at hn
      exact (List.mem_append.mp hn).elim ha.1 hb.1
    · rw [localWords_append h] at hw
      exact (List.mem_append.mp hw).elim (ha.2 w) (hb.2 w)

theorem mono (h : ∀ n ∈ known, n ∈ known') {text : String} (ht : Knows known text) :
    Knows known' text := by
  refine ⟨ht.1, fun w hw => ?_⟩
  obtain ⟨n, hn, rfl⟩ := List.mem_map.mp (ht.2 w hw)
  exact List.mem_map_of_mem (h n hn)

theorem localName {n : Nat} (h : n ∈ known) : Knows known (localName n) := by
  refine ⟨fun hn => ?_, fun w hw => ?_⟩
  · have hw := isWord_localName n _ hn
    cases hw
  · unfold localWords at hw
    rw [words_localName] at hw
    rw [List.mem_singleton.mp (List.mem_filter.mp hw).1]
    exact List.mem_map_of_mem h

end Knows

end Text

/-! ### Lines -/

namespace TypeTable

variable {known : List Nat}

/-- The variable that a line declares, and what follows it in the line. -/
def declaration? (types : TypeTable) (line : String) : Option (String × String) :=
  let type := line.toList.takeWhile (· != ' ')
  let tail := (line.toList.dropWhile (· != ' ')).drop 1
  let name := String.ofList (tail.takeWhile isWordChar)
  let rest := tail.dropWhile isWordChar
  if (ShaderType.all.any fun t => (types.name t).toList == type) && isLocalWord name &&
      (" = ".toList.isPrefixOf rest || rest == [';']) then
    some (name, String.ofList rest)
  else none

/-- The variable that a line declares, if it declares one. -/
def declared (types : TypeTable) (line : String) : List String :=
  ((types.declaration? line).map Prod.fst).toList

/-- The variables that a line uses. -/
def used (types : TypeTable) (line : String) : List String :=
  match types.declaration? line with
  | some (_, rest) => localWords rest
  | none => localWords line

/-- Lines that use variables only where they have been declared, in the lines before or
among those known. -/
def Scoped (types : TypeTable) : (known lines : List String) → Prop
  | _, [] => True
  | known, line :: rest =>
    (∀ w ∈ types.used line, w ∈ known) ∧ types.Scoped (known ++ types.declared line) rest

@[simp] theorem scoped_nil (types : TypeTable) (known : List String) : types.Scoped known [] :=
  trivial

@[simp] theorem scoped_cons (types : TypeTable) (known : List String) (line : String)
    (rest : List String) : types.Scoped known (line :: rest) ↔
      (∀ w ∈ types.used line, w ∈ known) ∧ types.Scoped (known ++ types.declared line) rest :=
  .rfl

/-- The lines that belong together: a variable with its value, or a variable with the two
values that a feature decides between. -/
inductive IsBlock (types : TypeTable) : List String → Prop where
  | assign (t : ShaderType) (n : Nat) (code : String) :
      types.IsBlock [types.name t ++ " " ++ localName n ++ " = " ++ code ++ ";"]
  | select (t : ShaderType) (n : Nat) (combo on off : String) :
      types.IsBlock [types.name t ++ " " ++ localName n ++ ";", "#if " ++ combo,
        "    " ++ localName n ++ " = " ++ on ++ ";", "#else",
        "    " ++ localName n ++ " = " ++ off ++ ";", "#endif"]

@[simp] theorem scoped_append (types : TypeTable) (l l' : List String) :
    ∀ known, types.Scoped known (l ++ l') ↔
      types.Scoped known l ∧ types.Scoped (known ++ l.flatMap types.declared) l' := by
  induction l with
  | nil => intro known; simp
  | cons line l ih =>
    intro known
    rw [List.cons_append, scoped_cons, scoped_cons, ih, List.flatMap_cons, List.append_assoc,
      and_assoc]

/-- A line that starts with a type and a variable. -/
theorem declaration?_declares {types : TypeTable} {t : ShaderType} (n : Nat) {rest : String}
    (ht : ∀ c ∈ (types.name t).toList, c ≠ ' ')
    (hr : rest = ";" ∨ ∃ value, rest = " = " ++ value) :
    types.declaration? (types.name t ++ " " ++ localName n ++ rest) =
      some (localName n, rest) := by
  have hline : (types.name t ++ " " ++ localName n ++ rest).toList =
      (types.name t).toList ++ ' ' :: ((localName n).toList ++ rest.toList) := by
    simp [String.toList_append]
  have htype := takeWhile_split (p := (· != ' ')) (c := ' ') (fun c hc => by simpa using ht c hc)
    rfl ((localName n).toList ++ rest.toList)
  -- whatever follows the variable starts with a mark, so the variable ends there
  have hend : (" = ".toList.isPrefixOf rest.toList || rest.toList == [';']) = true ∧
      ∃ c cs, rest.toList = c :: cs ∧ isWordChar c = false := by
    rcases hr with rfl | ⟨value, rfl⟩
    · exact ⟨by decide, ';', [], rfl, by decide⟩
    · rw [String.toList_append]
      exact ⟨by simp, ' ', _, rfl, by decide⟩
  obtain ⟨hend, c, cs, hrest, hc⟩ := hend
  have hname := takeWhile_split (isWord_localName n) hc cs
  rw [← hrest] at hname
  have hany : (ShaderType.all.any fun t' => (types.name t').toList == (types.name t).toList) =
      true := List.any_eq_true.mpr ⟨t, t.mem_all, by simp⟩
  unfold declaration?
  simp only [hline, htype, List.drop_succ_cons, List.drop_zero, hname, String.ofList_toList, hany,
    isLocalWord_localName, hend, Bool.and_self, if_true]

/-- A line that starts with something else. -/
theorem declaration?_eq_none {types : TypeTable} {line : String} (head tail : String)
    (hl : line = head ++ " " ++ tail) (hh : head.toList.all (· != ' ') = true)
    (ht : ∀ t ∈ ShaderType.all, types.name t ≠ head) : types.declaration? line = none := by
  have hline : line.toList = head.toList ++ ' ' :: tail.toList := by
    rw [hl]
    simp [String.toList_append]
  have htype := takeWhile_split (c := ' ') (List.all_eq_true.mp hh) rfl tail.toList
  have hany : (ShaderType.all.any fun t => (types.name t).toList == head.toList) = false := by
    rw [List.any_eq_false]
    intro t hm heq
    exact ht t hm (String.toList_inj.mp (beq_iff_eq.mp heq))
  unfold declaration?
  simp only [hline, htype, hany, Bool.false_and]
  rfl

/-- The names of the standard types are neutral words. -/
theorem builtin_name (t : ShaderType) : isNeutral (builtin.name t) = true ∧
    (builtin.name t).toList ≠ [] ∧
    ∀ c ∈ (builtin.name t).toList, c ≠ ' ' ∧ c ≠ '(' ∧ isBlank c = false := by
  have hneutral : isNeutral (builtin.name t) = true ∧ (builtin.name t).toList ≠ [] := by
    cases t <;> decide
  have hmarks : ((builtin.name t).toList.all fun c => c != ' ' && c != '(' && !isBlank c) =
      true := by
    cases t <;> decide
  refine ⟨hneutral.1, hneutral.2, fun c hc => ?_⟩
  simpa [and_assoc] using List.all_eq_true.mp hmarks c hc

/-- A line that declares nothing and names known variables only. -/
def UsesOnly (known : List Nat) (line : String) : Prop :=
  Knows known line ∧ builtin.declaration? line = none

/-- Lines that declare nothing are scoped if they name known variables only. -/
theorem scoped_of_usesOnly {lines : List String} (h : ∀ line ∈ lines, UsesOnly known line) :
    builtin.Scoped (known.map localName) lines ∧ lines.flatMap builtin.declared = [] := by
  induction lines with
  | nil => exact ⟨trivial, rfl⟩
  | cons line lines ih =>
    obtain ⟨hk, hd⟩ := h line List.mem_cons_self
    obtain ⟨hs, hn⟩ := ih fun l hl => h l (List.mem_cons_of_mem _ hl)
    have hdecl : builtin.declared line = [] := by
      unfold declared
      rw [hd]
      rfl
    rw [scoped_cons, List.flatMap_cons, hdecl, List.append_nil, hn]
    refine ⟨⟨fun w hw => ?_, hs⟩, rfl⟩
    unfold used at hw
    rw [hd] at hw
    exact hk.2 w hw

/-- A line that starts with something else than a type. -/
theorem usesOnly_of_head {line : String} (head tail : String) (hk : Knows known line)
    (hl : line = head ++ " " ++ tail) (hh : head.toList.all (· != ' ') = true)
    (ht : ∀ t ∈ ShaderType.all, builtin.name t ≠ head) : UsesOnly known line :=
  ⟨hk, declaration?_eq_none head tail hl hh ht⟩

/-- A line that sets a known variable. -/
theorem usesOnly_set {n : Nat} {value : String} (hn : n ∈ known) (hv : Knows known value) :
    UsesOnly known ("    " ++ localName n ++ " = " ++ value ++ ";") := by
  have spell := Knows.spelling known
  refine usesOnly_of_head "" ("   " ++ localName n ++ " = " ++ value ++ ";")
    (spell.trail (spell.join (spell.lead (.localName hn) (by decide)) hv (by decide))
      (by decide)) ?_ (by decide) (by decide)
  rw [← String.toList_inj]
  simp [String.toList_append]

/-- A line that declares a variable uses those in its value. -/
theorem used_of_declares {rest : String} (hk : Knows known rest)
    (hr : rest = ";" ∨ ∃ value, rest = " = " ++ value) (t : ShaderType) (n : Nat) :
    (∀ w ∈ builtin.used (builtin.name t ++ " " ++ localName n ++ rest),
      w ∈ known.map localName) ∧
      builtin.declared (builtin.name t ++ " " ++ localName n ++ rest) = [localName n] ∧
      '\n' ∉ (builtin.name t ++ " " ++ localName n ++ rest).toList := by
  have hd : builtin.declaration? (builtin.name t ++ " " ++ localName n ++ rest) = _ :=
    declaration?_declares n (fun c hc => ((builtin_name t).2.2 c hc).1) hr
  have hstart : Knows [n] (builtin.name t ++ " " ++ localName n) :=
    (Knows.spelling [n]).join ((Knows.spelling [n]).neutral (builtin_name t).1)
      (.localName (by simp)) (by decide)
  unfold used declared
  rw [hd]
  refine ⟨hk.2, rfl, fun hn => ?_⟩
  rw [String.toList_append] at hn
  exact (List.mem_append.mp hn).elim hstart.1 hk.1

end TypeTable

/-! ### Statements -/

/-- The world in which texts may name the variables with the given numbers. -/
def World.knowing (known : List Nat) : World where
  text := Knows known
  shaped := False
  feature f := Knows known f.combo
  source source := ∀ name, declaredName? (String.ofList (trim source.toList)) = some name →
    isPlain name = true
  lost := True

namespace Statement

variable {statement : Statement}

/-- Statements that name only variables of the statements before, or known ones. -/
def Ordered (types : TypeTable) : (known : List Nat) → List Statement → Prop
  | _, [] => True
  | known, statement :: rest => (World.knowing known).Admits types statement.index statement ∧
      Ordered types (known ++ [statement.index]) rest

@[simp] theorem ordered_nil (types : TypeTable) (known : List Nat) : Ordered types known [] :=
  trivial

@[simp] theorem ordered_cons (types : TypeTable) (known : List Nat) (statement : Statement)
    (rest : List Statement) : Ordered types known (statement :: rest) ↔
      (World.knowing known).Admits types statement.index statement ∧
        Ordered types (known ++ [statement.index]) rest := .rfl

theorem ordered_concat (types : TypeTable) (l : List Statement) (statement : Statement) :
    ∀ known, Ordered types known (l ++ [statement]) ↔ Ordered types known l ∧
      (World.knowing (known ++ l.map index)).Admits types statement.index statement := by
  induction l with
  | nil => intro known; simp
  | cons first l ih =>
    intro known
    rw [List.cons_append, ordered_cons, ordered_cons, ih, List.map_cons, and_assoc,
      List.append_assoc, List.singleton_append]

/-- A statement that is admitted declares the next variable. -/
theorem index_of_admits {W : World} {types : TypeTable} {n : Nat} (h : W.Admits types n statement) :
    statement.index = n := by
  cases statement with
  | assign type index code => exact h.2.1
  | select type index combo on off => exact h.2.1

/-- The lines of a statement belong together, declare its variable, and use only known
ones. -/
theorem lines_scoped {known : List Nat}
    (h : (World.knowing known).Admits .builtin statement.index statement) :
    TypeTable.builtin.Scoped (known.map localName) statement.lines ∧
      statement.lines.flatMap TypeTable.builtin.declared = [localName statement.index] ∧
      TypeTable.builtin.IsBlock statement.lines ∧
      ∀ line ∈ statement.lines, '\n' ∉ line.toList := by
  cases statement with
  | assign type n code =>
    obtain ⟨⟨t, rfl⟩, -, hcode⟩ := h
    have spell := Knows.spelling known
    have hrest : Knows known (" = " ++ (code ++ ";")) :=
      spell.lead (spell.trail hcode (by decide)) (by decide)
    obtain ⟨hused, hdecl, hline⟩ :=
      TypeTable.used_of_declares hrest (.inr ⟨_, rfl⟩) t n
    have heq : (assign (TypeTable.builtin.name t) n code).lines =
        [TypeTable.builtin.name t ++ " " ++ localName n ++ (" = " ++ (code ++ ";"))] := by
      simp [lines, String.append_assoc]
    refine ⟨?_, ?_, .assign t n code, ?_⟩
    · rw [heq]
      exact ⟨hused, trivial⟩
    · rw [heq, List.flatMap_singleton]
      exact hdecl
    · rw [heq]
      simpa using hline
  | select type n combo on off =>
    obtain ⟨⟨t, rfl⟩, -, ⟨f, hcombo, rfl⟩, hon, hoff⟩ := h
    obtain ⟨hused, hdecl, hline⟩ :=
      TypeTable.used_of_declares (show Knows known ";" from .of_isPlain rfl) (.inl rfl) t n
    -- the variable is known in the lines after the first
    have hmono {text : String} : Knows known text → Knows (known ++ [n]) text :=
      .mono fun m hm => List.mem_append_left _ hm
    have hself : n ∈ known ++ [n] := by simp
    have hafter : ∀ line ∈ ["#if " ++ f.combo, "    " ++ localName n ++ " = " ++ on ++ ";", "#else",
        "    " ++ localName n ++ " = " ++ off ++ ";", "#endif"],
        TypeTable.UsesOnly (known ++ [n]) line := by
      have hif := (Knows.spelling (known ++ [n])).lead (hmono hcombo)
        (show isNeutral "#if " = true ∧ endsOpen "#if " = true by decide)
      simp only [List.forall_mem_cons]
      exact ⟨TypeTable.usesOnly_of_head "#if" f.combo hif rfl (by decide) (by decide),
        TypeTable.usesOnly_set hself (hmono hon), ⟨.of_isPlain (by decide), by decide⟩,
        TypeTable.usesOnly_set hself (hmono hoff), ⟨.of_isPlain (by decide), by decide⟩, by simp⟩
    obtain ⟨hscoped, hnone⟩ := TypeTable.scoped_of_usesOnly hafter
    refine ⟨⟨hused, ?_⟩, ?_, .select t n f.combo on off, ?_⟩
    · rw [hdecl, ← List.map_singleton, ← List.map_append]
      exact hscoped
    · show TypeTable.builtin.declared _ ++ List.flatMap _ _ = _
      rw [hdecl, hnone]
      rfl
    · intro line hl
      rcases List.mem_cons.mp hl with rfl | hl
      · exact hline
      · exact (hafter line hl).1.1

/-- **The lines of ordered statements are scoped**: they are blocks that declare the
variables of the statements one after the other. -/
theorem Ordered.scoped {l : List Statement} :
    ∀ {known : List Nat}, Ordered .builtin known l →
      TypeTable.builtin.Scoped (known.map localName) (statementLines l) ∧
      (statementLines l).flatMap TypeTable.builtin.declared = (l.map index).map localName ∧
      (∀ block ∈ l.map lines, TypeTable.builtin.IsBlock block) ∧
      ∀ line ∈ statementLines l, '\n' ∉ line.toList := by
  induction l with
  | nil => exact fun _ => ⟨trivial, rfl, by simp, by simp [statementLines]⟩
  | cons statement l ih =>
    rintro known ⟨hfirst, hrest⟩
    obtain ⟨hscoped, hdecl, hblock, hlines⟩ := lines_scoped hfirst
    obtain ⟨hscoped', hdecl', hblock', hlines'⟩ := ih hrest
    have heq : statementLines (statement :: l) = statement.lines ++ statementLines l := rfl
    rw [heq]
    refine ⟨?_, ?_, ?_, fun line hl => ?_⟩
    · rw [TypeTable.scoped_append, hdecl]
      rw [List.map_append] at hscoped'
      exact ⟨hscoped, hscoped'⟩
    · rw [List.flatMap_append, hdecl, hdecl']
      rfl
    · exact List.forall_mem_cons.mpr ⟨hblock, hblock'⟩
    · exact (List.mem_append.mp hl).elim (hlines line) (hlines' line)

end Statement

end MaterialGraph
