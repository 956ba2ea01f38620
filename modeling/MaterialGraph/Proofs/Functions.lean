import MaterialGraph.Proofs.Locals
import MaterialGraph.Proofs.Registration

/-!
# Functions are registered by name and text

The table of functions is filled from source texts, and the name of a function is read off its text:
it is the last word in front of the first parenthesis. `Text.Declares` says so without scanning, and
the scan finds a name exactly if the text declares it.

In tables that any sequence of registrations has filled, a name has at most one entry, and its text
is the first one of the sequence that declares the name. So a registration succeeds just if the text
declares a name under which no other text is stored. The text that a custom function builds from its
settings declares the name that the settings have, whatever the statements and the arguments are.

## Main results

* `Text.lastWord?_eq_some_iff`, `Text.declaredName?_eq_some_iff` — the scan and the place agree.
* `Registration.registerAll_functions` — the functions of a name after any registrations.
* `FunctionSettings.declares_declaration` — the text of a custom function declares its name.
* `Registration.functions_by_name_and_text` — what registering a function gives.
-/

namespace MaterialGraph

open Text

/-! ### Where a name stands -/

namespace Text

variable {body name : String}

/-- A source text without the blanks around it. -/
def trimmed (source : String) : String := String.ofList (trim source.toList)

/-- No word runs on from the text into what stands after it: it is empty or ends in a blank. -/
def EndsBlank (cs : List Char) : Prop := ∀ c ∈ cs.getLast?, isBlank c = true

/-- The source text declares a function of the name: the name is an identifier, and the last word in
front of the first parenthesis. -/
structure Declares (body name : String) : Prop where
  identifier : isIdentifier name = true
  /-- It stands as a word of its own, with at most blanks between it and the first parenthesis. -/
  place : ∃ before gap rest : List Char,
    body.toList = before ++ name.toList ++ gap ++ '(' :: rest ∧ EndsBlank before ∧
      (∀ c ∈ gap, isBlank c = true) ∧ '(' ∉ before

/-- What is left after dropping from a text that is written back to front ends in a blank, if only
blanks stop the dropping. -/
theorem endsBlank_dropWhile (cs : List Char) :
    EndsBlank (cs.dropWhile (!isBlank ·)).reverse := by
  intro c hc
  rw [List.getLast?_reverse] at hc
  have hstop := List.head?_dropWhile_not (!isBlank ·) cs
  rw [Option.mem_def.mp hc] at hstop
  simpa using hstop

/-- The characters in front of the last word stop the reading of it. -/
theorem takeWhile_reverse_of_endsBlank {before : List Char} (h : EndsBlank before) :
    before.reverse.takeWhile (!isBlank ·) = [] := by
  cases hr : before.reverse with
  | nil => rfl
  | cons c cs =>
    have hc : isBlank c = true := h c (by rw [← List.head?_reverse, hr]; rfl)
    exact List.takeWhile_cons_of_neg (by simp [hc])

/-- **The last word of a text** is a run of characters that are not blank, after a blank or at the
start, with blanks alone behind it. -/
theorem lastWord?_eq_some_iff {cs word : List Char} :
    lastWord? cs = some word ↔ word ≠ [] ∧ (∀ c ∈ word, isBlank c = false) ∧
      ∃ before gap, cs = before ++ word ++ gap ∧ EndsBlank before ∧
        ∀ c ∈ gap, isBlank c = true := by
  -- an empty run stands for no word at all
  have hread : lastWord? cs = some word ↔
      word ≠ [] ∧ ((trimEnd cs).reverse.takeWhile (!isBlank ·)).reverse = word := by
    unfold lastWord?
    split
    · next hnil =>
      rw [hnil]
      refine ⟨fun h => ?_, fun h => absurd h.2.symm h.1⟩
      cases h
    · next hne =>
      rw [Option.some.injEq]
      exact ⟨fun h => ⟨h ▸ hne, h⟩, fun h => h.2⟩
  rw [hread]
  refine and_congr_right fun hne => ⟨?_, ?_⟩
  · rintro rfl
    refine ⟨fun c hc => ?_, ((trimEnd cs).reverse.dropWhile (!isBlank ·)).reverse,
      (cs.reverse.takeWhile isBlank).reverse, ?_, endsBlank_dropWhile _, fun c hc => ?_⟩
    · simpa using List.all_eq_true.mp List.all_takeWhile c (List.mem_reverse.mp hc)
    · -- the blanks at the end, the word and what is left make up the text
      rw [← List.reverse_append, List.takeWhile_append_dropWhile, List.reverse_reverse, trimEnd,
        ← List.reverse_append, List.takeWhile_append_dropWhile, List.reverse_reverse]
    · exact List.all_eq_true.mp List.all_takeWhile c (List.mem_reverse.mp hc)
  · rintro ⟨hword, before, gap, rfl, hbefore, hgap⟩
    -- just the blanks behind the word are cut off
    have hend : trimEnd (before ++ word ++ gap) = before ++ word := by
      cases hr : word.reverse with
      | nil => exact absurd (List.reverse_eq_nil_iff.mp hr) hne
      | cons c r =>
        have hc : isBlank c = false := hword c (List.mem_reverse.mp (hr ▸ List.mem_cons_self))
        rw [trimEnd, List.reverse_append,
          List.dropWhile_append_of_pos (fun c hc => hgap c (List.mem_reverse.mp hc)),
          List.reverse_append, hr, List.cons_append,
          List.dropWhile_cons_of_neg (by simp [hc]), ← List.cons_append, ← hr,
          ← List.reverse_append, List.reverse_reverse]
    rw [hend, List.reverse_append,
      List.takeWhile_append_of_pos (fun c hc => by simpa using hword c (List.mem_reverse.mp hc)),
      takeWhile_reverse_of_endsBlank hbefore, List.append_nil, List.reverse_reverse]

/-- **The name that is found in a source text is the one that it declares.** -/
theorem declaredName?_eq_some_iff :
    declaredName? body = some name ↔ Declares body name := by
  have hfind : declaredName? body = some name ↔ '(' ∈ body.toList ∧ isIdentifier name = true ∧
      lastWord? (body.toList.takeWhile (· != '(')) = some name.toList := by
    unfold declaredName?
    by_cases hopen : '(' ∈ body.toList
    · rw [if_pos (List.contains_iff_mem.mpr hopen)]
      cases lastWord? (body.toList.takeWhile (· != '(')) with
      | none => simp
      | some word => grind [String.toList_ofList, String.ofList_toList]
    · rw [if_neg (by simpa using hopen)]
      simp [hopen]
  rw [hfind]
  constructor
  · rintro ⟨hopen, hid, hlast⟩
    obtain ⟨-, -, before, gap, hhead, hbefore, hgap⟩ := lastWord?_eq_some_iff.mp hlast
    have hno : '(' ∉ body.toList.takeWhile (· != '(') := fun h => by
      have hstop := List.all_eq_true.mp List.all_takeWhile _ h
      cases hstop
    refine ⟨hid, before, gap, (body.toList.dropWhile (· != '(')).tail, ?_, hbefore, hgap,
      fun h => hno (by rw [hhead]; simp [h])⟩
    -- what is left after the first parenthesis is reached starts with it
    have hrest : body.toList.dropWhile (· != '(') =
        '(' :: (body.toList.dropWhile (· != '(')).tail := by
      cases hd : body.toList.dropWhile (· != '(') with
      | nil =>
        rw [← List.takeWhile_append_dropWhile (p := (· != '(')) (l := body.toList), hd,
          List.append_nil] at hopen
        exact absurd hopen hno
      | cons c cs =>
        have hstop := List.head?_dropWhile_not (· != '(') body.toList
        rw [hd] at hstop
        have hc : c = '(' := by simpa using hstop
        rw [hc, List.tail_cons]
    rw [← hhead, ← hrest, List.takeWhile_append_dropWhile]
  · rintro ⟨hid, before, gap, rest, hbody, hbefore, hgap, hno⟩
    obtain ⟨hword, hne⟩ := isWord_of_isIdentifier hid
    have hhead : ∀ c ∈ before ++ name.toList ++ gap, (c != '(') = true := by
      intro c hc
      rw [bne_iff_ne]
      rintro rfl
      rcases List.mem_append.mp hc with hc | hc
      · rcases List.mem_append.mp hc with hc | hc
        · exact hno hc
        · exact absurd (hword _ hc) (by decide)
      · exact absurd (hgap _ hc) (by decide)
    refine ⟨by rw [hbody]; simp, hid, ?_⟩
    rw [hbody, (takeWhile_split (c := '(') hhead rfl rest).1]
    exact lastWord?_eq_some_iff.mpr
      ⟨hne, fun c hc => isBlank_of_isWordChar (hword c hc), before, gap, rfl, hbefore, hgap⟩

/-- The text itself, if it declares the name. -/
def textNamed? (name body : String) : Option String :=
  if declaredName? body = some name then some body else none

theorem textNamed?_of_declares (h : Declares body name) :
    textNamed? name body = some body :=
  if_pos (declaredName?_eq_some_iff.mpr h)

theorem textNamed?_of_not_declares (h : ¬Declares body name) :
    textNamed? name body = none :=
  if_neg (mt declaredName?_eq_some_iff.mp h)

/-- A text declares one name at most. -/
theorem Declares.unique {other : String} (h : Declares body name) (h' : Declares body other) :
    name = other :=
  Option.some.inj ((declaredName?_eq_some_iff.mpr h).symm.trans (declaredName?_eq_some_iff.mpr h'))

end Text

/-! ### One registration -/

namespace Globals

variable {g : Globals} {name : String} {stored : Option Function}

/-- The ways in which the registration of a function ends, for the text without the blanks around
it. -/
inductive AddsFunction (g : Globals) (body : String) : Except Fault String × Globals → Prop where
  | nameless (h : ∀ name, ¬Declares body name) :
      AddsFunction g body (.error (.message "function body has no valid declaration"), g)
  | stored {name : String} (h : Declares body name) (f : Function)
      (hf : g.functions.find? (·.name == name) = some f) (hbody : f.body = body) :
      AddsFunction g body (.ok name, g)
  /-- Another text is stored under the name. -/
  | taken {name : String} (h : Declares body name) (f : Function)
      (hf : g.functions.find? (·.name == name) = some f) (hbody : f.body ≠ body) :
      AddsFunction g body (.error (.duplicateName name), g)
  | fresh {name : String} (h : Declares body name)
      (hnone : g.functions.find? (·.name == name) = none) :
      AddsFunction g body (.ok name, { g with functions := g.functions ++ [{ name, body }] })

/-- The functions with a name. -/
def functionsNamed (g : Globals) (name : String) : List Function :=
  g.functions.filter (·.name == name)

theorem addFunction_adds (g : Globals) (source : String) :
    g.AddsFunction (trimmed source) (g.addFunction source) := by
  unfold addFunction
  rw [← trimmed]
  dsimp only
  split
  · next hnone =>
    refine .nameless fun name h => ?_
    rw [declaredName?_eq_some_iff.mpr h] at hnone
    cases hnone
  · next name hname =>
    have h := declaredName?_eq_some_iff.mp hname
    split
    · next f hf =>
      split
      · next hbody => exact .stored h f hf hbody
      · next hbody => exact .taken h f hf hbody
    · next hnone => exact .fresh h hnone

/-- A name has one function at most. -/
def OnePerName (g : Globals) : Prop :=
  ∀ name, ∃ stored : Option Function, g.functionsNamed name = stored.toList

/-- The lookup finds the one function of a name. -/
theorem find?_eq_of_functionsNamed (h : g.functionsNamed name = stored.toList) :
    g.functions.find? (·.name == name) = stored := by
  rw [← List.head?_filter]
  show (g.functionsNamed name).head? = stored
  rw [h, Option.head?_toList]

/-- Registering a text adds it under a name if nothing is there and the text declares the name. -/
theorem addFunction_functionsNamed (h : g.functionsNamed name = stored.toList) (source : String) :
    (g.addFunction source).2.functionsNamed name =
      (stored.or ((textNamed? name (trimmed source)).map (Function.mk name))).toList := by
  have hfind := find?_eq_of_functionsNamed h
  have hadds := g.addFunction_adds source
  generalize g.addFunction source = x at hadds ⊢
  generalize trimmed source = body at hadds ⊢
  -- a text that does not declare the name changes nothing, nor does one that finds the name
  have hkept (hd : Declares body name → stored.isSome = true) :
      stored.or ((textNamed? name body).map (Function.mk name)) = stored := by
    by_cases hdeclared : Declares body name
    · exact Option.or_eq_left_of_isSome (hd hdeclared)
    · rw [textNamed?_of_not_declares hdeclared, Option.map_none, Option.or_none]
  cases hadds with
  | nameless hno => rw [hkept fun hd => absurd hd (hno name), h]
  | stored hd f hf hbody =>
    rw [hkept fun hd' => by rw [← hfind, ← hd.unique hd', hf, Option.isSome_some], h]
  | taken hd f hf hbody =>
    rw [hkept fun hd' => by rw [← hfind, ← hd.unique hd', hf, Option.isSome_some], h]
  | @fresh other hd hnone =>
    rw [functionsNamed, List.filter_append, ← functionsNamed, h]
    by_cases he : other = name
    · subst he
      obtain rfl : stored = none := hfind.symm.trans hnone
      rw [textNamed?_of_declares hd]
      simp
    · rw [hkept fun hd' => absurd (hd.unique hd') he]
      simp [he]

theorem OnePerName.find?_of_mem (h : g.OnePerName) {f : Function} (hf : f ∈ g.functions)
    (hname : f.name = name) :
    g.functions.find? (·.name == name) = some f := by
  obtain ⟨stored, hstored⟩ := h name
  have hmem : f ∈ g.functionsNamed name := List.mem_filter.mpr ⟨hf, beq_iff_eq.mpr hname⟩
  rw [find?_eq_of_functionsNamed hstored]
  rw [hstored] at hmem
  exact Option.mem_toList.mp hmem

theorem OnePerName.addFunction_ok_iff (h : g.OnePerName) (source name : String) :
    (g.addFunction source).1 = .ok name ↔ Declares (trimmed source) name ∧
      ∀ f ∈ g.functions, f.name = name → f.body = trimmed source := by
  have hadds := g.addFunction_adds source
  generalize g.addFunction source = x at hadds ⊢
  generalize trimmed source = body at hadds ⊢
  constructor
  · intro hok
    cases hadds with
    | nameless hno => cases hok
    | taken hd f hf hbody => cases hok
    | stored hd f hf hbody =>
      cases hok
      refine ⟨hd, fun f' hf' hname => ?_⟩
      obtain rfl : f = f' := Option.some.inj (hf.symm.trans (h.find?_of_mem hf' hname))
      exact hbody
    | fresh hd hnone =>
      cases hok
      refine ⟨hd, fun f' hf' hname => ?_⟩
      rw [h.find?_of_mem hf' hname] at hnone
      cases hnone
  · rintro ⟨hd, hall⟩
    cases hadds with
    | nameless hno => exact absurd hd (hno name)
    | stored hd' f hf hbody => exact congrArg Except.ok (hd'.unique hd)
    | fresh hd' hnone => exact congrArg Except.ok (hd'.unique hd)
    | taken hd' f hf hbody =>
      obtain rfl := hd'.unique hd
      have hname := List.find?_some hf
      exact absurd (hall f (List.mem_of_find?_eq_some hf) (beq_iff_eq.mp hname)) hbody

/-- The tables store functions by name and exact text. -/
structure StoresByText (g : Globals) : Prop where
  /-- A text registers under a name just if it declares the name and no other text is stored
  there. -/
  ok_iff : ∀ source name, (g.addFunction source).1 = .ok name ↔ Declares (trimmed source) name ∧
    ∀ f ∈ g.functions, f.name = name → f.body = trimmed source
  /-- Then the text is the one function of the name, and other names have what they had. -/
  stored : ∀ source name, (g.addFunction source).1 = .ok name →
    (g.addFunction source).2.functionsNamed name = [{ name, body := trimmed source }] ∧
      ∀ other, other ≠ name →
        (g.addFunction source).2.functionsNamed other = g.functionsNamed other
  /-- If another text is stored under the name, the registration fails and changes nothing. -/
  clash : ∀ source name, Declares (trimmed source) name →
    (∃ f ∈ g.functions, f.name = name ∧ f.body ≠ trimmed source) →
    g.addFunction source = (.error (.duplicateName name), g)
  /-- If the text declares no name, the registration fails and changes nothing. -/
  nameless : ∀ source, (∀ name, ¬Declares (trimmed source) name) →
    g.addFunction source = (.error (.message "function body has no valid declaration"), g)

/-- Tables that have one function of a name at most store functions by text. -/
theorem OnePerName.storesByText (h : g.OnePerName) : g.StoresByText where
  ok_iff := h.addFunction_ok_iff
  stored source name hok := by
    obtain ⟨hd, hall⟩ := (h.addFunction_ok_iff source name).mp hok
    refine ⟨?_, fun other hne => ?_⟩
    · obtain ⟨entry, hentry⟩ := h name
      rw [addFunction_functionsNamed hentry, textNamed?_of_declares hd]
      cases entry with
      | none => rfl
      | some f =>
        -- the function that is there has the text
        have hf : f ∈ g.functionsNamed name := by rw [hentry]; simp
        obtain ⟨hmem, hname⟩ := List.mem_filter.mp hf
        have hname := beq_iff_eq.mp hname
        rw [← hall f hmem hname, ← hname]
        rfl
    · obtain ⟨entry, hentry⟩ := h other
      rw [addFunction_functionsNamed hentry,
        textNamed?_of_not_declares fun hd' => hne (hd'.unique hd), Option.map_none,
        Option.or_none, hentry]
  clash source name hd hother := by
    obtain ⟨f, hmem, hname, hne⟩ := hother
    have hfound := h.find?_of_mem hmem hname
    have hadds := g.addFunction_adds source
    generalize g.addFunction source = x at hadds ⊢
    generalize trimmed source = body at hadds hd hne
    cases hadds with
    | nameless hno => exact absurd hd (hno name)
    | stored hd' f' hf' hbody =>
      obtain rfl := hd'.unique hd
      obtain rfl : f' = f := Option.some.inj (hf'.symm.trans hfound)
      exact absurd hbody hne
    | taken hd' f' hf' hbody => rw [hd'.unique hd]
    | fresh hd' hnone =>
      obtain rfl := hd'.unique hd
      cases hnone.symm.trans hfound
  nameless source hno := by
    have hadds := g.addFunction_adds source
    generalize g.addFunction source = x at hadds ⊢
    cases hadds with
    | nameless => rfl
    | stored hd => exact absurd hd (hno _)
    | taken hd => exact absurd hd (hno _)
    | fresh hd => exact absurd hd (hno _)

end Globals

/-! ### Sequences of registrations -/

namespace Registration

/-- The text, without the blanks around it, of the function that a registration asks for, if it has
the name. -/
def textOf? (name : String) : Registration → Option String
  | .function source => textNamed? name (trimmed source)
  | _ => none

/-- Nothing but the registration of a function touches the functions. -/
theorem register_functions {r : Registration} (h : ∀ source, r ≠ .function source)
    (types : TypeTable) (g : Globals) : (r.register types g).2.functions = g.functions := by
  refine register_keeps (G := fun g' => g'.functions = g.functions) (fun hchange he => ?_) rfl
  cases hchange with
  | @function _ source _ _ => exact absurd rfl (h source)
  | _ => exact he

/-- One registration adds a function of the name if there is none and the text declares it. -/
theorem register_functionsNamed (types : TypeTable) {g : Globals} {name : String}
    {stored : Option Function} (h : g.functionsNamed name = stored.toList) (r : Registration) :
    (r.register types g).2.functionsNamed name =
      (stored.or ((r.textOf? name).map (Function.mk name))).toList := by
  by_cases hr : ∃ source, r = .function source
  · obtain ⟨source, rfl⟩ := hr
    rw [register, textOf?]
    exact Globals.addFunction_functionsNamed h source
  · have hkeep := register_functions (fun source he => hr ⟨source, he⟩) types g
    have hother : r.textOf? name = none := by
      cases r with
      | function source => exact absurd ⟨source, rfl⟩ hr
      | _ => rfl
    rw [hother, Option.map_none, Option.or_none, ← h, Globals.functionsNamed, hkeep,
      Globals.functionsNamed]

/-- **A name has one function at most after any registrations**, with the first text that declares
it. -/
theorem registerAll_functions (types : TypeTable) (rs : List Registration) (name : String) :
    (registerAll types rs {}).functionsNamed name =
      ((rs.findSome? (textOf? name)).map (Function.mk name)).toList := by
  -- the tables may hold a function of the name to begin with
  have hrun (g : Globals) (stored : Option Function) (h : g.functionsNamed name = stored.toList) :
      (registerAll types rs g).functionsNamed name =
        (stored.or ((rs.findSome? (textOf? name)).map (Function.mk name))).toList := by
    induction rs generalizing g stored with
    | nil => simpa using h
    | cons r rs ih =>
      have hstep := ih _ _ (register_functionsNamed types h r)
      rw [List.findSome?_cons]
      cases hr : r.textOf? name with
      | none => simpa [hr] using hstep
      | some text =>
        rw [hr, Option.map_some, Option.or_assoc, Option.some_or] at hstep
        exact hstep
  exact hrun {} none rfl

end Registration

/-! ### Custom functions -/

namespace FunctionSettings

/-- The text of a function has no blanks around it. -/
theorem trimmed_declaration (s : FunctionSettings) :
    trimmed (s.declaration .builtin) = s.declaration .builtin := by
  obtain ⟨more, hlist⟩ := s.declaration_toList .builtin
  obtain ⟨-, hne, htype⟩ := TypeTable.builtin_name s.resultType
  have htrim : trim (s.declaration .builtin).toList = (s.declaration .builtin).toList := by
    rw [hlist]
    cases ht : (TypeTable.builtin.name s.resultType).toList with
    | nil => exact absurd ht hne
    | cons c cs =>
      have hc : isBlank c = false := (htype c (ht ▸ List.mem_cons_self)).2.2
      have hends := trim_of_ends hc (d := '\x7d') (by decide)
        (cs ++ ' ' :: (s.name.toList ++ '(' :: more))
      simpa using hends
  rw [trimmed, htrim, String.ofList_toList]

/-- **The text of a function without errors declares the name of the function.** -/
theorem declares_declaration {s : FunctionSettings} (h : s.errors = []) :
    Declares (s.declaration .builtin) s.name := by
  rw [← declaredName?_eq_some_iff]
  have hname := declaredName?_declaration (isIdentifier_name h)
  rwa [← trimmed, s.trimmed_declaration] at hname

end FunctionSettings

namespace Registration

/-- **Functions are registered by name and exact text.** Tables that any sequence of registrations
has filled store functions by text, and a name has the first text of the sequence that declares it.
There a custom function without errors registers under its own name whatever its statements and its
arguments are, unless another text is stored under that name. -/
theorem functions_by_name_and_text (types : TypeTable) (rs : List Registration) :
    (registerAll types rs {}).StoresByText ∧
    (∀ name, (registerAll types rs {}).functionsNamed name =
      ((rs.findSome? (textOf? name)).map (Function.mk name)).toList) ∧
    ∀ s : FunctionSettings, s.errors = [] →
      (∃ g', (registerAll types rs {}).addFunction (s.declaration .builtin) = (.ok s.name, g') ∧
        g'.functionsNamed s.name = [{ name := s.name, body := s.declaration .builtin }]) ∨
      ((registerAll types rs {}).addFunction (s.declaration .builtin) =
          (.error (.duplicateName s.name), registerAll types rs {}) ∧
        ∃ f ∈ (registerAll types rs {}).functions,
          f.name = s.name ∧ f.body ≠ s.declaration .builtin) := by
  have hone : (registerAll types rs {}).OnePerName :=
    fun name => ⟨_, registerAll_functions types rs name⟩
  have hstores := hone.storesByText
  refine ⟨hstores, registerAll_functions types rs, fun s hs => ?_⟩
  have hd : Declares (trimmed (s.declaration .builtin)) s.name := by
    rw [s.trimmed_declaration]
    exact FunctionSettings.declares_declaration hs
  by_cases hother : ∃ f ∈ (registerAll types rs {}).functions,
      f.name = s.name ∧ f.body ≠ s.declaration .builtin
  · refine .inr ⟨hstores.clash _ _ hd ?_, hother⟩
    rw [s.trimmed_declaration]
    exact hother
  · have hok := (hstores.ok_iff (s.declaration .builtin) s.name).mpr ⟨hd, fun f hf hname => by
      rw [s.trimmed_declaration]
      exact Decidable.not_not.mp fun hbody => hother ⟨f, hf, hname, hbody⟩⟩
    have hentry := (hstores.stored _ _ hok).1
    rw [s.trimmed_declaration] at hentry
    exact .inl ⟨_, by rw [← hok], hentry⟩

/-- A function with calls and stray blanks in its statements. -/
def tint : FunctionSettings :=
  { name := "Tint", body := " \t\r\n  float k = Gain( 2 ) ;\n\n return ( c ) * k; \n",
    resultType := .color, arguments := [{ name := "c", type := .color }] }

/-- Registrations of a function, of another one that is called like the tint, and of the tint. -/
def tints : List Registration :=
  [.function "float Gain( float x ) \x7b return x; \x7d",
    .function "\n float4 Tint( float4 c ) \x7b return c; \x7d ",
    .function (tint.declaration .builtin)]

/-- The tint is registered after the first function. After the other one of its name it is refused,
and the first text stays. -/
theorem functions_by_name_and_text_tint : tint.errors = [] ∧
    (∃ g', (registerAll .builtin (tints.take 1) {}).addFunction (tint.declaration .builtin) =
        (.ok "Tint", g') ∧
      g'.functionsNamed "Tint" = [{ name := "Tint", body := tint.declaration .builtin }]) ∧
    (registerAll .builtin tints {}).addFunction (tint.declaration .builtin) =
      (.error (.duplicateName "Tint"), registerAll .builtin tints {}) ∧
    (registerAll .builtin tints {}).functionsNamed "Tint" =
      [{ name := "Tint", body := "float4 Tint( float4 c ) \x7b return c; \x7d" }] := by
  have herrors : tint.errors = [] := by decide
  obtain ⟨-, hnamed, htint⟩ := functions_by_name_and_text .builtin tints
  refine ⟨herrors, ?_, ?_, (hnamed "Tint").trans (by decide +kernel)⟩
  · rcases (functions_by_name_and_text .builtin (tints.take 1)).2.2 tint herrors with
      h | ⟨-, f, hf, hname, -⟩
    · exact h
    · have hothers : ∀ f ∈ (registerAll .builtin (tints.take 1) {}).functions, f.name ≠ "Tint" := by
        decide +kernel
      exact absurd hname (hothers f hf)
  · rcases htint tint herrors with ⟨g', hok, -⟩ | ⟨hclash, -⟩
    · have hrefused : ((registerAll .builtin tints {}).addFunction (tint.declaration .builtin)).1 =
          .error (.duplicateName "Tint") := by decide +kernel
      rw [hok] at hrefused
      cases hrefused
    · exact hclash

end Registration

end MaterialGraph
