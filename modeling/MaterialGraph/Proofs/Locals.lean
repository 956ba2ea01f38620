import MaterialGraph.Proofs.Builtin
import MaterialGraph.Proofs.Scoping

/-!
# Local variables are scoped

In both stages of every program each local variable is declared in front of the lines
that use it. Together the stages declare as many variables as there are, each once, and
the lines of a declaration are never interrupted by others.

The only texts in the stages that users choose freely are the names of their functions,
so these must not look like local variables.

## Main results

* `FunctionSettings.declaredName?_declaration` — the function that is declared is the one
  that is named.
* `Pass.scoping_kept` — every step keeps the statements ordered.
* `Discipline.Kept.materialDraft`, `Discipline.Kept.previewDraft` — the last lines of a draft
  are made of good texts.
* `Draft.wellScoped` — drafts of ordered statements are well scoped.
* `Compiler.locals_scoped` — the variables of every draft are scoped.
-/

namespace MaterialGraph

open Text

/-! ### The names of functions -/

namespace Text

theorem isBlank_of_isWordChar {c : Char} (h : isWordChar c = true) : isBlank c = false := by
  have between {a b : Char} (hc : a.val ≤ c.val ∧ c.val ≤ b.val) (ha : 48 ≤ a.toNat)
      (hb : b.toNat ≤ 122) : 48 ≤ c.toNat ∧ c.toNat ≤ 122 :=
    ⟨Nat.le_trans ha (UInt32.le_iff_toNat_le.mp hc.1),
      Nat.le_trans (UInt32.le_iff_toNat_le.mp hc.2) hb⟩
  have hkind : ((c.isUpper = true ∨ c.isLower = true) ∨ c.isDigit = true) ∨ (c == '_') = true := by
    rw [← Bool.or_eq_true, ← Bool.or_eq_true, ← Bool.or_eq_true]
    exact h
  have hrange : 48 ≤ c.toNat ∧ c.toNat ≤ 122 := by
    rcases hkind with ((hc | hc) | hc) | hc
    · exact between (of_decide_eq_true hc) (by decide) (by decide)
    · have hc := Bool.and_eq_true_iff.mp hc
      exact between ⟨of_decide_eq_true hc.1, of_decide_eq_true hc.2⟩ (by decide) (by decide)
    · have hc := Bool.and_eq_true_iff.mp hc
      exact between ⟨of_decide_eq_true hc.1, of_decide_eq_true hc.2⟩ (by decide) (by decide)
    · rw [beq_iff_eq.mp hc]
      decide
  unfold isBlank blankRanges
  simp only [List.any_cons, List.any_nil, Bool.or_false, Bool.or_eq_false_iff,
    Bool.and_eq_false_iff, decide_eq_false_iff_not]
  omega

/-- A text between two characters that are not blank has nothing to trim. -/
theorem trim_of_ends {c d : Char} (hc : isBlank c = false) (hd : isBlank d = false)
    (cs : List Char) : trim (c :: (cs ++ [d])) = c :: (cs ++ [d]) := by
  unfold trim trimStart trimEnd
  rw [List.dropWhile_cons_of_neg (by simp [hc]), List.reverse_cons, List.reverse_append,
    List.reverse_singleton, List.singleton_append, List.cons_append,
    List.dropWhile_cons_of_neg (by simp [hd])]
  simp

/-- The last word of a text is what follows a blank. -/
theorem lastWord?_append {word : List Char} (hne : word ≠ [])
    (hw : ∀ c ∈ word, isBlank c = false) (cs : List Char) :
    lastWord? (cs ++ ' ' :: word) = some word := by
  have hrev : (cs ++ ' ' :: word).reverse = word.reverse ++ ' ' :: cs.reverse := by simp
  have htake : ((cs ++ ' ' :: word).reverse.takeWhile (!isBlank ·)).reverse = word := by
    rw [hrev, (takeWhile_split (fun c hc => by simpa using hw c (List.mem_reverse.mp hc))
      (by decide) cs.reverse).1, List.reverse_reverse]
  have htrim : trimEnd (cs ++ ' ' :: word) = cs ++ ' ' :: word := by
    unfold trimEnd
    rw [hrev]
    cases hr : word.reverse with
    | nil => exact absurd (List.reverse_eq_nil_iff.mp hr) hne
    | cons c r =>
      have hc : isBlank c = false := hw c (List.mem_reverse.mp (hr ▸ List.mem_cons_self))
      rw [List.cons_append, List.dropWhile_cons_of_neg (by simp [hc]), ← List.cons_append, ← hr,
        ← hrev, List.reverse_reverse]
  unfold lastWord?
  rw [htrim, htake]
  cases word with
  | nil => exact absurd rfl hne
  | cons c r => rfl

theorem isWord_of_isIdentifier {text : String} (h : isIdentifier text = true) :
    IsWord text ∧ text.toList ≠ [] := by
  unfold isIdentifier at h
  split at h
  · cases h
  · next c cs hl =>
    rw [Bool.and_eq_true, List.all_eq_true] at h
    refine ⟨fun d hd => ?_, by rw [hl]; simp⟩
    rw [hl] at hd
    rcases List.mem_cons.mp hd with rfl | hd
    · unfold isWordChar Char.isAlphanum
      rw [Bool.or_right_comm, h.1, Bool.true_or]
    · exact h.2 d hd

/-- The name in the text of a function, after its type and in front of its arguments. -/
theorem declaredName?_function {type : List Char} {name : String} (htne : type ≠ [])
    (htype : ∀ c ∈ type, c ≠ '(' ∧ isBlank c = false) (h : isIdentifier name = true)
    (more : List Char) :
    declaredName? (String.ofList
      (trim (type ++ ' ' :: (name.toList ++ '(' :: (more ++ ['\x7d']))))) = some name := by
  obtain ⟨hword, hne⟩ := isWord_of_isIdentifier h
  have htrim : trim (type ++ ' ' :: (name.toList ++ '(' :: (more ++ ['\x7d']))) =
      type ++ ' ' :: name.toList ++ '(' :: (more ++ ['\x7d']) := by
    cases type with
    | nil => exact absurd rfl htne
    | cons c cs =>
      have hends := trim_of_ends (htype c List.mem_cons_self).2 (d := '\x7d') (by decide)
        (cs ++ ' ' :: (name.toList ++ '(' :: more))
      simpa using hends
  have hno : ∀ c ∈ type ++ ' ' :: name.toList, (c != '(') = true := by
    intro c hc
    rw [bne_iff_ne]
    rcases List.mem_append.mp hc with hc | hc
    · exact (htype c hc).1
    · rcases List.mem_cons.mp hc with rfl | hc
      · decide
      · rintro rfl
        cases hword _ hc
  have hhead := (takeWhile_split (c := '(') hno rfl (more ++ ['\x7d'])).1
  have hlast := lastWord?_append hne (fun c hc => isBlank_of_isWordChar (hword c hc)) type
  unfold declaredName?
  simp only [htrim, String.toList_ofList, hhead, hlast, String.ofList_toList, h, if_true]
  rw [if_pos]
  simp

end Text

namespace FunctionSettings

/-- The text of a function starts with its type and its name, and ends with a brace. -/
theorem declaration_toList (types : TypeTable) (s : FunctionSettings) :
    ∃ more, (s.declaration types).toList =
      (types.name s.resultType).toList ++ ' ' :: (s.name.toList ++ '(' :: (more ++ ['\x7d'])) := by
  unfold declaration signature
  simp only
  split
  · refine ⟨(")\n\x7b\n" ++ joinLines ((lines (trim s.body.toList)).map bodyLine) ++
      "\n").toList, ?_⟩
    simp [String.toList_append]
  · refine ⟨(" " ++ ", ".intercalate
      (s.arguments.map fun a => types.name a.type ++ " " ++ a.name) ++ " )" ++ "\n\x7b\n" ++
      joinLines ((lines (trim s.body.toList)).map bodyLine) ++ "\n").toList, ?_⟩
    simp [String.toList_append]

/-- A function without errors has a name that can be used. -/
theorem isIdentifier_name {s : FunctionSettings} (h : s.errors = []) :
    isIdentifier s.name = true := by
  unfold errors at h
  rw [List.append_eq_nil_iff, List.append_eq_nil_iff] at h
  cases hid : isIdentifier s.name with
  | true => rfl
  | false =>
    rw [hid] at h
    cases h.1.1

theorem declaredName?_declaration {s : FunctionSettings} (h : isIdentifier s.name = true) :
    declaredName? (String.ofList (trim (s.declaration .builtin).toList)) = some s.name := by
  obtain ⟨more, hlist⟩ := s.declaration_toList .builtin
  obtain ⟨-, hne, htype⟩ := TypeTable.builtin_name s.resultType
  rw [hlist]
  exact declaredName?_function hne (fun c hc => (htype c hc).2) h more

end FunctionSettings

theorem FresnelSettings.declaredName?_source :
    declaredName? (String.ofList (trim source.toList)) = some "Fresnel" := by
  have hsource : source.toList = "float".toList ++ ' ' :: ("Fresnel".toList ++ '(' ::
      ((source.toList.drop 14).dropLast ++ ['\x7d'])) := by decide +kernel
  obtain ⟨-, hne, htype⟩ := TypeTable.builtin_name .float
  rw [hsource]
  exact declaredName?_function hne (fun c hc => (htype c hc).2) (by decide) _

/-- Whether no node of a document has a function of the user that is called like a local
variable. -/
def Document.namesApart (d : Document) : Bool :=
  d.nodes.all fun node => node.className != FunctionSettings.spec.name ||
    match FunctionSettings.spec.build node.settings with
    | .ok s => !isLocalWord s.name
    | .error _ => true

theorem Document.namesApart_of_mem {d : Document} (h : d.namesApart = true) {node : Node}
    (hm : node ∈ d.nodes) (hc : node.className = FunctionSettings.spec.name)
    {s : FunctionSettings} (hs : FunctionSettings.spec.build node.settings = .ok s) :
    isLocalWord s.name = false := by
  have hnode := List.all_eq_true.mp h node hm
  rw [hc, hs, bne_self_eq_false, Bool.false_or] at hnode
  simpa using hnode

/-- No document that can be reached from `d` has a function that is called like a local
variable. -/
def Compiler.NamesApart (c : Compiler) (d : Document) : Prop :=
  ∀ d', d' = d ∨ (∃ path, c.library path = some d') → d'.namesApart = true

/-! ### The discipline -/

namespace Pass

/-- The numbers of the variables that a stage declares. -/
def declaredIn (s : Pass) (stage : Stage) : List Nat := (s.statements stage).map Statement.index

theorem Grows.declaredIn {s s' : Pass} (h : Grows s s') (stage : Stage) :
    ∀ n ∈ s.declaredIn stage, n ∈ s'.declaredIn stage := by
  have hs : s.statements stage <+: s'.statements stage := by
    cases stage with
    | vertex => exact h.vertex
    | pixel => exact h.pixel
  exact fun n hn => (hs.map Statement.index).subset hn

/-- Texts name only variables that their stage has declared, and the statements of both
stages declare all variables. -/
def scoping : Discipline where
  world stage s := .knowing (s.declaredIn stage)
  tables := Globals.Named fun name => isPlain name = true
  extra s := (∀ stage, Statement.Ordered .builtin [] (s.statements stage)) ∧
    (s.declaredIn .vertex ++ s.declaredIn .pixel).Perm (List.range s.locals)

theorem statements_of_same {s s' : Pass} (hv : s'.vertex = s.vertex) (hp : s'.pixel = s.pixel)
    (stage : Stage) : s'.statements stage = s.statements stage := by
  cases stage with
  | vertex => exact hv
  | pixel => exact hp

/-- A new statement keeps the statements ordered. -/
theorem scoping_emit {s : Pass} {statement : Statement} (h : scoping.extra s)
    (ha : (scoping.world s.stage s).Admits .builtin s.locals statement) :
    scoping.extra { s.emit statement with locals := s.locals + 1 } ∧
      (scoping.world s.stage { s.emit statement with locals := s.locals + 1 }).text
        (localName s.locals) := by
  have hindex := Statement.index_of_admits ha
  have hst := statements_emit s statement (s.locals + 1)
  have hdecl (stage : Stage) : declaredIn { s.emit statement with locals := s.locals + 1 } stage =
      s.declaredIn stage ++ if s.stage = stage then [s.locals] else [] := by
    unfold declaredIn
    rw [hst, List.map_append, ← hindex]
    split
    · rfl
    · rfl
  refine ⟨⟨fun stage => ?_, ?_⟩, ?_⟩
  · rw [hst]
    split
    · next heq =>
      subst heq
      rw [Statement.ordered_concat, List.nil_append, hindex]
      exact ⟨h.1 _, ha⟩
    · rw [List.append_nil]
      exact h.1 stage
  · rw [hdecl, hdecl, List.range_succ]
    cases s.stage with
    | vertex =>
      -- the new variable comes before those of the pixel stage
      have hswap : (s.declaredIn .vertex ++ [s.locals] ++ s.declaredIn .pixel).Perm
          (s.declaredIn .vertex ++ s.declaredIn .pixel ++ [s.locals]) := by
        rw [List.append_assoc, List.append_assoc]
        exact List.perm_append_comm.append_left _
      simpa using hswap.trans (h.2.append_right _)
    | pixel => simpa using h.2.append_right [s.locals]
  · refine .localName ?_
    rw [hdecl, if_pos rfl]
    simp

theorem scoping_byName (env : Environment) (ht : env.types = .builtin) :
    scoping.ByName env fun name => isPlain name = true where
  tables := rfl
  mono hg stage := ⟨fun _ => .mono (hg.declaredIn stage), id,
    fun _ => .mono (hg.declaredIn stage), fun _ => .rfl, id⟩
  naming := by
    rw [ht]
    exact fun t name hname => (TypeTable.builtin_naming t name hname).1
  named h := ⟨.of_isPlain h, False.elim⟩
  sources hsource hname := .of_isPlain (hsource _ hname)
  features h := .of_isPlain (isPlain_of_isNeutral h)

/-- **Every step keeps the statements ordered**, as long as no function of the user is
called like a variable. -/
theorem scoping_kept {c : Compiler} {d : Document} (hc : c.catalog = .builtin)
    (ht : c.types = .builtin) (hn : c.NamesApart d) (mode : Mode) :
    scoping.Kept (c.environment mode d) where
  closed stage s := by
    refine ⟨Knows.spelling _, fun t => (Knows.spelling _).neutral ?_⟩
    show isNeutral (c.types.name t) = true
    rw [ht]
    exact (TypeTable.builtin_name t).1
  mono := (scoping_byName (c.environment mode d) ht).mono
  lost _ _ := trivial
  register := (scoping_byName (c.environment mode d) ht).register
  same {s s'} h _ hv hp hl := by
    have hst := statements_of_same hv hp
    refine ⟨fun stage => by rw [hst]; exact h.1 stage, ?_⟩
    unfold declaredIn
    rw [hst, hst, hl]
    exact h.2
  emit {s statement} h ha := scoping_emit h (ht ▸ ha)
  plans {b} hb he stage s W hW hle frame output hf := by
    obtain ⟨d', node, cl, settings, hd', hnode, hclass, hbuild, rfl⟩ := hb.builtin hc
    refine cl.plan_meets (hf ▸ hW) settings he (fun source hsource => ?_) output
    rw [hle.source]
    intro name hname
    -- only two classes register functions: one has the user's, one its own
    cases cl with
    | function =>
      have htypes : frame.types = .builtin := hf.trans ht
      have hid := FunctionSettings.isIdentifier_name he
      rw [List.mem_singleton.mp hsource, htypes,
        FunctionSettings.declaredName?_declaration hid] at hname
      cases hname
      exact isPlain_of_word (isWord_of_isIdentifier hid).1
        (Document.namesApart_of_mem (hn d' hd') hnode hclass hbuild)
    | fresnel =>
      rw [List.mem_singleton.mp hsource, FresnelSettings.declaredName?_source] at hname
      cases hname
      decide
    | _ => cases hsource

end Pass

/-! ### What is written -/

namespace Discipline.Kept

open Pass

variable {D : Discipline} {env : Environment}

/-- Sources give good values. -/
theorem writeSources (K : D.Kept env) (sources : List Write.Source) :
    ∀ s : Pass, D.Idle env s → ∀ w ∈ (Pass.writeSources env sources s).1,
      (D.world w.channel.stage (Pass.writeSources env sources s).2).Value w.value := by
  induction sources with
  | nil => exact fun _ _ w hw => by cases hw
  | cons source rest ih =>
    intro s h
    rw [Pass.writeSources]
    rcases hx : fit env source
      (s.resolveFor env source.channel.stage [] source.node source.output) with ⟨x, s'⟩
    obtain ⟨h', hgood, -⟩ := h.fit K hx
    intro w hw
    rcases List.mem_append.mp hw with hw | hw
    · obtain ⟨hchannel, hvalue⟩ := hgood w (Option.mem_toList.mp hw)
      rw [hchannel]
      exact (K.mono (h'.grows rest) source.channel.stage).value hvalue
    · exact ih s' h' w hw

/-- What is written is good at the end of a pass. -/
theorem writes (K : D.Kept env) {s p : Pass} (h : D.Idle env s) {isSubgraph : Bool}
    {ws : List Write}
    (hw : (if isSubgraph then s.subgraphWrites env else s.materialWrites env) = .ok (ws, p)) :
    ∀ w ∈ ws, (D.world w.channel.stage p).Value w.value := by
  obtain ⟨ds, sources, -, -, hsources⟩ := writes_eq_ok hw
  have hgood := K.writeSources sources _ ((h.root K).remarks K ds)
  rw [hsources] at hgood
  exact hgood

end Discipline.Kept

/-- A good value is shown by a good text. -/
theorem World.Closed.displayColor {W : World} {types : TypeTable} (hW : W.Closed types) {e : Expr}
    (he : W.text e.code) : W.Yields W.text (displayColor types e) := by
  have hcolor {content : String} (hc : W.text content) :
      W.text (types.name .vector4 ++ "( " ++ content ++ " )") :=
    hW.spelling.trail (hW.spelling.join (hW.names _) hc (by decide)) (by decide)
  unfold MaterialGraph.displayColor
  split
  · refine .ok (hcolor (hW.spelling.trail ?_ (by decide)))
    refine hW.spelling.join (hW.spelling.join ?scalar ?scalar (by decide)) ?scalar (by decide)
    split
    · exact hW.spelling.lead (hW.operand he) (by decide)
    · exact hW.spelling.lead (hW.operand he) (by decide)
    · exact he
  · exact .ok (hcolor (hW.spelling.trail he (by decide)))
  · exact .ok (hcolor (hW.spelling.trail he (by decide)))
  · exact .ok he
  · exact .error trivial

namespace Discipline.Kept

open Pass Compiler

variable {D : Discipline} {c : Compiler} {d : Document}

/-- The discipline holds at the end of a material, and the last lines write good values. -/
theorem materialDraft {o : Options} (K : D.Kept (c.environment o.mode d))
    (hi : D.Inv (firstPass o.blend)) {draft : Draft} (h : c.materialDraft d o = .ok draft) :
    D.Inv draft.pass ∧ ∃ ws, draft.vertexEnd = writeLines .vertex ws ∧
      draft.pixelEnd = writeLines .pixel ws ++ [o.shading.line] ∧
      ∀ w ∈ ws, (D.world w.channel.stage draft.pass).Value w.value := by
  have hfresh := firstPass_fresh o.blend
  have hstock := hfresh.stocked (c.environment o.mode d)
  obtain ⟨s', hsession, hend⟩ := materialTrace_session c d o
  have hpass := (K.session hsession hstock hi).1
  rw [← hend draft h] at hpass
  obtain ⟨ws, hw, -, hvertex, hpixel⟩ := materialDraft_eq_ok h
  exact ⟨hpass, ws, hvertex, hpixel, K.writes ⟨hstock, hfresh.atRest, hi⟩ hw⟩

/-- The discipline holds at the end of a preview, and the last line returns a good colour. -/
theorem previewDraft (K : D.Kept (c.environment .preview d)) (hi : D.Inv {}) (target : Wire) :
    D.Inv (c.previewDraft d target).pass ∧
      ∃ color, (c.previewDraft d target).pixelEnd = ["return " ++ color ++ ";"] ∧
        (D.world .pixel (c.previewDraft d target).pass).text color := by
  have hfresh : Fresh {} := ⟨[], rfl⟩
  have hstock := hfresh.stocked (c.environment .preview d)
  refine ⟨(K.session (previewTrace_session c d target) hstock hi).1, ?_⟩
  obtain ⟨-, hgood, -⟩ := K.resolveFor (root_sound hstock).1
    (K.inv_prepared hi (root_prepared _ {})) .pixel target.path target.node target.output
  -- without a value, or with one that has no colour, a fixed colour is shown
  have hnone (s : Pass) : (D.world .pixel s).text noColor :=
    (K.closed .pixel s).spelling.neutral (by decide)
  unfold Compiler.previewDraft
  simp only
  rcases hx : (Pass.root (c.environment .preview d) {}).2.resolveFor (c.environment .preview d)
    .pixel target.path target.node target.output with ⟨o, s'⟩
  rw [hx] at hgood
  cases o with
  | valid e =>
    have hshown := (K.closed .pixel s').displayColor hgood.1
    simp only
    split
    · next code hcode =>
      rw [show displayColor (c.environment .preview d).types e = _ from hcode] at hshown
      exact ⟨code, rfl, hshown⟩
    · exact ⟨noColor, rfl, hnone _⟩
  | error text => exact ⟨noColor, rfl, hnone _⟩
  | missingInput text => exact ⟨noColor, rfl, hnone _⟩

end Discipline.Kept

/-! ### Drafts -/

/-- The lines of a stage, with its last ones. -/
def Draft.stageLines (d : Draft) : Stage → List String
  | .vertex => d.vertexBody
  | .pixel => d.pixelBody ++ d.pixelEnd

/-- The variables that are declared in the lines of both stages. -/
def Draft.declared (types : TypeTable) (d : Draft) : List String :=
  (d.stageLines .vertex ++ d.stageLines .pixel).flatMap types.declared

/-- A draft whose local variables are scoped. -/
structure Draft.WellScoped (types : TypeTable) (d : Draft) : Prop where
  /-- Each variable that is used has been declared in the same stage. -/
  earlier : ∀ stage, types.Scoped [] (d.stageLines stage)
  /-- No variable is declared twice, in one stage or in both. -/
  once : (d.declared types).Nodup
  /-- The variables that are declared are those with numbers below that of the pass. -/
  numbers : ∀ w, w ∈ d.declared types ↔ ∃ n, n < d.pass.locals ∧ w = localName n
  /-- The statements of a stage are blocks, one after the other. -/
  blocks : ∀ stage, ∃ blocks : List (List String),
    statementLines (d.pass.statements stage) = blocks.flatten ∧ ∀ b ∈ blocks, types.IsBlock b
  lines : ∀ stage, ∀ line ∈ d.stageLines stage, '\n' ∉ line.toList

/-- The lines of a stage: statements, and other lines around them. -/
theorem stage_scoped {front ends : List String} {l : List Statement}
    (hf : ∀ line ∈ front, TypeTable.UsesOnly [] line) (hl : Statement.Ordered .builtin [] l)
    (he : ∀ line ∈ ends, TypeTable.UsesOnly (l.map Statement.index) line) :
    TypeTable.builtin.Scoped [] (front ++ statementLines l ++ ends) ∧
      (front ++ statementLines l ++ ends).flatMap TypeTable.builtin.declared =
        (l.map Statement.index).map localName ∧
      ∀ line ∈ front ++ statementLines l ++ ends, '\n' ∉ line.toList := by
  obtain ⟨hsf, hdf⟩ := TypeTable.scoped_of_usesOnly hf
  obtain ⟨hsl, hdl, -, hnl⟩ := hl.scoped
  obtain ⟨hse, hde⟩ := TypeTable.scoped_of_usesOnly he
  have hdecl : (front ++ statementLines l).flatMap TypeTable.builtin.declared =
      (l.map Statement.index).map localName := by
    rw [List.flatMap_append, hdf, hdl, List.nil_append]
  refine ⟨?_, ?_, fun line hm => ?_⟩
  · rw [TypeTable.scoped_append, TypeTable.scoped_append, hdecl, hdf]
    exact ⟨⟨hsf, hsl⟩, hse⟩
  · rw [List.flatMap_append, hdecl, hde, List.append_nil]
  · rcases List.mem_append.mp hm with hm | hm
    · rcases List.mem_append.mp hm with hm | hm
      · exact (hf line hm).1.1
      · exact hnl line hm
    · exact (he line hm).1.1

/-- A draft is well scoped if its statements are ordered and its last lines name what has
been declared. -/
theorem Draft.wellScoped {d : Draft} (h : Pass.scoping.extra d.pass)
    (hv : ∀ line ∈ d.vertexEnd, TypeTable.UsesOnly (d.pass.declaredIn .vertex) line)
    (hp : ∀ line ∈ d.pixelEnd, TypeTable.UsesOnly (d.pass.declaredIn .pixel) line) :
    d.WellScoped .builtin := by
  obtain ⟨hord, hperm⟩ := h
  have hstage (stage : Stage) : TypeTable.builtin.Scoped [] (d.stageLines stage) ∧
      (d.stageLines stage).flatMap TypeTable.builtin.declared =
        (d.pass.declaredIn stage).map localName ∧
      ∀ line ∈ d.stageLines stage, '\n' ∉ line.toList := by
    cases stage with
    | vertex =>
      have hfront : ∀ line ∈ ([] : List String), TypeTable.UsesOnly [] line := by simp
      exact stage_scoped hfront (hord .vertex) hv
    | pixel =>
      -- the pixel stage of a material starts with a line of its own
      refine stage_scoped (fun line hm => ?_) (hord .pixel) hp
      cases hd : d.purpose with
      | material =>
        rw [hd] at hm
        rw [List.mem_singleton.mp hm]
        exact ⟨.of_isPlain (by decide), by decide⟩
      | preview => rw [hd] at hm; cases hm
  have hdeclared : (d.declared .builtin).Perm ((List.range d.pass.locals).map localName) := by
    unfold declared
    rw [List.flatMap_append, (hstage .vertex).2.1, (hstage .pixel).2.1, ← List.map_append]
    exact hperm.map localName
  refine ⟨fun stage => (hstage stage).1, ?_, fun w => ?_, fun stage => ?_,
    fun stage => (hstage stage).2.2⟩
  · rw [hdeclared.nodup_iff]
    exact List.Pairwise.map localName (fun m n hne heq => hne (localName_injective heq))
      List.nodup_range
  · rw [hdeclared.mem_iff, List.mem_map]
    constructor
    · rintro ⟨n, hn, rfl⟩
      exact ⟨n, List.mem_range.mp hn, rfl⟩
    · rintro ⟨n, hn, rfl⟩
      exact ⟨n, List.mem_range.mpr hn, rfl⟩
  · exact ⟨(d.pass.statements stage).map Statement.lines, List.flatMap_def,
      (hord stage).scoped.2.2.1⟩

/-! ### Last lines -/

/-- The line that writes a channel declares nothing. -/
theorem Write.usesOnly {known : List Nat} {w : Write} (h : Knows known w.value.code) :
    TypeTable.UsesOnly known w.line := by
  have spell := Knows.spelling known
  unfold Write.line
  split
  · refine TypeTable.usesOnly_of_head "o.vPositionWs" ("+= " ++ w.value.code ++ ";")
      (spell.trail (spell.lead h (by decide)) (by decide)) ?_ (by decide) (by decide)
    rw [← String.toList_inj]
    simp [String.toList_append]
  · have hfield : isNeutral ("m." ++ w.channel.fieldName ++ " = ") = true ∧
        endsOpen ("m." ++ w.channel.fieldName ++ " = ") = true := by
      cases w.channel <;> decide
    refine TypeTable.usesOnly_of_head ("m." ++ w.channel.fieldName)
      ("= " ++ w.value.code ++ ";") (spell.trail (spell.lead h hfield) (by decide)) ?_ ?_ ?_
    · rw [← String.toList_inj]
      simp [String.toList_append]
    · cases w.channel <;> decide
    · cases w.channel <;> decide

theorem writeLines_usesOnly {known : List Nat} {stage : Stage} {ws : List Write}
    (h : ∀ w ∈ ws, w.channel.stage = stage → Knows known w.value.code) :
    ∀ line ∈ writeLines stage ws, TypeTable.UsesOnly known line := by
  intro line hl
  obtain ⟨w, hw, rfl⟩ := List.mem_map.mp hl
  obtain ⟨hw, hstage⟩ := List.mem_filter.mp hw
  exact Write.usesOnly (h w hw (beq_iff_eq.mp hstage))

/-- The line that returns a colour declares nothing. -/
theorem usesOnly_return {known : List Nat} {color : String} (h : Knows known color) :
    TypeTable.UsesOnly known ("return " ++ color ++ ";") := by
  have spell := Knows.spelling known
  refine TypeTable.usesOnly_of_head "return" (color ++ ";")
    (spell.trail (spell.lead h (by decide)) (by decide)) ?_ (by decide) (by decide)
  rw [← String.toList_inj]
  simp [String.toList_append]

namespace Compiler

open Pass

variable {c : Compiler} {d : Document}

theorem scoping_fresh {s : Pass} (h : Fresh s) : scoping.Inv s := by
  refine .of_fresh h ⟨fun stage => ?_, ?_⟩ (h.named _)
  · rw [h.statements]
    trivial
  · unfold declaredIn
    rw [h.statements, h.statements, h.locals]
    exact .nil

theorem materialDraft_wellScoped (hc : c.catalog = .builtin) (ht : c.types = .builtin)
    (hn : c.NamesApart d) {o : Options} {draft : Draft} (h : c.materialDraft d o = .ok draft) :
    draft.WellScoped .builtin := by
  obtain ⟨hpass, ws, hvertex, hpixel, hgood⟩ := (scoping_kept hc ht hn o.mode).materialDraft
    (scoping_fresh (firstPass_fresh o.blend)) h
  have hlines (stage : Stage) :
      ∀ line ∈ writeLines stage ws, TypeTable.UsesOnly (draft.pass.declaredIn stage) line :=
    writeLines_usesOnly fun w hw hstage => hstage ▸ (hgood w hw).1
  refine Draft.wellScoped hpass.extra (hvertex ▸ hlines .vertex) fun line hl => ?_
  rw [hpixel] at hl
  rcases List.mem_append.mp hl with hl | hl
  · exact hlines .pixel line hl
  · rw [List.mem_singleton.mp hl]
    cases o.shading with
    | lit => exact ⟨.of_isPlain (by decide), by decide⟩
    | unlit => exact ⟨.of_isPlain (by decide), by decide⟩

theorem previewDraft_wellScoped (hc : c.catalog = .builtin) (ht : c.types = .builtin)
    (hn : c.NamesApart d) (target : Wire) : (c.previewDraft d target).WellScoped .builtin := by
  obtain ⟨hpass, color, hend, hknows⟩ := (scoping_kept hc ht hn .preview).previewDraft
    (scoping_fresh ⟨[], rfl⟩) target
  refine Draft.wellScoped hpass.extra (by simp [previewDraft]) fun line hl => ?_
  rw [hend] at hl
  rw [List.mem_singleton.mp hl]
  exact usesOnly_return hknows

/-- **Local variables are scoped.** Over the built-in classes and types, if no function of
the user is called like a variable, then in the lines of every material and every preview
each variable is declared before it is used, in the same stage; both stages together declare
the variables below the number of variables, each once; and the statements of each stage are
whole declarations, one after the other. -/
theorem locals_scoped (c : Compiler) (hc : c.catalog = .builtin) (ht : c.types = .builtin)
    (d : Document) (hn : c.NamesApart d) :
    (∀ o result, c.compile d o = .ok result → ∃ t draft, c.materialDraft d o = .ok draft ∧
      draft.compilation c.types o t = result ∧ draft.WellScoped c.types) ∧
    ∀ o target result, c.preview d o target = .ok result →
      ∃ t, (c.previewDraft d target).compilation c.types o t = result ∧
        (c.previewDraft d target).WellScoped c.types := by
  refine ⟨fun o result hr => ?_, fun o target result hr => ?_⟩
  · obtain ⟨t, draft, hd, he⟩ := compile_eq_ok hr
    refine ⟨t, draft, hd, he, ?_⟩
    rw [ht]
    exact materialDraft_wellScoped hc ht hn hd
  · obtain ⟨t, he⟩ := preview_eq_ok hr
    refine ⟨t, he, ?_⟩
    rw [ht]
    exact previewDraft_wellScoped hc ht hn target

/-- A material with a feature, a function whose name is nearly that of a variable, and a
value that both stages need. -/
def waveDocument : Document where
  nodes := [
    { id := ⟨1⟩, className := "Time" },
    .of (.binary .multiply) 2
      { (BinaryOp.spec .multiply).initial with a := .ofNode 1, b := .ofNode 1 },
    .of .staticSwitch 3 { name := "Fast", onTrue := .ofNode 2, onFalse := .ofNode 1 },
    .of .function 4
      { name := "l_wave", body := "return sin( x );"
        arguments := [{ name := "x", type := .float, input := .ofNode 3 }] },
    .of .materialResult 5
      { roughness := .ofNode 4, metalness := .ofNode 2, positionOffset := .ofNode 2 }]

/-- The lines of both stages of that material. -/
def waveLines : Stage → List String
  | .vertex => ["float l_3 = g_flTime * g_flTime;", "o.vPositionWs += float3( l_3, l_3, l_3 );"]
  | .pixel =>
    ["Material m = Material::Init();", "float l_0 = g_flTime * g_flTime;", "float l_1;",
      "#if S_FAST", "    l_1 = l_0;", "#else", "    l_1 = g_flTime;", "#endif",
      "float l_2 = l_wave( l_1 );", "m.Roughness = l_2;", "m.Metalness = l_0;",
      "return ShadingModelStandard::Shade( i, m );"]

/-- The square of the time is computed in each stage, in different variables. -/
theorem locals_scoped_wave :
    Compiler.NamesApart {} waveDocument ∧
    ∃ draft, Compiler.materialDraft {} waveDocument {} = .ok draft ∧ draft.pass.locals = 4 ∧
      (∀ stage, draft.stageLines stage = waveLines stage) ∧ draft.WellScoped .builtin := by
  have hn : Compiler.NamesApart {} waveDocument := by
    rintro d (rfl | ⟨path, h⟩)
    · decide +kernel
    · cases h
  have hlines : (Compiler.materialDraft {} waveDocument {}).toOption.map (fun d =>
      (d.pass.locals, d.stageLines .vertex, d.stageLines .pixel)) =
        some (4, waveLines .vertex, waveLines .pixel) := by decide +kernel
  refine ⟨hn, ?_⟩
  cases hd : Compiler.materialDraft {} waveDocument {} with
  | error rejection => rw [hd] at hlines; cases hlines
  | ok draft =>
    have hr : Compiler.compile {} waveDocument {} =
        .ok (draft.compilation .builtin {} .material) := by
      unfold Compiler.compile
      rw [hd]
      rfl
    obtain ⟨t, draft', hd', -, hscoped⟩ := (locals_scoped {} rfl rfl waveDocument hn).1 {} _ hr
    cases hd.symm.trans hd'
    rw [hd] at hlines
    have hparts := Option.some.inj hlines
    refine ⟨draft, rfl, congrArg (·.1) hparts, fun stage => ?_, hscoped⟩
    cases stage with
    | vertex => exact congrArg (·.2.1) hparts
    | pixel => exact congrArg (·.2.2) hparts

end Compiler

end MaterialGraph
