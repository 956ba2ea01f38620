import MaterialGraph.Proofs.Calls
import MaterialGraph.Proofs.Distinct
import MaterialGraph.Proofs.Moments

/-!
# Textures are compiled once

A texture is compiled when it is entered in the tables, and only then. So what the texture compiler
was given is, in order, what the textures with an image are made from, and an entry holds what
became of it. This needs no more than that the tables are filled by `Pass.bindTexture`: it holds
whatever the nodes ask for and in whatever order, whether or not a name is taken.

## Main results

* `Pass.bindTexture_ends` — all that asking for a texture can do.
* `Pass.accounted_invariant` — every step of a pass keeps the account.
* `Compiler.textures_compiled_once` — it holds at every moment of every pass.
-/

namespace MaterialGraph

/-! ### Entries -/

namespace Texture

/-- The warning about a texture that cannot be compiled. -/
def failure (t : Texture) : Diagnostic :=
  .warning .assetCompilationFailure t.node ("failed to compile texture \"" ++ t.spec.image ++ "\"")

/-- The entry holds what the compiler made of it. A texture without image is not compiled. If
compiling it failed, the texture is white, and a warning names the image. -/
structure Developed (compiler : TextureCompiler) (report : Report) (t : Texture) : Prop where
  asset : t.asset = if t.spec.image.isEmpty then none else compiler t.spec
  /-- A failure leaves its mark. -/
  failed : t.spec.image.isEmpty = false → compiler t.spec = none →
    t.fallback = .ones ∧ t.failure ∈ report.entries

theorem Developed.mono {compiler : TextureCompiler} {report report' : Report} {t : Texture}
    (h : t.Developed compiler report) (hr : report.entries <+: report'.entries) :
    t.Developed compiler report' :=
  ⟨h.asset, fun himage hnone => (h.failed himage hnone).imp_right fun hd => hr.subset hd⟩

end Texture

/-- The table of textures accounts for what the compiler was given and for what it answered. -/
structure TextureCompiler.Accounted (compiler : TextureCompiler) (textures : List Texture)
    (compiled : List TextureSpec) (report : Report) : Prop where
  /-- No two textures are made from the same, so nothing is compiled twice. -/
  once : (textures.map Texture.spec).Nodup
  /-- What has an image was compiled, in the order of the table. -/
  compiled : compiled = (textures.map Texture.spec).filter fun spec => !spec.image.isEmpty
  /-- Every entry says what became of it. -/
  developed : ∀ t ∈ textures, t.Developed compiler report

namespace TextureCompiler.Accounted

variable {compiler : TextureCompiler} {textures : List Texture} {compiled : List TextureSpec}
  {report report' : Report}

theorem mono (h : compiler.Accounted textures compiled report)
    (hr : report.entries <+: report'.entries) : compiler.Accounted textures compiled report' :=
  ⟨h.once, h.compiled, fun t ht => (h.developed t ht).mono hr⟩

theorem concat (h : compiler.Accounted textures compiled report) {t : Texture}
    (hnew : ∀ u ∈ textures, u.spec ≠ t.spec) (ht : t.Developed compiler report) :
    compiler.Accounted (textures ++ [t])
      (compiled ++ if t.spec.image.isEmpty then [] else [t.spec]) report where
  once := Globals.nodup_map_concat h.once hnew
  compiled := by
    rw [List.map_append, List.filter_append, ← h.compiled, List.map_singleton]
    by_cases himage : t.spec.image.isEmpty = true
    · simp [himage]
    · simp [Bool.eq_false_iff.mpr himage]
  developed u hu := by
    rcases List.mem_append.mp hu with hu | hu
    · exact h.developed u hu
    · exact List.mem_singleton.mp hu ▸ ht

end TextureCompiler.Accounted

namespace Globals

/-- A later state of the last texture, if no other one is made from the same. -/
theorem updateTexture_concat {g : Globals} (t u : Texture) (hspec : u.spec = t.spec)
    (hnew : ∀ v ∈ g.textures, v.spec ≠ t.spec) :
    { g with textures := g.textures ++ [t] }.updateTexture u =
      { g with textures := g.textures ++ [u] } := by
  have hkeep : g.textures.map (fun v => if v.spec = u.spec then u else v) = g.textures := by
    rw [List.map_congr_left (g := id), List.map_id]
    intro v hv
    exact if_neg (hspec ▸ hnew v hv)
  simp only [updateTexture, List.map_append, hkeep, List.map_singleton, if_pos hspec.symm]

/-- Nothing but the registration of a texture touches the textures. -/
theorem register_textures {r : Registration}
    (h : ∀ spec name fallback node, r ≠ .texture spec name fallback node) (types : TypeTable)
    (g : Globals) : (r.register types g).2.textures = g.textures := by
  refine r.register_keeps (G := fun g' => g'.textures = g.textures) (fun hchange he => ?_) rfl
  cases hchange with
  | @texture _ spec name fallback node _ _ _ _ => exact absurd rfl (h spec name fallback node)
  | _ => exact he

end Globals

namespace Pass

/-! ### Asking for a texture -/

/-- All that asking for a texture can do. Either it is refused or there already, and nothing
happens, or it is entered together with what became of it, and was compiled if it has an image. -/
theorem bindTexture_ends (env : Environment) (spec : TextureSpec) (name : String) (fallback : Vec4)
    (s : Pass) :
    (∃ word, Globals.TextureTaken env.types s.globals spec name word ∧
      s.bindTexture env spec name fallback = (.error (.duplicateName word), s)) ∨
    (∃ t ∈ s.globals.textures, t.spec = spec ∧
      s.bindTexture env spec name fallback = (.ok t.expr, s)) ∨
    ∃ t report, t.spec = spec ∧ (∀ u ∈ s.globals.textures, u.spec ≠ spec) ∧
      t.Developed env.textures report ∧ s.report.entries <+: report.entries ∧
      s.bindTexture env spec name fallback = (.ok t.expr, { s with
        globals := { s.globals with textures := s.globals.textures ++ [t] }
        compiled := s.compiled ++ if spec.image.isEmpty then [] else [spec]
        report }) := by
  have hadds := s.globals.addTexture_adds env.types spec name fallback s.currentNode
  unfold bindTexture
  dsimp only
  generalize s.globals.addTexture env.types spec name fallback s.currentNode = x at hadds ⊢
  cases hadds with
  | taken htaken => exact .inl ⟨_, htaken, rfl⟩
  | @stored t ht hspec => exact .inr (.inl ⟨t, ht, hspec, rfl⟩)
  | @fresh word _ hnew _ =>
    refine .inr (.inr ?_)
    simp only [Bool.true_and]
    obtain ⟨t, ht⟩ : ∃ t, spec.texture env.types word fallback s.currentNode = t := ⟨_, rfl⟩
    have hasset : t.asset = none := ht ▸ rfl
    have hnode : t.node = s.currentNode := ht ▸ rfl
    obtain rfl : t.spec = spec := ht ▸ rfl
    rw [ht]
    by_cases himage : t.spec.image.isEmpty = true
    · -- nothing to compile
      refine ⟨t, s.report, rfl, hnew, ⟨?_, ?_⟩, List.prefix_refl _, ?_⟩
      · rw [if_pos himage, hasset]
      · intro h
        rw [himage] at h
        cases h
      · simp [himage]
    · have himage := Bool.eq_false_iff.mpr himage
      simp only [himage, Bool.not_false, if_true]
      cases hc : env.textures t.spec with
      | some asset =>
        refine ⟨{ t with asset := some asset }, s.report, rfl, hnew, ⟨?_, ?_⟩, List.prefix_refl _,
          ?_⟩
        · simp [himage, hc]
        · intro _ h
          rw [hc] at h
          cases h
        · simp only [Globals.updateTexture_concat t { t with asset := some asset } rfl hnew]
          rfl
      | none =>
        refine ⟨{ t with fallback := .ones }, s.report.push { t with fallback := .ones }.failure,
          rfl, hnew, ⟨?_, ?_⟩, s.report.entries_prefix_push _, ?_⟩
        · simp [himage, hc, hasset]
        · intro _ _
          exact ⟨rfl, Report.mem_push.mpr (.inl rfl)⟩
        · simp only [Globals.updateTexture_concat t { t with fallback := .ones } rfl hnew, ← hnode]
          rfl

/-! ### Passes -/

/-- The tables of the pass account for all that was compiled. -/
def Accounted (compiler : TextureCompiler) (s : Pass) : Prop :=
  compiler.Accounted s.globals.textures s.compiled s.report

variable {env : Environment} {s : Pass}

theorem Accounted.prepared {s' : Pass} (h : s.Accounted env.textures) (hp : Prepared s s') :
    s'.Accounted env.textures := by
  obtain ⟨_, _, _, _, hr, rfl⟩ := hp
  exact h.mono hr

theorem Accounted.globals (h : s.Accounted env.textures) {globals : Globals}
    (ht : globals.textures = s.globals.textures) :
    { s with globals }.Accounted env.textures := by
  show env.textures.Accounted globals.textures s.compiled s.report
  rw [ht]
  exact h

theorem Accounted.bindTexture (h : s.Accounted env.textures) (spec : TextureSpec) (name : String)
    (fallback : Vec4) : (s.bindTexture env spec name fallback).2.Accounted env.textures := by
  rcases bindTexture_ends env spec name fallback s with
    ⟨word, -, he⟩ | ⟨t, -, -, he⟩ | ⟨t, report, rfl, hnew, ht, hr, he⟩
  · rw [he]
    exact h
  · rw [he]
    exact h
  · rw [he]
    exact (h.mono hr).concat hnew ht

theorem Accounted.register (h : s.Accounted env.textures) (r : Resolver) {c : Command}
    (hc : c.Registers) : (s.perform env r c).2.Accounted env.textures := by
  have hother {q : Registration}
      (hq : ∀ spec name fallback node, q ≠ .texture spec name fallback node) :
      (q.register env.types s.globals).2.textures = s.globals.textures :=
    Globals.register_textures hq env.types s.globals
  cases c with
  | parameter spec =>
    rw [perform_parameter, bindParameter_eq]
    exact h.globals (hother (q := .parameter spec _) (by rintro _ _ _ _ ⟨⟩))
  | declare text =>
    rw [perform_declare]
    exact h.globals (hother (q := .declaration text) (by rintro _ _ _ _ ⟨⟩))
  | function source =>
    have hsame := hother (q := .function source) (by rintro _ _ _ _ ⟨⟩)
    rw [Registration.register] at hsame
    rw [perform_function]
    dsimp only at hsame ⊢
    exact h.globals hsame
  | texture spec name fallback =>
    rw [perform_texture]
    exact h.bindTexture spec name fallback
  | sampler state =>
    rw [perform_sampler]
    exact h.globals (hother (q := .sampler state) (by rintro _ _ _ _ ⟨⟩))
  | feature name group =>
    have hsame := hother (q := .feature name group) (by rintro _ _ _ _ ⟨⟩)
    rw [Registration.register] at hsame
    rw [perform_feature]
    dsimp only at hsame ⊢
    exact h.globals hsame
  | toggle name initial =>
    rw [perform_toggle]
    unfold bindToggle
    dsimp only
    split
    · exact h
    · rw [bindParameter_eq]
      exact h.globals (Globals.register_textures (r := .parameter _ _) (by rintro _ _ _ _ ⟨⟩) _ _)
  | _ => exact hc.elim

/-- Every step of a pass keeps the account. -/
theorem accounted_invariant (env : Environment) :
    Invariant env fun s => s.Accounted env.textures where
  place h _ _ _ := h
  push h d := h.mono (Report.entries_prefix_push _ d)
  root h := h.prepared (root_prepared env _)
  follow h scope := h.prepared (follow_prepared env scope _)
  register h r _ hc := h.register r hc
  note h _ := h
  emit h _ _ _ := h
  remember h _ _ := h

theorem Fresh.accounted (h : Fresh s) (compiler : TextureCompiler) : s.Accounted compiler := by
  obtain ⟨declarations, rfl⟩ := h
  exact ⟨List.nodup_nil, rfl, List.forall_mem_nil _⟩

end Pass

namespace Compiler

open Pass

/-- The pass of a whole compilation. -/
theorem compilation_accounted {c : Compiler} {d : Document} {o : Options} {result : Compilation}
    {p : Program}
    (h : c.compile d o = .ok result ∨ ∃ target, c.preview d o target = .ok result)
    (hp : result.program = some p) :
    c.textures.Accounted p.textures result.compiled result.report := by
  have hdraft {draft : Draft} {t : Template} (hs : draft.pass.Accounted c.textures)
      (hr : draft.compilation c.types o t = result) :
      c.textures.Accounted p.textures result.compiled result.report := by
    subst hr
    rw [← Draft.program_of_compilation hp]
    exact hs
  rcases h with h | ⟨target, h⟩
  · obtain ⟨t, draft, hd, hr⟩ := compile_eq_ok h
    obtain ⟨s', hsession, hend⟩ := materialTrace_session c d o
    obtain ⟨hs, -⟩ := (accounted_invariant _).session hsession
      ((firstPass_fresh o.blend).accounted _)
    exact hdraft (hend draft hd ▸ hs) hr
  · obtain ⟨t, hr⟩ := preview_eq_ok h
    have hfresh : Fresh {} := ⟨[], rfl⟩
    obtain ⟨hs, -⟩ := (accounted_invariant _).session (previewTrace_session c d target)
      (hfresh.accounted _)
    exact hdraft hs hr

/-- **Textures are compiled exactly once, and what became of them is recorded.** At every moment of
every pass, whatever its nodes are and whatever the texture compiler answers, the table of textures
accounts for all that was compiled, and so does the table of a program. A request for a texture is
refused and has no effect if another one has its name, and otherwise it is answered with the entry
for what was asked. -/
theorem textures_compiled_once (c : Compiler) (d : Document) :
    (∀ l, c.IsTrace d l →
      (∀ e ∈ l, e.pass.Accounted c.textures) ∧
      ∀ spec name fallback before reply after,
        Event.performed (.texture spec name fallback) before reply after ∈ l →
          (∃ word, Globals.TextureTaken c.types before.globals spec name word ∧
            reply = .error (.duplicateName word) ∧ after = before) ∨
            ∃ t ∈ after.globals.textures, t.spec = spec ∧ reply = .ok t.expr) ∧
    ∀ o result p, (c.compile d o = .ok result ∨ ∃ target, c.preview d o target = .ok result) →
      result.program = some p → c.textures.Accounted p.textures result.compiled result.report := by
  refine ⟨fun l hl => ?_, fun o result p h hp => compilation_accounted h hp⟩
  obtain ⟨mode, s, s', hfresh, hsession⟩ := hl.session
  obtain ⟨-, hevents⟩ := (accounted_invariant _).session hsession (hfresh.accounted _)
  refine ⟨fun e he => (hevents e he).pass, fun spec name fallback before reply after he => ?_⟩
  obtain ⟨-, -, -, r, -, hx⟩ := hevents _ he
  rw [perform_texture] at hx
  rcases bindTexture_ends (c.environment mode d) spec name fallback before with
    ⟨word, htaken, hb⟩ | ⟨t, ht, hspec, hb⟩ | ⟨t, report, hspec, -, -, -, hb⟩
  · rw [hb] at hx
    cases hx
    exact .inl ⟨word, htaken, rfl, rfl⟩
  · rw [hb] at hx
    cases hx
    exact .inr ⟨t, ht, hspec, rfl⟩
  · rw [hb] at hx
    cases hx
    exact .inr ⟨t, List.mem_append_right _ (List.mem_singleton.mpr rfl), hspec, rfl⟩

/-- Four textures: one that can be compiled, one that cannot, one without an image, and one with
the name of the first. -/
def shelfDocument : Document where
  nodes := [
    .of .materialResult 1
      { albedo := .ofNode 2, emission := .ofNode 3, opacity := .ofNode 4 "r", normal := .ofNode 5 },
    .of (.sample .flat) 2 { source := { image := "wood.png", name := "Wood", fallback := .zeros } },
    .of (.sample .flat) 3 { source := { image := "lost.png", name := "Lost", fallback := .zeros } },
    .of (.sample .flat) 4 {},
    .of (.sample .flat) 5 { source := { image := "oak.png", name := "Wood" } }]

/-- A compiler that does not find one of the images. -/
def shelf : Compiler where
  textures spec := if spec.image = "lost.png" then none else some spec.image

/-- What has been compiled, what has become of it, and what has been reported. -/
def inventory (e : Event) : List String × List (String × Option String × Vec4) × List String :=
  (e.pass.compiled.map TextureSpec.image,
    e.pass.globals.textures.map fun t => (t.global, t.asset, t.fallback),
    e.pass.report.entries.map Diagnostic.message)

/-- The inventory of the shelf in the end. -/
def shelfInventory : List String × List (String × Option String × Vec4) × List String :=
  (["wood.png", "lost.png"],
    [("g_tWood", some "wood.png", .zeros), ("g_tLost", none, .ones), ("g_tTexture2", none, .ones)],
    ["failed to compile texture \"lost.png\"", "duplicate name: Wood"])

/-- The request for the image is refused, because the name is taken. -/
def isRefusal (image name : String) : Event → Bool
  | .performed (.texture spec _ _) _ (.error fault) _ =>
    spec.image == image && fault == .duplicateName name
  | _ => false

theorem textures_compiled_once_shelf :
    (∃ e ∈ shelf.materialTrace shelfDocument {}, inventory e = shelfInventory ∧
      e.pass.Accounted shelf.textures) ∧
    ∃ spec name fallback before after,
      Event.performed (.texture spec name fallback) before (.error (.duplicateName "Wood")) after ∈
        shelf.materialTrace shelfDocument {} ∧ spec.image = "oak.png" ∧ after = before ∧
      Globals.TextureTaken .builtin before.globals spec name "Wood" := by
  have htrace : shelf.IsTrace shelfDocument (shelf.materialTrace shelfDocument {}) :=
    .inl ⟨{}, rfl⟩
  obtain ⟨haccounted, hrequests⟩ := (textures_compiled_once shelf shelfDocument).1 _ htrace
  constructor
  · have hend : ((shelf.materialTrace shelfDocument {}).any
        (inventory · == shelfInventory)) = true := by decide +kernel
    obtain ⟨e, he, hinventory⟩ := List.any_eq_true.mp hend
    exact ⟨e, he, beq_iff_eq.mp hinventory, haccounted e he⟩
  · have hrefused : ((shelf.materialTrace shelfDocument {}).any
        (isRefusal "oak.png" "Wood")) = true := by decide +kernel
    obtain ⟨e, he, hoak⟩ := List.any_eq_true.mp hrefused
    unfold isRefusal at hoak
    split at hoak
    · next spec name fallback before fault after =>
      rw [Bool.and_eq_true, beq_iff_eq, beq_iff_eq] at hoak
      obtain ⟨himage, rfl⟩ := hoak
      rcases hrequests _ _ _ _ _ _ he with ⟨word, htaken, hreply, hafter⟩ | ⟨t, -, -, hreply⟩
      · cases hreply
        exact ⟨spec, name, fallback, before, after, he, himage, hafter, htaken⟩
      · cases hreply
    · cases hoak

end Compiler

end MaterialGraph
