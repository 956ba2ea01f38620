import MaterialGraph.Proofs.Mirror

/-!
# The documents on the way

To follow a scope a pass makes the documents on the way ready, one after the other, unless they
have been before; and where a scope has led is kept, so that the way is not taken twice. What is
found, and which documents are on the way, can be said without a pass. This module gives both
and shows that, whatever a pass has kept, following a scope comes down to making the documents
on its way ready. So two passes that have made the same documents ready stay so, though one
may have kept more scopes than the other.

## Main definitions

* `Environment.stroll` — the documents on the way, and where it leads.
* `Pass.Kept` — a pass that has made the documents on the way of the kept scopes ready.
* `Pass.Visits` — documents that are made ready one after the other.
* `Pass.Known` — an output of which the outcome is known.

## Main results

* `Pass.follow_reaches` — following a scope makes the documents on its way ready.
* `Mirror.stroll_along`, `Mirror.visits_along` — two passes make the same documents ready.
* `Pass.resolve_known`, `Pass.resolve_again` — what has been resolved is known, and what is known
  is found again.
-/

namespace MaterialGraph

open Pass

namespace Environment

/-! ### The way of a scope -/

/-- The paths of the documents on the way from a document, itself reached through the documents
`paths`, and the document that the way leads to. -/
def stroll (env : Environment) (paths : List String) (d : Document) :
    Scope → List String × Except Fault Document
  | [] => ([], .ok d)
  | call :: rest =>
    match ((env.instanceOf d).behavior? call).map Behavior.role with
    | some (.subgraphCall path) =>
      if path ∈ paths then
        ([], .error (.cycle ("recursive subgraph: " ++ " -> ".intercalate (paths ++ [path]))))
      else
        match env.library path with
        | none => ([], .error (.message ("missing subgraph \"" ++ path ++ "\"")))
        | some d =>
          let d := if path = rootPath then env.root else d
          (path :: (stroll env (paths ++ [path]) d rest).1,
            (stroll env (paths ++ [path]) d rest).2)
    | some _ => ([], .error (.message ("node " ++ call.text ++ " is not a subgraph call")))
    | none => ([], .error (.message ("missing subgraph call node " ++ call.text)))

/-- The documents on the way of a scope, the root document first, and where it leads. -/
def route (env : Environment) (scope : Scope) : List String × Except Fault Document :=
  (rootPath :: (env.stroll [] env.root scope).1, (env.stroll [] env.root scope).2)

variable {env : Environment}

theorem stroll_append {before : Scope} (rest : Scope) :
    ∀ {paths ps : List String} {d d' : Document}, env.stroll paths d before = (ps, .ok d') →
      env.stroll paths d (before ++ rest) =
        (ps ++ (env.stroll (paths ++ ps) d' rest).1, (env.stroll (paths ++ ps) d' rest).2) := by
  induction before with
  | nil =>
    intro paths ps d d' h
    cases h
    rw [List.append_nil]
    rfl
  | cons call before ih =>
    intro paths ps d d' h
    rw [stroll] at h
    rw [List.cons_append, stroll]
    split at h
    · next path hrole =>
      by_cases hpath : path ∈ paths
      · rw [if_pos hpath] at h
        cases h
      · rw [if_neg hpath] at h ⊢
        cases hlib : env.library path with
        | none =>
          rw [hlib] at h
          cases h
        | some d₁ =>
          rw [hlib] at h
          dsimp only at h ⊢
          have hsnd : (env.stroll (paths ++ [path])
              (if path = rootPath then env.root else d₁) before).2 = .ok d' := congrArg Prod.snd h
          obtain rfl : path :: _ = ps := congrArg Prod.fst h
          rw [ih (Prod.ext rfl hsnd)]
          simp
    · cases h
    · cases h

/-- The way of one call. -/
theorem stroll_call {paths : List String} {d d' : Document} {call : NodeId} {path : String}
    (hrole : ((env.instanceOf d).behavior? call).map Behavior.role = some (.subgraphCall path))
    (hpath : path ∉ paths) (hlib : env.library path = some d') :
    env.stroll paths d [call] = ([path], .ok (if path = rootPath then env.root else d')) := by
  rw [stroll, hrole]
  dsimp only
  rw [if_neg hpath, hlib]
  rfl

/-- A way that leads to a document leads where its calls lead. -/
theorem documentAt_of_stroll {scope : Scope} :
    ∀ {paths : List String} {d d' : Document}, (env.stroll paths d scope).2 = .ok d' →
      scope.foldlM env.calledFrom? d = some d' := by
  induction scope with
  | nil =>
    intro paths d d' h
    cases h
    rfl
  | cons call rest ih =>
    intro paths d d' h
    rw [stroll] at h
    rw [List.foldlM_cons, calledFrom?]
    split at h
    · next path hrole =>
      split at h
      · cases h
      · cases hlib : env.library path with
        | none =>
          rw [hlib] at h
          cases h
        | some d₁ =>
          rw [hlib] at h
          rw [hrole]
          dsimp only
          rw [hlib, Option.bind_some, documentOf?_of_library hlib]
          exact ih h
    · cases h
    · cases h

end Environment

namespace Pass

variable {env : Environment} {s s' s'' : Pass} {path : String} {scope : Scope}

/-! ### Documents that have been made ready -/

/-- The document under a path has been made ready. -/
def Keeps (s : Pass) (path : String) : Prop := ∃ g, (path, g) ∈ s.instances

/-- What has been made ready stays so. -/
def Widens (s s' : Pass) : Prop := s.instances ⊆ s'.instances

theorem Widens.refl (s : Pass) : Widens s s := List.Subset.refl _

theorem Widens.trans (h : Widens s s') (h' : Widens s' s'') : Widens s s'' :=
  List.Subset.trans h h'

theorem Widens.keeps (h : Widens s s') (hs : s.Keeps path) : s'.Keeps path := by
  obtain ⟨g, hg⟩ := hs
  exact ⟨g, h hg⟩

theorem prepare_widens (env : Environment) (path : String) (d : Document) (s : Pass) :
    Widens s (s.prepare env path d).2 := by
  unfold prepare
  split
  · exact .refl s
  · refine List.subset_cons_of_subset _ ?_
    rw [(makeDocument_noted env d s).instances]
    exact List.Subset.refl _

theorem prepare_keeps (env : Environment) (path : String) (d : Document) (s : Pass) :
    (s.prepare env path d).2.Keeps path := by
  unfold prepare
  split
  · next entry g hg =>
    have hpath := List.find?_some hg
    rw [beq_iff_eq] at hpath
    exact ⟨g, hpath ▸ List.mem_of_find?_eq_some hg⟩
  · exact ⟨_, List.mem_cons_self⟩

/-- A document that has been made ready is not made ready again. -/
theorem prepare_of_keeps (hs : s.Keeps path) (env : Environment) (d : Document) :
    (s.prepare env path d).2 = s := by
  unfold prepare
  split
  · rfl
  · next hnone =>
    obtain ⟨g, hg⟩ := hs
    rw [List.find?_eq_none] at hnone
    exact (hnone _ hg (beq_self_eq_true _)).elim

/-- What is given then does not depend on the document. -/
theorem prepare_congr (hs : s.Keeps path) (env : Environment) (d d' : Document) :
    s.prepare env path d = s.prepare env path d' := by
  unfold prepare
  split
  · rfl
  · next hnone =>
    obtain ⟨g, hg⟩ := hs
    rw [List.find?_eq_none] at hnone
    exact (hnone _ hg (beq_self_eq_true _)).elim

theorem follow_widens (env : Environment) (scope : Scope) (s : Pass) :
    Widens s (s.follow env scope).2 :=
  (follow_follows env scope s).keeps (P := Widens s)
    (fun _ h => h.trans (prepare_widens env _ _ _)) (fun _ _ h => h) (fun _ _ h => h) (.refl s)

/-- A resolver that keeps what has been made ready. -/
def Resolver.Widening (r : Resolver) : Prop := ∀ site s, Widens s (r site s).2

/-- Every step of a pass keeps what has been made ready. -/
theorem widens_invariant (env : Environment) (s : Pass) : Invariant env (Widens s) where
  place h _ _ _ := h
  push h _ := h
  root h := h.trans (prepare_widens env rootPath env.root _)
  follow h scope := h.trans (follow_widens env scope _)
  register {s} h r c hc := by
    obtain ⟨_, _, _, _, -, -, hs⟩ := register_booked env r hc s
    rw [hs]
    exact h
  note h _ := h
  emit h _ _ _ := h
  remember h _ _ := h

theorem perform_widens (env : Environment) {r : Resolver} (hr : r.Widening) (c : Command)
    (s : Pass) : Widens s (s.perform env r c).2 :=
  (widens_invariant env s).perform (fun site _ h => h.trans (hr site _)) (.refl s) c

theorem resolve_widens (env : Environment) (room : Nat) : Resolver.Widening (resolve env room) :=
  fun site s => (widens_invariant env s).resolve room site s (.refl s)

/-- The pass `s'` comes from `s` by making documents ready, one after the other, whatever becomes
of the scopes. -/
inductive Visits (env : Environment) : List String → Pass → Pass → Prop where
  | nil (s : Pass) (scopes : List (Scope × Instance)) : Visits env [] s { s with scopes }
  /-- A document, and the documents after it. -/
  | cons {path : String} {paths : List String} {d : Document} {s s' : Pass}
      (scopes : List (Scope × Instance)) (hd : env.documentOf? path = some d)
      (rest : Visits env paths { (s.prepare env path d).2 with scopes } s') :
      Visits env (path :: paths) s s'

namespace Visits

variable {paths : List String}

theorem widens (h : Visits env paths s s') : Widens s s' := by
  induction h with
  | nil s scopes => exact .refl s
  | cons scopes hd rest ih => exact (prepare_widens env _ _ _).trans ih

theorem keeps (h : Visits env paths s s') : ∀ path ∈ paths, s'.Keeps path := by
  induction h with
  | nil s scopes => exact List.forall_mem_nil _
  | @cons path paths d s s' scopes hd rest ih =>
    have hkeeps : Keeps { (s.prepare env path d).2 with scopes } path := prepare_keeps env path d s
    exact List.forall_mem_cons.mpr ⟨rest.widens.keeps hkeeps, ih⟩

theorem rescope (h : Visits env paths s s') (scopes : List (Scope × Instance)) :
    Visits env paths s { s' with scopes } := by
  induction h with
  | nil s _ => exact .nil s scopes
  | cons scopes' hd rest ih => exact .cons scopes' hd ih

/-- Documents that have been made ready are not made ready again. -/
theorem of_keeps (hdoc : ∀ path ∈ paths, (env.documentOf? path).isSome)
    (hkeeps : ∀ path ∈ paths, s.Keeps path) : Visits env paths s s := by
  induction paths with
  | nil => exact .nil s s.scopes
  | cons path paths ih =>
    obtain ⟨hpath, hdoc⟩ := List.forall_mem_cons.mp hdoc
    obtain ⟨hfirst, hkeeps⟩ := List.forall_mem_cons.mp hkeeps
    obtain ⟨d, hd⟩ := Option.isSome_iff_exists.mp hpath
    have hsame := prepare_of_keeps hfirst env d
    refine .cons s.scopes hd ?_
    rw [hsame]
    exact ih hdoc hkeeps

/-- If they have all been made ready, only scopes change. -/
theorem eq_of_keeps (h : Visits env paths s s') (hkeeps : ∀ path ∈ paths, s.Keeps path) :
    ∃ scopes, s' = { s with scopes } := by
  induction h with
  | nil s scopes => exact ⟨scopes, rfl⟩
  | @cons path paths d s s' scopes hd rest ih =>
    obtain ⟨hfirst, hkeeps⟩ := List.forall_mem_cons.mp hkeeps
    rw [prepare_of_keeps hfirst env d] at ih
    obtain ⟨scopes', rfl⟩ := ih hkeeps
    exact ⟨scopes', rfl⟩

end Visits

/-- Whatever is on the way of a scope has been made ready. -/
def Visited (env : Environment) (scope : Scope) (s : Pass) : Prop :=
  ∀ path ∈ (env.route scope).1, s.Keeps path

theorem Widens.visited (h : Widens s s') (hs : Visited env scope s) :
    Visited env scope s' := fun path hpath => h.keeps (hs path hpath)

/-- The document of one call more has been made ready too. -/
theorem Visited.prepare {paths : List String} {call : NodeId} {x y : Except Fault Document}
    (h : Visited env scope s) (hway : env.stroll [] env.root scope = (paths, x))
    (hcall : env.stroll [] env.root (scope ++ [call]) = (paths ++ [path], y)) (d : Document) :
    Visited env (scope ++ [call]) (s.prepare env path d).2 := by
  unfold Visited Environment.route at h ⊢
  rw [hway] at h
  rw [hcall]
  intro other hother
  rw [← List.cons_append] at hother
  rcases List.mem_append.mp hother with hother | hother
  · exact (prepare_widens env path d s).keeps (h other hother)
  · rw [List.mem_singleton.mp hother]
    exact prepare_keeps env path d s

/-- A pass that keeps documents as they are, and of the scopes those that lead to a document, with
the documents on their way made ready. -/
structure Kept (env : Environment) (s : Pass) : Prop extends Faithful env s where
  /-- The documents on the way of scopes. -/
  routes : ∀ entry ∈ s.scopes, (∃ d, (env.route entry.1).2 = .ok d) ∧ Visited env entry.1 s

namespace Kept

/-- A step that makes no document ready. -/
theorem of_same (h : Kept env s) (hi : s'.instances = s.instances) (hs : s'.scopes = s.scopes) :
    Kept env s' := by
  refine ⟨h.toFaithful.of_same hi hs, fun entry he => ?_⟩
  obtain ⟨hok, hvisited⟩ := h.routes entry (hs ▸ he)
  refine ⟨hok, fun path hpath => ?_⟩
  unfold Keeps
  rw [hi]
  exact hvisited path hpath

theorem of_fresh (h : s.instances = [] ∧ s.scopes = []) : Kept env s := by
  refine ⟨.of_fresh h, ?_⟩
  rw [h.2]
  exact List.forall_mem_nil _

theorem rememberScope (h : Kept env s) {scope : Scope} {d : Document}
    (hd : (env.route scope).2 = .ok d) (hs : Visited env scope s) :
    Kept env (s.rememberScope scope (env.instanceOf d)) := by
  have hat : env.documentAt scope = some d := Environment.documentAt_of_stroll hd
  refine ⟨h.toFaithful.rememberScope hat, fun entry he => ?_⟩
  rcases List.mem_cons.mp he with rfl | he
  · exact ⟨⟨d, hd⟩, hs⟩
  · exact h.routes entry (List.mem_of_mem_filter he)

/-- A document is made ready as it is. -/
theorem prepare (h : Kept env s) {path : String} {d : Document}
    (hd : env.documentOf? path = some d) :
    (s.prepare env path d).1 = env.instanceOf d ∧ Kept env (s.prepare env path d).2 := by
  obtain ⟨hg, hf, -⟩ := prepare_faithful h.toFaithful hd (.inl rfl)
  refine ⟨hg, hf, fun entry he => ?_⟩
  rw [prepare_scopes] at he
  obtain ⟨hok, hvisited⟩ := h.routes entry he
  exact ⟨hok, (prepare_widens env path d s).visited hvisited⟩

end Kept

/-! ### Following a scope -/

/-- What comes of a way that is taken: where it leads, and that the documents on it have been made
ready, unless one of them calls itself. -/
structure Reaches (env : Environment) (way : List String × Except Fault Document) (s : Pass)
    (x : Except Fault Instance × Pass) : Prop where
  result : x.1 = way.2.map env.instanceOf
  kept : Kept env x.2
  visits : (∀ chain, way.2 ≠ .error (.cycle chain)) → Visits env way.1 s x.2
  /-- A document that calls itself is reported. -/
  fatal : ∀ chain, way.2 = .error (.cycle chain) → x.2.report.hasFatal = true

theorem walk_reaches (scope : Scope) :
    ∀ {before : Scope} {paths : List String} {d : Document} {s : Pass},
      env.stroll [] env.root before = (paths, .ok d) → Kept env s → Visited env before s →
      Reaches env (env.stroll paths d scope) s
        (walk env before paths (env.instanceOf d) scope s) := by
  induction scope with
  | nil => exact fun _ h _ => ⟨rfl, h, fun _ => .nil _ _, by rintro _ ⟨⟩⟩
  | cons call rest ih =>
    intro before paths d s hd h hvisited
    rw [walk, Environment.stroll]
    rcases hrole : ((env.instanceOf d).behavior? call).map Behavior.role with _ | role
    · exact ⟨rfl, h, fun _ => .nil _ _, by rintro _ ⟨⟩⟩
    · cases role with
      | subgraphCall path =>
        dsimp only
        by_cases hpath : path ∈ paths
        · rw [if_pos hpath, if_pos hpath]
          exact ⟨rfl, h.of_same rfl rfl, fun hc => (hc _ rfl).elim,
            fun _ _ => hasFatal_push_fatal _ _ _ _⟩
        · rw [if_neg hpath, if_neg hpath]
          cases hlib : env.library path with
          | none => exact ⟨rfl, h, fun _ => .nil _ _, by rintro _ ⟨⟩⟩
          | some d₁ =>
            have hdoc := Environment.documentOf?_of_library hlib
            have hcall := Environment.stroll_call hrole hpath hlib
            have hsame : d₁ = (if path = rootPath then env.root else d₁) ∨ s.Keeps path := by
              split
              · next hp => exact .inr (hp ▸ hvisited _ List.mem_cons_self)
              · exact .inl rfl
            dsimp only
            generalize (if path = rootPath then env.root else d₁) = d₂ at hdoc hsame hcall
            -- the document is the one under the path, or it is not looked at
            have hprepare : s.prepare env path d₁ = s.prepare env path d₂ := by
              rcases hsame with rfl | hkeeps
              · rfl
              · exact prepare_congr hkeeps env d₁ d₂
            obtain ⟨hg, hk⟩ := h.prepare hdoc
            have hstroll := Environment.stroll_append [call] hd
            rw [List.nil_append, hcall] at hstroll
            have hbefore := hvisited.prepare hd hstroll d₂
            have hroute : (env.route (before ++ [call])).2 = .ok d₂ := congrArg Prod.snd hstroll
            have hrest := ih hstroll (hk.rememberScope hroute hbefore) hbefore
            rw [hprepare, hg]
            exact ⟨hrest.result, hrest.kept, fun hc => .cons _ hdoc (hrest.visits hc), hrest.fatal⟩
      | _ => exact ⟨rfl, h, fun _ => .nil _ _, by rintro _ ⟨⟩⟩

/-- The documents on the way of a scope can be found. -/
theorem documentOf?_isSome_of_route :
    ∀ path ∈ (env.route scope).1, (env.documentOf? path).isSome := by
  have hstroll (scope : Scope) : ∀ (paths : List String) (d : Document),
      ∀ path ∈ (env.stroll paths d scope).1, (env.documentOf? path).isSome := by
    induction scope with
    | nil => exact fun _ _ => List.forall_mem_nil _
    | cons call rest ih =>
      intro paths d
      rw [Environment.stroll]
      split
      · next path _ =>
        split
        · exact List.forall_mem_nil _
        · split
          · exact List.forall_mem_nil _
          · next d₁ hlib =>
            refine List.forall_mem_cons.mpr ⟨?_, ih _ _⟩
            rw [Environment.documentOf?_of_library hlib]
            rfl
      · exact List.forall_mem_nil _
      · exact List.forall_mem_nil _
  exact List.forall_mem_cons.mpr ⟨rfl, hstroll scope [] env.root⟩

/-- **Following a scope makes the documents on its way ready**, whatever the pass has kept. -/
theorem follow_reaches (scope : Scope) (h : Kept env s) :
    Reaches env (env.route scope) s (s.follow env scope) := by
  unfold follow
  split
  · next g hg =>
    -- the scope has been followed before
    unfold scope? at hg
    rw [Option.map_eq_some_iff] at hg
    obtain ⟨entry, hfind, rfl⟩ := hg
    have hmem := List.mem_of_find?_eq_some hfind
    have hscope := List.find?_some hfind
    rw [beq_iff_eq] at hscope
    obtain ⟨⟨d, hd⟩, hvisited⟩ := h.routes entry hmem
    obtain ⟨d', hat, hg⟩ := h.scopes entry hmem
    have hat' : env.documentAt entry.1 = some d := Environment.documentAt_of_stroll hd
    rw [hat] at hat'
    cases hat'
    rw [hscope] at hd hvisited
    refine ⟨?_, h, fun _ => .of_keeps documentOf?_isSome_of_route hvisited, fun chain hc => ?_⟩
    · rw [hd, hg]
      rfl
    · rw [hd] at hc
      cases hc
  · have hdoc : env.documentOf? rootPath = some env.root := rfl
    obtain ⟨hg, hk⟩ := h.prepare hdoc
    have hroot : Visited env [] (s.root env).2 :=
      List.forall_mem_cons.mpr ⟨prepare_keeps env rootPath env.root s, List.forall_mem_nil _⟩
    have hnil : env.stroll [] env.root [] = ([], .ok env.root) := rfl
    have hw := walk_reaches scope hnil hk hroot
    rw [← hg] at hw
    dsimp only
    rcases hx : walk env [] [] (s.root env).1 scope (s.root env).2 with ⟨x, s₁⟩
    have hw : Reaches env (env.stroll [] env.root scope) (s.root env).2
        (walk env [] [] (s.root env).1 scope (s.root env).2) := hw
    rw [hx] at hw
    obtain ⟨hresult, hkept, hvisits, hfatal⟩ := hw
    dsimp only at hresult hkept hvisits hfatal
    have hall (hc : ∀ chain, (env.route scope).2 ≠ .error (.cycle chain)) :
        Visits env (env.route scope).1 s s₁ := .cons _ hdoc (hvisits hc)
    subst hresult
    rcases hway : (env.stroll [] env.root scope).2 with fault | d
    · exact ⟨congrArg (Except.map _) hway.symm, hkept, hall, hfatal⟩
    · have hroute : (env.route scope).2 = .ok d := hway
      have hok : ∀ chain, (env.route scope).2 ≠ .error (.cycle chain) := by
        rw [hroute]
        nofun
      exact ⟨congrArg (Except.map _) hway.symm, hkept.rememberScope hroute (hall hok).keeps,
        fun hc => (hall hc).rescope _, fun chain hc => (hok chain hc).elim⟩

theorem visited_of_follow {d : Document} (h : Kept env s) (hd : (env.route scope).2 = .ok d) :
    Visited env scope (s.follow env scope).2 := by
  refine ((follow_reaches scope h).visits ?_).keeps
  rw [hd]
  nofun

/-! ### Outcomes that are known -/

end Pass

namespace Environment

/-- The node that can be asked at a site. -/
def HasNode (env : Environment) (site : Site) (b : Behavior) : Prop :=
  ∃ d, (env.route site.scope).2 = .ok d ∧ (env.instanceOf d).state? site.node = some (.ready b)

/-- What is found at a site where there is no node to ask. -/
inductive Barren (env : Environment) (site : Site) : Outcome → Prop where
  | stray {fault : Fault} (h : (env.route site.scope).2 = .error fault)
      (hc : ∀ chain, fault ≠ .cycle chain) :
      Barren env site (.missingInput (strayMessage site.node fault))
  | broken {d : Document} {message : String} (h : (env.route site.scope).2 = .ok d)
      (hs : (env.instanceOf d).state? site.node = some (.broken message)) :
      Barren env site (.error message)
  | missing {d : Document} (h : (env.route site.scope).2 = .ok d)
      (hs : (env.instanceOf d).state? site.node = none) :
      Barren env site (.missingInput (missingNodeMessage site.node))

variable {env : Environment} {site : Site}

theorem Barren.not_hasNode {o : Outcome} (h : env.Barren site o) (b : Behavior) :
    ¬env.HasNode site b := by
  rintro ⟨d, hd, hb⟩
  cases h with
  | stray h hc =>
    rw [hd] at h
    cases h
  | broken h hs | missing h hs =>
    rw [hd] at h
    cases h
    rw [hb] at hs
    cases hs

end Environment

namespace Pass

variable {env : Environment} {s s' : Pass} {site : Site} {o : Outcome}
  {way : List String × Except Fault Document} {b : Behavior}

/-- Whatever is remembered is about a node, and its value is in its place. -/
def Backed (env : Environment) (s : Pass) : Prop :=
  ∀ site p, s.progress? site = some p → ∃ b, env.HasNode site b ∧
    ∀ e, p = .finished (.valid e) → b.role ≠ .materialRoot → staysInline e = true

/-- The outcome of a site is known: it is remembered, or there is no node to ask. -/
def Known (env : Environment) (s : Pass) (site : Site) (o : Outcome) : Prop :=
  s.progress? site = some (.finished o) ∨ env.Barren site o ∧ Visited env site.scope s

/-- What is found at a site, as far as its scope is concerned. -/
theorem route_of_follow {scope : Scope} {x : Except Fault Instance} (h : Kept env s)
    (hf : s.follow env scope = (x, s')) : Reaches env (env.route scope) s (x, s') := by
  rw [← hf]
  exact follow_reaches scope h

theorem Reaches.ok {g : Instance} (h : Reaches env way s (.ok g, s')) :
    ∃ d, way.2 = .ok d ∧ g = env.instanceOf d ∧
      Visits env way.1 s s' := by
  have hresult := h.result
  have hvisits := h.visits
  rcases hway : way.2 with fault | d
  · rw [hway] at hresult
    cases hresult
  · rw [hway] at hresult hvisits
    cases hresult
    exact ⟨d, rfl, rfl, hvisits nofun⟩

theorem Reaches.error {fault : Fault} (h : Reaches env way s (.error fault, s')) :
    way.2 = .error fault := by
  have hresult := h.result
  rcases hway : way.2 with fault' | d
  · rw [hway] at hresult
    cases hresult
    rfl
  · rw [hway] at hresult
    cases hresult

/-- The document of a node that can be asked has been made ready. -/
theorem Arrives.visited (ha : Arrives env site s (.node b) s') (h : Kept env s) :
    Visited env site.scope s' := by
  cases ha with
  | node g s' b hn hf hg he =>
    obtain ⟨d, -, -, hv⟩ := (route_of_follow h hf).ok
    exact hv.keeps

theorem Backed.not_barren (h : Backed env s) (ho : env.Barren site o) :
    s.progress? site = none := by
  cases hp : s.progress? site with
  | none => rfl
  | some p =>
    obtain ⟨b, hb, -⟩ := h site p hp
    exact (ho.not_hasNode b hb).elim

theorem resolve_settled (room : Nat) (h : s.arrive env site = (.settled o, s')) :
    resolve env room site s = (o, s') := by
  cases room with
  | zero => rw [resolve, h]
  | succ room => rw [resolve, h]

theorem resolve_zero_node (h : s.arrive env site = (.node b, s')) :
    resolve env 0 site s = s'.reportDepth site := by
  rw [resolve, h]

theorem resolve_succ_node (room : Nat) (h : s.arrive env site = (.node b, s')) :
    resolve env (room + 1) site s = s'.ask env (resolve env room) site b := by
  rw [resolve, h]

/-- What is known when a site has been looked up. -/
theorem Arrives.known_of_calm (ha : Arrives env site s (.settled o) s') (h : Kept env s)
    (hcalm : s'.report.hasFatal = false) : Known env s' site o := by
  cases ha with
  | known o hk => exact .inl hk
  | cycle hs =>
    have hpush : (s.reportCycle site).2.report.hasFatal = true := hasFatal_push_fatal _ _ _ _
    rw [hpush] at hcalm
    cases hcalm
  | recursive chain s' hn hf =>
    have hr := route_of_follow h hf
    rw [hr.fatal chain hr.error] at hcalm
    cases hcalm
  | stray fault s₁ hn hf =>
    have hr := route_of_follow h hf
    have hcycle : ∀ chain, fault ≠ .cycle chain := by
      rintro chain rfl
      have hpush := Report.no_fatal_of_extends (s₁.report.entries_prefix_push _) hcalm
      rw [hr.fatal chain hr.error] at hpush
      cases hpush
    have hway : ∀ chain, (env.route site.scope).2 ≠ .error (.cycle chain) := by
      rw [hr.error]
      intro chain hc
      exact hcycle chain (Except.error.inj hc)
    exact .inr ⟨.stray hr.error hcycle, (hr.visits hway).keeps⟩
  | broken g s' message hn hf hg =>
    obtain ⟨d, hd, rfl, hv⟩ := (route_of_follow h hf).ok
    exact .inr ⟨.broken hd hg, hv.keeps⟩
  | missing g s₁ hn hf hg =>
    obtain ⟨d, hd, rfl, hv⟩ := (route_of_follow h hf).ok
    exact .inr ⟨.missing hd hg, hv.keeps⟩
  | faulty g s₁ b message rest hn hf hg he =>
    refine .inl ?_
    rw [progress?_remember, if_pos rfl]

/-- What has been resolved is known, if nothing fatal has been reported. -/
theorem resolve_known (room : Nat) (h : Kept env s)
    (hcalm : (resolve env room site s).2.report.hasFatal = false) :
    Known env (resolve env room site s).2 site (resolve env room site s).1 := by
  refine resolve_induction (motive := fun site s x => Kept env s → x.2.report.hasFatal = false →
    Known env x.2 site x.1) ?_ ?_ ?_ room site s h hcalm
  · exact fun ha h hcalm => ha.known_of_calm h hcalm
  · intro site s b s' _ _ hcalm
    have hpush : (s'.reportDepth site).2.report.hasFatal = true := hasFatal_push_fatal _ _ _ _
    rw [hpush] at hcalm
    cases hcalm
  · intro room site s b s' _ _ _ _
    rw [ask_eq]
    refine .inl ?_
    rw [progress?_remember, if_pos rfl]

/-- What is known is found again, and nothing new is made ready. -/
theorem arrive_again (h : Kept env s) (hb : Backed env s) (hk : Known env s site o) :
    ∃ scopes report, s.arrive env site = (.settled o, { s with scopes, report }) ∧
      report.hasFatal = s.report.hasFatal ∧ Kept env { s with scopes, report } := by
  rcases hk with hk | ⟨ho, hvisited⟩
  · refine ⟨s.scopes, s.report, ?_, rfl, h⟩
    unfold arrive
    rw [hk]
  · have hn := hb.not_barren ho
    rcases hf : s.follow env site.scope with ⟨x, s₁⟩
    have hr := route_of_follow h hf
    have hway : ∀ chain, (env.route site.scope).2 ≠ .error (.cycle chain) := by
      intro chain hc
      cases ho with
      | stray h hcycle =>
        rw [h] at hc
        exact hcycle chain (Except.error.inj hc)
      | broken h hs =>
        rw [h] at hc
        cases hc
      | missing h hs =>
        rw [h] at hc
        cases hc
    -- all documents on the way are ready, so following it again only fills in scopes
    obtain ⟨scopes, rfl⟩ := (hr.visits hway).eq_of_keeps hvisited
    have hkept := hr.kept
    have hx := hr.result
    dsimp only at hkept hx
    have hdangling (message : String) : (s.report.push
        (.error .danglingReference s.currentNode message)).hasFatal = s.report.hasFatal :=
      (Report.hasFatal_push _ _).trans (Bool.or_false _)
    unfold arrive
    rw [hn, hf]
    cases ho with
    | @stray fault h hcycle =>
      rw [h] at hx
      cases hx
      refine ⟨scopes, _, ?_, hdangling (strayMessage site.node fault), hkept.of_same rfl rfl⟩
      cases fault with
      | cycle chain => exact (hcycle chain rfl).elim
      | _ => rfl
    | broken h hs =>
      rw [h] at hx
      cases hx
      refine ⟨scopes, s.report, ?_, rfl, hkept⟩
      dsimp only [Except.map]
      rw [hs]
    | missing h hs =>
      rw [h] at hx
      cases hx
      refine ⟨scopes, _, ?_, hdangling (missingNodeMessage site.node), hkept.of_same rfl rfl⟩
      dsimp only [Except.map]
      rw [hs]
      rfl

theorem resolve_again (room : Nat) (h : Kept env s) (hb : Backed env s)
    (hk : Known env s site o) : ∃ scopes report, resolve env room site s =
      (o, { s with scopes, report }) ∧ report.hasFatal = s.report.hasFatal ∧
      Kept env { s with scopes, report } := by
  obtain ⟨scopes, report, ha, hreport, hkept⟩ := arrive_again h hb hk
  exact ⟨scopes, report, resolve_settled room ha, hreport, hkept⟩

end Pass

/-! ### Two passes on the same way -/

/-- Where a way leads on both sides. -/
inductive Mirror.Ways (D : Document → Document → Prop) :
    Except Fault Document → Except Fault Document → Prop where
  | ok {d d' : Document} (h : D d d') : Ways D (.ok d) (.ok d')
  | error (fault : Fault) : Ways D (.error fault) (.error fault)

namespace Mirror

variable {M : Mirror} {D : Document → Document → Prop} (hD : ∀ {d d'}, D d d' → M.Makes d d')
  (hroot : D M.left.root M.right.root)
  (hlib : ∀ path, Option.Rel D (M.left.library path) (M.right.library path))
include hD hroot hlib

/-- The same documents are on the way on both sides, and it leads to documents that stand for each
other. -/
theorem stroll_along (scope : Scope) (hscope : ∀ call ∈ scope, M.names call) :
    ∀ (paths : List String) {d d' : Document}, D d d' →
      (M.right.stroll paths d' scope).1 = (M.left.stroll paths d scope).1 ∧
        Ways D (M.left.stroll paths d scope).2 (M.right.stroll paths d' scope).2 := by
  induction scope with
  | nil => exact fun _ _ _ hd => ⟨rfl, .ok hd⟩
  | cons call rest ih =>
    obtain ⟨hcall, hrest⟩ := List.forall_mem_cons.mp hscope
    intro paths d d' hd
    rw [Environment.stroll, Environment.stroll, (hD hd).instances.role hcall]
    rcases ((M.left.instanceOf d).behavior? call).map Behavior.role with _ | role
    · exact ⟨rfl, .error _⟩
    · cases role with
      | subgraphCall path =>
        dsimp only
        by_cases hpath : path ∈ paths
        · rw [if_pos hpath, if_pos hpath]
          exact ⟨rfl, .error _⟩
        · have hcalled := hlib path
          rw [if_neg hpath, if_neg hpath]
          generalize M.left.library path = x at hcalled
          generalize M.right.library path = y at hcalled
          cases hcalled with
          | none => exact ⟨rfl, .error _⟩
          | @some d₁ d₁' hd₁ =>
            have hd₂ : D (if path = rootPath then M.left.root else d₁)
                (if path = rootPath then M.right.root else d₁') := by
              split
              · exact hroot
              · exact hd₁
            obtain ⟨hpaths, hways⟩ := ih hrest (paths ++ [path]) hd₂
            exact ⟨congrArg (path :: ·) hpaths, hways⟩
      | _ => exact ⟨rfl, .error _⟩

theorem route_along {scope : Scope} (hscope : ∀ call ∈ scope, M.names call) :
    (M.right.route scope).1 = (M.left.route scope).1 ∧
      Ways D (M.left.route scope).2 (M.right.route scope).2 := by
  obtain ⟨hpaths, hways⟩ := stroll_along hD hroot hlib scope hscope [] hroot
  exact ⟨congrArg (rootPath :: ·) hpaths, hways⟩

/-- The same documents are made ready on both sides. -/
theorem visits_along {paths : List String} {s s' t t' : Pass} (hs : Visits M.left paths s s')
    (ht : Visits M.right paths t t') (h : M.Remarked s t)
    (hi : M.Tables s.instances t.instances) :
    M.Remarked s' t' ∧ M.Tables s'.instances t'.instances := by
  induction hs generalizing t with
  | nil s scopes =>
    cases ht with
    | nil t scopes' => exact ⟨⟨h.report, h.metadata⟩, hi⟩
  | @cons path paths d s s' scopes hd rest ih =>
    cases ht with
    | @cons _ _ d' _ _ scopes' hd' rest' =>
      have hmakes : M.Makes d d' := by
        unfold Environment.documentOf? at hd hd'
        split at hd
        · next hp =>
          rw [if_pos hp] at hd'
          cases hd
          cases hd'
          exact hD hroot
        · next hp =>
          have hcalled := hlib path
          rw [if_neg hp] at hd'
          rw [hd, hd'] at hcalled
          cases hcalled with
          | some hd => exact hD hd
      obtain ⟨-, hremarked, htables⟩ := prepare_along path hmakes h hi
      exact ih rest' ⟨hremarked.report, hremarked.metadata⟩ htables

end Mirror

end MaterialGraph
