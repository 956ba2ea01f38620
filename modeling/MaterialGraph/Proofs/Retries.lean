import MaterialGraph.Proofs.Touched

/-!
# Documents that are refused

When a document is refused, the nodes before the one that is refused have been brought up to
date, and what the migration has made of the settings so far stays. A second upgrade passes over
the nodes that are done and comes to the same node again. It is refused again, for the same
reason, if the migration only looks at settings before it refuses them.

The migration of results is different: it takes the channel out of the settings before it looks at
it. A channel that it cannot read is refused once, and is gone the second time.

## Main results

* `Migrations.Walk.again` — a node that is refused is refused again.
* `Migrations.functionResult_relents` — the migration of results accepts what it has left behind.
* `Migrations.rejected_again` — when a document that was refused is refused again.
* `Migrations.accepted_on_retry` — a document that is refused once and accepted then.
-/

namespace MaterialGraph

/-! ### Edits that refuse something -/

namespace Edit

variable {ε α β : Type}

/-- The edit refuses what it has left behind when it refused something, and leaves it at that. -/
def Stubborn (x : Edit ε α) : Prop :=
  ∀ (d d' : Fields) (e : ε), x.run d = (.error e, d') → x.run d' = (.error e, d')

/-- The edit refuses nothing. -/
def Total (x : Edit ε α) : Prop := ∀ d : Fields, ∃ a d', x.run d = (.ok a, d')

theorem Total.bind {x : Edit ε α} {f : α → Edit ε β} (hx : x.Total) (hf : ∀ a, (f a).Total) :
    (x >>= f).Total := by
  intro d
  obtain ⟨a, d₁, ha⟩ := hx d
  obtain ⟨b, d₂, hb⟩ := hf a d₁
  exact ⟨b, d₂, (run_bind_of_ok ha).trans hb⟩

theorem total_rename (source target : String) : (rename source target : Edit ε Unit).Total := by
  refine Total.bind (fun d => ⟨_, _, rfl⟩) fun value => ?_
  cases value with
  | none => exact fun d => ⟨_, _, rfl⟩
  | some value => exact fun d => ⟨_, _, rfl⟩

theorem Total.stubborn {x : Edit ε α} (h : x.Total) : x.Stubborn := by
  intro d d' e hrun
  obtain ⟨a, d'', ha⟩ := h d
  rw [ha] at hrun
  cases hrun

/-- An edit that looks at a member and refuses it, or goes on without refusing anything. -/
theorem stubborn_look {key : String} {f : Option Json → Edit ε α}
    (h : ∀ value, (∃ e, f value = throw e) ∨ (f value).Total) : (get? key >>= f).Stubborn := by
  have hlook (d : Fields) : (get? key >>= f).run d = (f (Dictionary.get? d key)).run d :=
    run_bind_of_ok rfl
  intro d d' e hrun
  rw [hlook] at hrun
  rcases h (Dictionary.get? d key) with ⟨e', hthrow⟩ | htotal
  · rw [hthrow] at hrun
    cases hrun
    rw [hlook, hthrow]
    rfl
  · obtain ⟨a, d'', ha⟩ := htotal d
    rw [ha] at hrun
    cases hrun

/-- An edit that takes a member out and then refuses it does not find it again. -/
theorem relents_take {key : String} {keys : List String} {x : Edit ε β} {f : Option Json → Edit ε α}
    (htotal : x.Total) (hx : x.Confined keys) (hkey : key ∉ keys)
    (hf : ∀ value, (∃ e, f value = throw e) ∨ (f value).Total) (hnone : (f none).Total)
    {d d' : Fields} {e : ε} (h : (x >>= fun _ => take? key >>= f).run d = (.error e, d')) :
    ∃ a d'', (x >>= fun _ => take? key >>= f).run d' = (.ok a, d'') := by
  have htake (d : Fields) : (take? key >>= f).run d =
      (f (Dictionary.get? d key)).run (Dictionary.erase d key) := run_bind_of_ok rfl
  obtain ⟨b, d₁, hb⟩ := htotal d
  rw [run_bind_of_ok hb, htake] at h
  -- only the member can have been refused, and it has been taken out
  have hgone : Dictionary.get? d' key = none := by
    rcases hf (Dictionary.get? d₁ key) with ⟨e', hthrow⟩ | hgoes
    · rw [hthrow] at h
      cases h
      rw [Dictionary.get?_erase, if_pos rfl]
    · obtain ⟨a, d₂, ha⟩ := hgoes (Dictionary.erase d₁ key)
      rw [ha] at h
      cases h
  obtain ⟨b', d₂, hb'⟩ := htotal d'
  have hstill : Dictionary.get? d₂ key = none := by
    have hkept := hx d' key hkey
    rw [hb'] at hkept
    exact hkept.trans hgone
  rw [run_bind_of_ok hb', htake, hstill]
  exact hnone _

end Edit

namespace Migrations

theorem lerp_stubborn : Migration.lerp.edit.Stubborn :=
  ((Edit.total_rename _ _).bind fun _ => Edit.total_rename _ _).stubborn

theorem textureSample_stubborn : Migration.textureSample.edit.Stubborn := by
  refine Edit.stubborn_look fun value => ?_
  split
  · exact .inr fun d => ⟨_, _, rfl⟩
  · exact .inr fun d => ⟨_, _, rfl⟩
  · exact .inr fun d => ⟨_, _, rfl⟩
  · exact .inl ⟨_, rfl⟩

theorem branch_stubborn : Migration.branch.edit.Stubborn := by
  refine Edit.stubborn_look fun value => ?_
  split
  · exact .inr fun d => ⟨_, _, rfl⟩
  · split
    · exact .inr fun d => ⟨_, _, rfl⟩
    · exact .inl ⟨_, rfl⟩
  · exact .inl ⟨_, rfl⟩

/-- **The migration of results accepts what it has left behind.** The channel that it refused is
no longer there. -/
theorem functionResult_relents {d d' : Fields} {reason : String}
    (h : Migration.functionResult.edit.run d = (.error reason, d')) :
    ∃ d'', Migration.functionResult.edit.run d' = (.ok (), d'') := by
  obtain ⟨f, hedit, hnone, hf⟩ : ∃ f : Option Json → Edit String Unit,
      Migration.functionResult.edit =
        (Edit.rename "Name" "name" >>= fun _ => Edit.rename "Value" "value") >>=
          (fun _ => Edit.take? "PreviewType" >>= f) ∧
        (f none).Total ∧ ∀ value, (∃ e, f value = throw e) ∨ (f value).Total := by
    refine ⟨_, by rw [bind_assoc]; rfl, fun d => ⟨_, _, rfl⟩, fun value => ?_⟩
    split
    · exact .inr fun d => ⟨_, _, rfl⟩
    · exact .inr fun d => ⟨_, _, rfl⟩
    · exact .inr fun d => ⟨_, _, rfl⟩
    · exact .inr fun d => ⟨_, _, rfl⟩
    · exact .inl ⟨_, rfl⟩
  have hrenames : (Edit.rename "Name" "name" >>= fun _ => Edit.rename "Value" "value" :
      Edit String Unit).Confined ["Name", "name", "Value", "value"] :=
    .bind (Edit.confined_rename (by simp) (by simp)) fun _ =>
      Edit.confined_rename (by simp) (by simp)
  rw [hedit] at h ⊢
  obtain ⟨⟨⟩, d'', ha⟩ := Edit.relents_take
    ((Edit.total_rename _ _).bind fun _ => Edit.total_rename _ _) hrenames (by decide) hf hnone h
  exact ⟨d'', ha⟩

/-! ### Nodes that are refused -/

variable {ms : Migrations} {node node' : Fields} {c : String} {v : UInt32} {m : Migration}
  {f : UpgradeFailure}

theorem Stands.settings (h : Stands node c v) (j : Json) :
    Stands (Dictionary.insert node "settings" j) c v := by
  unfold Stands classOf versionOf
  rw [Dictionary.get?_insert, Dictionary.get?_insert, if_neg (by decide), if_neg (by decide)]
  exact h

theorem settings?_insert (node settings : Fields) :
    settings? (Dictionary.insert node "settings" (.object settings)) = some settings := by
  rw [settings?, Dictionary.get?_insert_self]

/-- A migration that was refused is refused again if its edit is stubborn. -/
theorem migrate_again (h : (migrate m).run node = (.error f, node'))
    (hedit : ∀ reason, f = .refused m.className m.version reason → m.edit.Stubborn) :
    (migrate m).run node' = (.error f, node') := by
  cases migrate_cases h with
  | stuck _ => exact h
  | @refused settings settings' reason hs he =>
    have hagain := hedit reason rfl settings settings' reason he
    rw [migrate_of_refused (settings?_insert node settings') hagain, Dictionary.insert_insert]

section Walks

variable {fuel : Nat} {x : Except UpgradeFailure Nat × Fields}

/-- Fuel that is used up has been used for migrations. -/
theorem Walk.chain_of_endless (h : Walk ms fuel node x) (hx : x.1 = .error .endless) :
    ∃ path, Chain ms node path x.2 ∧ path.length = fuel := by
  induction h with
  | current _ => cases hx
  | lost hlost _ =>
    cases hx
    cases hlost
  | exhausted _ _ => exact ⟨[], .nil _, rfl⟩
  | @refused fuel node node' c v m f _ _ hrun =>
    cases hx
    cases migrate_cases hrun
  | @step fuel node node₁ node₂ c v m x hstands hm hrun _ ih =>
    cases x with
    | ok n => cases hx
    | error f =>
      obtain ⟨path, hchain, hlength⟩ := ih hx
      exact ⟨m :: path, .cons hstands hm hrun hchain, congrArg (· + 1) hlength⟩

/-- Where a node stands that a migration has refused, and what is left of its settings. -/
theorem Walk.refusal (h : Walk ms fuel node x) {reason : String}
    (hx : x.1 = .error (.refused c v reason)) :
    ∃ m settings settings', Stands x.2 c v ∧ ms.find? c v = some m ∧
      m.edit.run settings = (.error reason, settings') ∧ settings? x.2 = some settings' := by
  induction h with
  | current _ => cases hx
  | lost hlost _ =>
    cases hx
    cases hlost
  | exhausted _ _ => cases hx
  | @refused fuel node node' c' v' m f hstands hm hrun =>
    cases hx
    obtain ⟨-, rfl, rfl⟩ := of_find?_eq_some hm
    cases migrate_cases hrun with
    | @refused settings settings' _ hs he =>
      exact ⟨m, settings, settings', hstands.settings _, hm, he, settings?_insert node settings'⟩
  | @step fuel node node₁ node₂ c v m x _ _ _ _ ih =>
    cases x with
    | ok n => cases hx
    | error f => exact ih hx

/-- **A node that was refused is refused again**, for the same reason, if no migration but a
stubborn one refuses it. Only migrations that lead in a circle may come to another end. -/
theorem Walk.again (h : Walk ms fuel node x) (hx : x.1 = .error f) (hf : f ≠ .endless)
    (hedits : ∀ m ∈ ms.list, ∀ reason, f = .refused m.className m.version reason → m.edit.Stubborn)
    (again : Nat) : (ms.upgradeNode (again + 1)).run x.2 = (.error f, x.2) := by
  induction h with
  | current _ => cases hx
  | lost _ hnext =>
    cases hx
    exact upgradeNode_of_error hnext _
  | exhausted _ _ =>
    cases hx
    exact absurd rfl hf
  | @refused fuel node node' c v m f' hstands hm hrun =>
    cases hx
    have hagain := migrate_again hrun (hedits m (of_find?_eq_some hm).1)
    -- the node still stands where it was
    have hstill : Stands node' c v := by
      cases migrate_cases hrun with
      | stuck _ => exact hstands
      | refused _ _ => exact hstands.settings _
    exact upgradeNode_succ_of_error hstill hm hagain again
  | @step fuel node node₁ node₂ c v m x hstands hm hrun _ ih =>
    cases x with
    | ok n => cases hx
    | error f' => exact ih hx

end Walks

/-! ### The built-in migrations -/

theorem builtin_stubborn (hm : m ∈ builtin.list) (hclass : m.className ≠ "FunctionResult") :
    m.edit.Stubborn := by
  simp only [builtin, List.mem_cons, List.not_mem_nil, or_false] at hm
  rcases hm with rfl | rfl | rfl | rfl
  · exact absurd rfl hclass
  · exact lerp_stubborn
  · exact textureSample_stubborn
  · exact branch_stubborn

/-- A chain of built-in migrations does not use up the budget. -/
theorem builtin_ne_endless {x : Except UpgradeFailure Nat × Fields}
    (h : Walk builtin builtin.budget node x) : x.1 ≠ .error .endless := by
  intro hx
  obtain ⟨path, hchain, hlength⟩ := h.chain_of_endless hx
  have hbudget : builtin.budget = 8 := rfl
  rcases builtin_chain_cases hchain with ⟨rfl, -⟩ | ⟨c, m, _, _, -, -, -, -, rfl, -⟩
  · rw [hbudget] at hlength
    cases hlength
  · rw [hbudget] at hlength
    cases hlength

/-- A node that a built-in migration refuses is refused again, unless it is a result. -/
theorem builtin_refuses_again
    (h : (builtin.upgradeNode builtin.budget).run node = (.error f, node'))
    (hf : ∀ reason, f ≠ .refused "FunctionResult" 1 reason) :
    (builtin.upgradeNode builtin.budget).run node' = (.error f, node') := by
  have hwalk : Walk builtin builtin.budget node (.error f, node') :=
    h ▸ upgradeNode_walk builtin builtin.budget node
  refine hwalk.again rfl ?_ ?_ 7
  · rintro rfl
    exact builtin_ne_endless hwalk rfl
  · intro m hm reason hreason
    refine builtin_stubborn hm fun hclass => ?_
    -- a result is only ever migrated from its first version
    have hversion : m.version = 1 := by
      simp only [builtin, List.mem_cons, List.not_mem_nil, or_false] at hm
      rcases hm with rfl | rfl | rfl | rfl <;> rfl
    rw [hclass, hversion] at hreason
    exact hf reason hreason

/-- A result that has been refused is accepted as it has been left behind. -/
theorem builtin_relents {reason : String}
    (h : (builtin.upgradeNode builtin.budget).run node =
      (.error (.refused "FunctionResult" 1 reason), node')) :
    ∃ node'', (builtin.upgradeNode builtin.budget).run node' = (.ok 1, node'') := by
  have hwalk : Walk builtin builtin.budget node (_, node') :=
    h ▸ upgradeNode_walk builtin builtin.budget node
  obtain ⟨m, settings, settings', hstands, hm, he, hs⟩ := hwalk.refusal rfl
  obtain rfl : Migration.functionResult = m := Option.some.inj hm
  obtain ⟨settings'', he'⟩ := functionResult_relents he
  have hchain : Chain builtin node' [.functionResult] (moved .functionResult node' settings'') :=
    .cons hstands hm (migrate_of_done hs he') (.nil _)
  exact ⟨_, upgradeNode_eq_ok_iff.mpr ⟨_, hchain, rfl, _, _, stands_moved _ _ _, rfl⟩⟩

/-! ### Documents that are refused -/

/-- How a node of a document is refused. -/
inductive Fails (ms : Migrations) : UpgradeFailure → Json → Json → Prop
  | notObject {j : Json}
      (h : ∀ rest, ms.upgradeNodes (j :: rest) = (.error .nodeNotObject, j :: rest)) :
      Fails ms .nodeNotObject j j
  | node {f : UpgradeFailure} {node node' : Fields}
      (h : (ms.upgradeNode ms.budget).run node = (.error f, node')) :
      Fails ms f (.object node) (.object node')

/-- The nodes in front of the one that is refused have been brought up to date, and those behind it
have not been looked at. -/
theorem upgradeNodes_eq_error {nodes nodes' : List Json}
    (h : ms.upgradeNodes nodes = (.error f, nodes')) :
    ∃ (earlier : List Json) (n : Nat) (done : List Fields) (j j' : Json) (later : List Json),
      ms.upgradeNodes earlier = (.ok n, done.map .object) ∧ (∀ node ∈ done, ms.Current node) ∧
      ms.Fails f j j' ∧ nodes = earlier ++ j :: later ∧
      nodes' = done.map .object ++ j' :: later := by
  induction nodes generalizing nodes' with
  | nil => cases h
  | cons j rest ih =>
    cases j with
    | object node =>
      rcases hnode : ((ms.upgradeNode ms.budget).run node : Except UpgradeFailure Nat × Fields)
        with ⟨f' | k, node'⟩
      · rw [upgradeNodes_cons_of_error hnode] at h
        cases h
        exact ⟨[], 0, [], _, _, rest, rfl, List.forall_mem_nil _, .node hnode, rfl, rfl⟩
      · rw [upgradeNodes_cons_of_ok hnode] at h
        rcases hrest : ms.upgradeNodes rest with ⟨f' | k', rest'⟩
        · rw [hrest] at h
          cases h
          obtain ⟨earlier, n, done, j, j', later, hearlier, hdone, hfails, rfl, rfl⟩ := ih hrest
          obtain ⟨-, -, -, hcurrent⟩ := upgradeNode_eq_ok_iff.mp hnode
          refine ⟨.object node :: earlier, k + n, node' :: done, j, j', later, ?_,
            List.forall_mem_cons.mpr ⟨hcurrent, hdone⟩, hfails, rfl, rfl⟩
          rw [upgradeNodes_cons_of_ok hnode, hearlier]
          rfl
        · rw [hrest] at h
          cases h
    | _ =>
      cases h
      exact ⟨[], 0, [], _, _, rest, rfl, List.forall_mem_nil _, .notObject fun _ => rfl, rfl, rfl⟩

/-- An upgrade of a document fails because of its form, or because of a node. -/
theorem upgrade_eq_error {j j' : Json} (h : ms.upgrade j = (.error f, j')) :
    ((f = .notObject ∨ f = .noNodes) ∧ j' = j) ∨
      ∃ (root : Fields) (nodes nodes' : List Json), j = .object root ∧
        Dictionary.get? root "nodes" = some (.array nodes) ∧
        ms.upgradeNodes nodes = (.error f, nodes') ∧
        j' = .object (Dictionary.insert root "nodes" (.array nodes')) := by
  cases j with
  | object root =>
    rw [upgrade] at h
    split at h
    · next nodes hroot =>
      rcases hnodes : ms.upgradeNodes nodes with ⟨f' | n, nodes'⟩
      · rw [hnodes] at h
        cases h
        exact .inr ⟨root, nodes, nodes', rfl, hroot, hnodes, rfl⟩
      · rw [hnodes] at h
        cases h
    · cases h
      exact .inl ⟨.inr rfl, rfl⟩
  | _ =>
    cases h
    exact .inl ⟨.inl rfl, rfl⟩

/-- What becomes of a document depends on its nodes. -/
theorem upgrade_fst {root : Fields} {nodes : List Json}
    (h : Dictionary.get? root "nodes" = some (.array nodes)) :
    (ms.upgrade (.object root)).1 = (ms.upgradeNodes nodes).1 := by
  rw [upgrade, h]
  dsimp only
  rcases ms.upgradeNodes nodes with ⟨f | n, nodes'⟩
  · rfl
  · rfl

/-- **A document that was refused is refused again**, for the same reason and without another
change, unless the migration of results has refused it. In that case the nodes in front of the
result have been brought up to date, the result is accepted as it has been left behind, and the
document is refused again only if a later node is refused. -/
theorem rejected_again {j j' : Json} (h : builtin.upgrade j = (.error f, j')) :
    ((∀ reason, f ≠ .refused "FunctionResult" 1 reason) → builtin.upgrade j' = (.error f, j')) ∧
      ∀ reason, f = .refused "FunctionResult" 1 reason →
        ∃ earlier n done node left accepted later,
          j.get? "nodes" = some (.array (earlier ++ .object node :: later)) ∧
          j'.get? "nodes" = some (.array (done ++ .object left :: later)) ∧
          builtin.upgradeNodes earlier = (.ok n, done) ∧
          (builtin.upgradeNode builtin.budget).run node = (.error f, left) ∧
          (builtin.upgradeNode builtin.budget).run left = (.ok 1, accepted) ∧
          (builtin.upgrade j').1 = (builtin.upgradeNodes later).1.map (1 + ·) := by
  rcases upgrade_eq_error h with ⟨hform, rfl⟩ | ⟨root, nodes, nodes', rfl, hget, hnodes, rfl⟩
  · refine ⟨fun _ => h, ?_⟩
    rintro reason rfl
    rcases hform with hform | hform <;> cases hform
  obtain ⟨earlier, n, done, node, node', later, hearlier, hdone, hfails, rfl, rfl⟩ :=
    upgradeNodes_eq_error hnodes
  have hroot : Dictionary.get?
      (Dictionary.insert root "nodes" (.array (done.map .object ++ node' :: later))) "nodes" =
        some (.array (done.map .object ++ node' :: later)) :=
    Dictionary.get?_insert_self _ _ _
  constructor
  · intro hf
    have hagain : builtin.upgradeNodes (node' :: later) = (.error f, node' :: later) := by
      cases hfails with
      | notObject hrefused => exact hrefused later
      | node hrefused => exact upgradeNodes_cons_of_error (builtin_refuses_again hrefused hf) later
    rw [upgrade, hroot]
    dsimp only
    rw [upgradeNodes_append_of_current hdone, hagain]
    dsimp only
    rw [Dictionary.insert_insert]
  · rintro reason rfl
    cases hfails with
    | node hrefused =>
      obtain ⟨accepted, hnode⟩ := builtin_relents hrefused
      refine ⟨earlier, n, _, _, _, accepted, later, hget, hroot, hearlier, hrefused, hnode, ?_⟩
      rw [upgrade_fst hroot, upgradeNodes_append_of_current hdone, upgradeNodes_cons_of_ok hnode]

/-- A branch with an operator that there is not, after an interpolation of the first version. -/
def unknownOperator : Json :=
  .object [("nodes", .array [
    .object [("__class", .string "Lerp"), ("settings", .object [("Fraction", .int 1)])],
    .object [("__class", .string "Branch"), ("settings", .object [("operator", .string "<>")])]])]

/-- The unknown operator is refused as often as one tries. -/
theorem rejected_again_operator :
    ∃ f j', builtin.upgrade unknownOperator = (.error f, j') ∧
      builtin.upgrade j' = (.error f, j') := by
  have h : builtin.upgrade unknownOperator =
      (.error (.refused "Branch" 1 "unknown operator \"<>\""),
        (builtin.upgrade unknownOperator).2) :=
    rfl
  refine ⟨_, _, h, (rejected_again h).1 ?_⟩
  intro reason hreason
  exact absurd (UpgradeFailure.refused.inj hreason).1 (by decide)

/-- A result whose channel is a number. -/
def numberedChannel : Json :=
  .object [("nodes", .array [.object [("__class", .string "FunctionResult"),
    ("settings", .object [("Name", .string "Color"), ("PreviewType", .int 5)])]])]

/-- **A result with an unreadable channel is refused once and accepted then**, without the
channel. -/
theorem accepted_on_retry :
    ∃ f j' j'', builtin.upgrade numberedChannel = (.error f, j') ∧
      builtin.upgrade j' = (.ok 1, j'') ∧
      j'' = .object [("nodes", .array [.object [("__class", .string "SubgraphOutput"),
        ("settings", .object [("name", .string "Color")]), ("version", .int 2)]]),
        ("version", .int 2)] :=
  ⟨_, _, _, rfl, rfl, rfl⟩

end Migrations

end MaterialGraph
