import Mathlib.Algebra.Order.BigOperators.Group.List
import MaterialGraph.Proofs.Upgrades

/-!
# Migrations that lead to later versions

Nothing bounds the number of migrations of a node but the migrations themselves. If each of them
leads to a later version than the one it starts from, every place has a route: the versions along
it grow, and there are finitely many. So every node finishes, whatever the migrations do to the
settings. None of them is tried twice on the way, because none occurs twice on a route.

## Main results

* `Migrations.upgradeNode_endless_iff` — when the fuel of a node is used up.
* `Migrations.Ascending.exists_route` — every place has a route.
* `Migrations.Finishes.upgradeNode` — enough fuel is as good as no bound.
* `Migrations.ascending_terminates` — every node and every document finishes, after few migrations.
-/

namespace MaterialGraph

namespace Migrations

variable {ms : Migrations} {node : Fields} {c : String} {v : UInt32} {tried path : List Migration}
  {x : Except UpgradeFailure Nat × Fields}

/-- Every migration leads to a later version than the one it starts from. -/
def Ascending (ms : Migrations) : Prop := ∀ m ∈ ms.list, m.version < m.toVersion

instance : Decidable ms.Ascending := inferInstanceAs (Decidable (∀ m ∈ ms.list, _))

/-- What becomes of a node that is migrated without any bound, if it ever comes to an end, and the
migrations that are tried on the way. -/
inductive Finishes (ms : Migrations) :
    Fields → List Migration → Except UpgradeFailure Nat × Fields → Prop
  /-- No migration starts from where the node is. -/
  | current {node : Fields} (h : ms.Current node) : Finishes ms node [] (.ok 0, node)
  /-- The node does not say where it is. -/
  | lost {node : Fields} {f : UpgradeFailure} (hf : Lost f)
      (h : ms.next?.run node = (.error f, node)) : Finishes ms node [] (.error f, node)
  | refused {node node' : Fields} {c : String} {v : UInt32} {m : Migration} {f : UpgradeFailure}
      (hstands : Stands node c v) (hm : ms.find? c v = some m)
      (hrun : (migrate m).run node = (.error f, node')) : Finishes ms node [m] (.error f, node')
  | step {node node₁ node₂ : Fields} {c : String} {v : UInt32} {m : Migration}
      {tried : List Migration} {x : Except UpgradeFailure Nat} (hstands : Stands node c v)
      (hm : ms.find? c v = some m) (hrun : (migrate m).run node = (.ok (), node₁))
      (hrest : Finishes ms node₁ tried (x, node₂)) :
      Finishes ms node (m :: tried) (x.map (· + 1), node₂)

namespace Finishes

/-- A node that finishes does so with any fuel for the migrations that are tried. -/
theorem upgradeNode (h : Finishes ms node tried x) :
    ∀ fuel, tried.length ≤ fuel → (ms.upgradeNode fuel).run node = x := by
  induction h with
  | current h => exact fun fuel _ => upgradeNode_of_current h fuel
  | lost _ h => exact fun fuel _ => upgradeNode_of_error h fuel
  | refused hstands hm hrun =>
    intro fuel hfuel
    cases fuel with
    | zero => cases hfuel
    | succ fuel => exact upgradeNode_succ_of_error hstands hm hrun fuel
  | step hstands hm hrun _ ih =>
    intro fuel hfuel
    cases fuel with
    | zero => cases hfuel
    | succ fuel =>
      rw [upgradeNode_succ_of_ok hstands hm hrun, ih fuel (Nat.le_of_succ_le_succ hfuel)]

/-- A node that is brought up to date has gone through all migrations that were tried. -/
theorem count (h : Finishes ms node tried x) {n : Nat} (hn : x.1 = .ok n) : n = tried.length := by
  induction h generalizing n with
  | current _ => exact (Except.ok.inj hn).symm
  | lost _ _ => cases hn
  | refused _ _ _ => cases hn
  | @step _ _ _ _ _ _ _ x _ _ _ _ ih =>
    cases x with
    | error f => cases hn
    | ok k =>
      obtain rfl : k + 1 = n := Except.ok.inj hn
      exact congrArg (· + 1) (ih rfl)

/-- What finishes does not fail for want of an end. -/
theorem not_endless (h : Finishes ms node tried x) : x.1 ≠ .error .endless := by
  induction h with
  | current _ => exact fun he => by cases he
  | lost hf _ =>
    intro he
    cases Except.error.inj he
    cases hf
  | refused _ _ hrun =>
    intro he
    cases Except.error.inj he
    cases migrate_cases hrun
  | @step _ _ _ _ _ _ _ x _ _ _ _ ih =>
    cases x with
    | error f => exact ih
    | ok k => exact fun he => by cases he

end Finishes

/-- A node finishes within its fuel, or the fuel is used up. -/
theorem Walk.finishes_or_endless {fuel : Nat} (h : Walk ms fuel node x) :
    (∃ tried, tried.length ≤ fuel ∧ Finishes ms node tried x) ∨ x.1 = .error .endless := by
  induction h with
  | current h => exact .inl ⟨[], Nat.zero_le _, .current h⟩
  | lost hf h => exact .inl ⟨[], Nat.zero_le _, .lost hf h⟩
  | exhausted _ _ => exact .inr rfl
  | refused hstands hm hrun =>
    exact .inl ⟨[_], Nat.succ_le_succ (Nat.zero_le _), .refused hstands hm hrun⟩
  | step hstands hm hrun _ ih =>
    rcases ih with ⟨tried, hlength, hrest⟩ | hendless
    · exact .inl ⟨_ :: tried, Nat.succ_le_succ hlength, .step hstands hm hrun hrest⟩
    · exact .inr (congrArg (Except.map (· + 1)) hendless)

/-- **The fuel is used up exactly if no end is reached within it.** So migrations that lead in a
circle are given up where they would go on for ever, and also where one of them would refuse the
node only after more migrations than there is fuel for. -/
theorem upgradeNode_endless_iff {fuel : Nat} :
    ((ms.upgradeNode fuel).run node).1 = .error .endless ↔
      ∀ tried x, Finishes ms node tried x → fuel < tried.length := by
  constructor
  · intro hendless tried x hfinishes
    refine Nat.lt_of_not_le fun hlength => hfinishes.not_endless ?_
    rw [← hfinishes.upgradeNode fuel hlength]
    exact hendless
  · intro h
    rcases (upgradeNode_walk ms fuel node).finishes_or_endless with
      ⟨tried, hlength, hfinishes⟩ | hendless
    · exact absurd (h tried _ hfinishes) (Nat.not_lt_of_le hlength)
    · exact hendless

/-- A node finishes on its route: it goes to the end of it, or it is refused on the way. -/
theorem Route.finishes (h : Route ms c v path) (hstands : Stands node c v) :
    ∃ tried x, Finishes ms node tried x ∧ tried <+: path := by
  induction h generalizing node with
  | @nil c v hnone => exact ⟨[], _, .current ⟨c, v, hstands, hnone⟩, List.nil_prefix⟩
  | @cons c v m path hm _ ih =>
    rcases hrun : ((migrate m).run node : Except UpgradeFailure Unit × Fields)
      with ⟨f | ⟨⟩, node₁⟩
    · exact ⟨[m], _, .refused hstands hm hrun, ⟨path, rfl⟩⟩
    · cases migrate_cases hrun with
      | done _ _ =>
        -- where the node stands now does not depend on its settings
        obtain ⟨tried, x, hfinishes, hprefix⟩ := ih (stands_moved m node _)
        exact ⟨m :: tried, _, .step hstands hm hrun hfinishes, List.prefix_cons_iff.mpr
          (.inr ⟨tried, rfl, hprefix⟩)⟩

/-- **Every place has a route**, if migrations lead to later versions. -/
theorem Ascending.exists_route (h : ms.Ascending) (c : String) (v : UInt32) :
    ∃ path, Route ms c v path := by
  -- the gap to the largest version gets smaller with every migration
  induction hgap : UInt32.size - v.toNat using Nat.strong_induction_on generalizing c v with
  | _ gap ih =>
    cases hm : ms.find? c v with
    | none => exact ⟨[], .nil hm⟩
    | some m =>
      obtain ⟨hmem, -, rfl⟩ := of_find?_eq_some hm
      have hlater : m.version.toNat < m.toVersion.toNat := UInt32.lt_iff_toNat_lt.mp (h m hmem)
      have hbound : m.toVersion.toNat < UInt32.size := m.toVersion.toNat_lt_size
      obtain ⟨path, hpath⟩ :=
        ih (UInt32.size - m.toVersion.toNat) (by omega) m.toClass m.toVersion rfl
      exact ⟨m :: path, .cons hm hpath⟩

/-- A node finishes, and no migration is tried twice on the way. -/
theorem Ascending.finishes (h : ms.Ascending) (node : Fields) :
    ∃ tried x, Finishes ms node tried x ∧ tried.Nodup ∧ tried ⊆ ms.list := by
  rcases next?_cases ms node with hcurrent | ⟨c, v, m, hstands, -⟩ | ⟨f, hlost, hf⟩
  · exact ⟨[], _, .current hcurrent, List.nodup_nil, List.nil_subset _⟩
  · obtain ⟨path, hroute⟩ := h.exists_route c v
    obtain ⟨tried, x, hfinishes, hprefix⟩ := hroute.finishes hstands
    exact ⟨tried, x, hfinishes, hroute.nodup.sublist hprefix.sublist,
      List.Subset.trans hprefix.subset hroute.subset⟩
  · exact ⟨[], _, .lost hlost hf, List.nodup_nil, List.nil_subset _⟩

/-! ### Documents -/

/-- Nodes that all finish do so one after the other. -/
theorem upgradeNodes_not_endless
    (h : ∀ node, ((ms.upgradeNode ms.budget).run node).1 ≠ .error .endless) (nodes : List Json) :
    (ms.upgradeNodes nodes).1 ≠ .error .endless := by
  induction nodes with
  | nil => exact fun he => by cases he
  | cons j rest ih =>
    cases j with
    | object node =>
      have hnode := h node
      rcases hrun : ((ms.upgradeNode ms.budget).run node : Except UpgradeFailure Nat × Fields)
        with ⟨f | n, node'⟩
      · rw [hrun] at hnode
        rw [upgradeNodes_cons_of_error hrun]
        exact fun he => hnode (congrArg Except.error (Except.error.inj he))
      · rw [upgradeNodes_cons_of_ok hrun]
        cases hrest : (ms.upgradeNodes rest).1 with
        | error f =>
          rw [hrest] at ih
          exact fun he => ih (congrArg Except.error (Except.error.inj he))
        | ok k => exact fun he => by cases he
    | _ => exact fun he => by cases he

theorem upgrade_not_endless
    (h : ∀ node, ((ms.upgradeNode ms.budget).run node).1 ≠ .error .endless) (j : Json) :
    (ms.upgrade j).1 ≠ .error .endless := by
  cases j with
  | object root =>
    rw [upgrade]
    split
    · next nodes _ =>
      have hnodes := upgradeNodes_not_endless h nodes
      rcases hx : ms.upgradeNodes nodes with ⟨f | n, nodes'⟩
      · rw [hx] at hnodes
        exact fun he => hnodes (congrArg Except.error (Except.error.inj he))
      · exact fun he => by cases he
    · exact fun he => by cases he
  | _ => exact fun he => by cases he

/-- Each node of a document takes at most as many migrations as there are. -/
theorem upgrade_count_le {j j' : Json} {n : Nat} (h : ms.upgrade j = (.ok n, j'))
    {nodes : List Json} (hnodes : j.get? "nodes" = some (.array nodes)) :
    n ≤ nodes.length * ms.list.length := by
  obtain ⟨ways, hbefore, -, rfl⟩ := (settles_of_upgrade h).nodes
  obtain rfl := Json.array.inj (Option.some.inj (hbefore.symm.trans hnodes))
  have hway : ∀ k ∈ ways.map (·.path.length), k ≤ ms.list.length := by
    refine List.forall_mem_map.mpr fun w _ => ?_
    obtain ⟨c, v, -, hroute⟩ := w.chain.route w.current
    exact hroute.length_le
  have hsum := List.sum_le_card_nsmul _ _ hway
  rwa [List.length_map, nsmul_eq_mul, Nat.cast_id, ← List.length_map] at hsum

/-- **Migrations that lead to later versions come to an end**, and the built-in ones do. Every node
finishes, whatever the migrations do to its settings, and each of them is tried at most once. Any
fuel that is enough to go through all of them gives what happens without a bound. So every document
finishes, after at most as many migrations as it has nodes times those that there are. -/
theorem ascending_terminates : builtin.Ascending ∧ ∀ ms : Migrations, ms.Ascending →
    (∀ node, ∃ tried x, ms.Finishes node tried x ∧ tried.Nodup ∧ tried ⊆ ms.list ∧
      (∀ n, x.1 = .ok n → n = tried.length) ∧
      ∀ fuel, ms.list.length ≤ fuel → (ms.upgradeNode fuel).run node = x) ∧
    ∀ j, (ms.upgrade j).1 ≠ .error .endless ∧
      ∀ n nodes, (ms.upgrade j).1 = .ok n → j.get? "nodes" = some (.array nodes) →
        n ≤ nodes.length * ms.list.length := by
  refine ⟨by decide, fun ms h => ⟨fun node => ?_, fun j => ⟨?_, fun n nodes hn hnodes => ?_⟩⟩⟩
  · obtain ⟨tried, x, hfinishes, hnodup, hsub⟩ := h.finishes node
    have hlength : tried.length ≤ ms.list.length := (hnodup.subperm hsub).length_le
    exact ⟨tried, x, hfinishes, hnodup, hsub, fun n => hfinishes.count,
      fun fuel hfuel => hfinishes.upgradeNode fuel (hlength.trans hfuel)⟩
  · refine upgrade_not_endless (fun node => ?_) j
    obtain ⟨tried, x, hfinishes, hnodup, hsub⟩ := h.finishes node
    have hlength : tried.length ≤ ms.list.length := (hnodup.subperm hsub).length_le
    rw [hfinishes.upgradeNode ms.budget (by unfold budget; omega)]
    exact hfinishes.not_endless
  · exact upgrade_count_le (Prod.ext hn rfl) hnodes

/-- The built-in migrations, and one that goes on to a third version. -/
def ladder : Migrations :=
  builtin.add
    { className := "SubgraphOutput", version := 2, toClass := "Output", toVersion := 3
      edit := Edit.rename "name" "title" }

/-- Two migrations one after the other, within the bound. -/
theorem ascending_terminates_ladder : ladder.Ascending ∧
    (ladder.upgrade relayDocument).1 = .ok 2 ∧ 2 ≤ 2 * ladder.list.length ∧
    ∃ tried x, ladder.Finishes [("__class", .string "FunctionResult")] tried x ∧ tried.Nodup ∧
      x.1 = .ok 2 := by
  have hladder : ladder.Ascending := by decide
  obtain ⟨hnode, hdocument⟩ := ascending_terminates.2 ladder hladder
  refine ⟨hladder, rfl, (hdocument relayDocument).2 2 _ rfl rfl, ?_⟩
  obtain ⟨tried, x, hfinishes, hnodup, -, -, hfuel⟩ := hnode [("__class", .string "FunctionResult")]
  exact ⟨tried, x, hfinishes, hnodup, congrArg Prod.fst (hfuel 5 (Nat.le_refl 5)).symm⟩

end Migrations

end MaterialGraph
