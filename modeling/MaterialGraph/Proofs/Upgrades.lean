import Mathlib.Data.List.Nodup
import Mathlib.Data.List.Perm.Subperm
import MaterialGraph.Migration
import MaterialGraph.Proofs.Saving

/-!
# Chains of migrations

A node is migrated as long as some migration starts from where it is. Which migration that
is depends on the class and the version of the node alone, and a migration sets both. So the
migrations of a node follow each other whatever the settings are. A chain that ends has no
migration twice, because from the second time on it would go on as from the first. It is
therefore no longer than the list of migrations, and the budget only stops nodes that go
round in a circle.

At the end of a chain no migration starts. A document that has been brought up to date is
left alone when that is done again.

## Main definitions

* `Migrations.Stands` — the class and the version that a node has.
* `Migrations.Chain` — migrations that are applied to a node, one after the other.
* `Migrations.Journey` — a node, its chain of migrations and where it ends.
* `Migrations.Settles` — a document whose nodes have all come to the end of their chains.

## Main results

* `Migrations.migrate_cases` — all that a migration can do with a node.
* `Migrations.Route.nodup` — no migration occurs twice in a chain that ends.
* `Migrations.upgradeNode_walk` — all that can happen on the way.
* `Migrations.upgradeNode_eq_ok_iff` — a node is brought up to date exactly if its chain ends.
* `Migrations.upgrade_eq_ok_iff` — the same for a document, where the budget plays no part.
* `Migrations.upgrade_settles` — an upgrade leads to the ends of all chains, and a second one
  finds nothing to do.
-/

namespace MaterialGraph

/-! ### Edits one after the other -/

namespace Edit

variable {ε α β : Type} {x : Edit ε α} {f : α → Edit ε β} {d d' : Fields}

theorem run_bind_of_ok {a : α} (h : x.run d = (.ok a, d')) : (x >>= f).run d = (f a).run d' := by
  show (ExceptT.bindCont f (x.run d).1).run (x.run d).2 = _
  rw [h]
  rfl

theorem run_bind_of_error {e : ε} (h : x.run d = (.error e, d')) :
    (x >>= f).run d = (.error e, d') := by
  show (ExceptT.bindCont f (x.run d).1).run (x.run d).2 = _
  rw [h]
  rfl

theorem run_get (d : Fields) : (get : Edit ε Fields).run d = (.ok d, d) := rfl

theorem run_lift_of_ok {y : Except ε α} {a : α} (h : y = .ok a) :
    (liftM y : Edit ε α).run d = (.ok a, d) := by
  rw [h]
  rfl

theorem run_lift_of_error {y : Except ε α} {e : ε} (h : y = .error e) :
    (liftM y : Edit ε α).run d = (.error e, d) := by
  rw [h]
  rfl

end Edit

namespace Dictionary

variable {α : Type}

theorem replace_replace (d : Dictionary α) (key : String) (v w : α) :
    (d.replace key v).replace key w = d.replace key w := by
  induction d with
  | nil => rfl
  | cons e rest ih =>
    obtain ⟨k, u⟩ := e
    by_cases hk : k = key
    · simp [hk]
    · simp [hk, ih]

theorem replace_place {d : Dictionary α} {key : String} (h : d.get? key = none) (v w : α) :
    (d.place key v).replace key w = d.place key w := by
  induction d with
  | nil => simp
  | cons e rest ih =>
    obtain ⟨k, u⟩ := e
    rw [get?_cons] at h
    by_cases hk : k = key
    · simp [hk] at h
    · rw [if_neg hk] at h
      by_cases hlt : key < k
      · simp [hlt]
      · simp [hlt, hk, ih h]

/-- The last value that is put under a key counts. -/
theorem insert_insert (d : Dictionary α) (key : String) (v w : α) :
    (d.insert key v).insert key w = d.insert key w := by
  have hthere : ((d.insert key v).get? key).isSome = true := by rw [get?_insert_self]; rfl
  rw [insert, if_pos hthere]
  unfold insert
  split
  · exact replace_replace d key v w
  · next h => exact replace_place (Option.not_isSome_iff_eq_none.mp h) v w

end Dictionary

namespace Migrations

variable {ms : Migrations} {node node' : Fields} {c : String} {v : UInt32} {m : Migration}
  {f : UpgradeFailure} {n : Nat}

/-! ### Where a node stands -/

theorem of_find?_eq_some (h : ms.find? c v = some m) :
    m ∈ ms.list ∧ m.className = c ∧ m.version = v := by
  unfold find? at h
  have hstarts := List.find?_some h
  simp only [Migration.startsFrom, Bool.and_eq_true, beq_iff_eq] at hstarts
  exact ⟨List.mem_of_find?_eq_some h, hstarts⟩

/-- The node has the class `c` and the version `v`. -/
def Stands (node : Fields) (c : String) (v : UInt32) : Prop :=
  classOf node = .ok c ∧ versionOf c node = .ok v

theorem Stands.unique {c' : String} {v' : UInt32} (h : Stands node c v) (h' : Stands node c' v') :
    c = c' ∧ v = v' := by
  obtain rfl : c = c' := Except.ok.inj (h.1.symm.trans h'.1)
  exact ⟨rfl, Except.ok.inj (h.2.symm.trans h'.2)⟩

/-- The node has a class and a version from which no migration starts. -/
def Current (ms : Migrations) (node : Fields) : Prop :=
  ∃ c v, Stands node c v ∧ ms.find? c v = none

theorem next?_of_stands (h : Stands node c v) : ms.next?.run node = (.ok (ms.find? c v), node) := by
  unfold next?
  rw [Edit.run_bind_of_ok (Edit.run_get node), Edit.run_bind_of_ok (Edit.run_lift_of_ok h.1),
    Edit.run_bind_of_ok (Edit.run_lift_of_ok h.2)]
  rfl

/-- The failures of a node that does not say where it is. -/
inductive Lost : UpgradeFailure → Prop
  | noClass : Lost .noClass
  | invalidVersion (c : String) (j : Json) : Lost (.invalidVersion c j)

theorem lost_of_classOf (h : classOf node = .error f) : Lost f := by
  unfold classOf at h
  split at h
  · cases h
  · cases h
    exact .noClass

theorem lost_of_versionOf (h : versionOf c node = .error f) : Lost f := by
  unfold versionOf at h
  split at h
  · cases h
  · cases h
  · split at h
    · cases h
    · cases h
      exact .invalidVersion _ _

/-- A node stands where no migration starts, or where one does, or it is refused and left alone. -/
theorem next?_cases (ms : Migrations) (node : Fields) :
    ms.Current node ∨ (∃ c v m, Stands node c v ∧ ms.find? c v = some m) ∨
      ∃ f, Lost f ∧ ms.next?.run node = (.error f, node) := by
  cases hc : classOf node with
  | error f =>
    refine .inr (.inr ⟨f, lost_of_classOf hc, ?_⟩)
    unfold next?
    rw [Edit.run_bind_of_ok (Edit.run_get node)]
    exact Edit.run_bind_of_error (Edit.run_lift_of_error hc)
  | ok c =>
    cases hv : versionOf c node with
    | error f =>
      refine .inr (.inr ⟨f, lost_of_versionOf hv, ?_⟩)
      unfold next?
      rw [Edit.run_bind_of_ok (Edit.run_get node), Edit.run_bind_of_ok (Edit.run_lift_of_ok hc)]
      exact Edit.run_bind_of_error (Edit.run_lift_of_error hv)
    | ok v =>
      cases hm : ms.find? c v with
      | none => exact .inl ⟨c, v, ⟨hc, hv⟩, hm⟩
      | some m => exact .inr (.inl ⟨c, v, m, ⟨hc, hv⟩, hm⟩)

/-! ### One migration -/

/-- The settings of a node as an object; a node without settings has empty ones. -/
def settings? (node : Fields) : Option Fields :=
  match Dictionary.get? node "settings" with
  | none | some .null => some []
  | some (.object settings) => some settings
  | some _ => none

/-- The node after a migration that has made `settings` of its settings. -/
def moved (m : Migration) (node settings : Fields) : Fields :=
  Dictionary.insert (Dictionary.insert (Dictionary.insert node "settings" (.object settings))
    "__class" (.string m.toClass)) "version" (.int m.toVersion.toNat)

theorem get?_moved (m : Migration) (node settings : Fields) (key : String) :
    Dictionary.get? (moved m node settings) key =
      if "version" = key then some (.int m.toVersion.toNat)
      else if "__class" = key then some (.string m.toClass)
      else if "settings" = key then some (.object settings) else Dictionary.get? node key := by
  simp only [moved, Dictionary.get?_insert]

theorem stands_moved (m : Migration) (node settings : Fields) :
    Stands (moved m node settings) m.toClass m.toVersion := by
  constructor
  · rw [classOf, get?_moved, if_neg (by decide), if_pos rfl]
  · rw [versionOf, get?_moved, if_pos rfl]
    dsimp only
    rw [Json.readUInt32_int]

/-- Settings that are an object are found; if there are none, empty ones are put in place. -/
theorem settingsOf_of_some {settings : Fields} (hs : settings? node = some settings)
    (className : String) :
    ∃ base, (settingsOf className).run node = (.ok settings, base) ∧
      ∀ j, Dictionary.insert base "settings" j = Dictionary.insert node "settings" j := by
  have hget : (Edit.get? "settings" : Edit UpgradeFailure _).run node =
      (.ok (Dictionary.get? node "settings"), node) := rfl
  unfold settingsOf
  rw [Edit.run_bind_of_ok hget]
  unfold settings? at hs
  cases hvalue : Dictionary.get? node "settings" with
  | none =>
    rw [hvalue] at hs
    cases hs
    exact ⟨_, rfl, Dictionary.insert_insert node "settings" _⟩
  | some value =>
    rw [hvalue] at hs
    cases value with
    | null =>
      cases hs
      exact ⟨_, rfl, Dictionary.insert_insert node "settings" _⟩
    | object settings =>
      cases hs
      exact ⟨node, rfl, fun _ => rfl⟩
    | _ => cases hs

theorem settingsOf_of_none (hs : settings? node = none) (className : String) :
    (settingsOf className).run node = (.error (.settingsNotObject className), node) := by
  have hget : (Edit.get? "settings" : Edit UpgradeFailure _).run node =
      (.ok (Dictionary.get? node "settings"), node) := rfl
  unfold settingsOf
  rw [Edit.run_bind_of_ok hget]
  unfold settings? at hs
  cases hvalue : Dictionary.get? node "settings" with
  | none =>
    rw [hvalue] at hs
    cases hs
  | some value =>
    rw [hvalue] at hs
    cases value with
    | null => cases hs
    | object settings => cases hs
    | _ => rfl

section Edited

variable {settings settings' : Fields} (hs : settings? node = some settings)

include hs

theorem migrate_of_refused {reason : String}
    (he : m.edit.run settings = (.error reason, settings')) :
    (migrate m).run node = (.error (.refused m.className m.version reason),
      Dictionary.insert node "settings" (.object settings')) := by
  obtain ⟨base, hbase, hinsert⟩ := settingsOf_of_some hs m.className
  unfold migrate
  rw [Edit.run_bind_of_ok hbase, ← hinsert, he]
  rfl

theorem migrate_of_done (he : m.edit.run settings = (.ok (), settings')) :
    (migrate m).run node = (.ok (), moved m node settings') := by
  obtain ⟨base, hbase, hinsert⟩ := settingsOf_of_some hs m.className
  unfold migrate
  rw [Edit.run_bind_of_ok hbase, moved, ← hinsert, he]
  rfl

end Edited

/-- The ways in which the migration of a node ends. -/
inductive Ends (m : Migration) (node : Fields) : Except UpgradeFailure Unit × Fields → Prop
  | stuck (hs : settings? node = none) : Ends m node (.error (.settingsNotObject m.className), node)
  /-- The settings are refused. What the edit has made of them stays. -/
  | refused {settings settings' : Fields} {reason : String} (hs : settings? node = some settings)
      (he : m.edit.run settings = (.error reason, settings')) :
      Ends m node (.error (.refused m.className m.version reason),
        Dictionary.insert node "settings" (.object settings'))
  | done {settings settings' : Fields} (hs : settings? node = some settings)
      (he : m.edit.run settings = (.ok (), settings')) :
      Ends m node (.ok (), moved m node settings')

theorem migrate_cases {x : Except UpgradeFailure Unit × Fields} (h : (migrate m).run node = x) :
    Ends m node x := by
  subst h
  cases hs : settings? node with
  | none =>
    unfold migrate
    rw [Edit.run_bind_of_error (settingsOf_of_none hs _)]
    exact .stuck hs
  | some settings =>
    rcases he : (m.edit.run settings : Except String Unit × Fields) with ⟨reason | ⟨⟩, settings'⟩
    · rw [migrate_of_refused hs he]
      exact .refused hs he
    · rw [migrate_of_done hs he]
      exact .done hs he

/-! ### Chains -/

/-- Migrations that lead from one node to another, one after the other. -/
inductive Chain (ms : Migrations) : Fields → List Migration → Fields → Prop
  | nil (node : Fields) : Chain ms node [] node
  /-- The migration that starts from where the node is, and those that follow. -/
  | cons {node node₁ node₂ : Fields} {c : String} {v : UInt32} {m : Migration}
      {path : List Migration} (hstands : Stands node c v) (hm : ms.find? c v = some m)
      (hrun : (migrate m).run node = (.ok (), node₁)) (hrest : Chain ms node₁ path node₂) :
      Chain ms node (m :: path) node₂

/-- The migrations that start one after the other from a class and version, up to where none
does. The settings of nodes have no part in this. -/
inductive Route (ms : Migrations) : String → UInt32 → List Migration → Prop
  /-- No migration starts there. -/
  | nil {c : String} {v : UInt32} (h : ms.find? c v = none) : Route ms c v []
  /-- A migration starts there, and the route goes on from where it leads. -/
  | cons {c : String} {v : UInt32} {m : Migration} {path : List Migration}
      (h : ms.find? c v = some m) (hrest : Route ms m.toClass m.toVersion path) :
      Route ms c v (m :: path)

namespace Route

variable {path path' : List Migration}

theorem unique (h : Route ms c v path) (h' : Route ms c v path') : path = path' := by
  induction h generalizing path' with
  | nil hnone =>
    cases h' with
    | nil => rfl
    | cons hm _ => rw [hnone] at hm; cases hm
  | cons hm _ ih =>
    cases h' with
    | nil hnone => rw [hnone] at hm; cases hm
    | cons hm' hrest =>
      obtain rfl := Option.some.inj (hm.symm.trans hm')
      rw [ih hrest]

/-- What comes after a migration of a route is the route from where it leads. -/
theorem after {before : List Migration} (h : Route ms c v (before ++ m :: path)) :
    Route ms m.toClass m.toVersion path := by
  induction before generalizing c v with
  | nil =>
    cases h with
    | cons _ hrest => exact hrest
  | cons first before ih =>
    cases h with
    | cons _ hrest => exact ih hrest

/-- **No migration occurs twice on a route.** -/
theorem nodup (h : Route ms c v path) : path.Nodup := by
  induction h with
  | nil => exact List.nodup_nil
  | @cons c v m path _ hrest ih =>
    refine List.nodup_cons.mpr ⟨fun hmem => ?_, ih⟩
    obtain ⟨before, later, hpath⟩ := List.append_of_mem hmem
    -- both times the route would go on in the same way, but one rest is longer
    have hsame : path = later := hrest.unique (hpath ▸ hrest).after
    have hlength := congrArg List.length hpath
    rw [List.length_append, List.length_cons, ← hsame] at hlength
    omega

theorem subset (h : Route ms c v path) : path ⊆ ms.list := by
  induction h with
  | nil => exact List.nil_subset _
  | cons hm _ ih => exact List.cons_subset.mpr ⟨(of_find?_eq_some hm).1, ih⟩

theorem length_le (h : Route ms c v path) : path.length ≤ ms.list.length :=
  (h.nodup.subperm h.subset).length_le

end Route

/-- A chain that ends follows a route. -/
theorem Chain.route {path : List Migration} (h : Chain ms node path node')
    (hend : ms.Current node') : ∃ c v, Stands node c v ∧ Route ms c v path := by
  induction h with
  | nil node =>
    obtain ⟨c, v, hstands, hnone⟩ := hend
    exact ⟨c, v, hstands, .nil hnone⟩
  | @cons node node₁ node₂ c v m path hstands hm hrun _ ih =>
    obtain ⟨c₁, v₁, hstands₁, hroute⟩ := ih hend
    cases migrate_cases hrun with
    | done _ _ =>
      -- the migration says where the node stands now, whatever it has made of the settings
      obtain ⟨rfl, rfl⟩ := hstands₁.unique (stands_moved m node _)
      exact ⟨c, v, hstands, .cons hm hroute⟩

/-! ### Nodes -/

theorem upgradeNode_of_current (h : ms.Current node) (fuel : Nat) :
    (ms.upgradeNode fuel).run node = (.ok 0, node) := by
  obtain ⟨c, v, hstands, hnone⟩ := h
  have hnext : ms.next?.run node = (.ok none, node) := hnone ▸ next?_of_stands hstands
  cases fuel with
  | zero | succ fuel =>
    rw [upgradeNode, Edit.run_bind_of_ok hnext]
    rfl

theorem upgradeNode_of_error (h : ms.next?.run node = (.error f, node)) (fuel : Nat) :
    (ms.upgradeNode fuel).run node = (.error f, node) := by
  cases fuel with
  | zero | succ fuel => exact Edit.run_bind_of_error h

section Step

variable (hstands : Stands node c v) (hm : ms.find? c v = some m)

include hstands hm

theorem next?_of_find? : ms.next?.run node = (.ok (some m), node) :=
  hm ▸ next?_of_stands hstands

theorem upgradeNode_zero : (ms.upgradeNode 0).run node = (.error .endless, node) := by
  rw [upgradeNode, Edit.run_bind_of_ok (next?_of_find? hstands hm)]
  rfl

theorem upgradeNode_succ_of_error {f : UpgradeFailure}
    (hrun : (migrate m).run node = (.error f, node')) (fuel : Nat) :
    (ms.upgradeNode (fuel + 1)).run node = (.error f, node') := by
  rw [upgradeNode, Edit.run_bind_of_ok (next?_of_find? hstands hm)]
  exact Edit.run_bind_of_error hrun

theorem upgradeNode_succ_of_ok (hrun : (migrate m).run node = (.ok (), node')) (fuel : Nat) :
    (ms.upgradeNode (fuel + 1)).run node =
      (((ms.upgradeNode fuel).run node').1.map (· + 1), ((ms.upgradeNode fuel).run node').2) := by
  rw [upgradeNode, Edit.run_bind_of_ok (next?_of_find? hstands hm)]
  rw [Edit.run_bind_of_ok hrun]
  rcases hrest : ((ms.upgradeNode fuel).run node' : Except UpgradeFailure Nat × Fields)
    with ⟨f | n, node₂⟩
  · rw [Edit.run_bind_of_error hrest]
    rfl
  · rw [Edit.run_bind_of_ok hrest]
    rfl

end Step

/-- The ways in which a node is upgraded. -/
inductive Walk (ms : Migrations) : Nat → Fields → Except UpgradeFailure Nat × Fields → Prop
  | current {fuel : Nat} {node : Fields} (h : ms.Current node) : Walk ms fuel node (.ok 0, node)
  | lost {fuel : Nat} {node : Fields} {f : UpgradeFailure} (hf : Lost f)
      (h : ms.next?.run node = (.error f, node)) : Walk ms fuel node (.error f, node)
  /-- There is a migration, but no fuel. -/
  | exhausted {node : Fields} {c : String} {v : UInt32} {m : Migration}
      (hstands : Stands node c v) (hm : ms.find? c v = some m) :
      Walk ms 0 node (.error .endless, node)
  | refused {fuel : Nat} {node node' : Fields} {c : String} {v : UInt32} {m : Migration}
      {f : UpgradeFailure} (hstands : Stands node c v) (hm : ms.find? c v = some m)
      (hrun : (migrate m).run node = (.error f, node')) :
      Walk ms (fuel + 1) node (.error f, node')
  | step {fuel : Nat} {node node₁ node₂ : Fields} {c : String} {v : UInt32} {m : Migration}
      {x : Except UpgradeFailure Nat} (hstands : Stands node c v) (hm : ms.find? c v = some m)
      (hrun : (migrate m).run node = (.ok (), node₁)) (hrest : Walk ms fuel node₁ (x, node₂)) :
      Walk ms (fuel + 1) node (x.map (· + 1), node₂)

/-- **All that can become of a node that is upgraded.** -/
theorem upgradeNode_walk (ms : Migrations) (fuel : Nat) (node : Fields) :
    Walk ms fuel node ((ms.upgradeNode fuel).run node) := by
  induction fuel generalizing node with
  | zero =>
    rcases next?_cases ms node with hcurrent | ⟨c, v, m, hstands, hm⟩ | ⟨f, hlost, hf⟩
    · rw [upgradeNode_of_current hcurrent]
      exact .current hcurrent
    · rw [upgradeNode_zero hstands hm]
      exact .exhausted hstands hm
    · rw [upgradeNode_of_error hf]
      exact .lost hlost hf
  | succ fuel ih =>
    rcases next?_cases ms node with hcurrent | ⟨c, v, m, hstands, hm⟩ | ⟨f, hlost, hf⟩
    · rw [upgradeNode_of_current hcurrent]
      exact .current hcurrent
    · rcases hrun : ((migrate m).run node : Except UpgradeFailure Unit × Fields)
        with ⟨f | ⟨⟩, node₁⟩
      · rw [upgradeNode_succ_of_error hstands hm hrun]
        exact .refused hstands hm hrun
      · rw [upgradeNode_succ_of_ok hstands hm hrun]
        exact .step hstands hm hrun (ih node₁)
    · rw [upgradeNode_of_error hf]
      exact .lost hlost hf

/-- A node that is brought up to date has come to the end of its chain. -/
theorem Walk.chain {fuel : Nat} {x : Except UpgradeFailure Nat × Fields} (h : Walk ms fuel node x)
    (hn : x.1 = .ok n) :
    ∃ path, Chain ms node path x.2 ∧ path.length = n ∧ ms.Current x.2 := by
  induction h generalizing n with
  | current hcurrent =>
    cases hn
    exact ⟨[], .nil _, rfl, hcurrent⟩
  | lost _ _ => cases hn
  | exhausted _ _ => cases hn
  | refused _ _ _ => cases hn
  | @step fuel node node₁ node₂ c v m x hstands hm hrun _ ih =>
    cases x with
    | error f => cases hn
    | ok k =>
      cases hn
      obtain ⟨path, hchain, hlength, hcurrent⟩ := ih rfl
      exact ⟨m :: path, .cons hstands hm hrun hchain, congrArg (· + 1) hlength, hcurrent⟩

/-- A chain that ends is gone through, if there is fuel for it. -/
theorem Chain.upgradeNode {path : List Migration} (h : Chain ms node path node')
    (hend : ms.Current node') {fuel : Nat} (hfuel : path.length ≤ fuel) :
    (ms.upgradeNode fuel).run node = (.ok path.length, node') := by
  induction h generalizing fuel with
  | nil node => exact upgradeNode_of_current hend fuel
  | @cons node node₁ node₂ c v m path hstands hm hrun _ ih =>
    cases fuel with
    | zero => cases hfuel
    | succ fuel =>
      rw [upgradeNode_succ_of_ok hstands hm hrun, ih hend (Nat.le_of_succ_le_succ hfuel)]
      rfl

/-- **A node is brought up to date exactly if its chain of migrations ends.** The budget is
enough for every such chain. -/
theorem upgradeNode_eq_ok_iff :
    (ms.upgradeNode ms.budget).run node = (.ok n, node') ↔
      ∃ path, Chain ms node path node' ∧ path.length = n ∧ ms.Current node' := by
  constructor
  · intro h
    have hwalk : Walk ms ms.budget node (.ok n, node') := h ▸ upgradeNode_walk ms ms.budget node
    exact hwalk.chain rfl
  rintro ⟨path, hchain, rfl, hend⟩
  -- a route has no migration twice, so it is no longer than the list
  obtain ⟨c, v, -, hroute⟩ := hchain.route hend
  apply hchain.upgradeNode hend
  have hlength := hroute.length_le
  unfold budget
  omega

/-! ### Documents -/

/-- The way of a node through its migrations, up to where none starts. -/
structure Journey (ms : Migrations) where
  before : Fields
  path : List Migration
  /-- What they have made of it. -/
  after : Fields
  chain : ms.Chain before path after
  current : ms.Current after

theorem upgradeNodes_cons_of_error (h : (ms.upgradeNode ms.budget).run node = (.error f, node'))
    (rest : List Json) :
    ms.upgradeNodes (.object node :: rest) = (.error f, .object node' :: rest) := by
  rw [upgradeNodes, h]

theorem upgradeNodes_cons_of_ok (h : (ms.upgradeNode ms.budget).run node = (.ok n, node'))
    (rest : List Json) :
    ms.upgradeNodes (.object node :: rest) =
      ((ms.upgradeNodes rest).1.map (n + ·), .object node' :: (ms.upgradeNodes rest).2) := by
  rw [upgradeNodes, h]

/-- **Nodes are brought up to date exactly if all their chains end**, and all migrations are
counted. -/
theorem upgradeNodes_eq_ok_iff {nodes nodes' : List Json} :
    ms.upgradeNodes nodes = (.ok n, nodes') ↔
      ∃ ways : List ms.Journey, nodes = ways.map (.object ·.before) ∧
        nodes' = ways.map (.object ·.after) ∧ n = (ways.map (·.path.length)).sum := by
  constructor
  · intro h
    induction nodes generalizing nodes' n with
    | nil =>
      cases h
      exact ⟨[], rfl, rfl, rfl⟩
    | cons j rest ih =>
      cases j with
      | object node =>
        rcases hnode : ((ms.upgradeNode ms.budget).run node : Except UpgradeFailure Nat × Fields)
          with ⟨f | k, node'⟩
        · rw [upgradeNodes_cons_of_error hnode] at h
          cases h
        · rw [upgradeNodes_cons_of_ok hnode] at h
          rcases hrest : ms.upgradeNodes rest with ⟨f | k', rest'⟩
          · rw [hrest] at h
            cases h
          · rw [hrest] at h
            cases h
            obtain ⟨path, hchain, rfl, hend⟩ := upgradeNode_eq_ok_iff.mp hnode
            obtain ⟨ways, rfl, rfl, rfl⟩ := ih hrest
            exact ⟨⟨node, path, node', hchain, hend⟩ :: ways, rfl, rfl, by simp⟩
      | _ => cases h
  · rintro ⟨ways, rfl, rfl, rfl⟩
    induction ways with
    | nil => rfl
    | cons w ways ih =>
      have hnode := upgradeNode_eq_ok_iff.mpr ⟨w.path, w.chain, rfl, w.current⟩
      rw [List.map_cons, upgradeNodes_cons_of_ok hnode, ih]
      simp [Except.map]

/-- Nodes from which no migration starts are passed over. -/
theorem upgradeNodes_append_of_current {nodes : List Fields} (h : ∀ node ∈ nodes, ms.Current node)
    (rest : List Json) :
    ms.upgradeNodes (nodes.map .object ++ rest) =
      ((ms.upgradeNodes rest).1, nodes.map .object ++ (ms.upgradeNodes rest).2) := by
  induction nodes with
  | nil => rfl
  | cons node nodes ih =>
    have hnode := upgradeNode_of_current (h node List.mem_cons_self) ms.budget
    have hlater := ih fun node hmem => h node (List.mem_cons_of_mem _ hmem)
    rw [List.map_cons, List.cons_append, upgradeNodes_cons_of_ok hnode, hlater]
    cases (ms.upgradeNodes rest).1 with
    | error f => rfl
    | ok n => simp [Except.map]

/-- **A document is brought up to date exactly if all chains of its nodes end.** -/
theorem upgrade_eq_ok_iff {j j' : Json} :
    ms.upgrade j = (.ok n, j') ↔ ∃ (root : Fields) (ways : List ms.Journey), j = .object root ∧
      Dictionary.get? root "nodes" = some (.array (ways.map (.object ·.before))) ∧
      n = (ways.map (·.path.length)).sum ∧
      j' = .object (Dictionary.insert
        (Dictionary.insert root "nodes" (.array (ways.map (.object ·.after)))) "version"
        (.int documentVersion.toNat)) := by
  constructor
  · intro h
    cases j with
    | object root =>
      rw [upgrade] at h
      split at h
      · next nodes hroot =>
        rcases hnodes : ms.upgradeNodes nodes with ⟨f | k, nodes'⟩
        · rw [hnodes] at h
          cases h
        · rw [hnodes] at h
          cases h
          obtain ⟨ways, rfl, rfl, rfl⟩ := upgradeNodes_eq_ok_iff.mp hnodes
          exact ⟨root, ways, rfl, hroot, rfl, rfl⟩
      · cases h
    | _ => cases h
  · rintro ⟨root, ways, rfl, hroot, rfl, rfl⟩
    have hnodes := upgradeNodes_eq_ok_iff.mpr ⟨ways, rfl, rfl, rfl⟩
    rw [upgrade, hroot]
    dsimp only
    rw [hnodes]

/-- A document has been brought up to date: its nodes have come to the ends of their chains,
which have `n` migrations in all, and it has the version of today. The rest is as it was. -/
structure Settles (ms : Migrations) (j : Json) (n : Nat) (j' : Json) : Prop where
  nodes : ∃ ways : List ms.Journey, j.get? "nodes" = some (.array (ways.map (.object ·.before))) ∧
    j'.get? "nodes" = some (.array (ways.map (.object ·.after))) ∧
    n = (ways.map (·.path.length)).sum
  version : j'.get? "version" = some (.int documentVersion.toNat)
  others : ∀ key, key ≠ "nodes" → key ≠ "version" → j'.get? key = j.get? key

theorem settles_of_upgrade {j j' : Json} (h : ms.upgrade j = (.ok n, j')) :
    ms.Settles j n j' := by
  obtain ⟨root, ways, rfl, hroot, rfl, rfl⟩ := upgrade_eq_ok_iff.mp h
  refine ⟨⟨ways, hroot, ?_, rfl⟩, ?_, fun key hkey hkey' => ?_⟩
  · simp [Json.get?, Dictionary.get?_insert]
  · simp [Json.get?]
  · simp [Json.get?, Dictionary.get?_insert, Ne.symm hkey, Ne.symm hkey']

/-- A document of today's version whose nodes are all up to date is left alone. -/
theorem upgrade_of_current {root : Fields} (nodes : List Fields)
    (hnodes : Dictionary.get? root "nodes" = some (.array (nodes.map .object)))
    (hcurrent : ∀ node ∈ nodes, ms.Current node)
    (hversion : Dictionary.get? root "version" = some (.int documentVersion.toNat)) :
    ms.upgrade (.object root) = (.ok 0, .object root) := by
  have hpassed : ms.upgradeNodes (nodes.map .object) = (.ok 0, nodes.map .object) := by
    have h := upgradeNodes_append_of_current hcurrent []
    rw [List.append_nil] at h
    rw [h]
    exact congrArg (Prod.mk _) (List.append_nil _)
  rw [upgrade, hnodes]
  dsimp only
  rw [hpassed]
  rw [Dictionary.insert_of_get?_eq_some hnodes, Dictionary.insert_of_get?_eq_some hversion]

/-- **Upgrading ends where no migration starts.** If a document can be brought up to date, its
nodes have come to the ends of their chains of migrations, and all these migrations are counted.
No migration starts from a node of the result, and to upgrade the result again changes nothing. -/
theorem upgrade_settles {j j' : Json} {n : Nat} (h : ms.upgrade j = (.ok n, j')) :
    ms.Settles j n j' ∧
      (∀ nodes, j'.get? "nodes" = some (.array nodes) → ∀ node ∈ nodes, ∃ fields c v,
        node = .object fields ∧ Stands fields c v ∧ ms.find? c v = none) ∧
      ms.upgrade j' = (.ok 0, j') := by
  have hsettles := settles_of_upgrade h
  refine ⟨hsettles, fun nodes hnodes node hnode => ?_, ?_⟩
  · obtain ⟨ways, -, hafter, -⟩ := hsettles.nodes
    obtain rfl := Json.array.inj (Option.some.inj (hafter.symm.trans hnodes))
    obtain ⟨w, -, rfl⟩ := List.mem_map.mp hnode
    obtain ⟨c, v, hstands, hnone⟩ := w.current
    exact ⟨w.after, c, v, rfl, hstands, hnone⟩
  · obtain ⟨root, ways, rfl, hroot, rfl, rfl⟩ := upgrade_eq_ok_iff.mp h
    refine upgrade_of_current (ways.map (·.after)) ?_ ?_ ?_
    · rw [Dictionary.get?_insert, if_neg (by decide), Dictionary.get?_insert_self, List.map_map]
      rfl
    · intro node hnode
      obtain ⟨w, -, rfl⟩ := List.mem_map.mp hnode
      exact w.current
    · exact Dictionary.get?_insert_self _ _ _

/-- The built-in migrations, and one that goes on where a built-in one leads. -/
def relay : Migrations :=
  builtin.add
    { className := "SubgraphOutput", version := 2, toClass := "Result", toVersion := 1
      edit := Edit.rename "name" "title" }

/-- A result that was saved long ago, and an interpolation of today. -/
def relayDocument : Json :=
  .object [("nodes", .array [
    .object [("__class", .string "FunctionResult"), ("id", .int 7),
      ("settings", .object [("Name", .string "Color"),
        ("PreviewType", .string "AmbientOcclusion")])],
    .object [("__class", .string "Lerp"), ("version", .int 2)]])]

/-- The same document, brought up to date. -/
def relayedDocument : Json :=
  .object [("nodes", .array [
    .object [("__class", .string "Result"), ("id", .int 7),
      ("settings", .object [("preview", .string "ambient_occlusion"), ("title", .string "Color")]),
      ("version", .int 1)],
    .object [("__class", .string "Lerp"), ("version", .int 2)]]), ("version", .int 2)]

/-- Two migrations one after the other, and then none. -/
theorem upgrade_settles_relay :
    relay.upgrade relayDocument = (.ok 2, relayedDocument) ∧
      relay.Settles relayDocument 2 relayedDocument ∧
      relay.upgrade relayedDocument = (.ok 0, relayedDocument) := by
  have h : relay.upgrade relayDocument = (.ok 2, relayedDocument) := rfl
  exact ⟨h, (upgrade_settles h).1, (upgrade_settles h).2.2⟩

end Migrations

end MaterialGraph
