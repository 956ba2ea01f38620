import Mathlib.Data.List.Forall2
import MaterialGraph.Proofs.Upgrades

/-!
# What the built-in migrations change

Every built-in migration starts from the first version of a class and leads to a second version
from which no other one starts, so a node needs one of them at most. Of the settings a migration
changes the few that it names, of the node it changes the class, the version and the settings, and
of the document nothing but the version and such nodes.

## Main results

* `Migrations.find?_builtin_eq_some` — the built-in migrations are confined to what they name.
* `Migrations.builtin_upgrade_confined` — an upgrade changes nothing else.
-/

namespace MaterialGraph

/-! ### Edits that are confined to some keys -/

namespace Edit

variable {ε α β : Type} {keys : List String}

/-- Whatever becomes of the edit, it only touches members under the given keys. -/
def Confined (keys : List String) (x : Edit ε α) : Prop :=
  ∀ (d : Fields) (key : String), key ∉ keys →
    Dictionary.get? (x.run d).2 key = Dictionary.get? d key

theorem confined_pure (a : α) : Confined keys (pure a : Edit ε α) := fun _ _ _ => rfl

theorem confined_throw (e : ε) : Confined keys (throw e : Edit ε α) := fun _ _ _ => rfl

theorem confined_set {key : String} (h : key ∈ keys) (value : Json) :
    Confined keys (set key value : Edit ε Unit) := by
  intro d k hk
  have hne : key ≠ k := by
    rintro rfl
    exact hk h
  exact (Dictionary.get?_insert d key value k).trans (if_neg hne)

theorem confined_get? (key : String) : Confined keys (get? key : Edit ε (Option Json)) :=
  fun _ _ _ => rfl

theorem confined_take? {key : String} (h : key ∈ keys) :
    Confined keys (take? key : Edit ε (Option Json)) := by
  intro d k hk
  have hne : key ≠ k := by
    rintro rfl
    exact hk h
  exact (Dictionary.get?_erase d key k).trans (if_neg hne)

theorem Confined.bind {x : Edit ε α} {f : α → Edit ε β} (hx : Confined keys x)
    (hf : ∀ a, Confined keys (f a)) : Confined keys (x >>= f) := by
  intro d key hkey
  have hfirst := hx d key hkey
  rcases hrun : (x.run d : Except ε α × Fields) with ⟨e | a, d'⟩
  · rw [hrun] at hfirst
    rw [run_bind_of_error hrun]
    exact hfirst
  · rw [hrun] at hfirst
    rw [run_bind_of_ok hrun]
    exact (hf a d' key hkey).trans hfirst

theorem confined_rename {source target : String} (hs : source ∈ keys) (ht : target ∈ keys) :
    Confined keys (rename source target : Edit ε Unit) := by
  refine .bind (confined_take? hs) fun value => ?_
  cases value with
  | none => exact confined_pure ()
  | some value => exact confined_set ht value

end Edit

namespace Migrations

/-! ### What the migration of a node may change -/

/-- What the migration of a class may change: the class, and settings under some keys. -/
structure Renewal where
  /-- The class that the nodes have afterwards. -/
  toClass : String
  /-- The settings that are looked at or given a value. -/
  keys : List String

/-- The classes whose first version has a migration. -/
def renewal? : String → Option Renewal
  | "FunctionResult" =>
    some ⟨"SubgraphOutput", ["Name", "name", "Value", "value", "PreviewType", "preview"]⟩
  | "Lerp" => some ⟨"Lerp", ["Fraction", "t", "DefaultFraction", "default_t"]⟩
  | "TextureSample" => some ⟨"TextureSample", ["color_space"]⟩
  | "Branch" => some ⟨"Branch", ["operator"]⟩
  | _ => none

/-- Whether a node is of the first version, which it also is if it does not say. -/
def isFirst (node : Json) : Bool :=
  match node.get? "version" with
  | none | some .null => true
  | some (.int n) => n == 1
  | some _ => false

/-- What the migration of a node may change, if it needs one. -/
def renewalOf? (node : Json) : Option Renewal :=
  match node.get? "__class" with
  | some (.string c) => if isFirst node then renewal? c else none
  | _ => none

/-- A setting of a node. -/
def setting? (node : Json) (key : String) : Option Json :=
  (node.get? "settings").bind (·.get? key)

/-- A node before and after an upgrade. -/
inductive Renewed : Json → Json → Prop
  /-- A node that needs no migration is left alone. -/
  | same {node : Json} (h : renewalOf? node = none) : Renewed node node
  /-- Another one gets a class, a version and settings. Settings that the migration does not
  name keep their values, and so does the rest of the node. -/
  | changed {node node' : Json} {r : Renewal} {settings : Fields} (h : renewalOf? node = some r)
      (hclass : node'.get? "__class" = some (.string r.toClass))
      (hversion : node'.get? "version" = some (.int 2))
      (hothers : ∀ key, key ≠ "__class" → key ≠ "version" → key ≠ "settings" →
        node'.get? key = node.get? key)
      (hsettings : node'.get? "settings" = some (.object settings))
      (hkept : ∀ key, key ∉ r.keys → Dictionary.get? settings key = setting? node key) :
      Renewed node node'

variable {node node' : Fields} {c : String} {v : UInt32} {m : Migration}

theorem get?_class_of_classOf (h : classOf node = .ok c) :
    Dictionary.get? node "__class" = some (.string c) := by
  unfold classOf at h
  split at h
  · next hget =>
    cases h
    exact hget
  · cases h

theorem eq_int_of_readUInt32 {j : Json} (h : j.readUInt32 = .ok v) : j = .int v.toNat := by
  cases j with
  | int n =>
    unfold Json.readUInt32 Json.readInt at h
    dsimp only at h
    split at h
    · next hn =>
      have hv : UInt32.ofNat n.toNat = v := Except.ok.inj h
      have hsize : n.toNat < UInt32.size := by omega
      rw [← hv, UInt32.toNat_ofNat_of_lt' hsize, Int.toNat_of_nonneg hn.1]
    · cases h
  | _ => cases h

theorem isFirst_of_versionOf (h : versionOf c node = .ok v) :
    isFirst (.object node) = decide (v = 1) := by
  unfold versionOf at h
  unfold isFirst Json.get?
  dsimp only
  split at h
  · next hnone =>
    rw [hnone, ← Except.ok.inj h]
    rfl
  · next hnull =>
    rw [hnull, ← Except.ok.inj h]
    rfl
  · next j _ hj =>
    split at h
    · next version hread =>
      obtain rfl := Except.ok.inj h
      -- only integers are read as versions, and each as itself
      rw [hj, eq_int_of_readUInt32 hread]
      have hone : version = 1 ↔ version.toNat = 1 := UInt32.toNat_inj.symm
      rw [Bool.eq_iff_iff, beq_iff_eq, decide_eq_true_iff, hone]
      omega
    · cases h

/-- The renewal of a node depends on where it stands. -/
theorem renewalOf?_of_stands (h : Stands node c v) :
    renewalOf? (.object node) = if v = 1 then renewal? c else none := by
  unfold renewalOf?
  rw [Json.get?, get?_class_of_classOf h.1]
  rw [isFirst_of_versionOf h.2]
  simp

theorem setting?_of_settings? {settings : Fields} (h : settings? node = some settings)
    (key : String) : setting? (.object node) key = Dictionary.get? settings key := by
  unfold settings? at h
  unfold setting? Json.get?
  dsimp only
  split at h
  · next hnone =>
    cases h
    rw [hnone]
    rfl
  · next hnull =>
    cases h
    rw [hnull]
    rfl
  · next hobject =>
    cases h
    rw [hobject]
    rfl
  · cases h

/-! ### The built-in migrations -/

theorem functionResult_confined :
    Migration.functionResult.edit.Confined
      ["Name", "name", "Value", "value", "PreviewType", "preview"] := by
  refine .bind (Edit.confined_rename (by simp) (by simp)) fun _ => ?_
  refine .bind (Edit.confined_rename (by simp) (by simp)) fun _ => ?_
  refine .bind (Edit.confined_take? (by simp)) fun value => ?_
  split
  · exact Edit.confined_pure ()
  · exact Edit.confined_pure ()
  · exact Edit.confined_pure ()
  · exact Edit.confined_set (by simp) _
  · exact Edit.confined_throw _

theorem lerp_confined :
    Migration.lerp.edit.Confined ["Fraction", "t", "DefaultFraction", "default_t"] :=
  .bind (Edit.confined_rename (by simp) (by simp)) fun _ =>
    Edit.confined_rename (by simp) (by simp)

theorem textureSample_confined : Migration.textureSample.edit.Confined ["color_space"] := by
  refine .bind (Edit.confined_get? _) fun value => ?_
  split
  · exact Edit.confined_pure ()
  · exact Edit.confined_set (by simp) _
  · exact Edit.confined_set (by simp) _
  · exact Edit.confined_throw _

theorem branch_confined : Migration.branch.edit.Confined ["operator"] := by
  refine .bind (Edit.confined_get? _) fun value => ?_
  split
  · exact Edit.confined_pure ()
  · split
    · exact Edit.confined_set (by simp) _
    · exact Edit.confined_throw _
  · exact Edit.confined_throw _

/-- A built-in migration starts from the first version of its class, leads to the second one,
and is confined to what the class says. -/
theorem find?_builtin_eq_some (h : builtin.find? c v = some m) :
    v = 1 ∧ m.toVersion = 2 ∧ builtin.find? m.toClass m.toVersion = none ∧
      ∃ r, renewal? c = some r ∧ m.toClass = r.toClass ∧ m.edit.Confined r.keys := by
  obtain ⟨hmem, rfl, rfl⟩ := of_find?_eq_some h
  simp only [builtin, List.mem_cons, List.not_mem_nil, or_false] at hmem
  rcases hmem with rfl | rfl | rfl | rfl
  · exact ⟨rfl, rfl, rfl, _, rfl, rfl, functionResult_confined⟩
  · exact ⟨rfl, rfl, rfl, _, rfl, rfl, lerp_confined⟩
  · exact ⟨rfl, rfl, rfl, _, rfl, rfl, textureSample_confined⟩
  · exact ⟨rfl, rfl, rfl, _, rfl, rfl, branch_confined⟩

theorem renewal?_of_find?_eq_none (h : builtin.find? c 1 = none) : renewal? c = none := by
  have hnone : ∀ m ∈ builtin.list, m.className = c → m.version ≠ 1 := by
    intro m hm hc hv
    have hstarts := List.find?_eq_none.mp h m hm
    simp [Migration.startsFrom, hc, hv] at hstarts
  unfold renewal?
  split
  · exact absurd rfl (hnone .functionResult (by simp [builtin]) rfl)
  · exact absurd rfl (hnone .lerp (by simp [builtin]) rfl)
  · exact absurd rfl (hnone .textureSample (by simp [builtin]) rfl)
  · exact absurd rfl (hnone .branch (by simp [builtin]) rfl)
  · rfl

/-! ### Upgrades -/

theorem renewalOf?_of_current (h : builtin.Current node) : renewalOf? (.object node) = none := by
  obtain ⟨c, v, hstands, hnone⟩ := h
  rw [renewalOf?_of_stands hstands]
  split
  · next hv =>
    subst hv
    exact renewal?_of_find?_eq_none hnone
  · rfl

/-- Nothing can be done with a node from which no migration starts. -/
theorem Chain.eq_nil {ms : Migrations} {path : List Migration} (h : Chain ms node path node')
    (hcurrent : ms.Current node) : path = [] ∧ node' = node := by
  cases h with
  | nil => exact ⟨rfl, rfl⟩
  | cons hstands hm _ _ =>
    obtain ⟨c, v, hstands', hnone⟩ := hcurrent
    obtain ⟨rfl, rfl⟩ := hstands.unique hstands'
    rw [hnone] at hm
    cases hm

theorem builtin_chain_cases {path : List Migration} (h : Chain builtin node path node') :
    (path = [] ∧ node' = node) ∨
      ∃ c m settings settings', Stands node c 1 ∧ builtin.find? c 1 = some m ∧
        settings? node = some settings ∧ m.edit.run settings = (.ok (), settings') ∧
        path = [m] ∧ node' = moved m node settings' := by
  cases h with
  | nil => exact .inl ⟨rfl, rfl⟩
  | @cons _ node₁ _ c v m path hstands hm hrun hrest =>
    obtain ⟨rfl, -, hlast, -⟩ := find?_builtin_eq_some hm
    cases migrate_cases hrun with
    | @done settings settings' hs he =>
      -- the second version is the last
      obtain ⟨rfl, rfl⟩ := hrest.eq_nil ⟨_, _, stands_moved m node settings', hlast⟩
      exact .inr ⟨c, m, settings, settings', hstands, hm, hs, he, rfl, rfl⟩

/-- **A node is renewed by one migration, or it needs none.** -/
theorem Journey.renewed (w : builtin.Journey) :
    Renewed (.object w.before) (.object w.after) ∧
      w.path.length = if (renewalOf? (.object w.before)).isSome then 1 else 0 := by
  obtain ⟨before, path, after, chain, current⟩ := w
  rcases builtin_chain_cases chain with
    ⟨rfl, rfl⟩ | ⟨c, m, settings, settings', hstands, hm, hs, he, rfl, rfl⟩
  · have hnone := renewalOf?_of_current current
    rw [hnone]
    exact ⟨.same hnone, rfl⟩
  · obtain ⟨-, hversion, -, r, hr, hclass, hconfined⟩ := find?_builtin_eq_some hm
    have hrenewal : renewalOf? (.object before) = some r := by
      rw [renewalOf?_of_stands hstands, if_pos rfl, hr]
    have hsettings : (Json.object (moved m before settings')).get? "settings" =
        some (.object settings') := by
      simp [Json.get?, get?_moved]
    rw [hrenewal]
    refine ⟨.changed hrenewal ?_ ?_ (fun key hkey hkey' hkey'' => ?_) hsettings
      (fun key hkey => ?_), rfl⟩
    · simp [Json.get?, get?_moved, hclass]
    · simp [Json.get?, get?_moved, hversion]
    · simp [Json.get?, get?_moved, Ne.symm hkey, Ne.symm hkey', Ne.symm hkey'']
    · have hkept := hconfined settings key hkey
      rw [he] at hkept
      rw [setting?_of_settings? hs]
      exact hkept

/-- The migrations of some nodes, one for each node that needs one. -/
theorem length_path_sum (ways : List builtin.Journey) :
    (ways.map (·.path.length)).sum =
      (ways.map (Json.object ·.before)).countP fun node => (renewalOf? node).isSome := by
  induction ways with
  | nil => rfl
  | cons w ways ih =>
    rw [List.map_cons, List.map_cons, List.sum_cons, List.countP_cons, ih, w.renewed.2]
    omega

/-- **An upgrade by the built-in migrations changes only what these name.** The document keeps all
members but its version and its nodes, and it has as many nodes as before, in the same order. One
migration is counted for each node that is the first version of a class with a migration. All
other nodes are left alone, and such a node keeps everything but its class, its version and the
settings that its migration names. -/
theorem builtin_upgrade_confined {j j' : Json} {n : Nat} (h : builtin.upgrade j = (.ok n, j')) :
    (∀ key, key ≠ "nodes" → key ≠ "version" → j'.get? key = j.get? key) ∧
      ∃ nodes nodes', j.get? "nodes" = some (.array nodes) ∧
        j'.get? "nodes" = some (.array nodes') ∧ List.Forall₂ Renewed nodes nodes' ∧
        n = nodes.countP fun node => (renewalOf? node).isSome := by
  have hsettles := settles_of_upgrade h
  obtain ⟨ways, hbefore, hafter, rfl⟩ := hsettles.nodes
  refine ⟨hsettles.others, _, _, hbefore, hafter, ?_, ?_⟩
  · rw [List.forall₂_map_left_iff, List.forall₂_map_right_iff, List.forall₂_same]
    exact fun w _ => w.renewed.1
  · exact length_path_sum ways

/-- An interpolation of the first version among nodes that need no migration. -/
def mixedDocument : Json :=
  .object [("description", .string "fog"), ("nodes", .array [
    .object [("__class", .string "Branch"), ("version", .int 2)],
    .object [("__class", .string "Lerp"), ("extras", .int 3),
      ("settings", .object [("Fraction", .int 1), ("a", .int 0), ("note", .string "near")]),
      ("version", .null)],
    .object [("__class", .string "Float")]])]

/-- One node of three is renewed. -/
theorem builtin_upgrade_confined_fog :
    ∃ j', builtin.upgrade mixedDocument = (.ok 1, j') ∧
      j'.get? "description" = some (.string "fog") ∧
      ∃ nodes nodes', mixedDocument.get? "nodes" = some (.array nodes) ∧
        j'.get? "nodes" = some (.array nodes') ∧ List.Forall₂ Renewed nodes nodes' ∧
        1 = nodes.countP fun node => (renewalOf? node).isSome := by
  have h : builtin.upgrade mixedDocument = (.ok 1, (builtin.upgrade mixedDocument).2) := rfl
  obtain ⟨hroot, hnodes⟩ := builtin_upgrade_confined h
  exact ⟨_, h, hroot "description" (by decide) (by decide), hnodes⟩

end Migrations

end MaterialGraph
