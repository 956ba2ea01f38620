import Mathlib.Data.List.Sort
import MaterialGraph.Proofs.Making

/-!
# Metadata in one order

Metadata is kept in increasing order of its keys, and so are the texts under a key. It is thus
determined by what it holds: the order in which nodes add their pieces cannot be told from it.

## Main results

* `Dictionary.InOrder.ext` — metadata in order is determined by what it holds.
* `Pass.addAll_perm` — pieces of metadata may be added in any order.
-/

namespace MaterialGraph

/-! ### Sets of texts -/

/-- Of two different texts, one comes first. -/
theorem lt_of_ne_of_not_lt {s t : String} (hne : s ≠ t) (h : ¬s < t) : t < s := by
  by_cases hts : t < s
  · exact hts
  · exact absurd (String.le_antisymm (String.not_lt.mp hts) (String.not_lt.mp h)) hne

theorem pairwise_insertText {s : String} {ts : List String} (h : ts.Pairwise (· < ·)) :
    (insertText s ts).Pairwise (· < ·) := by
  induction ts with
  | nil => exact List.pairwise_singleton _ s
  | cons t ts ih =>
    obtain ⟨hfirst, hrest⟩ := List.pairwise_cons.mp h
    unfold insertText
    by_cases heq : s = t
    · rw [if_pos heq]
      exact h
    · rw [if_neg heq]
      by_cases hlt : s < t
      · rw [if_pos hlt]
        refine List.pairwise_cons.mpr ⟨fun u hu => ?_, h⟩
        rcases List.mem_cons.mp hu with rfl | hu
        · exact hlt
        · exact String.lt_trans hlt (hfirst u hu)
      · rw [if_neg hlt]
        refine List.pairwise_cons.mpr ⟨fun u hu => ?_, ih hrest⟩
        rcases mem_insertText.mp hu with rfl | hu
        · exact lt_of_ne_of_not_lt heq hlt
        · exact hfirst u hu

theorem eq_of_mem_iff {ts us : List String} (ht : ts.Pairwise (· < ·)) (hu : us.Pairwise (· < ·))
    (h : ∀ t, t ∈ ts ↔ t ∈ us) : ts = us := by
  have : Std.Irrefl (α := String) (· < ·) := ⟨String.lt_irrefl⟩
  have : Std.Antisymm (α := String) (· < ·) := ⟨fun _ _ h h' => absurd h' (String.lt_asymm h)⟩
  exact ht.eq_of_mem_iff hu h

namespace Dictionary

/-! ### Keys in order -/

section Keys

variable {α : Type} {m m' : Dictionary α}

theorem keys_replace (m : Dictionary α) (key : String) (value : α) :
    (m.replace key value).map Prod.fst = m.map Prod.fst := by
  induction m with
  | nil => rfl
  | cons e m ih =>
    obtain ⟨k, v⟩ := e
    unfold replace
    by_cases hk : k = key
    · rw [if_pos hk]
      rfl
    · rw [if_neg hk, List.map_cons, List.map_cons, ih]

theorem keys_place {key : String} (h : m.get? key = none) (value : α) :
    (m.place key value).map Prod.fst = insertText key (m.map Prod.fst) := by
  induction m with
  | nil => rfl
  | cons e m ih =>
    obtain ⟨k, v⟩ := e
    rw [get?_cons] at h
    by_cases hk : k = key
    · rw [if_pos hk] at h
      cases h
    · rw [if_neg hk] at h
      unfold place
      rw [List.map_cons, insertText, if_neg (Ne.symm hk)]
      split
      · rfl
      · rw [List.map_cons, ih h]

theorem pairwise_keys_insert (key : String) (value : α) (h : (m.map Prod.fst).Pairwise (· < ·)) :
    ((m.insert key value).map Prod.fst).Pairwise (· < ·) := by
  unfold insert
  cases hget : m.get? key with
  | none =>
    dsimp only [Option.isSome_none]
    rw [if_neg Bool.false_ne_true, keys_place hget]
    exact pairwise_insertText h
  | some old =>
    dsimp only [Option.isSome_some]
    rw [if_pos rfl, keys_replace]
    exact h

theorem mem_keys {key : String} : key ∈ m.map Prod.fst ↔ (m.get? key).isSome = true := by
  induction m with
  | nil => simp
  | cons e m ih =>
    obtain ⟨k, v⟩ := e
    rw [List.map_cons, List.mem_cons, ih, get?_cons]
    by_cases hk : k = key
    · simp [hk]
    · simp [hk, Ne.symm hk]

/-- Dictionaries with the same keys and the same values under them. -/
theorem eq_of_get? (h : (m.map Prod.fst).Nodup) (hkeys : m.map Prod.fst = m'.map Prod.fst)
    (hget : ∀ key, m.get? key = m'.get? key) : m = m' := by
  induction m generalizing m' with
  | nil => exact (List.map_eq_nil_iff.mp hkeys.symm).symm
  | cons e m ih =>
    obtain ⟨k, v⟩ := e
    cases m' with
    | nil => cases hkeys
    | cons e' m' =>
      obtain ⟨k', v'⟩ := e'
      obtain ⟨rfl, hrest⟩ := List.cons.inj hkeys
      obtain ⟨hnew, hnodup⟩ := List.nodup_cons.mp h
      have hvalue := hget k
      rw [get?_cons, get?_cons, if_pos rfl, if_pos rfl] at hvalue
      cases hvalue
      refine congrArg _ (ih hnodup hrest fun key => ?_)
      by_cases hk : k = key
      · -- the first key is not there a second time, so neither rest has anything under it
        subst hk
        have hnew' : k ∉ m'.map Prod.fst := hrest ▸ hnew
        rw [mem_keys, Option.not_isSome_iff_eq_none] at hnew hnew'
        rw [hnew, hnew']
      · have hkey := hget key
        rw [get?_cons, get?_cons, if_neg hk, if_neg hk] at hkey
        exact hkey

end Keys

/-! ### What metadata holds -/

variable {m m' : Dictionary (List String)}

/-- The text is among those under the key. -/
def Holds (m : Dictionary (List String)) (key value : String) : Prop :=
  ∃ values, m.get? key = some values ∧ value ∈ values

/-- Metadata whose keys and texts increase. -/
structure InOrder (m : Dictionary (List String)) : Prop where
  keys : (m.map Prod.fst).Pairwise (· < ·)
  /-- The texts under a key increase, and there are some. -/
  texts : ∀ key values, m.get? key = some values → values.Pairwise (· < ·) ∧ values ≠ []

namespace InOrder

theorem nil : InOrder [] := ⟨List.Pairwise.nil, fun _ _ h => by cases h⟩

theorem get?_isSome (h : m.InOrder) (key : String) :
    (m.get? key).isSome = true ↔ ∃ value, m.Holds key value := by
  constructor
  · intro hsome
    obtain ⟨values, hget⟩ := Option.isSome_iff_exists.mp hsome
    obtain ⟨value, hvalue⟩ := List.exists_mem_of_ne_nil _ (h.texts key values hget).2
    exact ⟨value, values, hget, hvalue⟩
  · rintro ⟨value, values, hget, -⟩
    rw [hget]
    rfl

/-- **Metadata in order is determined by what it holds.** -/
theorem ext (h : m.InOrder) (h' : m'.InOrder)
    (hholds : ∀ key value, m.Holds key value ↔ m'.Holds key value) : m = m' := by
  -- something is held under every key, so the keys are determined too
  have hkeys : m.map Prod.fst = m'.map Prod.fst := by
    refine eq_of_mem_iff h.keys h'.keys fun key => ?_
    rw [mem_keys, mem_keys, h.get?_isSome, h'.get?_isSome]
    exact exists_congr (hholds key)
  have hnodup : (m.map Prod.fst).Nodup := by
    refine h.keys.imp fun {a b} (hlt : a < b) heq => ?_
    exact String.lt_irrefl b (heq ▸ hlt)
  refine eq_of_get? hnodup hkeys fun key => ?_
  have hmem {m : Dictionary (List String)} {values : List String} (hget : m.get? key = some values)
      (value : String) : value ∈ values ↔ m.Holds key value := by
    unfold Holds
    rw [hget]
    simp
  have hsome : (m.get? key).isSome = (m'.get? key).isSome := by
    rw [Bool.eq_iff_iff, ← mem_keys, ← mem_keys, hkeys]
  cases hget : m.get? key with
  | none =>
    rw [hget] at hsome
    exact (Option.not_isSome_iff_eq_none.mp fun h => by rw [← hsome] at h; cases h).symm
  | some values =>
    rw [hget] at hsome
    obtain ⟨values', hget'⟩ := Option.isSome_iff_exists.mp hsome.symm
    have hvalues : values = values' := by
      refine eq_of_mem_iff (h.texts key values hget).1 (h'.texts key values' hget').1
        fun value => ?_
      rw [hmem hget, hmem hget', hholds]
    rw [hget', hvalues]

end InOrder

end Dictionary

namespace Pass

open Dictionary

variable {s t : Pass}

theorem holds_addMetadata (s : Pass) (key value k v : String) :
    (s.addMetadata key value).metadata.Holds k v ↔
      (key, value) = (k, v) ∨ s.metadata.Holds k v := by
  show (∃ values, (s.metadata.insert key _).get? k = some values ∧ v ∈ values) ↔ _
  rw [get?_insert, Prod.mk.injEq]
  by_cases hk : key = k
  · subst hk
    rw [if_pos rfl]
    unfold Holds
    cases s.metadata.get? key with
    | none => simp [insertText, eq_comm]
    | some old => simp [mem_insertText, eq_comm]
  · rw [if_neg hk]
    simp [hk, Holds]

theorem inOrder_addMetadata (key value : String) (h : s.metadata.InOrder) :
    (s.addMetadata key value).metadata.InOrder := by
  refine ⟨pairwise_keys_insert key _ h.keys, fun k values hvalues => ?_⟩
  have hvalues : (s.metadata.insert key _).get? k = some values := hvalues
  rw [get?_insert] at hvalues
  by_cases hk : key = k
  · rw [if_pos hk] at hvalues
    cases hvalues
    refine ⟨pairwise_insertText ?_, List.ne_nil_of_mem (mem_insertText.mpr (.inl rfl))⟩
    cases hget : s.metadata.get? key with
    | none => exact List.Pairwise.nil
    | some old => exact (h.texts key old hget).1
  · rw [if_neg hk] at hvalues
    exact h.texts k values hvalues

theorem holds_addAll (entries : List (String × String)) (key value : String) : ∀ s : Pass,
    (s.addAll entries).metadata.Holds key value ↔
      (key, value) ∈ entries ∨ s.metadata.Holds key value := by
  induction entries with
  | nil => simp [addAll]
  | cons entry entries ih =>
    intro s
    show ((s.addMetadata entry.1 entry.2).addAll entries).metadata.Holds key value ↔ _
    rw [ih, holds_addMetadata, List.mem_cons, ← or_assoc, or_comm (a := (key, value) = entry)]
    rw [eq_comm (a := (key, value))]

theorem inOrder_addAll (entries : List (String × String)) : ∀ s : Pass,
    s.metadata.InOrder → (s.addAll entries).metadata.InOrder := by
  induction entries with
  | nil => exact fun s h => h
  | cons entry entries ih =>
    exact fun s h => ih (s.addMetadata entry.1 entry.2) (inOrder_addMetadata _ _ h)

/-- **Pieces of metadata may be added in any order.** -/
theorem addAll_perm {entries entries' : List (String × String)} (hperm : entries.Perm entries')
    (hst : s.metadata = t.metadata) (h : s.metadata.InOrder) :
    (s.addAll entries).metadata = (t.addAll entries').metadata := by
  refine (inOrder_addAll entries s h).ext (inOrder_addAll entries' t (hst ▸ h)) fun key value => ?_
  rw [holds_addAll, holds_addAll, hperm.mem_iff, hst]

end Pass

end MaterialGraph
