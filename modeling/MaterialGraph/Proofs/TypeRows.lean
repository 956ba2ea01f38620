import MaterialGraph.TypeTable

/-!
# Tables made from rows

Rows form a table exactly if every type has one of them, and the order in which they are given
does not matter. In the order of types the rows of one type are neighbours, so to compare
neighbours is to find every type with two rows, and the first one first. If no type has two rows
and none is without, then binary search finds the row of every type, and the place next to it is
never looked at.

## Main results

* `TypeRow.repeated?_eq_some_iff`, `TypeRow.absent?_eq_some_iff` — what the two scans find.
* `TypeTable.ofRows_eq_duplicate_iff`, `TypeTable.ofRows_eq_missing_iff` — when rows form no
  table.
* `TypeTable.ofRows_exact` — **rows form a table exactly if every type has one of them**.
-/

namespace MaterialGraph

/-! ### The first type of a kind -/

/-- The type has the property, and so has no type in front of it. -/
def ShaderType.First (P : ShaderType → Prop) (t : ShaderType) : Prop :=
  P t ∧ ∀ u, P u → t.rank ≤ u.rank

namespace ShaderType

theorem First.unique {P : ShaderType → Prop} {s t : ShaderType} (hs : First P s)
    (ht : First P t) : s = t :=
  rank_injective (Nat.le_antisymm (hs.2 t ht.1) (ht.2 s hs.1))

/-- A search through all types finds the first one. -/
theorem find?_all_eq_some_iff {p : ShaderType → Bool} {t : ShaderType} :
    all.find? p = some t ↔ First (p · = true) t := by
  have hfirst {t : ShaderType} (h : all.find? p = some t) : First (p · = true) t := by
    obtain ⟨ht, before, after, hall, hbefore⟩ := List.find?_eq_some_iff_append.mp h
    refine ⟨ht, fun u hu => ?_⟩
    have hsorted : all.Pairwise fun s t => s.rank ≤ t.rank := by decide
    rw [hall] at hsorted
    have hmem : u ∈ before ++ t :: after := hall ▸ u.mem_all
    rcases List.mem_append.mp hmem with hmem | hmem
    · have hno := hbefore u hmem
      rw [hu] at hno
      cases hno
    · rcases List.mem_cons.mp hmem with rfl | hmem
      · exact Nat.le_refl _
      · exact List.rel_of_pairwise_cons (List.pairwise_append.mp hsorted).2.1 hmem
  refine ⟨hfirst, fun h => ?_⟩
  cases hf : all.find? p with
  | none => exact absurd h.1 (List.find?_eq_none.mp hf t t.mem_all)
  | some u => rw [(hfirst hf).unique h]

end ShaderType

namespace TypeRow

open ShaderType

variable {rows : List TypeRow} {t : ShaderType}

/-! ### How many rows a type has -/

/-- The number of rows of a type. -/
def tally (rows : List TypeRow) (t : ShaderType) : Nat := (rows.map TypeRow.type).count t

@[simp] theorem tally_cons (r : TypeRow) (rows : List TypeRow) (t : ShaderType) :
    tally (r :: rows) t = tally rows t + if r.type = t then 1 else 0 := by
  rw [tally, List.map_cons, List.count_cons]
  simp only [beq_iff_eq]
  rfl

theorem tally_perm {rows' : List TypeRow} (h : rows.Perm rows') : tally rows = tally rows' :=
  funext fun t => (h.map TypeRow.type).count_eq t

theorem tally_sort (rows : List TypeRow) : tally (sort rows) = tally rows :=
  tally_perm (sort_perm rows)

theorem tally_eq_zero_iff :
    tally rows t = 0 ↔ ∀ r ∈ rows, r.type ≠ t := by
  rw [tally, List.count_eq_zero, List.mem_map]
  constructor
  · exact fun h r hr ht => h ⟨r, hr, ht⟩
  · rintro h ⟨r, hr, ht⟩
    exact h r hr ht

theorem exists_of_tally_ne_zero (h : tally rows t ≠ 0) :
    ∃ r ∈ rows, r.type = t := by
  rw [Ne, tally_eq_zero_iff] at h
  simpa using h

/-- If a type has one row at most, any two of its rows are the same one. -/
theorem eq_of_tally_le_one {r r' : TypeRow} (hr : r ∈ rows) (hr' : r' ∈ rows)
    (ht : r.type = r'.type) (h : tally rows r'.type ≤ 1) : r = r' := by
  induction rows with
  | nil => cases hr
  | cons first rows ih =>
    rw [tally_cons] at h
    rcases List.mem_cons.mp hr with hr | hr <;> rcases List.mem_cons.mp hr' with hr' | hr'
    · rw [hr, hr']
    · rw [if_pos (hr ▸ ht)] at h
      have hzero : tally rows r'.type = 0 := by omega
      exact absurd rfl (tally_eq_zero_iff.mp hzero r' hr')
    · rw [if_pos (congrArg TypeRow.type hr'.symm)] at h
      have hzero : tally rows r'.type = 0 := by omega
      exact absurd ht (tally_eq_zero_iff.mp hzero r hr)
    · exact ih hr hr' (by omega)

/-! ### What the scans find -/

/-- In rows in order, a type that the second row does not share is not met again. -/
theorem tally_eq_zero_of_inOrder {a b : TypeRow} (h : InOrder (a :: b :: rows))
    (hne : a.type ≠ b.type) : tally (b :: rows) a.type = 0 := by
  obtain ⟨ha, hb⟩ := List.pairwise_cons.mp h
  rw [tally_eq_zero_iff]
  intro r hr heq
  have hab := ha b List.mem_cons_self
  rcases List.mem_cons.mp hr with rfl | hr
  · exact hne heq.symm
  · have hbr := List.rel_of_pairwise_cons hb hr
    rw [heq] at hbr
    exact hne (rank_injective (Nat.le_antisymm hab hbr))

/-- The neighbours of rows in order show which type has two rows, and the first one first. -/
theorem repeated?_spec (h : InOrder rows) :
    (repeated? rows = none → ∀ t, tally rows t ≤ 1) ∧
      ∀ t, repeated? rows = some t → First (1 < tally rows ·) t := by
  fun_induction repeated? rows with
  | case1 a b rest heq =>
    refine ⟨by rintro ⟨⟩, fun t ht => ?_⟩
    cases ht
    refine ⟨?_, fun u hu => ?_⟩
    · show 1 < tally (a :: b :: rest) a.type
      rw [tally_cons, tally_cons, if_pos rfl, if_pos heq.symm]
      omega
    · -- no type comes before that of the first row
      have hu : 1 < tally (a :: b :: rest) u := hu
      obtain ⟨r, hr, rfl⟩ := exists_of_tally_ne_zero (Nat.ne_of_gt (Nat.lt_of_succ_lt hu))
      rcases List.mem_cons.mp hr with rfl | hr
      · exact Nat.le_refl _
      · exact List.rel_of_pairwise_cons h hr
  | case2 a b rest hne ih =>
    obtain ⟨hnone, hsome⟩ := ih (List.Pairwise.of_cons h)
    have hzero := tally_eq_zero_of_inOrder h hne
    -- the type of the first row has no other row, and the others do not have this one
    have hfirst : tally (a :: b :: rest) a.type = 1 := by rw [tally_cons, hzero, if_pos rfl]
    have hother {u : ShaderType} (hu : a.type ≠ u) :
        tally (a :: b :: rest) u = tally (b :: rest) u := by
      rw [tally_cons, if_neg hu, Nat.add_zero]
    refine ⟨fun hn t => ?_, fun t ht => ?_⟩
    · by_cases hat : a.type = t
      · subst hat
        exact Nat.le_of_eq hfirst
      · rw [hother hat]
        exact hnone hn t
    · obtain ⟨htwo, hleast⟩ := hsome t ht
      have hat {u : ShaderType} (hu : 1 < tally (b :: rest) u) : a.type ≠ u := by
        rintro rfl
        omega
      refine ⟨Nat.lt_of_lt_of_eq htwo (hother (hat htwo)).symm, fun u hu => ?_⟩
      have hu : 1 < tally (a :: b :: rest) u := hu
      by_cases hau : a.type = u
      · rw [← hau, hfirst] at hu
        omega
      · rw [hother hau] at hu
        exact hleast u hu
  | case3 rows hshort =>
    refine ⟨fun _ t => ?_, by rintro t ⟨⟩⟩
    cases rows with
    | nil => exact Nat.zero_le _
    | cons a rows =>
      cases rows with
      | nil =>
        rw [tally_cons]
        show 0 + _ ≤ 1
        split <;> omega
      | cons b rows => exact absurd rfl (hshort a b rows)

theorem repeated?_eq_some_iff (h : InOrder rows) :
    repeated? rows = some t ↔ First (1 < tally rows ·) t := by
  obtain ⟨hnone, hsome⟩ := repeated?_spec h
  refine ⟨hsome t, fun ht => ?_⟩
  cases hr : repeated? rows with
  | none => exact absurd ht.1 (Nat.not_lt.mpr (hnone hr t))
  | some u => rw [(hsome u hr).unique ht]

theorem repeated?_eq_none_iff (h : InOrder rows) :
    repeated? rows = none ↔ ∀ t, tally rows t ≤ 1 := by
  refine ⟨(repeated?_spec h).1, fun hle => ?_⟩
  cases hr : repeated? rows with
  | none => rfl
  | some t => exact absurd ((repeated?_eq_some_iff h).mp hr).1 (Nat.not_lt.mpr (hle t))

theorem any_type_eq_false_iff :
    (!rows.any (·.type == t)) = true ↔ tally rows t = 0 := by
  rw [tally_eq_zero_iff]
  simp

theorem absent?_eq_some_iff :
    absent? rows = some t ↔ First (tally rows · = 0) t := by
  rw [absent?, find?_all_eq_some_iff]
  simp only [any_type_eq_false_iff]

theorem absent?_eq_none_iff :
    absent? rows = none ↔ ∀ t, tally rows t ≠ 0 := by
  rw [absent?, List.find?_eq_none]
  simp only [any_type_eq_false_iff]
  exact ⟨fun h t => h t t.mem_all, fun h t _ => h t⟩

end TypeRow

namespace TypeTable

open ShaderType TypeRow

variable {types : TypeTable}

/-! ### Tables -/

theorem eq_of_row {types' : TypeTable} (h : ∀ t, types.row t = types'.row t) :
    types = types' := by
  obtain ⟨row, hrow⟩ := types
  obtain ⟨row', hrow'⟩ := types'
  obtain rfl : row = row' := funext h
  rfl

/-- All that can become of rows. -/
theorem ofRows_cases (rows : List TypeRow) :
    (∃ t, ofRows rows = .error (.duplicate t) ∧ repeated? (sort rows) = some t) ∨
    (∃ t, ofRows rows = .error (.missing t) ∧ repeated? (sort rows) = none ∧
      absent? (sort rows) = some t) ∨
    ∃ types, ofRows rows = .ok types ∧ repeated? (sort rows) = none ∧
      ∃ h : absent? (sort rows) = none, types.row = lookup (sort rows) (ne_nil_of_absent? h) := by
  unfold ofRows
  split
  · next t ht => exact .inl ⟨t, rfl, ht⟩
  · next hr =>
    split
    · next t ht => exact .inr (.inl ⟨t, rfl, hr, ht⟩)
    · next ha => exact .inr (.inr ⟨_, rfl, hr, ha, rfl⟩)

variable {rows : List TypeRow}

/-- Two rows of one type: the first such type is reported, whatever else is wrong. -/
theorem ofRows_eq_duplicate_iff {t : ShaderType} :
    ofRows rows = .error (.duplicate t) ↔ First (1 < tally rows ·) t := by
  rw [← tally_sort, ← repeated?_eq_some_iff (sort_inOrder rows)]
  rcases ofRows_cases rows with ⟨u, ho, hr⟩ | ⟨u, ho, hr, -⟩ | ⟨types, ho, hr, -⟩
  · simp [ho, hr]
  · simp [ho, hr]
  · simp [ho, hr]

/-- A type without row is reported if no type has two of them. -/
theorem ofRows_eq_missing_iff {t : ShaderType} : ofRows rows = .error (.missing t) ↔
    (∀ u, tally rows u ≤ 1) ∧ First (tally rows · = 0) t := by
  rw [← tally_sort, ← repeated?_eq_none_iff (sort_inOrder rows), ← absent?_eq_some_iff]
  rcases ofRows_cases rows with ⟨u, ho, hr⟩ | ⟨u, ho, hr, ha⟩ | ⟨types, ho, hr, ha, -⟩
  · simp [ho, hr]
  · simp [ho, hr, ha]
  · simp [ho, hr, ha]

theorem ofRows_eq_ok_iff : (∃ types, ofRows rows = .ok types) ↔ ∀ t, tally rows t = 1 := by
  have hone : (∀ t, tally rows t = 1) ↔
      repeated? (sort rows) = none ∧ absent? (sort rows) = none := by
    rw [repeated?_eq_none_iff (sort_inOrder rows), absent?_eq_none_iff, tally_sort]
    exact ⟨fun h => ⟨fun t => Nat.le_of_eq (h t), fun t => by rw [h t]; decide⟩,
      fun h t => Nat.le_antisymm (h.1 t) (Nat.pos_of_ne_zero (h.2 t))⟩
  rw [hone]
  rcases ofRows_cases rows with ⟨u, ho, hr⟩ | ⟨u, ho, hr, ha⟩ | ⟨types, ho, hr, ha, -⟩
  · simp [ho, hr]
  · simp [ho, ha]
  · simp [ho, hr, ha]

/-- Binary search finds the row of every type of a table. -/
theorem search_of_ofRows (h : ofRows rows = .ok types) (t : ShaderType) :
    ∃ i, ∃ hi : i < (sort rows).length,
      search (sort rows) t 0 (sort rows).length (Nat.le_refl _) = .ok i ∧
        types.row t = (sort rows)[i] := by
  rcases ofRows_cases rows with ⟨u, ho, -⟩ | ⟨u, ho, -⟩ | ⟨types', ho, -, ha, hrow⟩
  · rw [ho] at h
    cases h
  · rw [ho] at h
    cases h
  · rw [ho] at h
    cases h
    obtain ⟨i, hi, hs, hl, -⟩ := lookup_found (sort_inOrder rows) (exists_of_absent? ha t)
      (ne_nil_of_absent? ha)
    exact ⟨i, hi, hs, by rw [hrow, hl]⟩

theorem row_mem (h : ofRows rows = .ok types) (t : ShaderType) :
    types.row t ∈ rows := by
  obtain ⟨i, hi, -, hrow⟩ := search_of_ofRows h t
  rw [hrow]
  exact (sort_perm rows).subset (List.getElem_mem hi)

/-- A table has the rows that it was made from. -/
theorem eq_row_of_mem (h : ofRows rows = .ok types) {r : TypeRow} (hr : r ∈ rows) :
    r = types.row r.type := by
  have hone := ofRows_eq_ok_iff.mp ⟨types, h⟩
  exact eq_of_tally_le_one hr (row_mem h r.type) (types.row_type r.type).symm
    (Nat.le_of_eq (hone _))

/-- **The order of the rows does not matter**, neither for the table nor for what is reported. -/
theorem ofRows_perm {rows' : List TypeRow} (h : rows.Perm rows') : ofRows rows' = ofRows rows := by
  have htally := tally_perm h
  cases ho : ofRows rows with
  | error e =>
    cases e with
    | duplicate t => rwa [ofRows_eq_duplicate_iff, ← htally, ← ofRows_eq_duplicate_iff]
    | missing t => rwa [ofRows_eq_missing_iff, ← htally, ← ofRows_eq_missing_iff]
  | ok types =>
    obtain ⟨types', ho'⟩ := ofRows_eq_ok_iff.mpr (htally ▸ ofRows_eq_ok_iff.mp ⟨types, ho⟩)
    rw [ho']
    refine congrArg Except.ok (eq_of_row fun t => ?_)
    have hrow := eq_row_of_mem ho (h.mem_iff.mpr (row_mem ho' t))
    rwa [types'.row_type t] at hrow

/-- **Rows form a table exactly if every type has one of them.** The table then has the rows that it
was made from, each found by binary search under its own type. In whatever order the rows are given,
the table is the same, and so is what is reported: the first type with two rows, and if there is
none, the first type without a row. -/
theorem ofRows_exact (rows : List TypeRow) :
    ((∃ types, ofRows rows = .ok types) ↔ ∀ t, tally rows t = 1) ∧
    (∀ types, ofRows rows = .ok types → ∀ t,
      types.row t ∈ rows ∧ (∀ r ∈ rows, r.type = t → r = types.row t) ∧
      ∃ i, ∃ hi : i < (sort rows).length,
        search (sort rows) t 0 (sort rows).length (Nat.le_refl _) = .ok i ∧
          types.row t = (sort rows)[i]) ∧
    (∀ rows', rows.Perm rows' → ofRows rows' = ofRows rows) ∧
    (∀ t, ofRows rows = .error (.duplicate t) ↔ First (1 < tally rows ·) t) ∧
    ∀ t, ofRows rows = .error (.missing t) ↔
      (∀ u, tally rows u ≤ 1) ∧ First (tally rows · = 0) t := by
  refine ⟨ofRows_eq_ok_iff, fun types h t => ?_, fun rows' => ofRows_perm,
    fun t => ofRows_eq_duplicate_iff, fun t => ofRows_eq_missing_iff⟩
  refine ⟨row_mem h t, fun r hr ht => ?_, search_of_ofRows h t⟩
  rw [← ht]
  exact eq_row_of_mem h hr

/-- The standard rows, given back to front, form the standard table. -/
theorem ofRows_exact_reversed : ofRows builtin.rows.reverse = .ok builtin := by
  have hone : ∀ t, tally builtin.rows.reverse t = 1 := by
    intro t
    cases t <;> decide
  obtain ⟨hok, hrows, -⟩ := ofRows_exact builtin.rows.reverse
  obtain ⟨types, htypes⟩ := hok.mpr hone
  rw [htypes]
  refine congrArg Except.ok (eq_of_row fun t => ?_)
  have hmem : builtin.row t ∈ builtin.rows.reverse :=
    List.mem_reverse.mpr (List.mem_map_of_mem t.mem_all)
  exact ((hrows types htypes t).2.1 _ hmem (builtin.row_type t)).symm

end TypeTable

end MaterialGraph
