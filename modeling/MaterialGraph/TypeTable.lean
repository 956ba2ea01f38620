import MaterialGraph.ShaderType

/-!
# What the program text calls each type

A type table has exactly one row for every type. The row gives the type's name
in program text, the prefix of globals of the type, and where a value of the
type may be exposed.

A table is made from rows in any order. They are put in the order of types, so
that rows of one type are neighbours and the row of a type can be searched for.

## Main definitions

* `TypeRow` — what is known about one type.
* `TypeRow.sort`, `TypeRow.search`, `TypeRow.lookup` — rows in order, and the row
  of a type among them.
* `TypeTable` — a row for every type.
* `TypeTable.ofRows` — a table from rows in any order; it fails when a type has
  two rows or none.
* `TypeTable.builtin` — the standard table.

## Main results

* `TypeRow.search_finds` — a row that is there is found.
-/

namespace MaterialGraph

open RecordReader

/-- What program text needs to know about a type. -/
structure TypeRow where
  type : ShaderType
  /-- Its name in program text. -/
  name : String
  /-- How globals of the type start. -/
  globalStem : String
  /-- Whether the material editor can edit a value of the type. -/
  editable : Bool
  /-- Whether a render attribute can hold a value of the type. -/
  bindable : Bool
  /-- Whether the type exists in the graph editor only. -/
  editorOnly : Bool
  deriving DecidableEq, Repr

namespace TypeRow

variable {rows : List TypeRow}

/-- Reads a row; every field is required. -/
def read (j : Json) : Except Mismatch TypeRow := j.readRecord "a type" do
  let type ← requiredField "value_type" ShaderType.read
  let name ← requiredField "hlsl_name" Json.readString
  let globalStem ← requiredField "global_prefix" Json.readString
  let editable ← requiredField "material_editor" Json.readBool
  let bindable ← requiredField "render_attribute" Json.readBool
  let editorOnly ← requiredField "editor_only" Json.readBool
  return { type, name, globalStem, editable, bindable, editorOnly }

/-- A row in a document. -/
def write (r : TypeRow) : Json := .record
  [("value_type", r.type.write), ("hlsl_name", some (.string r.name)),
    ("global_prefix", some (.string r.globalStem)), ("material_editor", some (.bool r.editable)),
    ("render_attribute", some (.bool r.bindable)), ("editor_only", some (.bool r.editorOnly))]

/-! ### Rows in order -/

/-- Rows in the order of their types. -/
def InOrder (rows : List TypeRow) : Prop := rows.Pairwise fun a b => a.type.rank ≤ b.type.rank

/-- The rows put in the order of their types; rows of one type stay as they were. -/
def sort (rows : List TypeRow) : List TypeRow :=
  rows.mergeSort fun a b => a.type.rank ≤ b.type.rank

theorem sort_perm (rows : List TypeRow) : (sort rows).Perm rows := List.mergeSort_perm _ _

theorem sort_inOrder (rows : List TypeRow) : InOrder (sort rows) := by
  have hsorted : (sort rows).Pairwise fun a b => decide (a.type.rank ≤ b.type.rank) = true := by
    refine List.pairwise_mergeSort (fun a b c => ?_) (fun a b => ?_) rows
    · simp only [decide_eq_true_eq]
      exact Nat.le_trans
    · simp only [Bool.or_eq_true, decide_eq_true_eq]
      exact Nat.le_total _ _
  exact hsorted.imp of_decide_eq_true

/-- The first type that two neighbours have both. -/
def repeated? : List TypeRow → Option ShaderType
  | a :: b :: rest => if a.type = b.type then some a.type else repeated? (b :: rest)
  | _ => none

/-- The first type without a row. -/
def absent? (rows : List TypeRow) : Option ShaderType :=
  ShaderType.all.find? fun t => !rows.any (·.type == t)

theorem exists_of_absent? (h : absent? rows = none) (t : ShaderType) :
    ∃ r ∈ rows, r.type = t := by
  have ht := List.find?_eq_none.mp h t t.mem_all
  simpa using ht

theorem ne_nil_of_absent? (h : absent? rows = none) : rows ≠ [] := by
  obtain ⟨r, hr, -⟩ := exists_of_absent? h .bool
  exact List.ne_nil_of_mem hr

/-! ### Looking a type up -/

/-- Binary search for a type between two positions of rows in order. It gives the
position of the row, or as a failure the position where one would have to stand. -/
def search (rows : List TypeRow) (t : ShaderType) (low high : Nat) (h : high ≤ rows.length) :
    Except Nat Nat :=
  if _ : low < high then
    let mid := (low + high) / 2
    have : mid < rows.length := by omega
    if rows[mid].type = t then .ok mid
    else if rows[mid].type.rank < t.rank then search rows t (mid + 1) high h
    else search rows t low mid (by omega)
  else .error low
termination_by high - low

/-- The row of a type, if there are rows at all: the one that is found, and otherwise
the one in its place, or the last one. -/
def lookup (rows : List TypeRow) (h : rows ≠ []) (t : ShaderType) : TypeRow :=
  let position := match search rows t 0 rows.length (Nat.le_refl _) with
    | .ok i => i
    | .error i => i
  have hlength := List.length_pos_iff.mpr h
  have : min position (rows.length - 1) < rows.length := by omega
  rows[min position (rows.length - 1)]

theorem InOrder.rank_le (h : InOrder rows) {i j : Nat} (hij : i ≤ j) (hj : j < rows.length) :
    rows[i].type.rank ≤ rows[j].type.rank := by
  rcases Nat.lt_or_eq_of_le hij with hlt | rfl
  · exact List.pairwise_iff_getElem.mp h i j (by omega) hj hlt
  · exact Nat.le_refl _

/-- **A row that is there is found**, if the rows are in order. -/
theorem search_finds {t : ShaderType} (ho : InOrder rows) {low high : Nat} {h : high ≤ rows.length}
    {k : Nat} (hlow : low ≤ k) (hhigh : k < high) (hk : rows[k].type = t) :
    ∃ i, ∃ hi : i < rows.length, search rows t low high h = .ok i ∧ rows[i].type = t := by
  fun_induction search rows t low high h with
  | case1 low high h hlt mid hmid heq => exact ⟨mid, hmid, rfl, heq⟩
  | case2 low high h hlt mid hmid hne hless ih =>
    -- the rows up to the middle come before the type
    have hright : mid < k := Nat.lt_of_not_le fun hle => by
      have := ho.rank_le hle hmid
      rw [hk] at this
      omega
    exact ih hright hhigh hk
  | case3 low high h hlt mid hmid hne hless ih =>
    -- the middle comes behind the type, and so do the rows after it
    have hleft : k < mid := Nat.lt_of_not_le fun hle => by
      have hrank := ho.rank_le hle (by omega)
      rw [hk] at hrank
      exact hne (ShaderType.rank_injective (by omega))
    exact ih hlow hleft hk
  | case4 low high h hlt => omega

/-- The row of a type that has one is found, without a look at its neighbours. -/
theorem lookup_found {t : ShaderType} (ho : InOrder rows) (ht : ∃ r ∈ rows, r.type = t)
    (h : rows ≠ []) :
    ∃ i, ∃ hi : i < rows.length, search rows t 0 rows.length (Nat.le_refl _) = .ok i ∧
      lookup rows h t = rows[i] ∧ rows[i].type = t := by
  obtain ⟨r, hr, hrt⟩ := ht
  obtain ⟨k, hk, rfl⟩ := List.mem_iff_getElem.mp hr
  obtain ⟨i, hi, hs, hit⟩ := search_finds ho (h := Nat.le_refl _) (Nat.zero_le k) hk hrt
  refine ⟨i, hi, hs, ?_, hit⟩
  have hmin : min i (rows.length - 1) = i := by omega
  simp only [lookup, hs, hmin]

end TypeRow

/-- One row for every type. -/
structure TypeTable where
  row : ShaderType → TypeRow
  /-- Each row is about the type it is found under. -/
  row_type : ∀ t, (row t).type = t

/-- Why rows do not form a table. -/
inductive TypeTableError where
  | duplicate (t : ShaderType)
  | missing (t : ShaderType)
  deriving DecidableEq, Repr

/-- What an error says. -/
def TypeTableError.message : TypeTableError → String
  | .duplicate t => "duplicate type registry entry for " ++ t.text
  | .missing t => "missing type registry entry for " ++ t.text

namespace TypeTable

/-- The table of the given rows. A type with two rows is reported before a type
with none, and of several the first in the order of types. -/
def ofRows (rows : List TypeRow) : Except TypeTableError TypeTable :=
  match TypeRow.repeated? (TypeRow.sort rows) with
  | some t => .error (.duplicate t)
  | none =>
    match h : TypeRow.absent? (TypeRow.sort rows) with
    | some t => .error (.missing t)
    | none =>
      .ok
        { row := TypeRow.lookup (TypeRow.sort rows) (TypeRow.ne_nil_of_absent? h)
          row_type := fun t => by
            obtain ⟨i, hi, -, hl, ht⟩ := TypeRow.lookup_found (TypeRow.sort_inOrder rows)
              (TypeRow.exists_of_absent? h t) (TypeRow.ne_nil_of_absent? h)
            rw [hl, ht] }

/-- The rows in the order of types. -/
def rows (types : TypeTable) : List TypeRow := ShaderType.all.map types.row

/-- The name of a type in program text. -/
def name (types : TypeTable) (t : ShaderType) : String := (types.row t).name

/-- What the globals of a type start with. -/
def globalStem (types : TypeTable) (t : ShaderType) : String := (types.row t).globalStem

/-- The standard row of a type. -/
def builtinRow : ShaderType → TypeRow
  | .bool => ⟨.bool, "bool", "g_b", true, true, false⟩
  | .int => ⟨.int, "int", "g_n", true, true, false⟩
  | .float => ⟨.float, "float", "g_fl", true, true, false⟩
  | .vector2 => ⟨.vector2, "float2", "g_v", true, true, false⟩
  | .vector3 => ⟨.vector3, "float3", "g_v", true, true, false⟩
  | .vector4 => ⟨.vector4, "float4", "g_v", true, true, false⟩
  | .color => ⟨.color, "float4", "g_v", true, true, false⟩
  | .matrix2 => ⟨.matrix2, "float2x2", "g_m", false, true, false⟩
  | .matrix3 => ⟨.matrix3, "float3x3", "g_m", false, true, false⟩
  | .matrix4 => ⟨.matrix4, "float4x4", "g_m", false, true, false⟩
  | .sampler => ⟨.sampler, "SamplerState", "g_s", false, false, false⟩
  | .texture2D => ⟨.texture2D, "Texture2D", "g_t", true, false, false⟩
  | .textureCube => ⟨.textureCube, "TextureCube", "g_t", true, false, false⟩
  | .any => ⟨.any, "float4", "g_v", false, false, true⟩

/-- The table with the standard rows. -/
def builtin : TypeTable := ⟨builtinRow, fun t => by cases t <;> rfl⟩

instance : Inhabited TypeTable := ⟨builtin⟩

end TypeTable

end MaterialGraph
