/-!
# Dictionaries

Values under texts as keys, in increasing order of the keys. Texts are ordered
by their code points, which is also the order of their UTF-8 bytes.

## Main definitions

* `Dictionary.get?`, `Dictionary.insert`, `Dictionary.erase` — single entries.
* `Dictionary.ofList` — many entries, the last one of a key wins.
* `insertText` — a set of texts as an increasing list.

## Main results

* `Dictionary.get?_insert` — an entry is found under its key and hides no other.
* `Dictionary.insert_of_get?_eq_some` — an entry that is there changes nothing.
* `Dictionary.get?_erase` — an erased key is gone and no other one.
-/

namespace MaterialGraph

/-- Values under texts, in increasing order of the texts. -/
abbrev Dictionary (α : Type) := List (String × α)

namespace Dictionary

variable {α : Type}

/-! ### Single entries -/

/-- The value under a key. -/
def get? (d : Dictionary α) (key : String) : Option α :=
  match d with
  | [] => none
  | (k, v) :: rest => if k = key then some v else get? rest key

/-- The dictionary with another value under a key that is present. -/
def replace (d : Dictionary α) (key : String) (value : α) : Dictionary α :=
  match d with
  | [] => []
  | (k, v) :: rest => if k = key then (k, value) :: rest else (k, v) :: replace rest key value

/-- The dictionary with a new key at the place that its order asks for. -/
def place (d : Dictionary α) (key : String) (value : α) : Dictionary α :=
  match d with
  | [] => [(key, value)]
  | (k, v) :: rest =>
    if key < k then (key, value) :: (k, v) :: rest else (k, v) :: place rest key value

/-- The dictionary with a value under a key, whatever was there. -/
def insert (d : Dictionary α) (key : String) (value : α) : Dictionary α :=
  if (d.get? key).isSome then d.replace key value else d.place key value

/-- The dictionary without a key. -/
def erase (d : Dictionary α) (key : String) : Dictionary α := d.filter (·.1 != key)

/-- Entries put in order. -/
def ofList (entries : List (String × α)) : Dictionary α :=
  entries.foldl (fun d e => d.insert e.1 e.2) []

/-! ### What is found -/

@[simp] theorem get?_nil (key : String) : get? ([] : Dictionary α) key = none := rfl

@[simp] theorem get?_cons (k : String) (v : α) (d : Dictionary α) (key : String) :
    get? ((k, v) :: d) key = if k = key then some v else d.get? key := rfl

@[simp] theorem replace_nil (key : String) (value : α) : replace [] key value = [] := rfl

@[simp] theorem replace_cons (k : String) (v : α) (d : Dictionary α) (key : String) (value : α) :
    replace ((k, v) :: d) key value =
      if k = key then (k, value) :: d else (k, v) :: d.replace key value := rfl

@[simp] theorem place_nil (key : String) (value : α) : place [] key value = [(key, value)] := rfl

@[simp] theorem place_cons (k : String) (v : α) (d : Dictionary α) (key : String) (value : α) :
    place ((k, v) :: d) key value =
      if key < k then (key, value) :: (k, v) :: d else (k, v) :: d.place key value := rfl

theorem get?_replace (d : Dictionary α) (key : String) (value : α) (k : String)
    (h : (d.get? key).isSome) :
    (d.replace key value).get? k = if key = k then some value else d.get? k := by
  induction d with
  | nil => simp at h
  | cons e rest ih =>
    obtain ⟨k', v⟩ := e
    simp only [get?_cons] at h
    by_cases hk : k' = key
    · subst hk
      simp only [replace_cons, if_true, get?_cons]
      split <;> rfl
    · rw [if_neg hk] at h
      simp only [replace_cons, if_neg hk, get?_cons, ih h]
      by_cases hk' : k' = k
      · subst hk'
        simp [Ne.symm hk]
      · simp [hk']

theorem get?_place (d : Dictionary α) (key : String) (value : α) (k : String)
    (h : d.get? key = none) :
    (d.place key value).get? k = if key = k then some value else d.get? k := by
  induction d with
  | nil => rfl
  | cons e rest ih =>
    obtain ⟨k', v⟩ := e
    simp only [get?_cons] at h
    have hk : k' ≠ key := fun hk => by simp [hk] at h
    rw [if_neg hk] at h
    by_cases hlt : key < k'
    · simp only [place_cons, if_pos hlt, get?_cons]
    · simp only [place_cons, if_neg hlt, get?_cons, ih h]
      by_cases hk' : k' = k
      · subst hk'
        simp [Ne.symm hk]
      · simp [hk']

theorem get?_insert (d : Dictionary α) (key : String) (value : α) (k : String) :
    (d.insert key value).get? k = if key = k then some value else d.get? k := by
  unfold insert
  split
  · rename_i h
    exact get?_replace d key value k h
  · rename_i h
    exact get?_place d key value k (by simpa [Option.not_isSome_iff_eq_none] using h)

@[simp] theorem get?_insert_self (d : Dictionary α) (key : String) (value : α) :
    (d.insert key value).get? key = some value := by
  simp [get?_insert]

theorem replace_of_get?_eq_some {d : Dictionary α} {key : String} {value : α}
    (h : d.get? key = some value) : d.replace key value = d := by
  induction d with
  | nil => rfl
  | cons e rest ih =>
    obtain ⟨k, v⟩ := e
    simp only [get?_cons] at h
    by_cases hk : k = key
    · rw [if_pos hk] at h
      cases h
      simp [hk]
    · rw [if_neg hk] at h
      simp [hk, ih h]

/-- An entry that is there already changes nothing. -/
theorem insert_of_get?_eq_some {d : Dictionary α} {key : String} {value : α}
    (h : d.get? key = some value) : d.insert key value = d := by
  simp [insert, h, replace_of_get?_eq_some h]

theorem get?_erase (d : Dictionary α) (key k : String) :
    (d.erase key).get? k = if key = k then none else d.get? k := by
  induction d with
  | nil => simp [erase]
  | cons e rest ih =>
    obtain ⟨k', v⟩ := e
    simp only [erase] at ih
    by_cases hk : k' = key
    · subst hk
      simp only [erase, List.filter_cons, bne_self_eq_false, Bool.false_eq_true, if_false, ih,
        get?_cons]
      split <;> rfl
    · simp only [erase, List.filter_cons, bne_iff_ne, ne_eq, hk, not_false_eq_true, if_true, ih,
        get?_cons]
      by_cases hk' : k' = k
      · subst hk'
        simp [Ne.symm hk]
      · simp [hk']

end Dictionary

/-! ### Sets of texts -/

/-- An increasing list of texts with one more text in it. -/
def insertText (s : String) : List String → List String
  | [] => [s]
  | t :: ts => if s = t then t :: ts else if s < t then s :: t :: ts else t :: insertText s ts

/-- The members of a set with one more text. -/
theorem mem_insertText {s t : String} {ts : List String} :
    t ∈ insertText s ts ↔ t = s ∨ t ∈ ts := by
  induction ts with
  | nil => simp [insertText]
  | cons u us ih =>
    unfold insertText
    split
    · subst s
      simp
    · split
      · simp
      · simp only [List.mem_cons, ih]
        exact or_left_comm

end MaterialGraph
