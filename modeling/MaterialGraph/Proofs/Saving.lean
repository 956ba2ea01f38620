import MaterialGraph.Document
import MaterialGraph.Globals.Parameter
import MaterialGraph.Globals.Sampler
import MaterialGraph.Proofs.Rounding

/-!
# Saved values

A record is written without the fields that have their default, and what is left out is
filled in again when the record is read. For that to give the same record, the value that
is left out has to be the value that is filled in, field by field: `Carries` says so about
one field, and `Restores` about a reader and all fields that stand before it.

## Main results

* `Json.readRecord_record` — a record that is written can be read.
* `NodeId.ofText?_text` — the text of an identifier writes that identifier.
* `Wire.read_write`, `Node.read_write`, `Document.read_write` — nothing of a document is
  lost when it is saved, and so for `Constant`, `TextureSpec`, `SamplerState` and
  `EditorHint`.
-/

namespace MaterialGraph

open Number

/-! ### The members of a written record -/

namespace Dictionary

variable {α : Type}

/-- Entries under other keys do not change what is found. -/
theorem get?_foldl_insert {entries : List (String × α)} {key : String}
    (h : key ∉ entries.map Prod.fst) (d : Dictionary α) :
    (entries.foldl (fun d e => d.insert e.1 e.2) d).get? key = d.get? key := by
  induction entries generalizing d with
  | nil => rfl
  | cons e rest ih =>
    rw [List.map_cons, List.mem_cons, not_or] at h
    rw [List.foldl_cons, ih h.2, get?_insert, if_neg (Ne.symm h.1)]

/-- Of entries with different keys, each one is found that is not left out. -/
theorem get?_foldl_filterMap {entries : List (String × Option α)}
    (hkeys : (entries.map Prod.fst).Nodup) {d : Dictionary α}
    (hd : ∀ e ∈ entries, d.get? e.1 = none) {e : String × Option α} (he : e ∈ entries) :
    ((entries.filterMap fun e => e.2.map (e.1, ·)).foldl (fun d e => d.insert e.1 e.2) d).get? e.1
      = e.2 := by
  -- The induction is on the entries; `d` holds those that have been put in already.
  induction entries generalizing d with
  | nil => cases he
  | cons first rest ih =>
    obtain ⟨key, value⟩ := first
    obtain ⟨hkey, hnodup⟩ := List.nodup_cons.mp hkeys
    have hne : ∀ e ∈ rest, key ≠ e.1 := fun e he h =>
      hkey (List.mem_map.mpr ⟨e, he, h.symm⟩)
    have hrest : key ∉ (rest.filterMap fun e => e.2.map (e.1, ·)).map Prod.fst := by
      intro hmem
      obtain ⟨e', he', rfl⟩ := List.mem_map.mp hmem
      obtain ⟨e'', he'', hsome⟩ := List.mem_filterMap.mp he'
      obtain ⟨v, -, rfl⟩ := Option.map_eq_some_iff.mp hsome
      exact hne e'' he'' rfl
    cases value with
    | none =>
      rw [List.filterMap_cons_none rfl]
      rcases List.mem_cons.mp he with rfl | he
      · rw [get?_foldl_insert hrest]
        exact hd _ List.mem_cons_self
      · exact ih hnodup (fun e he => hd e (List.mem_cons_of_mem _ he)) he
    | some v =>
      rw [List.filterMap_cons]
      dsimp only [Option.map_some]
      rw [List.foldl_cons]
      rcases List.mem_cons.mp he with rfl | he
      · rw [get?_foldl_insert hrest, get?_insert_self]
      · refine ih hnodup (fun e he => ?_) he
        rw [get?_insert, if_neg (hne e he)]
        exact hd e (List.mem_cons_of_mem _ he)

/-- What is found after every value has been changed. -/
theorem get?_map {β : Type} (f : α → β) (d : Dictionary α) (key : String) :
    get? (d.map fun e => (e.1, f e.2)) key = (d.get? key).map f := by
  induction d with
  | nil => rfl
  | cons e rest ih =>
    simp only [List.map_cons, get?, ih]
    split <;> rfl

end Dictionary

/-- The members of an object are the given ones, or absent where none is given. -/
def Fields.Holds (fields : Fields) (entries : List (String × Option Json)) : Prop :=
  ∀ entry ∈ entries, Dictionary.get? fields entry.1 = entry.2

/-- A written record holds its fields. -/
theorem Json.exists_record_eq {entries : List (String × Option Json)}
    (hkeys : (entries.map Prod.fst).Nodup) :
    ∃ fields : Fields, record entries = .object fields ∧ fields.Holds entries :=
  ⟨_, rfl, fun _ he => Dictionary.get?_foldl_filterMap hkeys (fun _ _ => rfl) he⟩

/-! ### Reading what has been written -/

/-- A field that is read by `read`, and has a default, stands for a value: it holds
something that is read so, or it is absent and the value is the default. -/
inductive Carries {α : Type} (read : Json → Except Mismatch α) (fallback : α) :
    Option Json → α → Prop
  | absent : Carries read fallback none fallback
  | present {j : Json} {a : α} (h : read j = .ok a) : Carries read fallback (some j) a

namespace RecordReader

variable {α β : Type} {entries : List (String × Option Json)} {a : α}

/-- From an object with these members, a reader reads `a`, and finds nothing wrong. -/
def Restores (reader : RecordReader α) (entries : List (String × Option Json)) (a : α) : Prop :=
  ∀ (s : RecordState) (fields : Fields), s.source = .named fields → fields.Holds entries →
    ∃ t, reader s = (a, t) ∧ t.failure = s.failure ∧ t.missing = s.missing ∧
      ∃ rest, t.source = .named rest

theorem field_eq {s : RecordState} {fields : Fields} (hs : s.source = .named fields)
    {key : String} {read : Json → Except Mismatch α} {fallback : α}
    (h : Carries read fallback (Dictionary.get? fields key) a) :
    field key read fallback s = (a, { s with count := s.count + 1 }) := by
  have htake : s.take key = (Dictionary.get? fields key, { s with count := s.count + 1 }) := by
    rw [RecordState.take, hs]
  rw [field, htake]
  generalize Dictionary.get? fields key = value at h
  cases h with
  | absent => rfl
  | present h => dsimp only; rw [h]

theorem requiredField_eq [Inhabited α] {s : RecordState} {fields : Fields}
    (hs : s.source = .named fields) {key : String} {read : Json → Except Mismatch α} {j : Json}
    (hkey : Dictionary.get? fields key = some j) (h : read j = .ok a) :
    requiredField key read s = (a, { s with count := s.count + 1 }) := by
  have htake : s.take key = (some j, { s with count := s.count + 1 }) := by
    rw [RecordState.take, hs, ← hkey]
  rw [requiredField, htake]
  dsimp only
  rw [h]

namespace Restores

/-- When all fields have been read, the record is put together. -/
theorem pure (a : α) : Restores (Pure.pure a) entries a :=
  fun s fields hs _ => ⟨s, rfl, rfl, rfl, fields, hs⟩

/-- A step that reads one field, and the steps after it. -/
theorem step {reader : RecordReader β} {next : β → RecordReader α} {b : β}
    {entry : String × Option Json}
    (hb : ∀ (s : RecordState) (fields : Fields), s.source = .named fields →
      Dictionary.get? fields entry.1 = entry.2 →
        reader s = (b, { s with count := s.count + 1 }))
    (hnext : Restores (next b) entries a) : Restores (reader >>= next) (entry :: entries) a := by
  intro s fields hs hholds
  have hfirst := hb s fields hs (hholds entry List.mem_cons_self)
  obtain ⟨t, ht, hclean⟩ := hnext { s with count := s.count + 1 } fields hs
    fun e he => hholds e (List.mem_cons_of_mem _ he)
  refine ⟨t, ?_, hclean⟩
  change next (reader s).1 (reader s).2 = (a, t)
  rw [hfirst, ← ht]

/-- A field with a default, and the fields after it. -/
theorem field {key : String} {read : Json → Except Mismatch β} {fallback b : β}
    {value : Option Json} {next : β → RecordReader α} (hb : Carries read fallback value b)
    (hnext : Restores (next b) entries a) :
    Restores (RecordReader.field key read fallback >>= next) ((key, value) :: entries) a :=
  step (fun _ _ hs hkey => field_eq hs (hkey ▸ hb)) hnext

/-- A field that must be there, and the fields after it. -/
theorem required [Inhabited β] {key : String} {read : Json → Except Mismatch β} {b : β} {j : Json}
    {next : β → RecordReader α} (hb : read j = .ok b) (hnext : Restores (next b) entries a) :
    Restores (requiredField key read >>= next) ((key, some j) :: entries) a :=
  step (fun _ _ hs hkey => requiredField_eq hs hkey hb) hnext

/-- The fields may stand among others. -/
theorem mono {reader : RecordReader α} {entries' : List (String × Option Json)}
    (h : Restores reader entries a) (hsub : entries ⊆ entries') : Restores reader entries' a :=
  fun s fields hs hholds => h s fields hs fun e he => hholds e (hsub he)

/-- What is read last may be made into a part of the record. -/
theorem map {reader : RecordReader β} {b : β} (h : Restores reader entries b) (f : β → α) :
    Restores (reader >>= fun x => Pure.pure (f x)) entries (f b) := by
  intro s fields hs hholds
  obtain ⟨t, ht, hclean⟩ := h s fields hs hholds
  refine ⟨t, ?_, hclean⟩
  change (f (reader s).1, (reader s).2) = (f b, t)
  rw [ht]

/-- A larger record hands the members of a smaller one on unchanged, if none of them is an
object. -/
theorem merged {reader : RecordReader α} (h : Restores reader entries a)
    (hplain : ∀ entry ∈ entries, entry.2.map handedOn = entry.2) :
    Restores (RecordReader.merged reader) entries a := by
  intro s fields hs hholds
  have hholds' : Fields.Holds (fields.map fun e => (e.1, handedOn e.2)) entries := by
    intro e he
    rw [Dictionary.get?_map, hholds e he, hplain e he]
  obtain ⟨t, ht, hfailure, hmissing, hnamed⟩ := h
    { s with source := .named (fields.map fun e => (e.1, handedOn e.2)), failure := none } _ rfl
    hholds'
  refine ⟨{ t with failure := s.failure }, ?_, rfl, hmissing, hnamed⟩
  simp [RecordReader.merged, hs, ht, hfailure]

end Restores

variable {reader : RecordReader α}

/-- A record is read from an object that holds it. -/
theorem Restores.result_eq (h : reader.Restores entries a) {fields : Fields}
    (hholds : fields.Holds entries) (expected : String) :
    reader.result expected (.named fields) = .ok a := by
  obtain ⟨t, ht, hfailure, hmissing, rest, hnamed⟩ := h { source := .named fields } _ rfl hholds
  rw [result, ht]
  obtain ⟨source, count, failure, missing⟩ := t
  subst hfailure hmissing hnamed
  rfl

end RecordReader

namespace Json

variable {α : Type} {entries : List (String × Option Json)} {reader : RecordReader α} {a : α}

theorem readRecord_record (hkeys : (entries.map Prod.fst).Nodup) (h : reader.Restores entries a)
    (expected : String) : (record entries).readRecord expected reader = .ok a := by
  obtain ⟨fields, hfields, hholds⟩ := exists_record_eq hkeys
  rw [hfields]
  exact h.result_eq hholds expected

/-- So can a record that must be an object. -/
theorem readNamedRecord_record (hkeys : (entries.map Prod.fst).Nodup)
    (h : reader.Restores entries a) (expected : String) :
    (record entries).readNamedRecord expected reader = .ok a := by
  obtain ⟨fields, hfields, hholds⟩ := exists_record_eq hkeys
  rw [hfields]
  exact h.result_eq hholds expected

/-! ### Names and scalars -/

/-- A name is read as the value that it names. -/
theorem readName_string {all : List α} {name : α → String}
    (h : all.find? (name · == name a) = some a) :
    (Json.string (name a)).readName all name = .ok a := by
  have hmem : name a ∈ all.map name := List.mem_map_of_mem (List.mem_of_find?_eq_some h)
  have hname : readNameOf (all.map name) (.string (name a)) = .ok (name a) := if_pos hmem
  simp [readName, hname, h, bind, Except.bind]

theorem readInt_int {expected : String} {low high n : Int} (hlow : low ≤ n) (hhigh : n ≤ high) :
    readInt expected low high (.int n) = .ok n := if_pos ⟨hlow, hhigh⟩

theorem readUInt32_int (n : UInt32) : readUInt32 (.int n.toNat) = .ok n := by
  have hn := n.toNat_lt_size
  rw [readUInt32, readInt_int (by omega) (by omega)]
  simp [Except.map]

theorem readUInt8_int (n : UInt8) : readUInt8 (.int n.toNat) = .ok n := by
  have hn := n.toNat_lt_size
  rw [readUInt8, readInt_int (by omega) (by omega)]
  simp [Except.map]

theorem readInt32_int (n : Int32) : readInt32 (.int n.toInt) = .ok n := by
  rw [readInt32, readInt_int n.minValue_le_toInt n.toInt_le]
  simp [Except.map]

/-- A finite number is written with more digits than it has, and rounded back. -/
theorem readSingle_ofSingle {x : Single} (h : x.isFinite = true) :
    readSingle (ofSingle x) = .ok x := by
  rw [ofSingle, if_pos h, readSingle, Single.toSingle_toDouble h]

/-! ### Compounds -/

theorem mapM_map_eq_ok {β γ ε : Type} {f : γ → Except ε β} {g : β → γ} {xs : List β}
    (h : ∀ x ∈ xs, f (g x) = .ok x) : (xs.map g).mapM f = .ok xs := by
  induction xs with
  | nil => rfl
  | cons x rest ih =>
    rw [List.map_cons, List.mapM_cons, h x List.mem_cons_self,
      ih fun y hy => h y (List.mem_cons_of_mem _ hy)]
    rfl

theorem readList_ofList {read : Json → Except Mismatch α} {write : α → Json} {xs : List α}
    (h : ∀ x ∈ xs, read (write x) = .ok x) : readList read (ofList write xs) = .ok xs :=
  mapM_map_eq_ok h

theorem readPair_array {read : Json → Except Mismatch α} {i j : Json} {b : α}
    (hi : read i = .ok a) (hj : read j = .ok b) : readPair read (.array [i, j]) = .ok (a, b) := by
  rw [readPair, hi, hj]
  rfl

theorem readMap_object {read : Json → Except Mismatch α} {write : α → Json} {d : Dictionary α}
    (h : ∀ a, read (write a) = .ok a) :
    readMap read (.object (d.map fun (key, a) => (key, write a))) = .ok d := by
  refine mapM_map_eq_ok fun e _ => ?_
  dsimp only
  rw [h e.2]
  rfl

end Json

/-! ### Fields that may be left out -/

namespace Carries

variable {α : Type} {read : Json → Except Mismatch α}

theorem nonEmpty (s : String) : Carries Json.readString "" (Json.nonEmpty s) s := by
  unfold Json.nonEmpty
  split
  · rename_i h
    rw [String.isEmpty_iff] at h
    subst h
    exact absent
  · exact present rfl

theorem whenTrue (b : Bool) : Carries Json.readBool false (Json.whenTrue b) b := by
  cases b with
  | false => exact absent
  | true => exact present rfl

theorem nonNull (j : Json) : Carries Json.readAny .null j.nonNull j := by
  unfold Json.nonNull
  cases j with
  | null => exact absent
  | _ => exact present rfl

/-- An absent value is left out, unless a value is written as one. -/
theorem option {write : α → Json} {o : Option α} (h : ∀ a ∈ o, read (write a) = .ok a)
    (hnull : ∀ a, (write a).isNull = false) :
    Carries (Json.readOption read) none (o.map write) o := by
  cases o with
  | none => exact absent
  | some a =>
    apply present
    have hread := h a rfl
    have hwrite := hnull a
    generalize write a = j at hread hwrite
    cases j with
    | null => cases hwrite
    | _ => exact congrArg (Except.map some) hread

theorem list {write : α → Json} {xs : List α} (h : ∀ x ∈ xs, read (write x) = .ok x) :
    Carries (Json.readList read) [] (if xs.isEmpty then none else some (.ofList write xs)) xs := by
  cases xs with
  | nil => exact absent
  | cons x rest => exact present (Json.readList_ofList h)

end Carries

/-! ### Identifiers -/

namespace NodeId

theorem digitValue?_digitChar {d : Nat} (h : d < 16) : digitValue? (digitChar d) = some d := by
  have hall : ∀ d < 16, digitValue? (digitChar d) = some d := by decide
  exact hall d h

theorem mapM_digitValue? {ds : List Nat} (h : ∀ d ∈ ds, d < 16) :
    (ds.map digitChar).mapM digitValue? = some ds := by
  induction ds with
  | nil => rfl
  | cons d rest ih =>
    rw [List.map_cons, List.mapM_cons, digitValue?_digitChar (h d List.mem_cons_self),
      ih fun e he => h e (List.mem_cons_of_mem _ he)]
    rfl

/-- The lowest `k` digits of a number, the most significant first, give the number back as
far as they reach. -/
theorem foldl_digits (n k : Nat) :
    ((List.range k).map fun i => n >>> (4 * (k - 1 - i)) % 16).foldl (fun n d => n * 16 + d) 0
      = n % 16 ^ k := by
  induction k generalizing n with
  | zero => simp [Nat.mod_one]
  | succ k ih =>
    -- The digits before the last one are those of the number without its last digit.
    have hmap : ((List.range k).map fun i => n >>> (4 * (k + 1 - 1 - i)) % 16)
        = (List.range k).map fun i => (n >>> 4) >>> (4 * (k - 1 - i)) % 16 := by
      refine List.map_congr_left fun i hi => ?_
      have hlt := List.mem_range.mp hi
      have hshift : 4 * (k + 1 - 1 - i) = 4 + 4 * (k - 1 - i) := by omega
      rw [hshift, Nat.shiftRight_add]
    rw [List.range_succ, List.map_append, List.foldl_append, hmap, ih, pow_succ', Nat.mod_mul]
    simp [Nat.shiftRight_eq_div_pow, Nat.mul_comm, Nat.add_comm]

theorem ungroup?_append {a b c d e : List Char} (ha : a.length = 8) (hb : b.length = 4)
    (hc : c.length = 4) (hd : d.length = 4) (he : e.length = 12) :
    ungroup? (a ++ '-' :: b ++ '-' :: c ++ '-' :: d ++ '-' :: e)
      = some (a ++ b ++ c ++ d ++ e) := by
  simp [ungroup?, ha, hb, hc, hd, he, List.getElem?_append, List.drop_append,
    List.drop_eq_nil_of_le]

theorem ungroup?_hyphenated {ds : List Char} (h : ds.length = 32) :
    ungroup? (hyphenated ds) = some ds := by
  have hgroups : ds.take 8 ++ (ds.drop 8).take 4 ++ (ds.drop 12).take 4 ++ (ds.drop 16).take 4 ++
      ds.drop 20 = ds := by
    have h16 := List.take_append_drop 4 (ds.drop 16)
    have h12 := List.take_append_drop 4 (ds.drop 12)
    have h8 := List.take_append_drop 4 (ds.drop 8)
    rw [List.drop_drop] at h16 h12 h8
    rw [List.append_assoc, h16, List.append_assoc, h12, List.append_assoc, h8,
      List.take_append_drop]
  rw [hyphenated, ungroup?_append (by simp [h]) (by simp [h]) (by simp [h]) (by simp [h])
    (by simp [h]), hgroups]

/-- A text that starts with a digit is not wrapped. -/
theorem unwrap_hyphenated {ds : List Nat} (h : ∀ d ∈ ds, d < 16) :
    unwrap (hyphenated (ds.map digitChar)) = (0, hyphenated (ds.map digitChar)) := by
  have hdigit : ∀ d < 16, digitChar d ≠ '\x7b' ∧ (digitChar d).toLower ≠ 'u' := by decide
  cases ds with
  | nil => rfl
  | cons d ds =>
    obtain ⟨hbrace, hu⟩ := hdigit d (h d List.mem_cons_self)
    have hhead : ∃ rest, hyphenated ((d :: ds).map digitChar) = digitChar d :: rest := ⟨_, rfl⟩
    obtain ⟨rest, hrest⟩ := hhead
    rw [hrest]
    simp [unwrap, hbrace, hu]

/-- The text of an identifier writes that identifier. -/
theorem ofText?_text (id : NodeId) : ofText? id.text = some id := by
  have hsmall : ∀ d ∈ id.digits, d < 16 := by
    intro d hd
    obtain ⟨i, -, rfl⟩ := List.mem_map.mp hd
    exact Nat.mod_lt _ (by decide)
  have hlength : (id.digits.map digitChar).length = 32 := by simp [digits]
  have hvalue : id.digits.foldl (fun n d => n * 16 + d) 0 = id.value.toNat := by
    have hlt : id.value.toNat < 16 ^ 32 := id.value.isLt
    rw [digits, foldl_digits id.value.toNat 32, Nat.mod_eq_of_lt hlt]
  have hdigits : ofDigits? (id.digits.map digitChar) = some id := by
    simp [ofDigits?, hlength, mapM_digitValue? hsmall, hvalue]
  have hlong : (hyphenated (id.digits.map digitChar)).length ≠ 32 := by
    simp [hyphenated, hlength]
  rw [ofText?, text, String.toList_ofList]
  rw [if_neg hlong, unwrap_hyphenated hsmall, ungroup?_hyphenated hlength]
  exact hdigits

theorem read_write (id : NodeId) : read id.write = .ok id := by
  rw [write, read, ofText?_text]

end NodeId

theorem Carries.nonNil (id : NodeId) : Carries NodeId.read .nil id.nonNil id := by
  unfold NodeId.nonNil
  split
  · rename_i h
    rw [eq_of_beq h]
    exact absent
  · exact present id.read_write

/-! ### Documents -/

open RecordReader (Restores)

theorem Wire.read_write (w : Wire) : read w.write = .ok w := by
  refine Json.readRecord_record (by simp) ?_ _
  exact .field (.nonNil w.node) <| .field (.nonEmpty w.output) <|
    .field (.list fun id _ => id.read_write) <| .pure w

theorem Node.read_write (n : Node) : read n.write = .ok n := by
  refine Json.readRecord_record (by simp) ?_ _
  exact .field (.nonNil n.id) <| .required rfl <|
    .field (.present (Json.readUInt32_int n.version)) <| .field (.nonNull n.settings) <|
    .field (.nonNull n.extras) <| .pure n

/-- Nothing of a document is lost when it is saved. -/
theorem Document.read_write (d : Document) : read d.write = .ok d := by
  refine Json.readRecord_record (by simp) ?_ _
  exact .field (.nonNil d.id) <| .field (.present (Json.readUInt32_int d.version)) <|
    .field (.nonEmpty d.description) <| .field (.present rfl) <|
    .required (Json.readList_ofList fun n _ => n.read_write) <| .field (.nonNull d.extras) <|
    .pure d

/-! ### Names of enumerations -/

theorem ColorSpace.read_write (c : ColorSpace) : read c.write = .ok c :=
  Json.readName_string (by cases c <;> rfl)

theorem TextureFormat.read_write (f : TextureFormat) : read f.write = .ok f :=
  Json.readName_string (by cases f <;> rfl)

theorem TextureFilter.read_write (f : TextureFilter) : read f.write = .ok f :=
  Json.readName_string (by cases f <;> rfl)

theorem AddressMode.read_write (m : AddressMode) : read m.write = .ok m :=
  Json.readName_string (by cases m <;> rfl)

theorem Widget.read_write (w : Widget) : read w.write = .ok w :=
  Json.readName_string (by cases w <;> rfl)

theorem ShaderType.read_write (t : ShaderType) : read t.write = .ok t :=
  Json.readName_string (by cases t <;> rfl)

/-! ### Requests -/

theorem TextureSpec.read_write (s : TextureSpec) : read s.write = .ok s := by
  refine Json.readRecord_record (by simp) ?_ _
  exact .field (.nonEmpty s.image) <| .field (.present s.colorSpace.read_write) <|
    .field (.present s.format.read_write) <| .field (.nonEmpty s.processor) <|
    .field (.present rfl) <| .pure s

/-- The fields of a sampler, also among those of a larger record. -/
theorem SamplerState.restores (s : SamplerState) :
    Restores fields [("filter", some s.filter.write), ("address_u", some s.addressU.write),
      ("address_v", some s.addressV.write)] s :=
  .field (.present s.filter.read_write) <| .field (.present s.addressU.read_write) <|
    .field (.present s.addressV.read_write) <| .pure s

theorem SamplerState.read_write (s : SamplerState) : read s.write = .ok s :=
  Json.readRecord_record (by simp) s.restores _

theorem EditorHint.read_write (h : EditorHint) : read h.write = .ok h := by
  refine Json.readRecord_record (by simp) ?_ _
  exact .field (.option (fun w _ => w.read_write) fun _ => rfl) <| .field (.nonEmpty h.group) <|
    .pure h

/-! ### Numbers and constants -/

theorem Vec2.read_write {v : Vec2} (h : ∀ x ∈ v.toList, x.isFinite = true) :
    read v.write = .ok v := by
  simp only [toList, List.forall_mem_cons] at h
  simp only [write, toList, Json.ofList, List.map_cons, List.map_nil, read,
    Json.readSingle_ofSingle, h]
  rfl

theorem Vec3.read_write {v : Vec3} (h : ∀ x ∈ v.toList, x.isFinite = true) :
    read v.write = .ok v := by
  simp only [toList, List.forall_mem_cons] at h
  simp only [write, toList, Json.ofList, List.map_cons, List.map_nil, read,
    Json.readSingle_ofSingle, h]
  rfl

theorem Vec4.read_write {v : Vec4} (h : ∀ x ∈ v.toList, x.isFinite = true) :
    read v.write = .ok v := by
  simp only [toList, List.forall_mem_cons] at h
  simp only [write, toList, Json.ofList, List.map_cons, List.map_nil, read,
    Json.readSingle_ofSingle, h]
  rfl

namespace Constant

/-- The numbers of a constant that are not integers. -/
def floats : Constant → List Single
  | .bool _ | .int _ => []
  | .float x => [x]
  | .vector2 v => v.toList
  | .vector3 v => v.toList
  | .vector4 v | .color v => v.toList

theorem ofContent_content {c : Constant} (h : ∀ x ∈ c.floats, x.isFinite = true) :
    ofContent c.kind c.content = .ok c := by
  cases c with
  | bool b => rfl
  | int n => exact congrArg (Except.map Constant.int) (Json.readInt32_int n)
  | float x =>
    exact congrArg (Except.map Constant.float)
      (Json.readSingle_ofSingle (h x (List.mem_singleton_self x)))
  | vector2 v => exact congrArg (Except.map Constant.vector2) (Vec2.read_write h)
  | vector3 v => exact congrArg (Except.map Constant.vector3) (Vec3.read_write h)
  | vector4 v => exact congrArg (Except.map Constant.vector4) (Vec4.read_write h)
  | color v => exact congrArg (Except.map Constant.color) (Vec4.read_write h)

theorem read_write {c : Constant} (h : ∀ x ∈ c.floats, x.isFinite = true) :
    read c.write = .ok c := by
  have hkind : Json.readNameOf kinds (.string c.kind) = .ok c.kind :=
    if_pos (by cases c <;> simp [kind, kinds])
  obtain ⟨fields, hfields, hholds⟩ : ∃ fields : Fields, c.write = .object fields ∧
      fields.Holds [("__class", some (.string c.kind)), ("value", some c.content)] :=
    Json.exists_record_eq (by simp)
  have hclass : Dictionary.get? fields "__class" = some (.string c.kind) :=
    hholds _ List.mem_cons_self
  have hvalue : Dictionary.get? fields "value" = some c.content :=
    hholds _ (List.mem_cons_of_mem _ List.mem_cons_self)
  rw [hfields, read, hclass]
  dsimp only
  rw [hkind, hvalue]
  exact ofContent_content h

end Constant

end MaterialGraph
