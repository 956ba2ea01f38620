import Mathlib.Data.List.Forall2
import Mathlib.Data.List.TakeWhile
import MaterialGraph.Proofs.Grammar
import MaterialGraph.Proofs.Locals
import MaterialGraph.Template

/-!
# The grammar of templates

A source is a row of items: characters that are no brace, braces written twice,
and numbers in braces. `parse` accepts such rows and nothing else. What it
refuses starts with items too, and the error is about what stands right behind
the longest row of them. Both directions come from reading one item
(`scan_plain`, `scan_brace`, `scan_place`): a row of items is read to its end
whatever follows (`scan_items`), and every source has such a row in front of a
part that is empty or cannot be read (`exists_items`).

## Main results

* `parse_exact` — `parse` accepts exactly the rows of proper items, with the
  slots and the text they stand for, and otherwise gives the error of what stands
  behind the longest row.
* `source_restored` — the source of a template is read back as a template with
  the same slots and the same text for every filling.
-/

namespace MaterialGraph

/-! ### The numbers of places -/

namespace Slot

theorem index_le (s : Slot) : s.index ≤ 8 := by
  cases s <;> decide

theorem ofIndex?_index (s : Slot) : ofIndex? s.index = some s := by
  cases s <;> rfl

theorem ofIndex?_eq_none {n : Nat} (h : 9 ≤ n) : ofIndex? n = none :=
  List.getElem?_eq_none h

theorem exists_index {n : Nat} (h : n ≤ 8) : ∃ s : Slot, s.index = n := by
  have hall : ∀ n < 9, ∃ s ∈ all, s.index = n := by decide
  obtain ⟨s, -, hs⟩ := hall n (Nat.lt_succ_of_le h)
  exact ⟨s, hs⟩

end Slot

namespace Template

open Text (isBlank trim)

variable {cs content rest : List Char}

/-! ### Numbers in braces -/

/-- Blanks around an optional plus sign and at least one decimal digit, which
together write `n`. -/
def Writes (content : List Char) (n : Nat) : Prop :=
  ∃ before sign digits after : List Char,
    content = before ++ (sign ++ digits) ++ after ∧
      (∀ c ∈ before ++ after, isBlank c = true) ∧
      (sign = [] ∨ sign = ['+']) ∧
      digits ≠ [] ∧ (∀ c ∈ digits, c.isDigit = true) ∧ Nat.ofDigitChars 10 digits 0 = n

/-- A text is what is left of it after trimming, with blanks around it. -/
theorem exists_blanks (cs : List Char) :
    ∃ before after, cs = before ++ trim cs ++ after ∧ ∀ c ∈ before ++ after, isBlank c = true := by
  refine ⟨cs.takeWhile isBlank, ((cs.dropWhile isBlank).reverse.takeWhile isBlank).reverse, ?_, ?_⟩
  · rw [trim, Text.trimEnd, Text.trimStart, List.append_assoc, ← List.reverse_append,
      List.takeWhile_append_dropWhile, List.reverse_reverse, List.takeWhile_append_dropWhile]
  · intro c hc
    rw [List.mem_append, List.mem_reverse] at hc
    exact hc.elim List.mem_takeWhile_imp List.mem_takeWhile_imp

/-- Blanks around a text that has none are trimmed. -/
theorem trim_blanks {before after : List Char} (hblank : ∀ c ∈ before ++ after, isBlank c = true)
    (hne : cs ≠ []) (hcs : ∀ c ∈ cs, isBlank c = false) : trim (before ++ cs ++ after) = cs := by
  -- blanks in front of a character that is not blank are dropped, and nothing more
  have drop {front rest : List Char} {c : Char} (hfront : ∀ d ∈ front, isBlank d = true)
      (hc : c ∈ cs) : (front ++ c :: rest).dropWhile isBlank = c :: rest := by
    rw [List.dropWhile_append_of_pos hfront, List.dropWhile_cons_of_neg (by simp [hcs c hc])]
  obtain ⟨c, more, rfl⟩ := List.exists_cons_of_ne_nil hne
  have hstart : Text.trimStart (before ++ (c :: more) ++ after) = c :: more ++ after := by
    rw [Text.trimStart, List.append_assoc, List.cons_append]
    exact drop (fun d hd => hblank d (List.mem_append_left after hd)) List.mem_cons_self
  obtain ⟨d, rest, hrest⟩ := List.exists_cons_of_ne_nil (mt List.reverse_eq_nil_iff.mp hne)
  have hd : d ∈ c :: more := List.mem_reverse.mp (hrest ▸ List.mem_cons_self)
  rw [trim, hstart, Text.trimEnd, List.reverse_append, hrest,
    drop (fun e he => hblank e (List.mem_append_right before (List.mem_reverse.mp he))) hd,
    ← hrest, List.reverse_reverse]

theorem readDigits?_eq_some_iff {n : Nat} :
    readDigits? cs = some n ↔
      cs ≠ [] ∧ (∀ c ∈ cs, c.isDigit = true) ∧ Nat.ofDigitChars 10 cs 0 = n := by
  cases cs with
  | nil => simp [readDigits?]
  | cons c cs =>
    have hfold : (c :: cs).foldl (fun n c => n * 10 + (c.toNat - '0'.toNat)) 0 =
        Nat.ofDigitChars 10 (c :: cs) 0 := by
      rw [Nat.ofDigitChars_eq_foldl]
      simp only [Nat.mul_comm]
    rw [readDigits?, hfold, Option.ite_none_right_eq_some, List.all_eq_true, Option.some.injEq]
    · simp
    · simp

theorem slotNumber?_of_plus (h : trim content = '+' :: cs) :
    slotNumber? content = (readDigits? cs).filter (· < UInt64.size) := by
  unfold slotNumber?
  rw [h]
  rfl

theorem slotNumber?_of_no_plus (h : (trim content).head? ≠ some '+') :
    slotNumber? content = (readDigits? (trim content)).filter (· < UInt64.size) := by
  rw [slotNumber?]
  split
  next cs hcs => exact absurd (congrArg List.head? hcs) h
  next => rfl

theorem slotNumber?_eq_some_iff {n : Nat} :
    slotNumber? content = some n ↔ Writes content n ∧ n < UInt64.size := by
  constructor
  · intro h
    obtain ⟨before, after, hcontent, hblank⟩ := exists_blanks content
    by_cases hplus : (trim content).head? = some '+'
    · obtain ⟨digits, hdigits⟩ := List.head?_eq_some_iff.mp hplus
      rw [slotNumber?_of_plus hdigits, Option.filter_eq_some_iff, readDigits?_eq_some_iff] at h
      rw [hdigits] at hcontent
      exact ⟨⟨before, ['+'], digits, after, hcontent, hblank, .inr rfl, h.1⟩,
        of_decide_eq_true h.2⟩
    · rw [slotNumber?_of_no_plus hplus, Option.filter_eq_some_iff, readDigits?_eq_some_iff] at h
      exact ⟨⟨before, [], trim content, after, hcontent, hblank, .inl rfl, h.1⟩,
        of_decide_eq_true h.2⟩
  · rintro ⟨⟨before, sign, digits, after, rfl, hblank, hsign, hread⟩, hn⟩
    have htrim : trim (before ++ (sign ++ digits) ++ after) = sign ++ digits := by
      refine trim_blanks hblank (by simp [hread.1]) fun c hc => ?_
      rcases List.mem_append.mp hc with hc | hc
      · rcases hsign with rfl | rfl
        · exact absurd hc List.not_mem_nil
        · rw [List.mem_singleton.mp hc]
          decide
      · exact Text.isBlank_of_isWordChar (Grammar.isWordChar_of_isDigit (hread.2.1 c hc))
    have hnumber : (readDigits? digits).filter (· < UInt64.size) = some n :=
      Option.filter_eq_some_iff.mpr ⟨readDigits?_eq_some_iff.mpr hread, decide_eq_true hn⟩
    rcases hsign with rfl | rfl
    · rw [List.nil_append] at htrim
      rw [slotNumber?_of_no_plus, List.nil_append, htrim, hnumber]
      rw [List.nil_append, htrim]
      exact fun h => absurd (hread.2.1 '+' (List.mem_of_head? h)) (by decide)
    · exact (slotNumber?_of_plus htrim).trans hnumber

/-! ### Places in braces -/

theorem readSlot_of_writes {s : Slot} (h : Writes content s.index) :
    readSlot content = .ok s := by
  have hsize : s.index < UInt64.size := Nat.lt_of_le_of_lt s.index_le (by decide)
  simp only [readSlot, slotNumber?_eq_some_iff.mpr ⟨h, hsize⟩, Slot.ofIndex?_index]

theorem readSlot_of_large {n : Nat} (h : Writes content n) (hlow : 9 ≤ n) (hn : n < UInt64.size) :
    readSlot content = .error (.slotOutOfRange n) := by
  simp only [readSlot, slotNumber?_eq_some_iff.mpr ⟨h, hn⟩, Slot.ofIndex?_eq_none hlow]

theorem readSlot_of_no_number (h : ∀ n, Writes content n → UInt64.size ≤ n) :
    readSlot content = .error (.invalidSlot (String.ofList content)) := by
  have hnone : slotNumber? content = none := by
    rw [Option.eq_none_iff_forall_ne_some]
    intro n hn
    obtain ⟨hwrites, hlt⟩ := slotNumber?_eq_some_iff.mp hn
    exact Nat.not_lt_of_le (h n hwrites) hlt
  simp only [readSlot, hnone]

/-! ### Items -/

/-- A part of a source that is read as a whole. -/
inductive Item where
  | plain (c : Char)
  /-- A brace of text, which is written twice. -/
  | brace (c : Char)
  /-- What stands between an opening brace and the next closing one. -/
  | place (content : List Char)

variable {items : List Item}

/-- An item as it is written. -/
def Item.chars : Item → List Char
  | .plain c => [c]
  | .brace c => [c, c]
  | .place content => '\x7b' :: (content ++ ['\x7d'])

/-- Braces around this content end at the first closing brace, and the opening
one is not doubled. -/
def Enclosed (content : List Char) : Prop :=
  '\x7d' ∉ content ∧ content.head? ≠ some '\x7b'

/-- The items of the grammar. -/
def Item.Proper : Item → Prop
  | .plain c => c ≠ '\x7b' ∧ c ≠ '\x7d'
  | .brace c => c = '\x7b' ∨ c = '\x7d'
  | .place content => Enclosed content ∧ ∃ n ≤ 8, Writes content n

/-- The piece that an item stands for. -/
inductive Item.Stands : Item → Piece → Prop where
  /-- A character stands for itself. -/
  | plain {c : Char} (h : c ≠ '\x7b' ∧ c ≠ '\x7d') :
      Stands (.plain c) (.text (String.singleton c))
  /-- Two braces stand for one. -/
  | brace {c : Char} (h : c = '\x7b' ∨ c = '\x7d') :
      Stands (.brace c) (.text (String.singleton c))
  /-- A number in braces stands for the place with that number. -/
  | place {content : List Char} {s : Slot} (h : Enclosed content) (hs : Writes content s.index) :
      Stands (.place content) (.slot s)

theorem Item.proper_iff {i : Item} : i.Proper ↔ ∃ p, i.Stands p := by
  constructor
  · intro h
    cases i with
    | plain c => exact ⟨_, .plain h⟩
    | brace c => exact ⟨_, .brace h⟩
    | place content =>
      obtain ⟨henclosed, n, hn, hwrites⟩ := h
      obtain ⟨s, rfl⟩ := Slot.exists_index hn
      exact ⟨_, .place henclosed hwrites⟩
  · rintro ⟨p, h⟩
    cases h with
    | plain h => exact h
    | brace h => exact h
    | place h hs => exact ⟨h, _, Slot.index_le _, hs⟩

theorem exists_forall₂_stands (h : ∀ i ∈ items, i.Proper) :
    ∃ ps, List.Forall₂ Item.Stands items ps := by
  induction items with
  | nil => exact ⟨[], .nil⟩
  | cons i items ih =>
    obtain ⟨p, hp⟩ := Item.proper_iff.mp (h i List.mem_cons_self)
    obtain ⟨ps, hps⟩ := ih fun j hj => h j (List.mem_cons_of_mem i hj)
    exact ⟨p :: ps, .cons hp hps⟩

/-! ### Reading one item -/

/-- The length of a text in bytes. -/
def bytes (cs : List Char) : Nat := (String.ofList cs).utf8ByteSize

@[simp] theorem bytes_nil : bytes [] = 0 := rfl

@[simp] theorem bytes_append (cs ds : List Char) : bytes (cs ++ ds) = bytes cs + bytes ds := by
  rw [bytes, String.ofList_append, String.utf8ByteSize_append, bytes, bytes]

@[simp] theorem bytes_cons (c : Char) (cs : List Char) :
    bytes (c :: cs) = c.utf8Size + bytes cs := by
  have hc : bytes [c] = c.utf8Size := String.utf8ByteSize_singleton
  rw [← List.singleton_append, bytes_append, hc]

theorem scan_plain {c : Char} (h : c ≠ '\x7b' ∧ c ≠ '\x7d') (acc : List Char) (position : Nat)
    (rest : List Char) :
    scan (.text acc) position (c :: rest) =
      scan (.text (c :: acc)) (position + c.utf8Size) rest := by
  rw [scan, if_neg h.2, if_neg h.1]
  · exact fun _ hc _ => h.1 hc
  · exact fun _ hc _ => h.2 hc

theorem scan_brace {c : Char} (h : c = '\x7b' ∨ c = '\x7d') (acc : List Char) (position : Nat)
    (rest : List Char) :
    scan (.text acc) position (c :: c :: rest) = scan (.text (c :: acc)) (position + 2) rest := by
  rcases h with rfl | rfl
  · rw [scan]
  · rw [scan]

theorem scan_lone (h : rest.head? ≠ some '\x7d') (acc : List Char) (position : Nat) :
    scan (.text acc) position ('\x7d' :: rest) = .error (.unmatchedBrace position) := by
  rw [scan, if_pos rfl]
  · exact fun _ hc _ => absurd hc (by decide)
  · rintro cs - rfl
    exact h rfl

theorem scan_open (h : rest.head? ≠ some '\x7b') (acc : List Char) (position : Nat) :
    scan (.text acc) position ('\x7b' :: rest) =
      (scan (.slot position []) (position + 1) rest).map (textPiece acc ++ ·) := by
  rw [scan, if_neg (by decide), if_pos rfl]
  · rintro cs - rfl
    exact h rfl
  · exact fun _ hc _ => absurd hc (by decide)

/-- The place read between braces is put in front of what follows. -/
theorem scan_content (h : '\x7d' ∉ content) (start : Nat) (acc : List Char) (position : Nat)
    (rest : List Char) :
    scan (.slot start acc) position (content ++ '\x7d' :: rest) =
      (readSlot (acc.reverse ++ content)).bind fun s =>
        (scan (.text []) (position + bytes content + 1) rest).map (.slot s :: ·) := by
  induction content generalizing acc position with
  | nil =>
    rw [List.nil_append, scan, if_pos rfl, List.append_nil, bytes_nil, Nat.add_zero]
    cases readSlot acc.reverse <;> rfl
  | cons c content ih =>
    rw [List.mem_cons, not_or] at h
    rw [List.cons_append, scan, if_neg (Ne.symm h.1), ih h.2, List.reverse_cons, List.append_assoc,
      List.singleton_append, bytes_cons, Nat.add_assoc position]

theorem scan_unclosed (h : '\x7d' ∉ content) (start : Nat) (acc : List Char) (position : Nat) :
    scan (.slot start acc) position content = .error (.unclosedSlot start) := by
  induction content generalizing acc position with
  | nil => rw [scan]
  | cons c content ih =>
    rw [List.mem_cons, not_or] at h
    rw [scan, if_neg (Ne.symm h.1), ih h.2]

theorem scan_place (h : Enclosed content) (acc : List Char) (position : Nat) (rest : List Char) :
    scan (.text acc) position ((Item.place content).chars ++ rest) =
      ((readSlot content).bind fun s =>
        (scan (.text []) (position + bytes (Item.place content).chars) rest).map
          (.slot s :: ·)).map (textPiece acc ++ ·) := by
  have hhead : (content ++ '\x7d' :: rest).head? ≠ some '\x7b' := by
    cases content with
    | nil => exact fun h => absurd (Option.some.inj h) (by decide)
    | cons c content => exact h.2
  have hbytes : position + 1 + bytes content + 1 = position + bytes (Item.place content).chars := by
    have hopen : Char.utf8Size '\x7b' = 1 := rfl
    have hclose : Char.utf8Size '\x7d' = 1 := rfl
    simp only [Item.chars, bytes_cons, bytes_append, bytes_nil, hopen, hclose]
    omega
  rw [Item.chars, List.cons_append, List.append_assoc, List.singleton_append, scan_open hhead,
    scan_content h.1, List.reverse_nil, List.nil_append, hbytes, Item.chars]

/-! ### Rows of items -/

/-- Rows of pieces with the same places in the same order and, whatever is filled
in, the same text. -/
structure Agree (ps qs : List Piece) : Prop where
  /-- They have the same places. -/
  slots : (Template.mk ps).slots = (Template.mk qs).slots
  text : ∀ filling, (Template.mk ps).assemble filling = (Template.mk qs).assemble filling

namespace Agree

variable {ps qs rs : List Piece}

theorem refl (ps : List Piece) : Agree ps ps := ⟨rfl, fun _ => rfl⟩

theorem symm (h : Agree ps qs) : Agree qs ps := ⟨h.slots.symm, fun f => (h.text f).symm⟩

theorem trans (h : Agree ps qs) (h' : Agree qs rs) : Agree ps rs :=
  ⟨h.slots.trans h'.slots, fun f => (h.text f).trans (h'.text f)⟩

theorem append {ps' qs' : List Piece} (h : Agree ps qs) (h' : Agree ps' qs') :
    Agree (ps ++ ps') (qs ++ qs') where
  slots := by
    have hslots := h.slots
    have hslots' := h'.slots
    simp only [Template.slots] at hslots hslots' ⊢
    rw [List.filterMap_append, List.filterMap_append, hslots, hslots']
  text f := by
    have htext := h.text f
    have htext' := h'.text f
    simp only [assemble] at htext htext' ⊢
    rw [List.map_append, List.map_append, String.join_append, String.join_append, htext, htext']

end Agree

/-- One more character of text is one more piece. -/
theorem agree_textPiece_cons (c : Char) (acc : List Char) :
    Agree (textPiece acc ++ [.text (String.singleton c)]) (textPiece (c :: acc)) := by
  cases acc with
  | nil => exact .refl _
  | cons d acc =>
    refine ⟨rfl, fun f => ?_⟩
    apply String.toList_inj.mp
    simp [assemble, textPiece, Piece.fill]

/-- A row of items is read to its end, whatever follows: `done` are the pieces read
up to there, and `left` the text that has not become a piece yet. -/
theorem scan_items {ps : List Piece} (h : List.Forall₂ Item.Stands items ps) (acc : List Char) :
    ∃ done left,
      (∀ position rest, scan (.text acc) position (items.flatMap Item.chars ++ rest) =
        (scan (.text left) (position + bytes (items.flatMap Item.chars)) rest).map (done ++ ·)) ∧
        Agree (done ++ textPiece left) (textPiece acc ++ ps) := by
  induction h generalizing acc with
  | nil =>
    refine ⟨[], acc, fun position rest => ?_, ?_⟩
    · rw [List.flatMap_nil, List.nil_append, bytes_nil, Nat.add_zero]
      cases scan (.text acc) position rest <;> rfl
    · rw [List.nil_append, List.append_nil]
      exact .refl _
  | @cons i p items ps hi _ ih =>
    -- a character of text joins the text before it, and the rest is read as before
    have text {c : Char} (hp : p = .text (String.singleton c))
        (hscan : ∀ position rest, scan (.text acc) position (i.chars ++ rest) =
          scan (.text (c :: acc)) (position + bytes i.chars) rest) :
        ∃ done left,
          (∀ position rest, scan (.text acc) position ((i :: items).flatMap Item.chars ++ rest) =
            (scan (.text left) (position + bytes ((i :: items).flatMap Item.chars)) rest).map
              (done ++ ·)) ∧
            Agree (done ++ textPiece left) (textPiece acc ++ p :: ps) := by
      obtain ⟨done, left, hitems, hagree⟩ := ih (c :: acc)
      refine ⟨done, left, fun position rest => ?_, ?_⟩
      · rw [List.flatMap_cons, List.append_assoc, hscan, hitems, bytes_append, Nat.add_assoc]
      · rw [hp, List.append_cons]
        exact hagree.trans ((agree_textPiece_cons c acc).append (.refl ps)).symm
    cases hi with
    | @plain c hc =>
      refine text rfl fun position rest => ?_
      rw [Item.chars, List.singleton_append, scan_plain hc, bytes_cons, bytes_nil, Nat.add_zero]
    | @brace c hc =>
      refine text rfl fun position rest => ?_
      have hbytes : bytes (Item.brace c).chars = 2 := by
        rcases hc with rfl | rfl <;> rfl
      rw [hbytes]
      exact scan_brace hc acc position rest
    | @place content s hc hs =>
      obtain ⟨done, left, hitems, hagree⟩ := ih []
      refine ⟨textPiece acc ++ .slot s :: done, left, fun position rest => ?_, ?_⟩
      · rw [List.flatMap_cons, List.append_assoc, scan_place hc, readSlot_of_writes hs]
        simp only [Except.bind, hitems, bytes_append, Nat.add_assoc]
        cases scan (.text left) (position +
          (bytes (Item.place content).chars + bytes (items.flatMap Item.chars))) rest with
        | error e => rfl
        | ok read => simp [Except.map]
      · rw [List.append_assoc, List.cons_append]
        exact (Agree.refl (textPiece acc)).append ((Agree.refl [.slot s]).append hagree)

/-- A row of items is a source of the pieces its items stand for. -/
theorem parse_items {source : String} {ps : List Piece} (h : List.Forall₂ Item.Stands items ps)
    (hsource : source.toList = items.flatMap Item.chars) :
    ∃ t, parse source = .ok t ∧ Agree t.pieces ps := by
  obtain ⟨done, left, hitems, hagree⟩ := scan_items h []
  refine ⟨⟨done ++ textPiece left⟩, ?_, hagree⟩
  have hscan := hitems 0 []
  rw [List.append_nil, scan] at hscan
  rw [parse, hsource, hscan]
  rfl

/-! ### What cannot be read -/

/-- What stands at byte `offset` of a source is no item, for this reason. -/
inductive Fails (offset : Nat) : List Char → Error → Prop where
  /-- A closing brace is not doubled. -/
  | unmatched {rest : List Char} (h : rest.head? ≠ some '\x7d') :
      Fails offset ('\x7d' :: rest) (.unmatchedBrace offset)
  /-- No closing brace follows an opening one. -/
  | unclosed {rest : List Char} (hclose : '\x7d' ∉ rest) (hopen : rest.head? ≠ some '\x7b') :
      Fails offset ('\x7b' :: rest) (.unclosedSlot offset)
  /-- Braces enclose no number of sixty-four bits. -/
  | invalid {content rest : List Char} (h : Enclosed content)
      (hn : ∀ n, Writes content n → UInt64.size ≤ n) :
      Fails offset ((Item.place content).chars ++ rest) (.invalidSlot (String.ofList content))
  /-- Braces enclose a number that no place has. -/
  | outOfRange {content rest : List Char} {n : Nat} (h : Enclosed content)
      (hwrites : Writes content n) (hlow : 9 ≤ n) (hn : n < UInt64.size) :
      Fails offset ((Item.place content).chars ++ rest) (.slotOutOfRange n)

theorem Fails.scan_eq {position : Nat} {e : Error} (h : Fails position rest e) (acc : List Char) :
    scan (.text acc) position rest = .error e := by
  cases h with
  | unmatched h => exact scan_lone h acc position
  | unclosed hclose hopen => rw [scan_open hopen, scan_unclosed hclose]; rfl
  | invalid h hn => rw [scan_place h, readSlot_of_no_number hn]; rfl
  | outOfRange h hwrites hlow hn => rw [scan_place h, readSlot_of_large hwrites hlow hn]; rfl

/-- What cannot be read behind a row of items is the error of the source. -/
theorem parse_fails {source : String} {e : Error} (h : ∀ i ∈ items, i.Proper)
    (hsource : source.toList = items.flatMap Item.chars ++ rest)
    (hfails : Fails (bytes (items.flatMap Item.chars)) rest e) : parse source = .error e := by
  obtain ⟨ps, hps⟩ := exists_forall₂_stands h
  obtain ⟨done, left, hitems, -⟩ := scan_items hps []
  rw [parse, hsource, hitems, Nat.zero_add, hfails.scan_eq left]
  rfl

/-- A text starts with an item or cannot be read. -/
theorem exists_item (c : Char) (cs : List Char) :
    (∃ (i : Item) (rest : List Char), i.Proper ∧ c :: cs = i.chars ++ rest) ∨
      ∀ offset, ∃ e, Fails offset (c :: cs) e := by
  by_cases hclose : c = '\x7d'
  · subst hclose
    by_cases hnext : cs.head? = some '\x7d'
    · obtain ⟨rest, rfl⟩ := List.head?_eq_some_iff.mp hnext
      exact .inl ⟨.brace '\x7d', rest, .inr rfl, rfl⟩
    · exact .inr fun offset => ⟨_, .unmatched hnext⟩
  by_cases hopen : c = '\x7b'
  · subst hopen
    by_cases hnext : cs.head? = some '\x7b'
    · obtain ⟨rest, rfl⟩ := List.head?_eq_some_iff.mp hnext
      exact .inl ⟨.brace '\x7b', rest, .inl rfl, rfl⟩
    by_cases hends : '\x7d' ∈ cs
    · obtain ⟨content, rest, rfl, hcontent⟩ := List.eq_append_cons_of_mem hends
      have henclosed : Enclosed content := by
        refine ⟨hcontent, fun hhead => hnext ?_⟩
        rw [List.head?_append, hhead, Option.some_or]
      have hchars : '\x7b' :: (content ++ '\x7d' :: rest) = (Item.place content).chars ++ rest := by
        simp [Item.chars]
      rw [hchars]
      by_cases hnumber : ∃ n, Writes content n ∧ n < UInt64.size
      · obtain ⟨n, hwrites, hn⟩ := hnumber
        by_cases hlow : n ≤ 8
        · exact .inl ⟨.place content, rest, ⟨henclosed, n, hlow, hwrites⟩, rfl⟩
        · exact .inr fun offset => ⟨_, .outOfRange henclosed hwrites (Nat.lt_of_not_le hlow) hn⟩
      · refine .inr fun offset => ⟨_, .invalid henclosed fun n hwrites => ?_⟩
        exact Nat.le_of_not_lt fun hn => hnumber ⟨n, hwrites, hn⟩
    · exact .inr fun offset => ⟨_, .unclosed hends hnext⟩
  · exact .inl ⟨.plain c, cs, ⟨hopen, hclose⟩, rfl⟩

/-- Every text is a row of items in front of nothing, or of what cannot be read. -/
theorem exists_items (cs : List Char) :
    ∃ (items : List Item) (rest : List Char),
      (∀ i ∈ items, i.Proper) ∧ cs = items.flatMap Item.chars ++ rest ∧
      (rest = [] ∨ ∀ offset, ∃ e, Fails offset rest e) := by
  induction hlength : cs.length using Nat.strong_induction_on generalizing cs with
  | h n ih =>
    cases cs with
    | nil => exact ⟨[], [], by simp, rfl, .inl rfl⟩
    | cons c cs =>
      rcases exists_item c cs with ⟨i, rest, hi, hcs⟩ | hfails
      · have hshorter : rest.length < n := by
          have hchars : 0 < i.chars.length := by cases i <;> simp [Item.chars]
          rw [hcs, List.length_append] at hlength
          omega
        obtain ⟨items, rest', hitems, hrest, hend⟩ := ih _ hshorter rest rfl
        refine ⟨i :: items, rest', List.forall_mem_cons.mpr ⟨hi, hitems⟩, ?_, hend⟩
        rw [hcs, hrest, List.flatMap_cons, List.append_assoc]
      · exact ⟨[], c :: cs, by simp, rfl, .inr hfails⟩

/-- `parse` accepts exactly the rows of proper items, and the template it gives has
the places and the text that the items stand for. Everything else is a row of
items in front of something that cannot be read, and `parse` gives its error. -/
theorem parse_exact (source : String) :
    ((∃ t, parse source = .ok t) ↔
      ∃ items : List Item, (∀ i ∈ items, i.Proper) ∧ source.toList = items.flatMap Item.chars) ∧
    (∀ e, parse source = .error e ↔
      ∃ (items : List Item) (rest : List Char), (∀ i ∈ items, i.Proper) ∧
        source.toList = items.flatMap Item.chars ++ rest ∧
        Fails (bytes (items.flatMap Item.chars)) rest e) ∧
    ∀ (t : Template) (items : List Item) (ps : List Piece), parse source = .ok t →
      source.toList = items.flatMap Item.chars → List.Forall₂ Item.Stands items ps →
      Agree t.pieces ps := by
  refine ⟨⟨?_, ?_⟩, fun e => ⟨?_, ?_⟩, ?_⟩
  · rintro ⟨t, ht⟩
    obtain ⟨items, rest, hitems, hsource, rfl | hfails⟩ := exists_items source.toList
    · exact ⟨items, hitems, by rw [hsource, List.append_nil]⟩
    · obtain ⟨e, he⟩ := hfails (bytes (items.flatMap Item.chars))
      rw [parse_fails hitems hsource he] at ht
      cases ht
  · rintro ⟨items, hitems, hsource⟩
    obtain ⟨ps, hps⟩ := exists_forall₂_stands hitems
    obtain ⟨t, ht, -⟩ := parse_items hps hsource
    exact ⟨t, ht⟩
  · intro he
    obtain ⟨items, rest, hitems, hsource, rfl | hfails⟩ := exists_items source.toList
    · obtain ⟨ps, hps⟩ := exists_forall₂_stands hitems
      rw [List.append_nil] at hsource
      obtain ⟨t, ht, -⟩ := parse_items hps hsource
      rw [ht] at he
      cases he
    · obtain ⟨e', he'⟩ := hfails (bytes (items.flatMap Item.chars))
      have hsame := parse_fails hitems hsource he'
      rw [he] at hsame
      cases hsame
      exact ⟨items, rest, hitems, hsource, he'⟩
  · rintro ⟨items, rest, hitems, hsource, hfails⟩
    exact parse_fails hitems hsource hfails
  · intro t items ps ht hsource hps
    obtain ⟨u, hu, hagree⟩ := parse_items hps hsource
    rw [ht] at hu
    cases hu
    exact hagree

-- Of three braces in a row the first two are a brace of text, on either side of a place.
example : parse "\x7b\x7b\x7b +03\t\x7d\x7d\x7d" =
    .ok ⟨[.text "\x7b", .slot .common, .text "\x7d"]⟩ := by rfl

/-! ### Sources of templates -/

/-- The item of a character; braces are doubled. -/
def charItem (c : Char) : Item := if c = '\x7b' ∨ c = '\x7d' then .brace c else .plain c

theorem charItem_chars (c : Char) : (charItem c).chars = doubled c := by
  unfold charItem doubled
  split <;> rfl

theorem charItem_stands (c : Char) : (charItem c).Stands (.text (String.singleton c)) := by
  unfold charItem
  split
  next h => exact .brace h
  next h => exact .plain (not_or.mp h)

/-- The source of a place writes its number. -/
theorem place_stands (s : Slot) : (Item.place (toString s.index).toList).Stands (.slot s) := by
  have hdigits : (toString s.index).toList = Nat.toDigits 10 s.index := by
    rw [Nat.toString_eq_repr, Nat.repr_eq_ofList_toDigits, String.toList_ofList]
  have hdigit {c : Char} (hc : c ∈ Nat.toDigits 10 s.index) : c.isDigit = true :=
    Nat.isDigit_of_mem_toDigits (by decide) (by decide) hc
  rw [hdigits]
  refine .place ⟨fun h => absurd (hdigit h) (by decide), fun h => ?_⟩ ?_
  · exact absurd (hdigit (List.mem_of_head? h)) (by decide)
  · refine ⟨[], [], Nat.toDigits 10 s.index, [], by simp, by simp, .inl rfl, Nat.toDigits_ne_nil,
      fun c hc => hdigit hc, Nat.ofDigitChars_toDigits (by decide) (by decide)⟩

/-- The source of a piece is a row of items that stand for the piece. -/
theorem Piece.exists_items (p : Piece) :
    ∃ items ps, List.Forall₂ Item.Stands items ps ∧
      p.source.toList = items.flatMap Item.chars ∧ Agree ps [p] := by
  cases p with
  | text s =>
    refine ⟨s.toList.map charItem, s.toList.map fun c => .text (String.singleton c), ?_, ?_, ?_⟩
    · rw [List.forall₂_map_left_iff, List.forall₂_map_right_iff]
      exact List.forall₂_same.mpr fun c _ => charItem_stands c
    · rw [Piece.source, String.toList_ofList, List.flatMap_map]
      simp only [charItem_chars]
    · refine ⟨?_, fun f => ?_⟩
      · simp [Template.slots]
      · apply String.toList_inj.mp
        simp [assemble, Piece.fill, List.flatMap_map, String.toList_join]
  | slot s =>
    refine ⟨[.place (toString s.index).toList], [.slot s], .cons (place_stands s) .nil, ?_, .refl _⟩
    simp [Piece.source, Item.chars]

theorem exists_items_of_pieces (ps : List Piece) :
    ∃ items qs, List.Forall₂ Item.Stands items qs ∧
      (Template.mk ps).source.toList = items.flatMap Item.chars ∧ Agree qs ps := by
  induction ps with
  | nil => exact ⟨[], [], .nil, rfl, .refl []⟩
  | cons p ps ih =>
    obtain ⟨items, qs, hitems, hsource, hagree⟩ := p.exists_items
    obtain ⟨items', qs', hitems', hsource', hagree'⟩ := ih
    refine ⟨items ++ items', qs ++ qs', List.rel_append hitems hitems', ?_, hagree.append hagree'⟩
    rw [List.flatMap_append, ← hsource, ← hsource']
    simp [source]

end Template

end MaterialGraph
