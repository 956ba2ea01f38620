import MaterialGraph.Proofs.Ownership
import MaterialGraph.Proofs.Templates

/-!
# Parentheses around operands

Code that is put next to an operator must hold together: its parentheses match, and nothing outside
them can be torn apart. Code is an operand as it stands if `isAtomic` says so, and is put in
parentheses otherwise.

Whether code is atomic is found out by a scan over bytes: the first parenthesis is looked for, the
text is cut there and at the parenthesis that closes it, and the characters in between are counted
off from a byte offset. `atomicScan?` is that scan with its two hazards: it stops without an answer
if a cut falls into a character, or if a parenthesis closes that none has opened. It never does.

## Main results

* `atomicScan?_eq` — the scan always has an answer, and it is `isAtomic`.
* `balanced_of_isAtomic` — the parentheses of atomic code match, and it is plain outside them.
* `operand_holds_together` — operands hold together.
-/

namespace MaterialGraph.Text

open Template (bytes)

/-! ### Parentheses that match -/

/-- How many parentheses are open after a text, when `depth` are open before it; nothing if one
closes that is not open. -/
def nesting? : (depth : Nat) → List Char → Option Nat
  | depth, [] => some depth
  | depth, c :: cs =>
    if c = '(' then nesting? (depth + 1) cs
    else if c = ')' then if depth = 0 then none else nesting? (depth - 1) cs
    else nesting? depth cs

/-- All parentheses are closed, and none before it is opened. -/
def Balanced (cs : List Char) : Prop := nesting? 0 cs = some 0

instance (cs : List Char) : Decidable (Balanced cs) := inferInstanceAs (Decidable (_ = _))

/-- What stands outside of all parentheses, when `depth` are open before the text. -/
def outside : (depth : Nat) → List Char → List Char
  | _, [] => []
  | depth, c :: cs =>
    if c = '(' then outside (depth + 1) cs
    else if c = ')' then outside (depth - 1) cs
    else if depth = 0 then c :: outside depth cs
    else outside depth cs

/-- The characters of names with their scopes. -/
def isScopeChar (c : Char) : Bool := isPathChar c || c == ':'

/-- The characters of operators. -/
def operatorChars : List Char :=
  ['+', '-', '*', '/', '%', '<', '>', '=', '!', '&', '|', '^', '~', '?']

theorem isPathChar_cases {c : Char} (h : isPathChar c = true) :
    c.isAlphanum = true ∨ c = '_' ∨ c = '.' := by
  simpa [isPathChar, isWordChar, or_assoc] using h

/-- What letters, digits and three more characters have, characters of scopes have. -/
theorem of_isScopeChar {P : Char → Bool}
    (h : (List.range 128).all (fun n =>
      !(Char.ofNat n).isAlphanum || P (Char.ofNat n)) = true)
    (hmarks : ['_', '.', ':'].all P = true) {c : Char} (hc : isScopeChar c = true) :
    P c = true := by
  have hmark (d : Char) (hd : d ∈ ['_', '.', ':']) := List.all_eq_true.mp hmarks d hd
  rcases Bool.or_eq_true_iff.mp hc with hc | hc
  · rcases isPathChar_cases hc with hc | rfl | rfl
    · exact Identifier.of_isAlphanum h hc
    · exact hmark '_' (by decide)
    · exact hmark '.' (by decide)
  · rw [beq_iff_eq.mp hc]
    exact hmark ':' (by decide)

/-- Characters of scopes are no parentheses, and each is one byte. -/
theorem flat_of_isScopeChar {c : Char} (h : isScopeChar c = true) :
    (c ≠ '(' ∧ c ≠ ')') ∧ c.utf8Size = 1 := by
  have hall := of_isScopeChar (P := fun c => c != '(' && c != ')' && c.utf8Size == 1)
    (by decide +kernel) (by decide +kernel) h
  simpa using hall

/-- They are no blanks, no commas and no operators. -/
theorem apart_of_isScopeChar {c : Char} (h : isScopeChar c = true) :
    isBlank c = false ∧ c ≠ ',' ∧ c ∉ operatorChars := by
  have hall := of_isScopeChar (P := fun c => !isBlank c && c != ',' && !operatorChars.contains c)
    (by decide +kernel) (by decide +kernel) h
  simpa [and_assoc] using hall

section Nesting

variable {cs ds : List Char} {depth k : Nat}

theorem nesting?_append (cs ds : List Char) : ∀ depth,
    nesting? depth (cs ++ ds) = (nesting? depth cs).bind fun k => nesting? k ds := by
  induction cs with
  | nil => exact fun _ => rfl
  | cons c cs ih =>
    intro depth
    simp only [List.cons_append, nesting?]
    grind

theorem outside_append (h : nesting? depth cs = some k) :
    outside depth (cs ++ ds) = outside depth cs ++ outside k ds := by
  induction cs generalizing depth with
  | nil =>
    cases h
    rfl
  | cons c cs ih =>
    rw [nesting?] at h
    simp only [List.cons_append, outside]
    grind

/-- A scope has no parentheses. -/
theorem nesting?_of_isScopeChar (h : ∀ c ∈ cs, isScopeChar c = true) (depth : Nat) :
    nesting? depth cs = some depth := by
  induction cs with
  | nil => rfl
  | cons c cs ih =>
    obtain ⟨⟨hopen, hclose⟩, -⟩ := flat_of_isScopeChar (h c List.mem_cons_self)
    rw [nesting?, if_neg hopen, if_neg hclose]
    exact ih fun d hd => h d (List.mem_cons_of_mem c hd)

theorem mem_of_mem_outside {c : Char} : ∀ depth, c ∈ outside depth cs → c ∈ cs := by
  induction cs with
  | nil => exact fun _ h => h
  | cons d cs ih =>
    intro depth h
    rw [outside] at h
    grind

/-- One more parenthesis around a text. -/
theorem nesting?_succ (h : nesting? depth cs = some k) :
    nesting? (depth + 1) cs = some (k + 1) ∧ outside (depth + 1) cs = [] := by
  induction cs generalizing depth with
  | nil =>
    cases h
    exact ⟨rfl, rfl⟩
  | cons c cs ih =>
    rw [nesting?] at h
    rw [nesting?, outside]
    grind

end Nesting

theorem afterClosing_cons (depth : Nat) (c : Char) (cs : List Char) :
    afterClosing depth (c :: cs) =
      if c = '(' then afterClosing (depth + 1) cs
      else if c = ')' then if depth ≤ 1 then some cs else afterClosing (depth - 1) cs
      else afterClosing depth cs := by
  by_cases hopen : c = '('
  · rw [hopen, if_pos rfl]
    rfl
  · rw [if_neg hopen]
    by_cases hclose : c = ')'
    · rw [hclose, if_pos rfl]
      rfl
    · rw [if_neg hclose]
      exact afterClosing.eq_4 depth c cs hopen hclose

/-- Up to the parenthesis that closes a text there is nothing outside. -/
theorem nesting?_of_afterClosing {rest cs : List Char} : ∀ {depth},
    afterClosing (depth + 1) cs = some rest → ∃ inner, cs = inner ++ rest ∧
      nesting? (depth + 1) inner = some 0 ∧ outside (depth + 1) inner = [] := by
  induction cs with
  | nil => exact fun h => by cases h
  | cons c cs ih =>
    intro depth h
    rw [afterClosing_cons] at h
    -- the text before the rest has one more character
    have hcons {k : Nat} (hk : afterClosing (k + 1) cs = some rest)
        (hn : ∀ inner, nesting? (depth + 1) (c :: inner) = nesting? (k + 1) inner)
        (ho : ∀ inner, outside (depth + 1) (c :: inner) = outside (k + 1) inner) :
        ∃ inner, c :: cs = inner ++ rest ∧
          nesting? (depth + 1) inner = some 0 ∧ outside (depth + 1) inner = [] := by
      obtain ⟨inner, rfl, hinner⟩ := ih hk
      exact ⟨c :: inner, rfl, by rwa [hn, ho]⟩
    split at h
    · exact hcons h (by grind [nesting?]) (by grind [outside])
    · split at h
      · next hclose =>
        split at h
        · obtain rfl : depth = 0 := by omega
          cases h
          exact ⟨[c], rfl, by rw [hclose]; exact ⟨rfl, rfl⟩⟩
        · obtain ⟨k, rfl⟩ : ∃ k, depth = k + 1 := ⟨depth - 1, by omega⟩
          exact hcons h (by grind [nesting?]) (by grind [outside])
      · exact hcons h (by grind [nesting?]) (by grind [outside])

section Calls

variable {front back : List Char}

theorem ne_open_of_not_mem (h : '(' ∉ front) : ∀ c ∈ front, (c != '(') = true :=
  fun _ hc => bne_iff_ne.mpr fun he => h (he ▸ hc)

/-- A call, when its first parenthesis is known. -/
theorem isCall_append (h : '(' ∉ front) :
    isCall (front ++ '(' :: back) = (isCallHead front &&
      match afterClosing 1 back with
      | some rest => rest.all isPathChar
      | none => false) := by
  obtain ⟨hhead, hrest⟩ := takeWhile_split (c := '(') (ne_open_of_not_mem h) rfl back
  rw [isCall, hhead, hrest]
  rfl

/-- A call has a parenthesis. -/
theorem isCall_of_not_mem (h : '(' ∉ front) : isCall front = false := by
  have hrest : front.dropWhile (· != '(') = [] :=
    List.dropWhile_eq_nil_iff.mpr (ne_open_of_not_mem h)
  rw [isCall, hrest]
  exact Bool.and_false _

/-- **The parentheses of a call match**, and outside of them are only its head and its members. -/
theorem balanced_of_isCall {cs : List Char} (h : isCall cs = true) :
    Balanced cs ∧ ∀ c ∈ outside 0 cs, isScopeChar c = true := by
  by_cases hmem : '(' ∈ cs
  · obtain ⟨front, back, rfl, hfirst⟩ := List.eq_append_cons_of_mem hmem
    rw [isCall_append hfirst, Bool.and_eq_true_iff, isCallHead, Bool.and_eq_true_iff,
      List.all_eq_true] at h
    obtain ⟨⟨-, hhead⟩, hrest⟩ := h
    split at hrest
    · next rest hafter =>
      obtain ⟨inner, rfl, hinner, hnone⟩ := nesting?_of_afterClosing hafter
      have hpath : ∀ c ∈ rest, isScopeChar c = true := fun c hc =>
        Bool.or_eq_true_iff.mpr (.inl (List.all_eq_true.mp hrest c hc))
      have hfront := nesting?_of_isScopeChar hhead 0
      have hcall : nesting? 0 ('(' :: inner) = some 0 := hinner
      have hquiet : outside 0 ('(' :: inner) = [] := hnone
      refine ⟨?_, fun c hc => ?_⟩
      · rw [Balanced, nesting?_append, hfront, Option.bind_some, ← List.cons_append,
          nesting?_append, hcall, Option.bind_some, nesting?_of_isScopeChar hpath]
      · rw [outside_append hfront, ← List.cons_append, outside_append hcall, hquiet,
          List.nil_append] at hc
        rcases List.mem_append.mp hc with hc | hc
        · exact hhead c (mem_of_mem_outside 0 hc)
        · exact hpath c (mem_of_mem_outside 0 hc)
    · cases hrest
  · rw [isCall_of_not_mem hmem] at h
    cases h

end Calls

/-- **The parentheses of atomic code match**, and it is a path or a scope outside them. -/
theorem balanced_of_isAtomic {code : String} (h : isAtomic code = true) :
    Balanced (trim code.toList) ∧ ∀ c ∈ outside 0 (trim code.toList), isScopeChar c = true := by
  rw [isAtomic] at h
  rcases Bool.or_eq_true_iff.mp (Bool.and_eq_true_iff.mp h).2 with hpath | hcall
  · have hscope : ∀ c ∈ trim code.toList, isScopeChar c = true := fun c hc =>
      Bool.or_eq_true_iff.mpr (.inl (List.all_eq_true.mp hpath c hc))
    exact ⟨nesting?_of_isScopeChar hscope 0, fun c hc => hscope c (mem_of_mem_outside 0 hc)⟩
  · exact balanced_of_isCall hcall

/-! ### The scan over bytes -/

/-- A text cut at a byte, if no character is cut. -/
def cutAt? : List Char → Nat → Option (List Char × List Char)
  | [], offset => if offset = 0 then some ([], []) else none
  | c :: cs, offset =>
    if offset = 0 then some ([], c :: cs)
    else if c.utf8Size ≤ offset then
      (cutAt? cs (offset - c.utf8Size)).map fun parts => (c :: parts.1, parts.2)
    else none

/-- The characters of a text, each with the byte at which it starts. -/
def indexed : (start : Nat) → List Char → List (Nat × Char)
  | _, [] => []
  | start, c :: cs => (start, c) :: indexed (start + c.utf8Size) cs

/-- Counts parentheses until they are closed, and looks at what follows then in the code. There is
no answer if one closes that is not open, or if the code cannot be cut. -/
def callScan? (code : List Char) : (depth : Nat) → List (Nat × Char) → Option Bool
  | _, [] => some false
  | depth, (start, c) :: rest =>
    if c = '(' then callScan? code (depth + 1) rest
    else if c = ')' then
      if depth = 0 then none
      else if depth = 1 then
        (cutAt? code (start + 1)).map fun parts => parts.2.all isPathChar
      else callScan? code (depth - 1) rest
    else callScan? code depth rest

/-- Whether code is atomic, as the scan over its bytes has it. -/
def atomicScan? (code : String) : Option Bool :=
  let cs := trim code.toList
  if cs.isEmpty then some false
  else if cs.all isPathChar then some true
  else
    match (indexed 0 cs).find? (·.2 == '(') with
    | none => some false
    | some (start, _) =>
      (cutAt? cs start).bind fun parts =>
        if isCallHead parts.1 then
          -- as many characters are left out as there are bytes in front
          callScan? cs 0 ((indexed 0 cs).drop start)
        else some false

theorem cutAt?_bytes (front back : List Char) :
    cutAt? (front ++ back) (bytes front) = some (front, back) := by
  induction front with
  | nil =>
    cases back with
    | nil => rfl
    | cons c back => rfl
  | cons c front ih =>
    have hpos := c.utf8Size_pos
    rw [List.cons_append, cutAt?, Template.bytes_cons, if_neg (by omega),
      if_pos (Nat.le_add_right _ _), Nat.add_sub_cancel_left, ih]
    rfl

theorem indexed_append (cs ds : List Char) : ∀ start,
    indexed start (cs ++ ds) = indexed start cs ++ indexed (start + bytes cs) ds := by
  induction cs with
  | nil => exact fun _ => rfl
  | cons c cs ih =>
    intro start
    rw [List.cons_append, indexed, indexed, ih, Template.bytes_cons, Nat.add_assoc]
    rfl

theorem length_indexed (cs : List Char) : ∀ start, (indexed start cs).length = cs.length := by
  induction cs with
  | nil => exact fun _ => rfl
  | cons c cs ih => exact fun start => congrArg (· + 1) (ih _)

theorem find?_indexed {cs : List Char} (h : '(' ∉ cs) :
    ∀ start, (indexed start cs).find? (·.2 == '(') = none := by
  induction cs with
  | nil => exact fun _ => rfl
  | cons c cs ih =>
    intro start
    have hc : (c == '(') = false :=
      beq_eq_false_iff_ne.mpr fun he => h (he ▸ List.mem_cons_self)
    rw [indexed, List.find?_cons, hc]
    exact ih (fun hd => h (List.mem_cons_of_mem c hd)) _

/-- In a scope there are as many bytes as characters. -/
theorem bytes_of_isScopeChar {cs : List Char} (h : ∀ c ∈ cs, isScopeChar c = true) :
    bytes cs = cs.length := by
  induction cs with
  | nil => rfl
  | cons c cs ih =>
    rw [Template.bytes_cons, (flat_of_isScopeChar (h c List.mem_cons_self)).2,
      ih fun d hd => h d (List.mem_cons_of_mem c hd), List.length_cons, Nat.add_comm]

/-- **While a parenthesis is open the scan has an answer**: what follows the one that closes it is a
path. -/
theorem callScan?_eq (cs : List Char) : ∀ (front : List Char) (depth : Nat),
    callScan? (front ++ cs) (depth + 1) (indexed (bytes front) cs) =
      some (match afterClosing (depth + 1) cs with
        | some rest => rest.all isPathChar
        | none => false) := by
  induction cs with
  | nil => exact fun _ _ => rfl
  | cons c cs ih =>
    intro front depth
    -- the character goes to the part that has been read
    have hnext (k : Nat) := ih (front ++ [c]) k
    rw [List.append_assoc, List.singleton_append, Template.bytes_append, Template.bytes_cons,
      Template.bytes_nil, Nat.add_zero] at hnext
    rw [indexed, callScan?, afterClosing_cons]
    by_cases hopen : c = '('
    · rw [if_pos hopen, if_pos hopen]
      exact hnext (depth + 1)
    · rw [if_neg hopen, if_neg hopen]
      by_cases hclose : c = ')'
      · rw [if_pos hclose, if_pos hclose, if_neg (Nat.succ_ne_zero depth)]
        by_cases hlast : depth = 0
        · have hcut := cutAt?_bytes (front ++ [c]) cs
          rw [List.append_assoc, List.singleton_append, Template.bytes_append, Template.bytes_cons,
            Template.bytes_nil, Nat.add_zero] at hcut
          have hsize : c.utf8Size = 1 := by
            rw [hclose]
            rfl
          rw [hsize] at hcut
          subst hlast
          rw [if_pos rfl, if_pos (Nat.le_refl _), hcut]
          rfl
        · obtain ⟨k, rfl⟩ := Nat.exists_eq_succ_of_ne_zero hlast
          rw [if_neg (by omega), if_neg (by omega)]
          exact hnext k
      · rw [if_neg hclose, if_neg hclose]
        exact hnext depth

/-- **The scan always has an answer**: no character is cut, and no parenthesis closes that is not
open. -/
theorem atomicScan?_eq (code : String) : atomicScan? code = some (isAtomic code) := by
  unfold atomicScan? isAtomic
  dsimp only
  generalize trim code.toList = cs
  cases hempty : cs.isEmpty with
  | true => rfl
  | false =>
    cases hpath : cs.all isPathChar with
    | true => rfl
    | false =>
      rw [if_neg Bool.false_ne_true, if_neg Bool.false_ne_true, Bool.not_false, Bool.true_and,
        Bool.false_or]
      by_cases hmem : '(' ∈ cs
      · obtain ⟨front, back, rfl, hfirst⟩ := List.eq_append_cons_of_mem hmem
        rw [indexed_append, List.find?_append, find?_indexed hfirst, Option.none_or,
          isCall_append hfirst, Nat.zero_add, indexed, List.find?_cons_of_pos (by rfl)]
        dsimp only
        rw [cutAt?_bytes, Option.bind_some]
        cases hhead : isCallHead front with
        | false => rfl
        | true =>
          -- the head is a scope, so its bytes are counted off as characters
          have hscope := List.all_eq_true.mp (Bool.and_eq_true_iff.mp hhead).2
          have hscan := callScan?_eq back (front ++ ['(']) 0
          rw [List.append_assoc, Template.bytes_append] at hscan
          rw [if_pos rfl, Bool.true_and, ← hscan,
            List.drop_left' ((length_indexed front 0).trans (bytes_of_isScopeChar hscope).symm)]
          rfl
      · rw [find?_indexed hmem, isCall_of_not_mem hmem]

end MaterialGraph.Text

namespace MaterialGraph

open Text

/-- Parentheses around a text that is balanced leave nothing outside. -/
theorem balanced_parenthesized {cs : List Char} (h : Balanced cs) :
    Balanced ('(' :: (cs ++ [')'])) ∧ outside 0 ('(' :: (cs ++ [')'])) = [] := by
  obtain ⟨hinner, hnone⟩ := nesting?_succ h
  constructor
  · show nesting? 1 (cs ++ [')']) = some 0
    rw [nesting?_append, hinner]
    rfl
  · show outside 1 (cs ++ [')']) = []
    rw [outside_append hinner, hnone]
    rfl

/-- Code that is no operand as it stands is put in parentheses. -/
theorem Expr.operand_cases (e : Expr) :
    (isAtomic e.code = true ∧ e.operand = e.code) ∨
      e.operand.toList = '(' :: ((' ' :: (e.code.toList ++ [' '])) ++ [')']) := by
  unfold Expr.operand
  split
  · next h => exact .inl ⟨h, rfl⟩
  · right
    rw [String.toList_append, String.toList_append]
    simp

/-- **Operands hold together.** Whether code is atomic is found without cutting a character and
without closing a parenthesis that is not open. The parentheses of atomic code match, and outside
of them are letters, digits, `_`, `.` and `:` alone. So if the parentheses of an expression match,
those of the operand do, and apart from blanks around it there is no operator, no comma and no
blank outside of them. -/
theorem operand_holds_together :
    (∀ code, atomicScan? code = some (isAtomic code)) ∧
    (∀ code, isAtomic code = true → Balanced (trim code.toList) ∧
      ∀ c ∈ outside 0 (trim code.toList), isScopeChar c = true) ∧
    ∀ e : Expr, Balanced e.code.toList → Balanced e.operand.toList ∧
      ∀ c ∈ outside 0 (trim e.operand.toList), isScopeChar c = true ∧
        isBlank c = false ∧ c ≠ ',' ∧ c ∉ operatorChars := by
  refine ⟨atomicScan?_eq, fun code => balanced_of_isAtomic, fun e h => ?_⟩
  rcases e.operand_cases with ⟨hatomic, heq⟩ | hlist
  · rw [heq]
    refine ⟨h, fun c hc => ?_⟩
    have hscope := (balanced_of_isAtomic hatomic).2 c hc
    exact ⟨hscope, apart_of_isScopeChar hscope⟩
  · have hspaced : Balanced (' ' :: (e.code.toList ++ [' '])) := by
      show nesting? 0 (e.code.toList ++ [' ']) = some 0
      rw [nesting?_append, h]
      rfl
    obtain ⟨hbalanced, hnone⟩ := balanced_parenthesized hspaced
    rw [hlist, trim_of_ends (by decide) (by decide), hnone]
    exact ⟨hbalanced, List.forall_mem_nil _⟩

/-- A call is an operand as it stands, and a quotient of calls is not. -/
theorem operand_holds_together_quotient :
    isAtomic " rcp( dot( a, b ) ).x " = true ∧
    (∀ c ∈ outside 0 (trim " rcp( dot( a, b ) ).x ".toList), isScopeChar c = true) ∧
    Balanced "f( a ) / ( b, c )".toList ∧
    Balanced (Expr.operand { type := .float, code := "f( a ) / ( b, c )" }).toList := by
  have hatomic : isAtomic " rcp( dot( a, b ) ).x " = true := by decide +kernel
  have hcode : Balanced "f( a ) / ( b, c )".toList := by decide +kernel
  exact ⟨hatomic, (operand_holds_together.2.1 _ hatomic).2, hcode,
    (operand_holds_together.2.2 { type := .float, code := "f( a ) / ( b, c )" } hcode).1⟩

end MaterialGraph
