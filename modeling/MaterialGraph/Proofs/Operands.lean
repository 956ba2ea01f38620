import MaterialGraph.Proofs.Grammar
import MaterialGraph.Proofs.Locals

/-!
# Operands

The text of an expression can be an operand of any operator: either it is put in
parentheses, or it is atomic, and then no operator stands in it outside of parentheses. So
an operand is a phrase of the tightest level, and it has the tree of the whole expression.

## Main results

* `tokens_spaced`, `tokens_mark`, `tokens_member` — the tokens of texts that are put together.
* `Derives.primary_of_outer` — a phrase without operators outside of parentheses.
* `derives_of_isAtomic` — atomic texts are phrases of the tightest level.
* `Expr.operand_derives` — so is every operand.
* `floatLiteral_derives` — numbers are phrases with one sign at most.
-/

namespace MaterialGraph

namespace Grammar

open Text

variable {c : Char} {name : String} {tok : Token} {l : Level} {ts : List Token} {t : Tree}
  {r : Reading} {cs : List Char}

/-! ### Texts put together -/

theorem divides_of_isBlank (h : isBlank c = true) : divides c = true := by
  have hne {d : Char} (hd : isBlank d = false) : c ≠ d := by
    rintro rfl
    rw [hd] at h
    cases h
  have hword : isWordChar c = false := by
    rw [← Bool.not_eq_true]
    intro hw
    rw [isBlank_of_isWordChar hw] at h
    cases h
  simp [divides, isRelationChar, hword, hne (d := '=') (by decide), hne (d := '!') (by decide),
    hne (d := '<') (by decide), hne (d := '>') (by decide), hne (d := '+') (by decide),
    hne (d := '-') (by decide), hne (d := '.') (by decide)]

theorem lexFrom_blank (h : isBlank c = true) (cs : List Char) :
    lexFrom .idle (c :: cs) = lexFrom .idle cs := by
  have hstart : Reading.start c = ([], .idle) := by simp [Reading.start, h]
  show (Reading.start c).1 ++ lexFrom (Reading.start c).2 cs = _
  rw [hstart]
  rfl

/-- Blanks between texts leave no token. -/
theorem lexFrom_append_blank (h : isBlank c = true) (cs ds : List Char) (r : Reading) :
    lexFrom r (cs ++ c :: ds) = lexFrom r cs ++ lexFrom .idle ds := by
  rw [lexFrom_append_of_divides (divides_of_isBlank h), lexFrom_blank h]

/-- Blanks around a text do not matter. -/
theorem lexFrom_trim (cs : List Char) : lexFrom .idle (trim cs) = lexFrom .idle cs := by
  have hstart : lexFrom .idle (trimStart cs) = lexFrom .idle cs := by
    unfold trimStart
    induction cs with
    | nil => rfl
    | cons c cs ih =>
      rw [List.dropWhile_cons]
      split
      · next h => rw [ih, lexFrom_blank h]
      · rfl
  have hend (ds : List Char) :
      lexFrom .idle (ds.dropWhile isBlank).reverse = lexFrom .idle ds.reverse := by
    induction ds with
    | nil => rfl
    | cons d ds ih =>
      rw [List.dropWhile_cons]
      split
      · next h =>
        rw [ih, List.reverse_cons, lexFrom_append_blank h]
        simp [Reading.flush]
      · rfl
  unfold trim trimEnd
  rw [hend, List.reverse_reverse, hstart]

theorem tokens_append {a b : String} : tokens (a ++ b) = lexFrom .idle (a.toList ++ b.toList) := by
  rw [tokens, String.toList_append]

theorem tokens_blank (a b : String) : tokens (a ++ " " ++ b) = tokens a ++ tokens b := by
  rw [tokens_append, String.toList_append, List.append_assoc]
  exact lexFrom_append_blank (by decide) a.toList b.toList .idle

/-- Texts with something between them that begins and ends with a blank. -/
theorem tokens_spaced {m : List Char} {sep : String} (h : sep.toList = ' ' :: (m ++ [' ']))
    (a b : String) : tokens (a ++ sep ++ b) = tokens a ++ (lexFrom .idle m ++ tokens b) := by
  have hblank : isBlank ' ' = true := by decide
  rw [tokens_append, String.toList_append, h, List.append_assoc, List.cons_append,
    lexFrom_append_blank hblank, List.append_assoc, List.singleton_append,
    lexFrom_append_blank hblank]
  rfl

/-- Texts with a mark and a blank between them. -/
theorem tokens_mark {sep : String} (h : sep.toList = [c, ' ']) (hc : divides c = true)
    (hs : Reading.start c = ([.symbol c], .idle)) (a b : String) :
    tokens (a ++ sep ++ b) = tokens a ++ .symbol c :: tokens b := by
  rw [tokens_append, String.toList_append, h, List.append_assoc]
  show lexFrom .idle (a.toList ++ c :: ' ' :: b.toList) = _
  rw [lexFrom_append_of_divides hc]
  show tokens a ++ ((Reading.start c).1 ++ lexFrom (Reading.start c).2 (' ' :: b.toList)) = _
  rw [hs, lexFrom_blank (by decide)]
  rfl

theorem tokens_open (a : String) : tokens ("( " ++ a) = .symbol '(' :: tokens a := by
  have h : tokens ("" ++ "( " ++ a) = tokens "" ++ .symbol '(' :: tokens a :=
    tokens_mark rfl rfl rfl "" a
  rwa [String.empty_append] at h

theorem tokens_close (a : String) : tokens (a ++ " )") = tokens a ++ [.symbol ')'] := by
  rw [tokens_append]
  exact lexFrom_append_blank (by decide) a.toList [')'] .idle

theorem tokens_intercalate (text : String) (n : Nat) :
    tokens (", ".intercalate (List.replicate (n + 1) text)) =
      tokens text ++ (List.replicate n (.symbol ',' :: tokens text)).flatten := by
  induction n with
  | zero => simp
  | succ n ih =>
    rw [List.replicate_succ, List.replicate_succ, String.intercalate_cons_cons,
      tokens_mark (c := ',') rfl rfl rfl, ← List.replicate_succ, ih]
    simp [List.replicate_succ]

/-! ### Names and members -/

theorem lexFrom_word {ds : List Char} (h : ∀ c ∈ ds, isWordChar c = true) :
    ∀ cs, lexFrom (.word cs) ds = [.word (cs ++ ds)] := by
  induction ds with
  | nil =>
    intro cs
    rw [List.append_nil]
    rfl
  | cons d ds ih =>
    intro cs
    have hd : (Reading.word cs).step d = ([], .word (cs ++ [d])) := by
      simp [Reading.step, h d List.mem_cons_self]
    rw [lexFrom_cons, hd, ih fun c hc => h c (List.mem_cons_of_mem d hc)]
    simp

/-- A letter or an underscore is no digit. -/
theorem isDigit_of_isAlpha (h : c.isAlpha = true ∨ c = '_') : c.isDigit = false := by
  rw [← Bool.not_eq_true]
  intro hd
  simp only [Char.isDigit, Bool.and_eq_true, decide_eq_true_eq, UInt32.le_iff_toNat_le] at hd
  have hlow : 48 ≤ c.val.toNat := hd.1
  have hhigh : c.val.toNat ≤ 57 := hd.2
  rcases h with h | rfl
  · rw [isAlpha_iff, isUpper_iff, isLower_iff] at h
    omega
  · exact absurd hhigh (by decide)

theorem eq_cons_of_isIdentifier (h : isIdentifier name = true) :
    ∃ c cs, name.toList = c :: cs ∧ c.isDigit = false := by
  unfold isIdentifier at h
  split at h
  · cases h
  · next c cs hl =>
    rw [Bool.and_eq_true] at h
    exact ⟨c, cs, hl, isDigit_of_isAlpha (by simpa using h.1)⟩

theorem tokens_of_isIdentifier (h : isIdentifier name = true) :
    tokens name = [.word name.toList] := by
  obtain ⟨hword, -⟩ := isWord_of_isIdentifier h
  obtain ⟨c, cs, hl, hdigit⟩ := eq_cons_of_isIdentifier h
  have hc : isWordChar c = true := hword c (hl ▸ List.mem_cons_self)
  have hstart : Reading.start c = ([], .word [c]) := by
    simp [Reading.start, isBlank_of_isWordChar hc, hdigit, hc]
  unfold tokens
  rw [hl]
  show (Reading.start c).1 ++ lexFrom (Reading.start c).2 cs = _
  rw [hstart, lexFrom_word fun d hd => hword d (hl ▸ List.mem_cons_of_mem c hd)]
  rfl

theorem tokens_member (h : isIdentifier name = true) (a : String) :
    tokens (a ++ "." ++ name) = tokens a ++ [.symbol '.', .word name.toList] := by
  obtain ⟨c, cs, hl, hdigit⟩ := eq_cons_of_isIdentifier h
  rw [tokens_append, String.toList_append, List.append_assoc, hl]
  show lexFrom .idle (a.toList ++ '.' :: c :: cs) = _
  rw [lexFrom_append_point hdigit, ← hl]
  exact congrArg (tokens a ++ .symbol '.' :: ·) (tokens_of_isIdentifier h)

/-! ### Outside of parentheses -/

/-- The tokens outside of parentheses, when `depth` parentheses are open before them. The
parentheses themselves are left out. -/
def outer : (depth : Nat) → List Token → List Token
  | _, [] => []
  | depth, .symbol '(' :: ts => outer (depth + 1) ts
  | depth, .symbol ')' :: ts => outer (depth - 1) ts
  | 0, tok :: ts => tok :: outer 0 ts
  | depth + 1, _ :: ts => outer (depth + 1) ts

@[simp] theorem outer_nil (depth : Nat) : outer depth [] = [] := by rw [outer]

@[simp] theorem outer_open (depth : Nat) (ts : List Token) :
    outer depth (.symbol '(' :: ts) = outer (depth + 1) ts := by rw [outer]

@[simp] theorem outer_close (depth : Nat) (ts : List Token) :
    outer depth (.symbol ')' :: ts) = outer (depth - 1) ts := by rw [outer]

/-- Neither of the parentheses. -/
def Token.isFlat : Token → Bool
  | .symbol c => c != '(' && c != ')'
  | _ => true

theorem outer_cons (h : tok.isFlat = true) (depth : Nat) (ts : List Token) :
    outer depth (tok :: ts) = if depth = 0 then tok :: outer 0 ts else outer depth ts := by
  cases tok with
  | symbol c =>
    simp only [Token.isFlat, Bool.and_eq_true, bne_iff_ne] at h
    cases depth <;> simp [outer, h.1, h.2]
  | word w | number n | relation t => cases depth <;> simp [outer]

/-- How many parentheses a phrase of a level leaves open. -/
def Level.depth : Level → Nat
  | .application => 1
  | _ => 0

/-- The operators: tokens that stand before an operand or between two. -/
def Token.isOperator (tok : Token) : Bool := tok.isSign || (0 < tok.grip && tok.grip < 6)

theorem Token.isFlat_of_isOperator (h : tok.isOperator = true) :
    tok.isFlat = true := by
  cases tok with
  | symbol c =>
    simp only [Token.isFlat, Bool.and_eq_true, bne_iff_ne]
    constructor
    · rintro rfl
      cases h
    · rintro rfl
      cases h
  | _ => rfl

theorem Token.isOperator_of_isSign (h : tok.isSign = true) :
    tok.isOperator = true := by
  rw [Token.isOperator, h]
  rfl

theorem Level.isOperator_of_takes {op : Token} (h : l.takes op = true) :
    op.isOperator = true := by
  have hgrip := Level.takes_grip h
  unfold Token.isOperator
  rw [hgrip]
  cases l <;> first | exact Bool.or_true _ | cases h

theorem Level.depth_of_next? {l' : Level} (h : l.next? = some l') :
    l.depth = 0 ∧ l'.depth = 0 := by
  cases l <;> cases h <;> exact ⟨rfl, rfl⟩

/-- The parentheses of a phrase are balanced, but for the one of a call that goes on. -/
theorem Derives.outer_append (h : Derives l ts t) :
    ∀ depth rest, outer depth (ts ++ rest) =
      (if depth = 0 then outer 0 ts else []) ++ outer (depth + l.depth) rest := by
  induction h with
  | word w | number n =>
    intro depth rest
    rcases depth with _ | depth <;> rfl
  | group _ ih | member _ w ih | call _ ih | close _ ih =>
    intro depth rest
    rcases depth with _ | depth <;> simp [outer, ih, Level.depth]
  | @first _ us _ _ _ _ ihf iha | @further _ us _ _ _ _ ihf iha =>
    intro depth rest
    have hinside : outer 1 us = [] := by simpa [Level.depth, outer] using iha 1 []
    rcases depth with _ | depth <;> simp [outer, ihf, iha, hinside, Level.depth]
  | sign hop _ ih =>
    intro depth rest
    have hflat := Token.isFlat_of_isOperator (Token.isOperator_of_isSign hop)
    rcases depth with _ | depth <;> simp [outer_cons hflat, ih, Level.depth]
  | binary hl hop _ _ iha ihb =>
    intro depth rest
    have hflat := Token.isFlat_of_isOperator (Level.isOperator_of_takes hop)
    obtain ⟨h, h'⟩ := Level.depth_of_next? hl
    rcases depth with _ | depth <;> simp [outer_cons hflat, iha, ihb, h, h']
  | choose _ _ _ ihc iha ihb =>
    intro depth rest
    rcases depth with _ | depth <;> simp [outer, ihc, iha, ihb, Level.depth]
  | loosen hl _ ih =>
    intro depth rest
    obtain ⟨h, h'⟩ := Level.depth_of_next? hl
    rw [ih, h, h']

/-- A phrase without operators outside of parentheses binds tightest. -/
theorem Derives.primary_of_outer (h : Derives l ts t) (hl : l ≠ .application)
    (hno : ∀ tok ∈ outer 0 ts, tok.isOperator = false) :
    Derives .primary ts t := by
  have habsurd (tok : Token) (hmem : tok ∈ outer 0 ts) (hop : tok.isOperator = true) : False := by
    rw [hno tok hmem] at hop
    cases hop
  induction h with
  | word w => exact .word w
  | number n => exact .number n
  | group h => exact .group h
  | member h w => exact .member h w
  | call h => exact .call h
  | first => exact absurd rfl hl
  | further => exact absurd rfl hl
  | close h => exact .close h
  | sign hop =>
    have hop := Token.isOperator_of_isSign hop
    refine (habsurd _ ?_ hop).elim
    rw [outer_cons (Token.isFlat_of_isOperator hop)]
    exact List.mem_cons_self
  | binary hnext hop ha _ =>
    have hop := Level.isOperator_of_takes hop
    refine (habsurd _ ?_ hop).elim
    rw [ha.outer_append, (Level.depth_of_next? hnext).1,
      outer_cons (Token.isFlat_of_isOperator hop)]
    simp
  | choose hc =>
    refine (habsurd (.symbol '?') ?_ rfl).elim
    rw [hc.outer_append, outer_cons rfl]
    simp [Level.depth]
  | loosen hnext h ih => exact ih (Level.next?_ne hnext).2.2 hno habsurd

/-! ### Atomic texts -/

theorem outer_append_of_flat {us : List Token} (h : ∀ tok ∈ us, tok.isFlat = true)
    (depth : Nat) (ts : List Token) :
    outer depth (us ++ ts) = (if depth = 0 then us else []) ++ outer depth ts := by
  induction us with
  | nil => simp
  | cons tok us ih =>
    rw [List.cons_append, outer_cons (h tok List.mem_cons_self)]
    have ih := ih fun tok' ht => h tok' (List.mem_cons_of_mem tok ht)
    rcases depth with _ | depth <;> simp_all

/-- No comparison is being read. -/
def Reading.isQuiet : Reading → Bool
  | .relation _ => false
  | _ => true

/-- A step begins something new, or it goes on with what is being read. -/
theorem Reading.step_cases (r : Reading) (c : Char) :
    r.step c = r.next c ∨ (r.step c).1 = [] ∧ (r.step c).2.isQuiet = r.isQuiet := by
  cases r with
  | idle => exact .inl rfl
  | word t | pointed t | relation t =>
    rw [Reading.step]
    split
    · exact .inr ⟨rfl, rfl⟩
    · exact .inl rfl
  | number t =>
    rw [Reading.step]
    split
    · exact .inr ⟨rfl, rfl⟩
    · split
      · exact .inr ⟨rfl, rfl⟩
      · exact .inl rfl

theorem Reading.isFlat_of_mem_flush : ∀ tok ∈ r.flush, tok.isFlat = true := by
  cases r <;> simp [Reading.flush, Token.isFlat]

theorem Reading.isFlat_of_mem_step (hopen : c ≠ '(') (hclose : c ≠ ')') (r : Reading) :
    ∀ tok ∈ (r.step c).1, tok.isFlat = true := by
  have hstart : ∀ tok ∈ (Reading.start c).1, tok.isFlat = true := by
    unfold Reading.start
    (repeat' split) <;> simp [Token.isFlat, hopen, hclose]
  intro tok ht
  rcases r.step_cases c with h | ⟨h, -⟩
  · rw [h] at ht
    rcases List.mem_append.mp ht with ht | ht
    · exact isFlat_of_mem_flush tok ht
    · exact hstart tok ht
  · rw [h] at ht
    cases ht

/-- What follows the parenthesis that closes a call, in characters and in tokens. -/
theorem outer_of_afterClosing {rest : List Char} (cs : List Char) :
    ∀ (depth : Nat) (r : Reading), afterClosing (depth + 1) cs = some rest →
      outer (depth + 1) (lexFrom r cs) = outer 0 (lexFrom .idle rest) := by
  have hparen {c : Char} (hc : divides c = true) (hs : Reading.start c = ([.symbol c], .idle))
      (r : Reading) (cs : List Char) (depth : Nat) :
      outer (depth + 1) (lexFrom r (c :: cs)) =
        outer (depth + 1) (.symbol c :: lexFrom .idle cs) := by
    rw [lexFrom_cons, Reading.step_of_divides hc, Reading.next, hs, List.append_assoc,
      outer_append_of_flat Reading.isFlat_of_mem_flush]
    rfl
  induction cs with
  | nil =>
    intro depth r h
    cases h
  | cons c cs ih =>
    intro depth r h
    by_cases hopen : c = '('
    · subst hopen
      rw [hparen rfl rfl]
      exact ih (depth + 1) .idle h
    · by_cases hclose : c = ')'
      · subst hclose
        rw [hparen rfl rfl]
        rcases depth with _ | depth
        · cases h
          rfl
        · exact ih depth .idle h
      · rw [lexFrom_cons, outer_append_of_flat (Reading.isFlat_of_mem_step hopen hclose r)]
        exact ih depth _ (by simpa [afterClosing, hopen, hclose] using h)

/-- Tokens of references and of the names of functions. -/
def Token.isQuiet : Token → Bool
  | .word _ => true
  | .number _ => true
  | .relation _ => false
  | .symbol c => c == '.' || c == ':'

theorem Token.isFlat_of_isQuiet (h : tok.isQuiet = true) : tok.isFlat = true := by
  cases tok with
  | symbol c =>
    simp only [Token.isQuiet, Bool.or_eq_true, beq_iff_eq] at h
    rcases h with rfl | rfl <;> rfl
  | _ => rfl

theorem Token.isOperator_of_isQuiet (h : tok.isQuiet = true) :
    tok.isOperator = false := by
  cases tok with
  | symbol c =>
    simp only [Token.isQuiet, Bool.or_eq_true, beq_iff_eq] at h
    rcases h with rfl | rfl <;> rfl
  | relation t => cases h
  | _ => rfl

theorem Reading.isQuiet_of_mem_flush (hr : r.isQuiet = true) :
    ∀ tok ∈ r.flush, tok.isQuiet = true := by
  cases r with
  | relation t => cases hr
  | _ => simp [Reading.flush, Token.isQuiet]

theorem Reading.start_quiet (hc : (isPathChar c || c == ':') = true) :
    (∀ tok ∈ (Reading.start c).1, tok.isQuiet = true) ∧ (Reading.start c).2.isQuiet = true := by
  simp only [isPathChar, Bool.or_eq_true, beq_iff_eq] at hc
  rcases hc with (hc | rfl) | rfl
  · unfold Reading.start
    rw [isBlank_of_isWordChar hc, if_neg (by decide)]
    split
    · exact ⟨by simp, rfl⟩
    · exact ⟨by simp, rfl⟩
  · exact ⟨by decide, rfl⟩
  · exact ⟨by decide, rfl⟩

theorem Reading.step_quiet (hc : (isPathChar c || c == ':') = true) (hr : r.isQuiet = true) :
    (∀ tok ∈ (r.step c).1, tok.isQuiet = true) ∧ (r.step c).2.isQuiet = true := by
  rcases r.step_cases c with h | ⟨h, hsame⟩
  · rw [h]
    refine ⟨fun tok ht => ?_, (start_quiet hc).2⟩
    rcases List.mem_append.mp ht with ht | ht
    · exact isQuiet_of_mem_flush hr tok ht
    · exact (start_quiet hc).1 tok ht
  · rw [h, hsame]
    exact ⟨by simp, hr⟩

/-- Paths and the names of functions consist of quiet tokens. -/
theorem isQuiet_of_mem_lexFrom (h : ∀ c ∈ cs, (isPathChar c || c == ':') = true) :
    ∀ r : Reading, r.isQuiet = true → ∀ tok ∈ lexFrom r cs, tok.isQuiet = true := by
  induction cs with
  | nil => exact fun r hr => Reading.isQuiet_of_mem_flush hr
  | cons c cs ih =>
    intro r hr tok ht
    obtain ⟨hnow, hlater⟩ := Reading.step_quiet (h c List.mem_cons_self) hr
    rcases List.mem_append.mp ht with ht | ht
    · exact hnow tok ht
    · exact ih (fun d hd => h d (List.mem_cons_of_mem c hd)) _ hlater tok ht

/-- No operator stands in a path, and none in a call outside of its parentheses. -/
theorem isOperator_of_mem_outer (h : cs.all isPathChar = true ∨ isCall cs = true) :
    ∀ tok ∈ outer 0 (lexFrom .idle cs), tok.isOperator = false := by
  have hquiet {ds : List Char} (hds : ∀ c ∈ ds, (isPathChar c || c == ':') = true)
      (ts : List Token) : outer 0 (lexFrom .idle ds ++ ts) = lexFrom .idle ds ++ outer 0 ts :=
    outer_append_of_flat
      (fun tok ht => Token.isFlat_of_isQuiet (isQuiet_of_mem_lexFrom hds .idle rfl tok ht)) 0 ts
  have hpath {ds : List Char} (hds : ds.all isPathChar = true) :
      ∀ tok ∈ outer 0 (lexFrom .idle ds), tok.isOperator = false := by
    have hds : ∀ c ∈ ds, (isPathChar c || c == ':') = true := fun c hc => by
      rw [List.all_eq_true.mp hds c hc]
      rfl
    intro tok ht
    rw [← List.append_nil (lexFrom _ _), hquiet hds, outer, List.append_nil] at ht
    exact Token.isOperator_of_isQuiet (isQuiet_of_mem_lexFrom hds .idle rfl tok ht)
  rcases h with h | h
  · exact hpath h
  · unfold isCall isCallHead at h
    rw [Bool.and_eq_true, Bool.and_eq_true] at h
    obtain ⟨⟨-, hhead⟩, h⟩ := h
    have hhead := List.all_eq_true.mp hhead
    -- the text is cut at its first parenthesis
    rw [← List.takeWhile_append_dropWhile (p := (· != '(')) (l := cs)]
    cases hd : cs.dropWhile (· != '(') with
    | nil =>
      rw [hd] at h
      cases h
    | cons c ds =>
      have hc : c = '(' := by
        have := List.head?_dropWhile_not (· != '(') cs
        rw [hd] at this
        simpa using this
      subst hc
      rw [hd] at h
      split at h
      · next rest hr =>
        have hopen : lexFrom .idle ('(' :: ds) = .symbol '(' :: lexFrom .idle ds := rfl
        rw [lexFrom_append_of_divides rfl, hquiet hhead, hopen]
        intro tok ht
        rcases List.mem_append.mp ht with ht | ht
        · exact Token.isOperator_of_isQuiet (isQuiet_of_mem_lexFrom hhead .idle rfl tok ht)
        · refine hpath h tok ?_
          rw [← outer_of_afterClosing ds 0 .idle hr]
          exact ht
      · cases h

/-- **An atomic text that is a phrase binds tightest.** -/
theorem derives_of_isAtomic {code : String} (h : isAtomic code = true)
    (hd : Derives .choice (tokens code) t) : Derives .primary (tokens code) t := by
  refine hd.primary_of_outer (by decide) ?_
  unfold isAtomic at h
  simp only [Bool.and_eq_true, Bool.or_eq_true] at h
  unfold tokens
  rw [← lexFrom_trim]
  exact isOperator_of_mem_outer h.2

/-! ### Numbers -/

/-- A number without sign: digits, a point, digits and a suffix. -/
def IsNumeral (cs : List Char) : Prop :=
  ∃ whole fraction : List Char, whole ≠ [] ∧ fraction ≠ [] ∧
    (∀ c ∈ whole, c.isDigit = true) ∧ (∀ c ∈ fraction, c.isDigit = true) ∧
      cs = whole ++ '.' :: fraction ++ ['f']

theorem lexFrom_number {ds : List Char} (h : ∀ c ∈ ds, isWordChar c = true) (es : List Char) :
    ∀ cs, lexFrom (.number cs) (ds ++ es) = lexFrom (.number (cs ++ ds)) es := by
  induction ds with
  | nil =>
    intro cs
    rw [List.append_nil, List.nil_append]
  | cons d ds ih =>
    intro cs
    have hd : (Reading.number cs).step d = ([], .number (cs ++ [d])) := by
      simp [Reading.step, continuesNumber, h d List.mem_cons_self]
    rw [List.cons_append, lexFrom_cons, hd, ih fun c hc => h c (List.mem_cons_of_mem d hc)]
    simp

theorem step_of_isDigit (h : c.isDigit = true) :
    Reading.idle.step c = ([], .number [c]) := by
  simp [Reading.step, Reading.start, isBlank_of_isWordChar (isWordChar_of_isDigit h), h]

theorem lexFrom_digits (hne : cs ≠ []) (h : ∀ c ∈ cs, c.isDigit = true) :
    lexFrom .idle cs = [.number cs] := by
  obtain ⟨d, ds, rfl⟩ := List.exists_cons_of_ne_nil hne
  have hds : ∀ c ∈ ds, isWordChar c = true :=
    fun c hc => isWordChar_of_isDigit (h c (List.mem_cons_of_mem d hc))
  calc lexFrom .idle (d :: ds)
      = lexFrom (.number [d]) (ds ++ []) := by
        rw [lexFrom_cons, step_of_isDigit (h d List.mem_cons_self), List.append_nil]
        rfl
    _ = lexFrom (.number (d :: ds)) [] := lexFrom_number hds _ _
    _ = [.number (d :: ds)] := rfl

/-- Digits, a point, digits and a suffix are one token. -/
theorem lexFrom_decimal {whole fraction suffix : List Char} (hwhole : whole ≠ [])
    (hfraction : fraction ≠ []) (hw : ∀ c ∈ whole, c.isDigit = true)
    (hf : ∀ c ∈ fraction, c.isDigit = true) (hs : ∀ c ∈ suffix, isWordChar c = true) :
    lexFrom .idle (whole ++ '.' :: fraction ++ suffix) =
      [.number (whole ++ '.' :: fraction ++ suffix)] := by
  obtain ⟨w, ws, rfl⟩ := List.exists_cons_of_ne_nil hwhole
  obtain ⟨d, ds, rfl⟩ := List.exists_cons_of_ne_nil hfraction
  have hws : ∀ c ∈ ws, isWordChar c = true :=
    fun c hc => isWordChar_of_isDigit (hw c (List.mem_cons_of_mem w hc))
  have hds : ∀ c ∈ ds ++ suffix, isWordChar c = true := by
    intro c hc
    rcases List.mem_append.mp hc with hc | hc
    · exact isWordChar_of_isDigit (hf c (List.mem_cons_of_mem d hc))
    · exact hs c hc
  have hpoint (text : List Char) : (Reading.number text).step '.' = ([], .pointed text) := rfl
  have hdigit (text : List Char) :
      (Reading.pointed text).step d = ([], .number (text ++ ['.', d])) := by
    simp [Reading.step, hf d List.mem_cons_self]
  calc lexFrom .idle (w :: ws ++ '.' :: (d :: ds) ++ suffix)
      = lexFrom (.number [w]) (ws ++ '.' :: d :: (ds ++ suffix)) := by
        rw [List.append_assoc, List.cons_append, lexFrom_cons,
          step_of_isDigit (hw w List.mem_cons_self)]
        rfl
    _ = lexFrom (.number (w :: ws)) ('.' :: d :: (ds ++ suffix)) := lexFrom_number hws _ _
    _ = lexFrom (.number (w :: ws ++ ['.', d])) (ds ++ suffix ++ []) := by
        rw [lexFrom_cons, hpoint, lexFrom_cons, hdigit, List.append_nil]
        rfl
    _ = lexFrom (.number (w :: ws ++ ['.', d] ++ (ds ++ suffix))) [] := lexFrom_number hds _ _
    _ = [.number (w :: ws ++ '.' :: (d :: ds) ++ suffix)] := by simp [Reading.flush]

theorem IsNumeral.lex (h : IsNumeral cs) : lexFrom .idle cs = [.number cs] := by
  obtain ⟨whole, fraction, hwhole, hfraction, hw, hf, rfl⟩ := h
  exact lexFrom_decimal hwhole hfraction hw hf (by simp [isWordChar])

/-- A decimal without exponent is a numeral but for its suffix, or it has digits only. -/
theorem positional_numeral (d : Number.Decimal) :
    (∀ c ∈ d.positional.toList, c.isDigit = true) ∧ d.positional.toList ≠ [] ∨
      '.' ∈ d.positional.toList ∧ IsNumeral (d.positional.toList ++ ['f']) := by
  have hdigit : ∀ c ∈ Nat.toDigits 10 d.digits, c.isDigit = true :=
    fun c hc => Nat.isDigit_of_mem_toDigits (by decide) (by decide) hc
  have hne : Nat.toDigits 10 d.digits ≠ [] := Nat.toDigits_ne_nil
  have hzeros (n : Nat) : ∀ c ∈ Number.zeros n, c.isDigit = true := by
    intro c hc
    rw [List.eq_of_mem_replicate hc]
    rfl
  unfold Number.Decimal.positional
  dsimp only
  split
  · rw [String.toList_ofList]
    -- no places behind the point: the digits, and zeros behind them
    refine .inl ⟨fun c hc => (List.mem_append.mp hc).elim (hdigit c) (hzeros _ c), ?_⟩
    exact fun h => hne (List.append_eq_nil_iff.mp h).1
  · next hneg =>
    have hplaces : 0 < (-d.exponent).toNat := by omega
    refine .inr ?_
    split
    · next hlt =>
      rw [String.toList_ofList]
      -- the point stands between two digits
      refine ⟨by simp, _, _, ?_, ?_, ?_, ?_, rfl⟩
      · intro h
        have := congrArg List.length h
        rw [List.length_take, List.length_nil] at this
        omega
      · intro h
        have := congrArg List.length h
        rw [List.length_drop, List.length_nil] at this
        omega
      · exact fun c hc => hdigit c (List.mem_of_mem_take hc)
      · exact fun c hc => hdigit c (List.mem_of_mem_drop hc)
    · rw [String.toList_ofList]
      -- the point stands before all digits, behind a zero
      generalize (-d.exponent).toNat - (Nat.toDigits 10 d.digits).length = n
      exact ⟨by simp, ['0'], Number.zeros n ++ Nat.toDigits 10 d.digits, by simp,
        fun h => hne (List.append_eq_nil_iff.mp h).2, by simp,
        fun c hc => (List.mem_append.mp hc).elim (hzeros n c) (hdigit c), rfl⟩

/-- The part of a number's text that is left when its sign and its suffix are taken away. -/
def IsMagnitude (cs : List Char) : Prop :=
  (∀ c ∈ cs, c.isDigit = true) ∧ cs ≠ [] ∨
    '.' ∈ cs ∧ lexFrom .idle (cs ++ ['f']) = [.number (cs ++ ['f'])] ∧ cs.head? ≠ some '-'

theorem isMagnitude_positional (d : Number.Decimal) : IsMagnitude d.positional.toList := by
  rcases positional_numeral d with h | ⟨hpoint, h⟩
  · exact .inl h
  · refine .inr ⟨hpoint, h.lex, ?_⟩
    obtain ⟨whole, fraction, hwhole, -, hw, -, heq⟩ := h
    obtain ⟨w, ws, rfl⟩ := List.exists_cons_of_ne_nil hwhole
    have hdigit := hw w List.mem_cons_self
    cases hcs : d.positional.toList with
    | nil => simp
    | cons c cs =>
      rw [hcs] at heq
      rw [← (List.cons.inj heq).1] at hdigit
      rintro ⟨⟩
      cases hdigit

/-- The text of a component has a sign at most in front of digits. -/
theorem componentText_magnitude (x : Number.Single) :
    ∃ cs, IsMagnitude cs ∧
      ((componentText x).toList = cs ∨ (componentText x).toList = '-' :: cs) := by
  have hsign (text : String) (h : IsMagnitude text.toList) :
      ∃ cs, IsMagnitude cs ∧ ((x.signText ++ text).toList = cs ∨
        (x.signText ++ text).toList = '-' :: cs) := by
    refine ⟨text.toList, h, ?_⟩
    rw [String.toList_append]
    unfold Number.Binary.signText
    split
    · exact .inr rfl
    · exact .inl rfl
  have hzero : IsMagnitude "0".toList := .inl ⟨List.all_eq_true.mp (by decide), by decide⟩
  unfold componentText
  split
  · exact ⟨_, hzero, .inl rfl⟩
  · next hnan =>
    split
    · exact hsign _ (.inr ⟨by decide, by decide, by decide⟩)
    · next hinf =>
      split
      · exact ⟨_, hzero, .inl rfl⟩
      · next hzero =>
        rw [Number.Binary.positional, if_neg hnan, if_neg hinf, if_neg hzero]
        exact hsign _ (isMagnitude_positional _)

/-- The text of a number is one token, perhaps with a sign in front of it. -/
theorem floatLiteral_numeral (x : Number.Single) :
    ∃ cs, lexFrom .idle cs = [.number cs] ∧ cs.head? ≠ some '-' ∧
      ((floatLiteral x).toList = cs ∨ (floatLiteral x).toList = '-' :: cs) := by
  obtain ⟨cs, hcs, htext⟩ := componentText_magnitude x
  unfold floatLiteral
  dsimp only
  rcases hcs with ⟨hdigits, hne⟩ | ⟨hpoint, hlex, hhead⟩
  · -- without a point, the suffix brings one
    have hmarks :
        ((componentText x).toList.any fun c => c == '.' || c == 'e' || c == 'E') = false := by
      refine List.any_eq_false.mpr fun c hc => ?_
      have hc : c.isDigit = true ∨ c = '-' := by
        rcases htext with h | h <;> rw [h] at hc
        · exact .inl (hdigits c hc)
        · exact (List.mem_cons.mp hc).elim .inr fun hc => .inl (hdigits c hc)
      rcases hc with hc | rfl
      · have hother {d : Char} (hd : d.isDigit = false) : c ≠ d := by
          rintro rfl
          rw [hd] at hc
          cases hc
        simp [hother (d := '.') rfl, hother (d := 'e') rfl, hother (d := 'E') rfl]
      · decide
    have hnumeral : IsNumeral (cs ++ ['.', '0', 'f']) :=
      ⟨cs, ['0'], hne, by simp, hdigits, by simp, by simp⟩
    rw [hmarks, if_neg (by decide), String.toList_append]
    refine ⟨_, hnumeral.lex, ?_, ?_⟩
    · obtain ⟨d, ds, rfl⟩ := List.exists_cons_of_ne_nil hne
      rintro ⟨⟩
      cases hdigits '-' List.mem_cons_self
    · exact htext.imp (congrArg (· ++ ['.', '0', 'f'])) (congrArg (· ++ ['.', '0', 'f']))
  · have hmarks :
        ((componentText x).toList.any fun c => c == '.' || c == 'e' || c == 'E') = true := by
      refine List.any_eq_true.mpr ⟨'.', ?_, rfl⟩
      rcases htext with h | h <;> rw [h]
      · exact hpoint
      · exact List.mem_cons_of_mem _ hpoint
    rw [hmarks, if_pos rfl, String.toList_append]
    refine ⟨_, hlex, ?_, htext.imp (congrArg (· ++ ['f'])) (congrArg (· ++ ['f']))⟩
    obtain ⟨d, ds, rfl⟩ := List.exists_cons_of_ne_nil (List.ne_nil_of_mem hpoint)
    exact hhead

/-- The tree of a number, with its sign if it has one. -/
def literalTree (x : Number.Single) : Tree :=
  match (floatLiteral x).toList with
  | '-' :: cs => .sign (.symbol '-') (.number cs)
  | cs => .number cs

/-- **A number is a phrase with one sign at most.** -/
theorem floatLiteral_derives (x : Number.Single) :
    Derives .unary (tokens (floatLiteral x)) (literalTree x) := by
  obtain ⟨cs, hlex, hhead, htext⟩ := floatLiteral_numeral x
  have hnumber : Derives .unary [.number cs] (.number cs) := .loosen rfl (.number cs)
  unfold tokens literalTree
  rcases htext with htext | htext
  · rw [htext, hlex]
    split
    · next ds => exact absurd rfl hhead
    · exact hnumber
  · rw [htext]
    show Derives .unary (.symbol '-' :: lexFrom .idle cs) _
    rw [hlex]
    exact .sign rfl hnumber

/-! ### The trees of expressions -/

/-- A phrase that binds tightest is a phrase of every level. -/
theorem Derives.loosenTo (hl : l ≠ .application) (h : Derives .primary ts t) : Derives l ts t := by
  have hunary : Derives .unary ts t := .loosen rfl h
  have hproduct : Derives .product ts t := .loosen rfl hunary
  have hsum : Derives .sum ts t := .loosen rfl hproduct
  have hcomparison : Derives .comparison ts t := .loosen rfl hsum
  cases l with
  | choice => exact .loosen rfl hcomparison
  | comparison => exact hcomparison
  | sum => exact hsum
  | product => exact hproduct
  | unary => exact hunary
  | primary => exact h
  | application => exact absurd rfl hl

/-- A phrase of any level is a whole expression. -/
theorem Derives.whole (hl : l ≠ .application) (h : Derives l ts t) : Derives .choice ts t := by
  have hcomparison (h : Derives .comparison ts t) : Derives .choice ts t := .loosen rfl h
  have hsum (h : Derives .sum ts t) : Derives .choice ts t := hcomparison (.loosen rfl h)
  have hproduct (h : Derives .product ts t) : Derives .choice ts t := hsum (.loosen rfl h)
  cases l with
  | choice => exact h
  | comparison => exact hcomparison h
  | sum => exact hsum h
  | product => exact hproduct h
  | unary => exact hproduct (.loosen rfl h)
  | primary => exact h.loosenTo (by decide)
  | application => exact absurd rfl hl

/-- The tree of a text that is a phrase of a level. -/
def readText? (l : Level) (text : String) : Option Tree := read? l (tokens text)

end Grammar

namespace Expr

open Grammar

variable {e : Expr} {t : Tree}

/-- The tree of an expression whose text is a phrase of a level. -/
def treeAt? (e : Expr) (l : Level) : Option Tree := readText? l e.code

/-- The tree of an expression. -/
def tree? (e : Expr) : Option Tree := e.treeAt? .choice

theorem derives_of_tree? (h : e.tree? = some t) :
    Derives .choice (tokens e.code) t :=
  (read?_eq_some_iff (by decide)).mp h

theorem tree?_of_derives (h : Derives .choice (tokens e.code) t) :
    e.tree? = some t :=
  (read?_eq_some_iff (by decide)).mpr h

/-- A text that binds tight has the tree that it has anyway. -/
theorem isSome_treeAt?_iff (ht : e.tree? = some t) {l : Level} (hl : l ≠ .application) :
    (e.treeAt? l).isSome = true ↔ Derives l (tokens e.code) t := by
  constructor
  · intro h
    obtain ⟨t', ht'⟩ := Option.isSome_iff_exists.mp h
    have hd : Derives l (tokens e.code) t' := (read?_eq_some_iff hl).mp ht'
    have hsame : some t = some t' := ht.symm.trans (tree?_of_derives (hd.whole hl))
    rw [Option.some.inj hsame]
    exact hd
  · intro h
    exact Option.isSome_iff_exists.mpr ⟨t, (read?_eq_some_iff hl).mpr h⟩

/-- **An operand binds tightest and has the tree of the whole expression.** -/
theorem operand_derives (h : e.tree? = some t) :
    Derives .primary (tokens e.operand) t := by
  have hd := derives_of_tree? h
  unfold operand
  split
  · next hatomic => exact derives_of_isAtomic hatomic hd
  · rw [tokens_close, tokens_open]
    exact .group hd

end Expr

end MaterialGraph
