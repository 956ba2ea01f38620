import MaterialGraph.NodeClass.Selection

/-!
# The grammar of expressions

Program text is read as in the languages that shading languages come from: a choice
`c ? a : b` binds loosest, then comparisons, sums, products and a sign, and calls and
members bind tightest. Operators on one level group to the left. Parentheses leave no trace
in the tree of an expression; they only decide which tree it is.

The grammar is a relation between tokens and trees. Beside it stands a parser, which finds
the tree, so an expression has one tree at most.

## Main definitions

* `Token`, `tokens` — the tokens of a text, read from left to right.
* `Tree`, `Level`, `Derives` — trees, and the phrases of each level.
* `parse`, `read?` — the parser.

## Main results

* `lexFrom_append_of_divides`, `lexFrom_append_point` — where texts can be cut.
* `parse_sound`, `Derives.reads` — the parser finds phrases only, and every phrase.
* `read?_eq_some_iff` — the parser decides the grammar.
-/

namespace MaterialGraph

namespace Grammar

open Text

/-! ### Tokens -/

/-- What a text is made of. -/
inductive Token where
  | word (text : List Char)
  /-- A number, with its suffix and its exponent. -/
  | number (text : List Char)
  /-- A character of comparisons, perhaps with an equals sign after it. -/
  | relation (text : List Char)
  | symbol (c : Char)
  deriving DecidableEq, Repr

/-- What is being read. -/
inductive Reading where
  | idle
  | word (text : List Char)
  | number (text : List Char)
  /-- A number and a point. The point belongs to the number if a digit follows. -/
  | pointed (text : List Char)
  /-- Characters of comparisons. -/
  | relation (text : List Char)

/-- The characters of comparisons. -/
def isRelationChar (c : Char) : Bool := c == '=' || c == '!' || c == '<' || c == '>'

/-- Whether a character goes on with a number. A sign does right after an exponent mark. -/
def continuesNumber (text : List Char) (c : Char) : Bool :=
  isWordChar c || (c == '+' || c == '-') && (text.getLast? == some 'e' || text.getLast? == some 'E')

namespace Reading

/-- What has been read when nothing more comes. -/
def flush : Reading → List Token
  | .idle => []
  | .word text => [.word text]
  | .number text => [.number text]
  | .pointed text => [.number text, .symbol '.']
  | .relation text => [.relation text]

/-- A character with which something new begins. -/
def start (c : Char) : List Token × Reading :=
  if isBlank c then ([], .idle)
  else if c.isDigit then ([], .number [c])
  else if isWordChar c then ([], .word [c])
  else if isRelationChar c then ([], .relation [c])
  else ([.symbol c], .idle)

/-- The tokens of what has been read, and something new. -/
def next (r : Reading) (c : Char) : List Token × Reading := (r.flush ++ (start c).1, (start c).2)

/-- One character more. -/
def step (r : Reading) (c : Char) : List Token × Reading :=
  match r with
  | .idle => start c
  | .word text => if isWordChar c then ([], .word (text ++ [c])) else r.next c
  | .number text =>
    if continuesNumber text c then ([], .number (text ++ [c]))
    else if c = '.' then ([], .pointed text)
    else r.next c
  | .pointed text => if c.isDigit then ([], .number (text ++ ['.', c])) else r.next c
  | .relation text =>
    if text.length = 1 ∧ c = '=' then ([], .relation (text ++ [c])) else r.next c

end Reading

/-- The tokens of a text, after something has been read. -/
def lexFrom : Reading → List Char → List Token
  | r, [] => r.flush
  | r, c :: cs => (r.step c).1 ++ lexFrom (r.step c).2 cs

@[simp] theorem lexFrom_nil (r : Reading) : lexFrom r [] = r.flush := rfl

@[simp] theorem lexFrom_cons (r : Reading) (c : Char) (cs : List Char) :
    lexFrom r (c :: cs) = (r.step c).1 ++ lexFrom (r.step c).2 cs := rfl

/-- The tokens of a text. -/
def tokens (text : String) : List Token := lexFrom .idle text.toList

/-- Characters that go on with no token. -/
def divides (c : Char) : Bool :=
  !isWordChar c && !isRelationChar c && c != '+' && c != '-' && c != '.'

theorem isWordChar_of_isDigit {c : Char} (h : c.isDigit = true) : isWordChar c = true := by
  simp [isWordChar, Char.isAlphanum, h]

namespace Reading

theorem step_of_divides {c : Char} (h : divides c = true) (r : Reading) :
    r.step c = r.next c := by
  simp only [divides, Bool.and_eq_true, Bool.not_eq_true', bne_iff_ne] at h
  obtain ⟨⟨⟨⟨hword, hrelation⟩, hplus⟩, hminus⟩, hpoint⟩ := h
  have hdigit : c.isDigit = false := by
    rw [← Bool.not_eq_true]
    intro hd
    rw [isWordChar_of_isDigit hd] at hword
    cases hword
  cases r with
  | idle => rfl
  | word text => simp [step, hword]
  | number text => simp [step, continuesNumber, hword, hplus, hminus, hpoint]
  | pointed text => simp [step, hdigit]
  | relation text =>
    have heq : c ≠ '=' := by
      rintro rfl
      cases hrelation
    simp [step, heq]

end Reading

/-- **A text can be cut at a character that goes on with no token.** -/
theorem lexFrom_append_of_divides {c : Char} (h : divides c = true) (cs ds : List Char) :
    ∀ r, lexFrom r (cs ++ c :: ds) = lexFrom r cs ++ lexFrom .idle (c :: ds) := by
  induction cs with
  | nil =>
    intro r
    show (r.step c).1 ++ lexFrom (r.step c).2 ds = r.flush ++ _
    rw [Reading.step_of_divides h, Reading.next, List.append_assoc]
    rfl
  | cons d cs ih =>
    intro r
    rw [List.cons_append, lexFrom_cons, lexFrom_cons, ih, List.append_assoc]

/-- **A text can be cut before a point that no digit follows.** -/
theorem lexFrom_append_point {d : Char} (h : d.isDigit = false) (cs ds : List Char) :
    ∀ r, lexFrom r (cs ++ '.' :: d :: ds) =
      lexFrom r cs ++ .symbol '.' :: lexFrom .idle (d :: ds) := by
  induction cs with
  | nil =>
    intro r
    cases r with
    | number text =>
      have hstep : (Reading.pointed text).step d = (Reading.pointed text).next d := by
        simp [Reading.step, h]
      show ((Reading.pointed text).step d).1 ++ lexFrom ((Reading.pointed text).step d).2 ds = _
      rw [hstep, Reading.next, List.append_assoc]
      rfl
    | idle => rfl
    | word text => rfl
    | pointed text => rfl
    | relation text =>
      have hstep : (Reading.relation text).step '.' = (Reading.relation text).next '.' := by
        simp [Reading.step]
      rw [List.nil_append, lexFrom_cons, hstep, Reading.next, List.append_assoc]
      rfl
  | cons c cs ih =>
    intro r
    rw [List.cons_append, lexFrom_cons, lexFrom_cons, ih, List.append_assoc]

/-! ### Trees and phrases -/

/-- The trees of expressions. -/
inductive Tree where
  | word (text : List Char)
  | number (text : List Char)
  | member (value : Tree) (name : List Char)
  /-- A call, as yet without arguments. -/
  | call (function : Tree)
  /-- A call with one argument more. -/
  | argument (call value : Tree)
  | sign (operator : Token) (value : Tree)
  | binary (operator : Token) (a b : Tree)
  | choose (condition on off : Tree)
  deriving DecidableEq, Repr

/-- The levels of phrases, from those that bind loosest. -/
inductive Level where
  | choice
  | comparison
  | sum
  | product
  | unary
  /-- Names, numbers, members, calls, and anything in parentheses. -/
  | primary
  /-- Calls up to one of their arguments. -/
  | application
  deriving DecidableEq, Repr

variable {ts rest : List Token} {n : Nat} {l l' : Level} {t : Tree} {x : Tree × List Token}

namespace Level

/-- The next level that binds tighter. -/
def next? : Level → Option Level
  | .choice => some .comparison
  | .comparison => some .sum
  | .sum => some .product
  | .product => some .unary
  | .unary => some .primary
  | .primary => none
  | .application => none

/-- How tight a level binds. -/
def rank : Level → Nat
  | .choice => 0
  | .comparison => 2
  | .sum => 3
  | .product => 4
  | .unary => 5
  | .primary => 6
  | .application => 0

end Level

/-- How tight a token binds what stands before it, if it goes on with that: as tight as the
level at which it does. -/
def Token.grip : Token → Nat
  | .symbol '?' => 1
  | .relation text => if Comparison.all.any (·.symbol.toList == text) then 2 else 0
  | .symbol '+' => 3
  | .symbol '-' => 3
  | .symbol '*' => 4
  | .symbol '/' => 4
  | .symbol '%' => 4
  | .symbol '.' => 6
  | .symbol '(' => 6
  | _ => 0

/-- The operators that stand before their operand. -/
def Token.isSign : Token → Bool
  | .symbol '-' => true
  | .symbol '+' => true
  | .symbol '~' => true
  | .relation ['!'] => true
  | _ => false

/-- The operators of a level. -/
def Level.takes : Level → Token → Bool
  | .comparison, op => op.grip == 2
  | .sum, op => op.grip == 3
  | .product, op => op.grip == 4
  | _, _ => false

/-- The phrases of each level, with their trees. -/
inductive Derives : Level → List Token → Tree → Prop where
  | word (w : List Char) : Derives .primary [.word w] (.word w)
  | number (n : List Char) : Derives .primary [.number n] (.number n)
  /-- Anything in parentheses. -/
  | group {ts : List Token} {t : Tree} (h : Derives .choice ts t) :
      Derives .primary (.symbol '(' :: ts ++ [.symbol ')']) t
  | member {ts : List Token} {t : Tree} (h : Derives .primary ts t) (w : List Char) :
      Derives .primary (ts ++ [.symbol '.', .word w]) (.member t w)
  | call {ts : List Token} {t : Tree} (h : Derives .primary ts t) :
      Derives .primary (ts ++ [.symbol '(', .symbol ')']) (.call t)
  /-- The first argument of a call. -/
  | first {ts us : List Token} {f a : Tree} (hf : Derives .primary ts f)
      (ha : Derives .choice us a) :
      Derives .application (ts ++ .symbol '(' :: us) (.argument (.call f) a)
  /-- A further argument of a call. -/
  | further {ts us : List Token} {f a : Tree} (hf : Derives .application ts f)
      (ha : Derives .choice us a) :
      Derives .application (ts ++ .symbol ',' :: us) (.argument f a)
  /-- A call with all its arguments. -/
  | close {ts : List Token} {t : Tree} (h : Derives .application ts t) :
      Derives .primary (ts ++ [.symbol ')']) t
  /-- A sign. The operand may have signs of its own. -/
  | sign {op : Token} {ts : List Token} {t : Tree} (hop : op.isSign = true)
      (h : Derives .unary ts t) : Derives .unary (op :: ts) (.sign op t)
  /-- An operator. The operand before it may be of the same level. -/
  | binary {l l' : Level} {op : Token} {ts us : List Token} {a b : Tree}
      (hl : l.next? = some l') (hop : l.takes op = true) (ha : Derives l ts a)
      (hb : Derives l' us b) : Derives l (ts ++ op :: us) (.binary op a b)
  | choose {cs ts us : List Token} {c a b : Tree} (hc : Derives .comparison cs c)
      (ha : Derives .choice ts a) (hb : Derives .choice us b) :
      Derives .choice (cs ++ .symbol '?' :: (ts ++ .symbol ':' :: us)) (.choose c a b)
  /-- A phrase that binds tighter than it has to. -/
  | loosen {l l' : Level} {ts : List Token} {t : Tree} (hl : l.next? = some l')
      (h : Derives l' ts t) : Derives l ts t

/-! ### The parser -/

/-- What is to be read: a phrase, or how one goes on that has been read in part. -/
inductive Goal where
  | start (l : Level)
  /-- What follows a phrase that may be the first part of a longer one. -/
  | rest (l : Level) (left : Tree)

/-- A way to read: the tree and the tokens after it. -/
abbrev Parser := Goal → List Token → Option (Tree × List Token)

/-- The tokens after a symbol. -/
def expect (c : Char) : List Token → Option (List Token)
  | .symbol d :: ts => if d = c then some ts else none
  | _ => none

section Steps

variable (rec : Parser)

/-- A name, a number or a phrase in parentheses, and what is done with it. -/
def startPrimary : List Token → Option (Tree × List Token)
  | .word w :: ts => rec (.rest .primary (.word w)) ts
  | .number n :: ts => rec (.rest .primary (.number n)) ts
  | .symbol '(' :: ts => do
    let (t, ts) ← rec (.start .choice) ts
    let ts ← expect ')' ts
    rec (.rest .primary t) ts
  | _ => none

/-- Signs, and what they are put before. -/
def startUnary : List Token → Option (Tree × List Token)
  | [] => none
  | op :: ts =>
    if op.isSign then do
      let (t, ts) ← rec (.start .unary) ts
      return (.sign op t, ts)
    else rec (.start .primary) (op :: ts)

/-- A phrase of the next level, and how it goes on. -/
def startNext (l : Level) (ts : List Token) : Option (Tree × List Token) := do
  let l' ← l.next?
  let (a, ts) ← rec (.start l') ts
  rec (.rest l a) ts

/-- Two values to choose from, if a condition has been read. -/
def restChoice (c : Tree) : List Token → Option (Tree × List Token)
  | .symbol '?' :: ts => do
    let (a, ts) ← rec (.start .choice) ts
    let ts ← expect ':' ts
    let (b, ts) ← rec (.start .choice) ts
    return (.choose c a b, ts)
  | ts => some (c, ts)

/-- Members and arguments. -/
def restPrimary (t : Tree) : List Token → Option (Tree × List Token)
  | .symbol '.' :: .word w :: ts => rec (.rest .primary (.member t w)) ts
  | .symbol '(' :: .symbol ')' :: ts => rec (.rest .primary (.call t)) ts
  | .symbol '(' :: ts => do
    let (a, ts) ← rec (.start .choice) ts
    rec (.rest .application (.argument (.call t) a)) ts
  | ts => some (t, ts)

/-- Further arguments, up to the parenthesis that closes them. -/
def restApplication (t : Tree) : List Token → Option (Tree × List Token)
  | .symbol ',' :: ts => do
    let (a, ts) ← rec (.start .choice) ts
    rec (.rest .application (.argument t a)) ts
  | .symbol ')' :: ts => rec (.rest .primary t) ts
  | _ => none

/-- An operator and its second operand, if an operator of the level follows. -/
def restOperator (l : Level) (a : Tree) : List Token → Option (Tree × List Token)
  | [] => some (a, [])
  | op :: ts =>
    if l.takes op then do
      let l' ← l.next?
      let (b, ts) ← rec (.start l') ts
      rec (.rest l (.binary op a b)) ts
    else some (a, op :: ts)

/-- One step of the parser, with `rec` for what follows. -/
def parseStep : Parser
  | .start .primary, ts => startPrimary rec ts
  | .start .unary, ts => startUnary rec ts
  | .start l, ts => startNext rec l ts
  | .rest .choice c, ts => restChoice rec c ts
  | .rest .primary t, ts => restPrimary rec t ts
  | .rest .application t, ts => restApplication rec t ts
  | .rest l a, ts => restOperator rec l a ts

end Steps

/-- Reading with a bound on how deep steps are nested. -/
def parse : (fuel : Nat) → Parser
  | 0, _, _ => none
  | fuel + 1, goal, ts => parseStep (parse fuel) goal ts

/-- The tree of tokens that are a phrase of a level. -/
def read? (l : Level) (ts : List Token) : Option Tree :=
  match parse (8 * ts.length + 6) (.start l) ts with
  | some (t, []) => some t
  | _ => none

/-! ### The parser finds phrases only -/

/-- What reading a goal must give. -/
def Goal.Meets : Goal → List Token → Tree → Prop
  | .start l, us, t => Derives l us t
  | .rest .choice a, us, t => ∀ ts, Derives .comparison ts a → Derives .choice (ts ++ us) t
  | .rest .application a, us, t => ∀ ts, Derives .application ts a → Derives .primary (ts ++ us) t
  | .rest l a, us, t => ∀ ts, Derives l ts a → Derives l (ts ++ us) t

/-- A parser that finds phrases only. -/
def Parser.Sound (rec : Parser) : Prop :=
  ∀ goal ts t rest, rec goal ts = some (t, rest) → ∃ us, ts = us ++ rest ∧ goal.Meets us t

theorem expect_eq_some {c : Char} {us : List Token} (h : expect c ts = some us) :
    ts = .symbol c :: us := by
  unfold expect at h
  split at h
  · split at h
    · next hd =>
      cases h
      rw [hd]
    · cases h
  · cases h

section Sound

variable {rec : Parser} {ts rest : List Token} {t : Tree}

theorem startPrimary_sound (h : rec.Sound) (hp : startPrimary rec ts = some (t, rest)) :
    ∃ us, ts = us ++ rest ∧ Derives .primary us t := by
  unfold startPrimary at hp
  split at hp
  · next w ts =>
    obtain ⟨us, rfl, hm⟩ := h _ _ _ _ hp
    exact ⟨.word w :: us, rfl, hm _ (.word w)⟩
  · next n ts =>
    obtain ⟨us, rfl, hm⟩ := h _ _ _ _ hp
    exact ⟨.number n :: us, rfl, hm _ (.number n)⟩
  · next ts =>
    simp only [Option.bind_eq_bind, Option.bind_eq_some_iff] at hp
    obtain ⟨⟨a, ts₁⟩, ha, ts₂, hclose, hp⟩ := hp
    obtain ⟨us, rfl, hgroup⟩ := h _ _ _ _ ha
    obtain ⟨vs, rfl, hm⟩ := h _ _ _ _ hp
    obtain rfl := expect_eq_some hclose
    refine ⟨.symbol '(' :: us ++ .symbol ')' :: vs, by simp, ?_⟩
    simpa using hm _ (.group hgroup)
  · cases hp

theorem startUnary_sound (h : rec.Sound) (hp : startUnary rec ts = some (t, rest)) :
    ∃ us, ts = us ++ rest ∧ Derives .unary us t := by
  cases ts with
  | nil => cases hp
  | cons op ts =>
    rw [startUnary] at hp
    split at hp
    · next hop =>
      simp only [Option.bind_eq_bind, Option.bind_eq_some_iff] at hp
      obtain ⟨⟨a, ts₁⟩, ha, hp⟩ := hp
      obtain ⟨us, rfl, hm⟩ := h _ _ _ _ ha
      cases hp
      exact ⟨op :: us, rfl, .sign hop hm⟩
    · obtain ⟨us, hts, hm⟩ := h _ _ _ _ hp
      exact ⟨us, hts, .loosen rfl hm⟩

theorem startNext_sound (h : rec.Sound) {l : Level} (hp : startNext rec l ts = some (t, rest)) :
    ∃ us, ts = us ++ rest ∧ Derives l us t := by
  simp only [startNext, Option.bind_eq_bind, Option.bind_eq_some_iff] at hp
  obtain ⟨l', hl, ⟨a, ts₁⟩, ha, hp⟩ := hp
  obtain ⟨us, rfl, hm⟩ := h _ _ _ _ ha
  obtain ⟨vs, rfl, hrest⟩ := h _ _ _ _ hp
  refine ⟨us ++ vs, by simp, ?_⟩
  cases l with
  | application => cases hl
  | choice =>
    cases hl
    exact hrest us hm
  | _ => exact hrest us (.loosen hl hm)

theorem restChoice_sound (h : rec.Sound) {c : Tree} (hp : restChoice rec c ts = some (t, rest)) :
    ∃ us, ts = us ++ rest ∧ Goal.Meets (.rest .choice c) us t := by
  unfold restChoice at hp
  split at hp
  · simp only [Option.bind_eq_bind, Option.bind_eq_some_iff] at hp
    obtain ⟨⟨a, ts₁⟩, ha, ts₂, hcolon, ⟨b, ts₃⟩, hb, hp⟩ := hp
    obtain ⟨us, rfl, hon⟩ := h _ _ _ _ ha
    obtain ⟨vs, rfl, hoff⟩ := h _ _ _ _ hb
    obtain rfl := expect_eq_some hcolon
    cases hp
    exact ⟨.symbol '?' :: (us ++ .symbol ':' :: vs), by simp, fun ws hws => .choose hws hon hoff⟩
  · cases hp
    refine ⟨[], rfl, fun ws hws => ?_⟩
    rw [List.append_nil]
    exact .loosen rfl hws

theorem restPrimary_sound (h : rec.Sound) {a : Tree} (hp : restPrimary rec a ts = some (t, rest)) :
    ∃ us, ts = us ++ rest ∧ Goal.Meets (.rest .primary a) us t := by
  unfold restPrimary at hp
  split at hp
  · next w ts =>
    obtain ⟨us, rfl, hm⟩ := h _ _ _ _ hp
    refine ⟨.symbol '.' :: .word w :: us, rfl, fun ws hws => ?_⟩
    simpa using hm _ (.member hws w)
  · obtain ⟨us, rfl, hm⟩ := h _ _ _ _ hp
    refine ⟨.symbol '(' :: .symbol ')' :: us, rfl, fun ws hws => ?_⟩
    simpa using hm _ (.call hws)
  · simp only [Option.bind_eq_bind, Option.bind_eq_some_iff] at hp
    obtain ⟨⟨b, ts₁⟩, hb, hp⟩ := hp
    obtain ⟨us, rfl, hargument⟩ := h _ _ _ _ hb
    obtain ⟨vs, rfl, hm⟩ := h _ _ _ _ hp
    refine ⟨.symbol '(' :: us ++ vs, by simp, fun ws hws => ?_⟩
    simpa using hm _ (.first hws hargument)
  · cases hp
    refine ⟨[], rfl, fun ws hws => ?_⟩
    rw [List.append_nil]
    exact hws

theorem restApplication_sound (h : rec.Sound) {a : Tree}
    (hp : restApplication rec a ts = some (t, rest)) :
    ∃ us, ts = us ++ rest ∧ Goal.Meets (.rest .application a) us t := by
  unfold restApplication at hp
  split at hp
  · simp only [Option.bind_eq_bind, Option.bind_eq_some_iff] at hp
    obtain ⟨⟨b, ts₁⟩, hb, hp⟩ := hp
    obtain ⟨us, rfl, hargument⟩ := h _ _ _ _ hb
    obtain ⟨vs, rfl, hm⟩ := h _ _ _ _ hp
    refine ⟨.symbol ',' :: us ++ vs, by simp, fun ws hws => ?_⟩
    simpa using hm _ (.further hws hargument)
  · obtain ⟨us, rfl, hm⟩ := h _ _ _ _ hp
    refine ⟨.symbol ')' :: us, rfl, fun ws hws => ?_⟩
    simpa using hm _ (.close hws)
  · cases hp

theorem restOperator_sound (h : rec.Sound) {l : Level} (hc : l ≠ .choice) (ha : l ≠ .application)
    {a : Tree} (hp : restOperator rec l a ts = some (t, rest)) :
    ∃ us, ts = us ++ rest ∧ Goal.Meets (.rest l a) us t := by
  have hmeets : ∀ {a us t}, Goal.Meets (.rest l a) us t ↔
      ∀ ts, Derives l ts a → Derives l (ts ++ us) t := by
    intro a us t
    cases l with
    | choice => exact absurd rfl hc
    | application => exact absurd rfl ha
    | _ => exact Iff.rfl
  have hsame : Goal.Meets (.rest l a) [] a := by
    refine hmeets.mpr fun ws hws => ?_
    rw [List.append_nil]
    exact hws
  cases ts with
  | nil =>
    cases hp
    exact ⟨[], rfl, hsame⟩
  | cons op us =>
    rw [restOperator] at hp
    split at hp
    · next hop =>
      simp only [Option.bind_eq_bind, Option.bind_eq_some_iff] at hp
      obtain ⟨l', hl, ⟨b, ts₁⟩, hb, hp⟩ := hp
      obtain ⟨vs, rfl, hoperand⟩ := h _ _ _ _ hb
      obtain ⟨xs, rfl, hm⟩ := h _ _ _ _ hp
      refine ⟨op :: vs ++ xs, by simp, hmeets.mpr fun ws hws => ?_⟩
      simpa using hmeets.mp hm _ (.binary hl hop hws hoperand)
    · cases hp
      exact ⟨[], rfl, hsame⟩

/-- One step of reading finds phrases if the steps inside of it do. -/
theorem parseStep_sound (h : rec.Sound) : (parseStep rec).Sound := by
  intro goal ts t rest hp
  cases goal with
  | start l =>
    cases l with
    | primary => exact startPrimary_sound h hp
    | unary => exact startUnary_sound h hp
    | _ => exact startNext_sound h hp
  | rest l a =>
    cases l with
    | choice => exact restChoice_sound h hp
    | primary => exact restPrimary_sound h hp
    | application => exact restApplication_sound h hp
    | _ => exact restOperator_sound h (by decide) (by decide) hp

end Sound

/-- **The parser finds phrases only.** -/
theorem parse_sound (fuel : Nat) : (parse fuel).Sound := by
  induction fuel with
  | zero =>
    intro goal ts t rest hp
    cases hp
  | succ fuel ih => exact parseStep_sound ih

/-! ### The parser finds every phrase -/

/-- More fuel changes nothing that has been found. -/
def Parser.Refines (rec rec' : Parser) : Prop :=
  ∀ goal ts x, rec goal ts = some x → rec' goal ts = some x

section Refines

variable {rec rec' : Parser} {ts : List Token} {x : Tree × List Token}

theorem bind_refines {α β : Type} {x x' : Option α} {k k' : α → Option β} {b : β}
    (hx : ∀ a, x = some a → x' = some a) (hk : ∀ a, k a = some b → k' a = some b)
    (h : (x >>= k) = some b) : (x' >>= k') = some b := by
  rw [Option.bind_eq_bind, Option.bind_eq_some_iff] at h ⊢
  obtain ⟨a, ha, h⟩ := h
  exact ⟨a, hx a ha, hk a h⟩

theorem startPrimary_refines (h : rec.Refines rec') (hp : startPrimary rec ts = some x) :
    startPrimary rec' ts = some x := by
  unfold startPrimary at hp
  split at hp
  · exact h _ _ _ hp
  · exact h _ _ _ hp
  · refine bind_refines (h _ _) (fun y hp => ?_) hp
    exact bind_refines (fun _ hy => hy) (fun z => h _ _ _) hp
  · cases hp

theorem startUnary_refines (h : rec.Refines rec') (hp : startUnary rec ts = some x) :
    startUnary rec' ts = some x := by
  cases ts with
  | nil => cases hp
  | cons op ts =>
    rw [startUnary] at hp ⊢
    split at hp
    · next hop =>
      rw [if_pos hop]
      exact bind_refines (h _ _) (fun y hy => hy) hp
    · next hop =>
      rw [if_neg hop]
      exact h _ _ _ hp

theorem startNext_refines (h : rec.Refines rec') {l : Level} (hp : startNext rec l ts = some x) :
    startNext rec' l ts = some x := by
  refine bind_refines (fun _ hl => hl) (fun l' hp => ?_) hp
  exact bind_refines (h _ _) (fun y => h _ _ _) hp

theorem restChoice_refines (h : rec.Refines rec') {c : Tree} (hp : restChoice rec c ts = some x) :
    restChoice rec' c ts = some x := by
  unfold restChoice at hp
  split at hp
  · refine bind_refines (h _ _) (fun y hp => ?_) hp
    refine bind_refines (fun _ hy => hy) (fun z hp => ?_) hp
    exact bind_refines (h _ _) (fun _ hy => hy) hp
  · next hne =>
    rw [restChoice.eq_2 _ _ _ hne]
    exact hp

theorem restPrimary_refines (h : rec.Refines rec') {a : Tree} (hp : restPrimary rec a ts = some x) :
    restPrimary rec' a ts = some x := by
  unfold restPrimary at hp
  split at hp
  · exact h _ _ _ hp
  · exact h _ _ _ hp
  · next hne =>
    rw [restPrimary.eq_3 _ _ _ hne]
    exact bind_refines (h _ _) (fun y => h _ _ _) hp
  · next hmember hcall hargument =>
    rw [restPrimary.eq_4 _ _ _ hmember hcall hargument]
    exact hp

theorem restApplication_refines (h : rec.Refines rec') {a : Tree}
    (hp : restApplication rec a ts = some x) :
    restApplication rec' a ts = some x := by
  unfold restApplication at hp
  split at hp
  · exact bind_refines (h _ _) (fun y => h _ _ _) hp
  · exact h _ _ _ hp
  · cases hp

theorem restOperator_refines (h : rec.Refines rec') {l : Level} {a : Tree}
    (hp : restOperator rec l a ts = some x) :
    restOperator rec' l a ts = some x := by
  cases ts with
  | nil => exact hp
  | cons op ts =>
    rw [restOperator] at hp ⊢
    split at hp
    · next hop =>
      rw [if_pos hop]
      refine bind_refines (fun _ hl => hl) (fun l' hp => ?_) hp
      exact bind_refines (h _ _) (fun y => h _ _ _) hp
    · next hop =>
      rw [if_neg hop]
      exact hp

theorem parseStep_refines (h : rec.Refines rec') : (parseStep rec).Refines (parseStep rec') := by
  intro goal ts x hp
  cases goal with
  | start l =>
    cases l with
    | primary => exact startPrimary_refines h hp
    | unary => exact startUnary_refines h hp
    | _ => exact startNext_refines h hp
  | rest l a =>
    cases l with
    | choice => exact restChoice_refines h hp
    | primary => exact restPrimary_refines h hp
    | application => exact restApplication_refines h hp
    | _ => exact restOperator_refines h hp

end Refines

/-- What has been found is found with more fuel too. -/
theorem parse_mono {m : Nat} (h : m ≤ n) : (parse m).Refines (parse n) := by
  induction m generalizing n with
  | zero =>
    intro goal ts x hp
    cases hp
  | succ m ih =>
    obtain ⟨n, rfl⟩ := Nat.exists_eq_add_of_lt h
    exact parseStep_refines (ih (by omega))

/-- Tokens with which a phrase can begin, signs apart. -/
def Token.opens : Token → Bool
  | .word _ => true
  | .number _ => true
  | .symbol '(' => true
  | _ => false

theorem Token.isSign_of_opens {tok : Token} (h : tok.opens = true) : tok.isSign = false := by
  unfold Token.opens at h
  split at h <;> first | rfl | cases h

theorem Level.next?_ne (h : l.next? = some l') :
    l ≠ .primary ∧ l ≠ .application ∧ l' ≠ .application := by
  cases l <;> cases h <;> decide

theorem Level.takes_grip {op : Token} (h : l.takes op = true) : op.grip = l.rank := by
  cases l <;> first | exact beq_iff_eq.mp h | cases h

theorem Level.rank_lt (h : l.next? = some l') : l.rank < l'.rank := by
  cases l <;> cases h <;> decide

/-- How a phrase begins. -/
theorem Derives.head (h : Derives l ts t) :
    ∃ tok us, ts = tok :: us ∧
      (tok.opens = true ∨ tok.isSign = true ∧ l ≠ .primary ∧ l ≠ .application) := by
  induction h with
  | word w | number n | group => exact ⟨_, _, rfl, .inl rfl⟩
  | sign hop => exact ⟨_, _, rfl, .inr ⟨hop, by decide, by decide⟩⟩
  | member _ _ ih | call _ ih | further _ _ ih _ | binary _ _ _ _ ih _ =>
    obtain ⟨tok, us, rfl, h⟩ := ih
    exact ⟨tok, _, rfl, h⟩
  | first _ _ ih _ =>
    obtain ⟨tok, us, rfl, h | ⟨-, h, -⟩⟩ := ih
    · exact ⟨tok, _, rfl, .inl h⟩
    · exact absurd rfl h
  | close _ ih =>
    obtain ⟨tok, us, rfl, h | ⟨-, -, h⟩⟩ := ih
    · exact ⟨tok, _, rfl, .inl h⟩
    · exact absurd rfl h
  | choose _ _ _ ih _ _ =>
    obtain ⟨tok, us, rfl, h | ⟨h, -, -⟩⟩ := ih
    · exact ⟨tok, _, rfl, .inl h⟩
    · exact ⟨tok, _, rfl, .inr ⟨h, by decide, by decide⟩⟩
  | loosen hl _ ih =>
    obtain ⟨tok, us, rfl, h | ⟨h, -, -⟩⟩ := ih
    · exact ⟨tok, us, rfl, .inl h⟩
    · exact ⟨tok, us, rfl, .inr ⟨h, (Level.next?_ne hl).1, (Level.next?_ne hl).2.1⟩⟩

/-- How tight the tokens bind with which a phrase of a level goes on. -/
def Level.hold : Level → Nat
  | .choice => 1
  | l => l.rank

/-- A phrase ends where no token goes on with it. -/
theorem parse_rest_of_ne (hl : l ≠ .application) (h : ∀ tok ∈ rest.head?, tok.grip ≠ l.hold)
    (n : Nat) (t : Tree) :
    parse (n + 1) (.rest l t) rest = some (t, rest) := by
  have hne : ∀ tok ts, rest = tok :: ts → tok.grip ≠ l.hold := by
    rintro tok ts rfl
    exact h tok rfl
  have hoperator : (∀ op, l.takes op = true → op.grip = l.hold) →
      restOperator (parse n) l t rest = some (t, rest) := by
    intro htakes
    cases rest with
    | nil => rfl
    | cons op ts =>
      rw [restOperator, if_neg]
      exact fun hop => hne op ts rfl (htakes op hop)
  cases l with
  | application => exact absurd rfl hl
  | choice =>
    show restChoice (parse n) t rest = _
    rw [restChoice.eq_2]
    exact fun ts hr => hne _ ts hr rfl
  | primary =>
    show restPrimary (parse n) t rest = _
    rw [restPrimary.eq_4]
    · exact fun w ts hr => hne _ _ hr rfl
    · exact fun ts hr => hne _ _ hr rfl
    · exact fun ts hr => hne _ _ hr rfl
  | _ => exact hoperator fun op hop => Level.takes_grip hop

/-- What has been read is all that is found then. -/
theorem eq_of_parse_rest (hl : l ≠ .application) (h : ∀ tok ∈ rest.head?, tok.grip ≠ l.hold)
    (hp : parse n (.rest l t) rest = some x) : (t, rest) = x := by
  cases n with
  | zero => cases hp
  | succ n => exact Option.some.inj ((parse_rest_of_ne hl h n t).symm.trans hp)

/-- Nothing goes on with a sign and its operand. -/
theorem Token.grip_ne_hold (tok : Token) : tok.grip ≠ Level.unary.hold := by
  unfold Token.grip
  split
  case h_2 => split <;> decide
  all_goals decide

/-- Where reading a phrase of a level starts: calls are read as what they are calls of. -/
def Level.entry : Level → Goal
  | .application => .start .primary
  | l => .start l

/-- The steps from a level down to names and numbers. -/
def Level.cost : Level → Nat
  | .choice => 5
  | .comparison => 4
  | .sum => 3
  | .product => 2
  | .unary => 1
  | .primary => 0
  | .application => 0

/-- Reading the phrase comes to reading how it goes on. Eight steps for each token are enough,
and those from the level downwards. -/
def Level.Reads (l : Level) (ts : List Token) (t : Tree) : Prop :=
  ∀ rest n x, (∀ tok ∈ rest.head?, tok.grip ≤ l.rank) → parse n (.rest l t) rest = some x →
    parse (n + 8 * ts.length + l.cost) l.entry (ts ++ rest) = some x

theorem Level.entry_eq (hl : l ≠ .application) : l.entry = .start l := by
  cases l with
  | application => exact absurd rfl hl
  | _ => rfl

theorem Level.cost_of_next? (h : l.next? = some l') : l.cost = l'.cost + 1 := by
  cases l <;> cases h <;> rfl

theorem pos_of_parse {goal : Goal} (h : parse n goal ts = some x) : 0 < n := by
  cases n with
  | zero => cases h
  | succ n => exact Nat.succ_pos n

/-- A whole phrase is read if no token goes on with it. -/
theorem Level.Reads.whole (h : l.Reads ts t) (hl : l ≠ .application)
    (hrank : ∀ tok ∈ rest.head?, tok.grip ≤ l.rank) (hhold : ∀ tok ∈ rest.head?, tok.grip ≠ l.hold)
    (hn : 8 * ts.length + l.cost + 1 ≤ n) :
    parse n (.start l) (ts ++ rest) = some (t, rest) := by
  have hr := h rest 1 (t, rest) hrank (parse_rest_of_ne hl hhold 0 t)
  rw [Level.entry_eq hl] at hr
  exact parse_mono (by omega) _ _ _ hr

/-- A phrase in parentheses, between commas or before a colon is read to its end. -/
theorem Level.Reads.inside (h : Level.choice.Reads ts t) (hr : ∀ tok ∈ rest.head?, tok.grip = 0)
    (hn : 8 * ts.length + 6 ≤ n) :
    parse n (.start .choice) (ts ++ rest) = some (t, rest) := by
  refine h.whole (by decide) (fun tok ht => ?_) (fun tok ht => ?_) hn
  · rw [hr tok ht]
    exact Nat.zero_le _
  · rw [hr tok ht]
    decide

/-- A phrase of the next level is read to its end if nothing that follows binds tighter than
the level. -/
theorem Level.Reads.operand (hl : l.next? = some l') (h : l'.Reads ts t)
    (hr : ∀ tok ∈ rest.head?, tok.grip ≤ l.rank) (hn : 8 * ts.length + l.cost ≤ n) :
    parse n (.start l') (ts ++ rest) = some (t, rest) := by
  have hlt : ∀ tok ∈ rest.head?, tok.grip < l'.rank :=
    fun tok ht => Nat.lt_of_le_of_lt (hr tok ht) (Level.rank_lt hl)
  have hhold : l'.hold = l'.rank := by cases l <;> cases hl <;> rfl
  rw [Level.cost_of_next? hl] at hn
  refine h.whole (Level.next?_ne hl).2.2 (fun tok ht => Nat.le_of_lt (hlt tok ht))
    (fun tok ht => ?_) hn
  rw [hhold]
  exact Nat.ne_of_lt (hlt tok ht)

theorem parse_of_step {m : Nat} (h : m < n) {goal : Goal}
    (hp : parseStep (parse m) goal ts = some x) :
    parse n goal ts = some x :=
  parse_mono h _ _ _ hp

theorem head?_cons_grip {tok : Token} (h : tok.grip ≤ n) (ts : List Token) :
    ∀ tok' ∈ (tok :: ts).head?, tok'.grip ≤ n := by
  intro tok' ht
  cases ht
  exact h

section Reads

variable {ts us : List Token} {t f a b : Tree}

theorem Level.Reads.group (h : Level.choice.Reads ts t) :
    Level.primary.Reads (.symbol '(' :: ts ++ [.symbol ')']) t := by
  intro rest n x _ hp
  have hinside : parse (n + 8 * ts.length + 6) (.start .choice) (ts ++ .symbol ')' :: rest) =
      some (t, .symbol ')' :: rest) := h.inside (by rintro _ ⟨⟩; rfl) (by omega)
  refine parse_of_step (m := n + 8 * ts.length + 6) (by simp [Level.cost]; omega) ?_
  show startPrimary _ (.symbol '(' :: (ts ++ [.symbol ')'] ++ rest)) = _
  rw [List.append_assoc, List.singleton_append]
  simp only [startPrimary, hinside, Option.bind_eq_bind, Option.bind_some, expect, if_pos]
  exact parse_mono (by omega) _ _ _ hp

/-- A phrase that goes on with a token is read if one step takes the token and what follows. -/
theorem Level.Reads.goOn {l l' : Level} {tok : Token} {t' : Tree} (h : l.Reads ts t)
    (hentry : l'.entry = l.entry) (hcost : l'.cost = l.cost) (hgrip : tok.grip ≤ l.rank)
    (hstep : ∀ rest n x, (∀ tok ∈ rest.head?, tok.grip ≤ l'.rank) →
      parse n (.rest l' t') rest = some x →
      parse (n + 8 * us.length + 7) (.rest l t) (tok :: (us ++ rest)) = some x) :
    l'.Reads (ts ++ tok :: us) t' := by
  intro rest n x hr hp
  rw [List.append_assoc, hentry]
  refine parse_mono ?_ _ _ _ (h _ _ x (head?_cons_grip hgrip _) (hstep rest n x hr hp))
  simp [hcost]
  omega

theorem Level.Reads.member (h : Level.primary.Reads ts t) (w : List Char) :
    Level.primary.Reads (ts ++ [.symbol '.', .word w]) (.member t w) :=
  h.goOn rfl rfl (by decide) fun _ n _ _ hp => parse_of_step (m := n) (by omega) hp

theorem Level.Reads.call (h : Level.primary.Reads ts t) :
    Level.primary.Reads (ts ++ [.symbol '(', .symbol ')']) (.call t) :=
  h.goOn rfl rfl (by decide) fun _ n _ _ hp => parse_of_step (m := n) (by omega) hp

theorem Level.Reads.close (h : Level.application.Reads ts t) :
    Level.primary.Reads (ts ++ [.symbol ')']) t :=
  h.goOn rfl rfl (by decide) fun _ n _ _ hp => parse_of_step (m := n) (by omega) hp

theorem Level.Reads.first (hf : Level.primary.Reads ts f) (hus : Derives .choice us a)
    (ha : Level.choice.Reads us a) :
    Level.application.Reads (ts ++ .symbol '(' :: us) (.argument (.call f) a) := by
  refine hf.goOn rfl rfl (by decide) fun rest n x hr hp => ?_
  have hinside : parse (n + 8 * us.length + 6) (.start .choice) (us ++ rest) = some (a, rest) :=
    ha.inside (fun tok ht => Nat.le_zero.mp (hr tok ht)) (by omega)
  -- the argument does not begin with the parenthesis that would end an empty call
  have hopen : ∀ vs, us ++ rest ≠ .symbol ')' :: vs := by
    obtain ⟨tok, us, rfl, hopens⟩ := hus.head
    rintro vs ⟨⟩
    rcases hopens with h | ⟨h, -⟩ <;> cases h
  show restPrimary _ f (.symbol '(' :: (us ++ rest)) = _
  rw [restPrimary.eq_3 _ _ _ hopen]
  simp only [hinside, Option.bind_eq_bind, Option.bind_some]
  exact parse_mono (by omega) _ _ _ hp

theorem Level.Reads.further (hf : Level.application.Reads ts f) (ha : Level.choice.Reads us a) :
    Level.application.Reads (ts ++ .symbol ',' :: us) (.argument f a) := by
  refine hf.goOn rfl rfl (by decide) fun rest n x hr hp => ?_
  have hinside : parse (n + 8 * us.length + 6) (.start .choice) (us ++ rest) = some (a, rest) :=
    ha.inside (fun tok ht => Nat.le_zero.mp (hr tok ht)) (by omega)
  show restApplication _ f (.symbol ',' :: (us ++ rest)) = _
  simp only [restApplication, hinside, Option.bind_eq_bind, Option.bind_some]
  exact parse_mono (by omega) _ _ _ hp

theorem Level.Reads.sign {op : Token} (hop : op.isSign = true) (h : Level.unary.Reads ts t) :
    Level.unary.Reads (op :: ts) (.sign op t) := by
  intro rest n x hr hp
  have hx : (Tree.sign op t, rest) = x :=
    eq_of_parse_rest (by decide) (fun tok _ => tok.grip_ne_hold) hp
  have hvalue : parse (n + 8 * ts.length + 2) (.start .unary) (ts ++ rest) = some (t, rest) :=
    h.whole (by decide) hr (fun tok _ => tok.grip_ne_hold) (by simp only [Level.cost]; omega)
  refine parse_of_step (m := n + 8 * ts.length + 2) (by simp [Level.cost]; omega) ?_
  show startUnary _ (op :: (ts ++ rest)) = _
  rw [startUnary, if_pos hop]
  simp only [hvalue, Option.bind_eq_bind, Option.bind_some]
  exact congrArg some hx

theorem Level.Reads.binary {l l' : Level} {op : Token} (hl : l.next? = some l')
    (hop : l.takes op = true) (ha : l.Reads ts a) (hb : l'.Reads us b) :
    l.Reads (ts ++ op :: us) (.binary op a b) := by
  refine ha.goOn rfl rfl (Nat.le_of_eq (Level.takes_grip hop)) fun rest n x hr hp => ?_
  have hoperand : parse (n + 8 * us.length + 6) (.start l') (us ++ rest) = some (b, rest) :=
    hb.operand hl hr (by cases l <;> simp [Level.cost] <;> omega)
  have hrest : parse (n + 8 * us.length + 7) (.rest l a) (op :: (us ++ rest)) =
      restOperator (parse (n + 8 * us.length + 6)) l a (op :: (us ++ rest)) := by
    cases l <;> first | rfl | cases hop
  rw [hrest, restOperator, if_pos hop, hl]
  simp only [hoperand, Option.bind_eq_bind, Option.bind_some]
  exact parse_mono (by omega) _ _ _ hp

theorem Level.Reads.choose {cs : List Token} {c : Tree} (hc : Level.comparison.Reads cs c)
    (ha : Level.choice.Reads ts a) (hb : Level.choice.Reads us b) :
    Level.choice.Reads (cs ++ .symbol '?' :: (ts ++ .symbol ':' :: us)) (.choose c a b) := by
  intro rest n x hr hp
  have hzero : ∀ tok ∈ rest.head?, tok.grip = 0 := fun tok ht => Nat.le_zero.mp (hr tok ht)
  have hx : (Tree.choose c a b, rest) = x := by
    refine eq_of_parse_rest (by decide) (fun tok ht => ?_) hp
    rw [hzero tok ht]
    decide
  have hcondition : parse (8 * cs.length + 8 * ts.length + 8 * us.length + 7) (.start .comparison)
      (cs ++ .symbol '?' :: (ts ++ .symbol ':' :: (us ++ rest))) =
        some (c, .symbol '?' :: (ts ++ .symbol ':' :: (us ++ rest))) := by
    refine hc.whole (by decide) (head?_cons_grip (by decide) _) ?_ (by simp [Level.cost]; omega)
    rintro _ ⟨⟩
    decide
  have hon : parse (8 * cs.length + 8 * ts.length + 8 * us.length + 6) (.start .choice)
      (ts ++ .symbol ':' :: (us ++ rest)) = some (a, .symbol ':' :: (us ++ rest)) :=
    ha.inside (by rintro _ ⟨⟩; rfl) (by omega)
  have hoff : parse (8 * cs.length + 8 * ts.length + 8 * us.length + 6) (.start .choice)
      (us ++ rest) = some (b, rest) := hb.inside hzero (by omega)
  refine parse_of_step (m := 8 * cs.length + 8 * ts.length + 8 * us.length + 7)
    (by simp [Level.cost]; omega) ?_
  show startNext _ .choice _ = _
  simp only [startNext, Level.next?, List.append_assoc, List.cons_append, hcondition,
    Option.bind_eq_bind, Option.bind_some]
  show restChoice _ c (.symbol '?' :: (ts ++ .symbol ':' :: (us ++ rest))) = _
  simp only [restChoice, hon, hoff, expect, if_pos, Option.bind_eq_bind, Option.bind_some]
  exact congrArg some hx

theorem Level.Reads.loosen {l l' : Level} (hl : l.next? = some l') (hd : Derives l' ts t)
    (h : l'.Reads ts t) : l.Reads ts t := by
  intro rest n x hr hp
  have hpos := pos_of_parse hp
  have hoperand : parse (n + 8 * ts.length + l'.cost) (.start l') (ts ++ rest) = some (t, rest) :=
    h.operand hl hr (by rw [Level.cost_of_next? hl]; omega)
  rw [Level.entry_eq (Level.next?_ne hl).2.1, Level.cost_of_next? hl, ← Nat.add_assoc]
  have hnext : startNext (parse (n + 8 * ts.length + l'.cost)) l (ts ++ rest) = some x := by
    simp only [startNext, hl, hoperand, Option.bind_eq_bind, Option.bind_some]
    exact parse_mono (by omega) _ _ _ hp
  cases l with
  | unary =>
    cases hl
    have hx : (t, rest) = x := eq_of_parse_rest (by decide) (fun tok _ => tok.grip_ne_hold) hp
    -- a phrase without an operator does not begin with a sign
    obtain ⟨tok, us, rfl, hopens | ⟨-, hne, -⟩⟩ := hd.head
    · show startUnary _ (tok :: (us ++ rest)) = _
      rw [startUnary, Token.isSign_of_opens hopens, if_neg (by decide)]
      exact hoperand.trans (congrArg some hx)
    · exact absurd rfl hne
  | primary => cases hl
  | application => cases hl
  | _ => exact hnext

end Reads

/-- **The parser finds every phrase**, by induction on how the phrase is built up. -/
theorem Derives.reads (h : Derives l ts t) :
    l.Reads ts t := by
  induction h with
  | word w | number w =>
    intro rest n x _ hp
    exact parse_of_step (m := n) (by simp [Level.cost]) hp
  | group _ ih => exact ih.group
  | member _ w ih => exact ih.member w
  | call _ ih => exact ih.call
  | first _ hus ihf iha => exact ihf.first hus iha
  | further _ _ ihf iha => exact ihf.further iha
  | close _ ih => exact ih.close
  | sign hop _ ih => exact ih.sign hop
  | binary hl hop _ _ iha ihb => exact iha.binary hl hop ihb
  | choose _ _ _ ihc iha ihb => exact ihc.choose iha ihb
  | loosen hl hd ih => exact ih.loosen hl hd

/-- **The parser decides the grammar.** -/
theorem read?_eq_some_iff (hl : l ≠ .application) :
    read? l ts = some t ↔ Derives l ts t := by
  constructor
  · intro h
    unfold read? at h
    split at h
    · next t' hp =>
      cases h
      obtain ⟨us, hts, hm⟩ := parse_sound _ _ _ _ _ hp
      rw [List.append_nil] at hts
      rw [hts]
      exact hm
    · cases h
  · intro h
    have hp : parse (8 * ts.length + 6) (.start l) (ts ++ []) = some (t, []) := by
      refine h.reads.whole hl (by simp) (by simp) ?_
      cases l <;> simp [Level.cost]
    rw [List.append_nil] at hp
    unfold read?
    rw [hp]

/-- A phrase has one tree. -/
theorem Derives.unique (hl : l ≠ .application) {t' : Tree} (h : Derives l ts t)
    (h' : Derives l ts t') : t = t' :=
  Option.some.inj (((read?_eq_some_iff hl).mpr h).symm.trans ((read?_eq_some_iff hl).mpr h'))

end Grammar

end MaterialGraph
