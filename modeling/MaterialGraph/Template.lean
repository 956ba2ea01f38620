import MaterialGraph.Text.Blank

/-!
# Templates

A template is text with numbered places. In its source a place is a number in
braces, and a brace that is meant as text is written twice. Filling in is a
single substitution: what is filled in is copied as it is.

## Main definitions

* `Slot`, `Template.Piece`, `Template` — the nine places of a program, and text
  with places in order.
* `Template.parse`, `Template.source` — a template from its source, and back.
* `Template.assemble` — the text with every place filled in.
* `Template.material`, `Template.preview` — the templates in use.
-/

namespace MaterialGraph

/-! ### Places -/

/-- A place of a program. -/
inductive Slot where
  /-- The description. -/
  | header
  | features
  | modes
  /-- The globals. -/
  | common
  /-- Further inputs of the vertex stage. -/
  | vertexInput
  /-- Further inputs of the pixel stage. -/
  | pixelInput
  | vertexBody
  | pixelBody
  /-- What the pixel stage returns. -/
  | pixelResult
  deriving DecidableEq, Repr, Inhabited

namespace Slot

/-- Every place, in the order of their numbers. -/
def all : List Slot :=
  [.header, .features, .modes, .common, .vertexInput, .pixelInput, .vertexBody, .pixelBody,
    .pixelResult]

/-- The number of a slot in the source of a template. -/
def index : Slot → Nat
  | .header => 0
  | .features => 1
  | .modes => 2
  | .common => 3
  | .vertexInput => 4
  | .pixelInput => 5
  | .vertexBody => 6
  | .pixelBody => 7
  | .pixelResult => 8

/-- The slot with a number. -/
def ofIndex? (n : Nat) : Option Slot := all[n]?

end Slot

/-! ### Templates -/

/-- A part of a template. -/
inductive Template.Piece where
  /-- Text that is copied. -/
  | text (s : String)
  /-- A place that is filled in. -/
  | slot (s : Slot)
  deriving DecidableEq, Repr

/-- Text with places to fill in. -/
structure Template where
  /-- Text and places, in order. -/
  pieces : List Template.Piece
  deriving DecidableEq, Repr

namespace Template

/-- Why a source is not a template. -/
inductive Error where
  /-- A brace at this byte is never closed. -/
  | unclosedSlot (position : Nat)
  /-- Braces enclose something that is not a number. -/
  | invalidSlot (content : String)
  /-- Braces enclose a number that no place has. -/
  | slotOutOfRange (number : Nat)
  /-- A closing brace stands alone at this byte. -/
  | unmatchedBrace (position : Nat)
  deriving DecidableEq, Repr

/-- What an error says. -/
def Error.message : Error → String
  | .unclosedSlot position => "unclosed slot at byte " ++ toString position
  | .invalidSlot content => "invalid slot \"" ++ content ++ "\""
  | .slotOutOfRange number => "slot " ++ toString number ++ " is out of range"
  | .unmatchedBrace position => "unmatched '\x7d' at byte " ++ toString position

/-! ### Reading a source -/

/-- The number that decimal digits write, at least one of them. -/
def readDigits? : List Char → Option Nat
  | [] => none
  | cs =>
    if cs.all Char.isDigit then some (cs.foldl (fun n c => n * 10 + (c.toNat - '0'.toNat)) 0)
    else none

/-- The number in braces: blanks around it and a plus sign before it do not
matter, and it must fit sixty-four bits. -/
def slotNumber? (content : List Char) : Option Nat :=
  let number := match Text.trim content with
    | '+' :: cs => readDigits? cs
    | cs => readDigits? cs
  number.filter (· < UInt64.size)

/-- The place that the content of braces stands for. -/
def readSlot (content : List Char) : Except Error Slot :=
  match slotNumber? content with
  | none => .error (.invalidSlot (String.ofList content))
  | some n =>
    match Slot.ofIndex? n with
    | some s => .ok s
    | none => .error (.slotOutOfRange n)

/-- Text read so far, given back to front, as a piece; no piece if it is empty. -/
def textPiece : List Char → List Piece
  | [] => []
  | acc => [.text (String.ofList acc.reverse)]

/-- Where a reader of a source stands: in text, or between braces opened at a byte.
What has been read of either is given back to front. -/
inductive ScanState where
  | text (acc : List Char)
  | slot (start : Nat) (acc : List Char)

/-- The pieces of the source from byte `position` on. -/
def scan : ScanState → (position : Nat) → List Char → Except Error (List Piece)
  | .text acc, _, [] => .ok (textPiece acc)
  | .slot start _, _, [] => .error (.unclosedSlot start)
  | .text acc, position, '\x7b' :: '\x7b' :: cs => scan (.text ('\x7b' :: acc)) (position + 2) cs
  | .text acc, position, '\x7d' :: '\x7d' :: cs => scan (.text ('\x7d' :: acc)) (position + 2) cs
  | .text acc, position, c :: cs =>
    if c = '\x7d' then .error (.unmatchedBrace position)
    else if c = '\x7b' then
      (scan (.slot position []) (position + 1) cs).map (textPiece acc ++ ·)
    else scan (.text (c :: acc)) (position + c.utf8Size) cs
  | .slot start acc, position, c :: cs =>
    if c = '\x7d' then
      match readSlot acc.reverse with
      | .error e => .error e
      | .ok s => (scan (.text []) (position + 1) cs).map (.slot s :: ·)
    else scan (.slot start (c :: acc)) (position + c.utf8Size) cs

/-- Reads a template. -/
def parse (source : String) : Except Error Template :=
  (scan (.text []) 0 source.toList).map Template.mk

/-! ### Writing a source -/

/-- A character of text in a source: a brace is written twice. -/
def doubled (c : Char) : List Char := if c = '\x7b' ∨ c = '\x7d' then [c, c] else [c]

/-- A piece as it is written in a source. -/
def Piece.source : Piece → String
  | .text s => String.ofList (s.toList.flatMap doubled)
  | .slot s => "\x7b" ++ toString s.index ++ "\x7d"

/-- A source of the template. -/
def source (t : Template) : String := String.join (t.pieces.map Piece.source)

/-! ### Filling in -/

/-- The places of a template, in order. -/
def slots (t : Template) : List Slot :=
  t.pieces.filterMap fun
    | .text _ => none
    | .slot s => some s

/-- A piece with its place filled in. -/
def Piece.fill (filling : Slot → String) : Piece → String
  | .text s => s
  | .slot s => filling s

/-- The text of a template with every place filled in. -/
def assemble (t : Template) (filling : Slot → String) : String :=
  String.join (t.pieces.map (Piece.fill filling))

/-! ### The templates in use -/

/-- The pieces from the globals to the start of the pixel stage, which both
templates share. -/
def stagePieces : List Piece :=
  [.text "\n\x7d\n\nCOMMON\n\x7b\n    #include \"common/shared.hlsl\"\n", .slot .common,
    .text "\n\x7d\n\nstruct VertexInput\n\x7b\n    #include \"common/vertexinput.hlsl\"\n",
    .slot .vertexInput,
    .text "\n\x7d;\n\nstruct PixelInput\n\x7b\n    #include \"common/pixelinput.hlsl\"\n",
    .slot .pixelInput,
    .text ("\n\x7d;\n\nVS\n\x7b\n    #include \"common/vertex.hlsl\"\n\n" ++
      "    PixelInput MainVs( VertexInput i )\n    \x7b\n" ++
      "        PixelInput o = ProcessVertex( i );\n"),
    .slot .vertexBody]

/-- The end of the vertex stage and the start of the pixel stage; `includes` is
what the pixel stage includes. -/
def pixelOpening (includes : String) : Piece :=
  .text ("\n        return FinalizeVertex( o );\n    \x7d\n\x7d\n\nPS\n\x7b\n" ++ includes ++
    "    float4 MainPs( PixelInput i ) : SV_Target0\n    \x7b\n")

/-- The pixel stage to the end. -/
def pixelPieces : List Piece :=
  [.slot .pixelBody, .text "\n", .slot .pixelResult, .text "\n    \x7d\n\x7d\n"]

/-- The usual template of a material. -/
def material : Template where
  pieces :=
    [.text "HEADER\n\x7b\n", .slot .header,
      .text "\n\x7d\n\nFEATURES\n\x7b\n    #include \"common/features.hlsl\"\n", .slot .features,
      .text "\n\x7d\n\nMODES\n\x7b\n", .slot .modes] ++
    stagePieces ++ pixelOpening "    #include \"common/pixel.hlsl\"\n\n" :: pixelPieces

/-- The template of a preview, which declares no features. -/
def preview : Template where
  pieces :=
    [.text "HEADER\n\x7b\n", .slot .header, .text "\n\x7d\n\nMODES\n\x7b\n", .slot .modes] ++
    stagePieces ++ pixelOpening "" :: pixelPieces

end Template

end MaterialGraph
