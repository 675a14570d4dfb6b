import BytecodeAudit.Text.Basic

/-!
# Grids

Cells in columns that are as wide as their widest cell, with a blank on either side. A cell with
line breaks takes several lines, of which those that are empty in the whole row are left out behind
the first; a row without cells takes none.

On a terminal a cluster of characters takes the columns of its first one: two for ideographs,
syllables and pictures, none for marks, controls and format characters, one for all else.
-/

namespace BytecodeAudit

namespace Text

/-! ### Clusters of characters

What a reader takes for one character may be several: a letter with its accents, a syllable of jamo,
a flag of two regional indicators, pictures that a joiner ties together. `clusters` cuts a text by
the rules for extended grapheme clusters. -/

/-- The code points of marks, which belong to the character before them, by runs. -/
def markRuns : List Nat := [
  768,112,275,7,263,45,1,1,1,2,1,2,1,1,72,11,48,21,16,1,101,7,2,6,2,2,1,4,35,1,30,27,91,11,58,9,9,1,24,4,1,9,1,3,1,5,43,
  3,60,8,42,24,1,33,54,3,1,18,1,7,10,2,29,3,56,1,1,7,2,2,2,3,9,1,10,2,26,1,2,3,56,1,1,5,4,2,2,3,3,1,30,2,3,1,11,3,56,1,
  1,8,1,3,1,3,20,2,22,6,1,3,56,1,1,7,2,2,2,3,7,3,10,2,30,1,59,5,3,3,1,4,9,1,40,5,55,1,1,7,1,3,1,4,7,2,11,2,29,3,56,1,1,
  7,1,3,1,4,7,2,11,2,15,1,12,4,55,2,1,7,1,3,1,4,9,1,10,2,29,3,70,1,4,6,1,1,1,8,18,2,61,1,1,8,12,8,98,1,1,10,11,7,73,2,
  27,1,1,1,1,1,4,2,49,20,1,2,5,11,1,36,9,1,102,11,1,6,23,4,4,3,16,4,13,1,1,3,6,1,15,1,703,3,946,4,28,3,29,2,30,2,64,32,
  9,1,45,3,1,1,117,2,34,1,118,12,4,12,219,5,57,10,1,1,1,1,2,24,2,1,48,31,49,5,47,17,38,9,12,3,30,13,56,14,48,20,152,3,1,
  21,4,1,6,1,2,3,198,64,524,1,195,33,3070,3,141,1,96,32,554,6,105,2,30164,4,1,10,32,2,80,2,272,1,3,1,4,1,23,5,4,1,83,2,
  50,18,26,18,13,1,38,8,25,13,44,4,47,14,36,1,67,14,12,1,8,2,46,1,51,1,1,3,2,2,5,2,1,1,41,5,5,2,236,8,1,2,20272,1,737,
  16,16,16,366,2,605,1,226,1,149,5,1670,3,1,2,5,4,40,3,4,1,165,2,573,4,387,2,80,3,70,11,49,4,122,3,53,15,41,1,2,2,10,4,
  45,11,7,1,61,3,36,14,16,2,44,1,12,3,48,14,8,4,1,2,92,12,6,1,2,1,157,12,21,4,55,2,1,7,2,2,2,3,9,1,10,2,2,7,3,5,192,18,
  23,1,81,20,235,7,2,9,27,2,82,17,106,13,101,3,2,10,256,15,245,6,1,2,2,4,1,1,1,2,141,7,2,7,3,1,28,10,40,7,1,4,8,1,9,11,
  46,16,405,8,1,8,82,22,1,14,122,6,3,1,1,2,1,7,1,1,66,5,1,2,1,5,347,4,9,2,1,1,48,7,3,5,5373,1,6,15,13978,5,59,7,1048,1,
  1,55,7,4,81,1,11,2,19627,2,4705,46,2,23,542,5,3,6,8,8,2,7,30,4,148,3,1979,55,4,50,8,1,14,1,22,5,1,15,1360,7,1,17,2,7,
  1,2,1,5,100,1,160,7,375,1,61,4,508,4,992,7,109,7,2736,5,789536,96,128,240]

def spacingMarkRuns : List Nat := [
  2307,1,55,1,2,3,8,4,1,2,50,2,59,2,6,2,2,2,54,1,58,3,66,1,58,3,8,1,1,2,53,2,60,1,6,2,2,2,114,1,1,2,3,3,1,3,52,3,61,4,
  61,2,58,1,1,2,1,2,2,2,1,2,39,1,14,2,59,2,5,3,1,3,53,2,76,2,6,7,19,2,63,1,127,1,138,2,63,1,177,1,9,2,25,2,44,1,1680,1,
  30,1,129,1,7,8,1,2,346,4,2,3,4,2,1,6,224,2,58,1,1,1,21,6,145,1,54,1,1,5,1,2,61,1,30,1,4,2,2,1,60,1,2,3,1,1,3,2,48,8,8,
  2,171,1,21,1,35627,2,2,1,88,2,50,16,142,2,47,1,48,2,4,2,2,3,110,2,2,2,24,1,157,1,2,2,5,1,237,2,1,2,1,2,1,1,25619,1,1,
  1,127,1,45,3,4,2,115,1,24,2,59,1,48,3,9,2,13,1,93,3,3,2,1,1,170,3,31,2,59,1,1,4,2,2,2,3,20,2,209,3,8,2,3,1,107,2,6,1,
  1,2,1,1,2,1,238,2,6,4,2,1,113,3,8,2,1,1,109,1,1,2,6,1,111,1,261,3,9,1,248,5,1,2,4,1,2,1,1,1,142,3,8,4,4,1,84,1,29,2,
  62,1,407,1,14,1,106,1,7,1,2,1,213,5,4,2,1,1,350,2,12,1,48,2,8,2,1,1,20495,55,104,2,24948,1,6,1]

/-- The characters that belong to the one after them, by runs. -/
def leaderRuns : List Nat := [
  1536,6,215,1,49,1,384,2,80,1,1131,1,66414,1,15,1,244,2,1915,1,1,1,248,1,73,6,700,1,443,1]

def controlRuns : List Nat := [
  128,32,13,1,1390,1,4593,1,2044,1,2,2,24,7,49,16,56975,1,240,12,13364,16,34912,4,5327,8,798341,32,96,128,240,3600]

def pictureRuns : List Nat := [
  169,1,4,1,8077,1,12,1,216,1,22,1,90,6,15,2,367,2,12,1,95,1,70,1,25,11,4,3,199,1,231,2,10,1,9,1,58,4,1,6,1,12,1,114,10,
  118,2,11,1,1,1,1,6,1,3,1,6,1,10,2,15,1,2,1,4,1,1,1,4,3,1,1,11,5,45,3,9,1,14,1,14,1,372,2,463,3,19,2,51,1,4,1,1242,1,
  12,1,601,1,1,1,114022,256,13,3,31,1,60,6,12,2,14,1,2,10,18,57,27,15,10,1,20,1,2,9,1,4,9,434,5,318,8,266,48,128,116,12,
  85,43,12,4,56,8,10,6,40,8,30,82,12,47,1,10,1,441,256,1022]

inductive ClusterKind where
  | carriageReturn
  | lineFeed
  | control
  | extender
  | joiner
  | spacingMark
  | leading
  | leadJamo
  | vowelJamo
  | tailJamo
  | openSyllable
  | closedSyllable
  | regional
  | picture
  | other
deriving DecidableEq, Repr

namespace ClusterKind

def ofHangul? (n : Nat) : Option ClusterKind :=
  if (0x1100 ≤ n && n ≤ 0x115f) || (0xa960 ≤ n && n ≤ 0xa97c) then some leadJamo
  else if (0x1160 ≤ n && n ≤ 0x11a7) || (0xd7b0 ≤ n && n ≤ 0xd7c6) then some vowelJamo
  else if (0x11a8 ≤ n && n ≤ 0x11ff) || (0xd7cb ≤ n && n ≤ 0xd7fb) then some tailJamo
  else if 0xac00 ≤ n && n ≤ 0xd7a3 then
    some (if (n - 0xac00) % 28 == 0 then openSyllable else closedSyllable)
  else none

def ofCode (n : Nat) : ClusterKind :=
  if n == 0x200d then joiner
  else if 0x1f1e6 ≤ n && n ≤ 0x1f1ff then regional
  else if inRuns spacingMarkRuns n then spacingMark
  else if inRuns markRuns n then extender
  else if inRuns leaderRuns n then leading
  else if inRuns controlRuns n then control
  else if inRuns pictureRuns n then picture
  else (ofHangul? n).getD other

def ofChar (c : Char) : ClusterKind :=
  if c == '\r' then carriageReturn
  else if c == '\n' then lineFeed
  else if c.toNat < 0x20 || c.toNat == 0x7f then control
  else if c.toNat < 0x80 then other
  else ofCode c.toNat

def isAlone : ClusterKind → Bool
  | carriageReturn | lineFeed | control => true
  | _ => false

/-- Whether two kinds belong together when they meet, whatever stands before them. -/
def binds : ClusterKind → ClusterKind → Bool
  | carriageReturn, lineFeed => true
  | a, b =>
    if a.isAlone || b.isAlone then false
    else
      match a, b with
      | _, extender | _, joiner | _, spacingMark => true
      | leading, _ => true
      | leadJamo, leadJamo | leadJamo, vowelJamo | leadJamo, openSyllable | leadJamo, closedSyllable => true
      | openSyllable, vowelJamo | openSyllable, tailJamo | vowelJamo, vowelJamo | vowelJamo, tailJamo => true
      | closedSyllable, tailJamo | tailJamo, tailJamo => true
      | _, _ => false

end ClusterKind

/-- What the characters read so far leave for the next one. -/
structure ClusterState where
  last : ClusterKind
  /-- Whether a picture and its extenders end here, with the joiner that may follow them. -/
  isPictured : Bool
  isHalfFlag : Bool

namespace ClusterState

def start (k : ClusterKind) : ClusterState := ⟨k, k == .picture, k == .regional⟩

def continues (s : ClusterState) (k : ClusterKind) : Bool :=
  s.last.binds k || (s.last == .joiner && s.isPictured && k == .picture) ||
    (s.last == .regional && s.isHalfFlag && k == .regional)

def next (s : ClusterState) (k : ClusterKind) : ClusterState where
  last := k
  isPictured := k == .picture || (s.isPictured && s.last != .joiner && (k == .extender || k == .joiner))
  isHalfFlag := k == .regional && !(s.last == .regional && s.isHalfFlag)

end ClusterState

/-- The clusters of the rest of a text. The characters of the open cluster come last first. -/
def clustersFrom (s : ClusterState) (held : List Char) : List Char → List (List Char)
  | [] => [held.reverse]
  | c :: cs =>
    let k := ClusterKind.ofChar c
    if s.continues k then clustersFrom (s.next k) (c :: held) cs
    else held.reverse :: clustersFrom (s.next k) [c] cs

def clusters : List Char → List (List Char)
  | [] => []
  | c :: cs => clustersFrom (.start (.ofChar c)) [c] cs

/-! ### Widths -/

/-- The code points that take two columns, by runs. -/
def wideRuns : List Nat := [
  4352,96,4538,2,13,2,190,4,3,1,2,1,521,2,21,2,26,8,16,12,43,1,10,6,3,1,13,1,8,2,17,2,5,2,8,1,5,1,21,1,7,2,1,1,4,1,2,1,
  7,1,4,2,28,1,35,1,1,1,4,3,1,1,61,3,24,1,14,1,859,2,51,1,4,1,810,26,1,89,12,214,26,58,6,15,2,86,4,101,5,43,1,94,1,86,9,
  48,1,40,8,29245,3,55,1177,29,643,11172,8540,512,784,10,22,35,1,19,1,4,149,96,127,7,28665,4,28,6136,8,1238,41,10,8935,
  4,1,7,1,2,1,291,15,1,29,3,2,1,14,4,8,396,8196,87,9,23,7309,1,202,1,190,1,2,10,101,3,13,44,4,9,7,2,14,6,154,33,12,9,1,
  70,1,22,12,43,4,5,12,17,3,1,3,3,5,63,1,1,1,187,2,63,13,4,1,24,18,1,26,2,13,1,86,85,48,70,6,1,3,3,2,3,4,4,11,2,7,9,227,
  12,4,1,283,47,1,10,1,185,112,13,3,10,5,56,7,15,2,11,6,9,1287,65534,2,65534]

/-- The code points beyond ASCII that take no column though they extend nothing, by runs. -/
def hiddenRuns : List Nat := [
  128,32,13,1,1362,6,22,1,192,1,49,1,384,2,80,1,1864,2,11,1,41,3,2,7,21,1,3,6,2,1,10,3,1905,1,594,1,1,2,1446,1,1,3,24,7,
  49,5,1,10,35339,1,1,1,21633,1,249,3,2,2,4285,1,15,1,1618,2,7438,16,34912,4,5327,8,798342,1]

def charWidth (c : Char) : Nat :=
  let n := c.toNat
  if n < 0x80 then (if n < 0x20 || n == 0x7f then 0 else 1)
  else if inRuns hiddenRuns n || inRuns markRuns n then 0
  else if inRuns wideRuns n then 2
  else 1

/-- The selector that turns the character before it into a picture. -/
def pictureSelector : Char := Char.ofNat 0xfe0f

def clusterWidth : List Char → Nat
  | [] => 0
  | c :: cs =>
    if cs.head? == some pictureSelector then 2
    else if ClusterKind.ofChar c == .regional then (if cs.any (ClusterKind.ofChar · == .regional) then 2 else 1)
    else charWidth c

/-! ### Escape sequences -/

/-- The rest behind a control sequence: parameters, intermediates and a final character. -/
def behindControl? (cs : List Char) : Option (List Char) :=
  let within (lo hi : Nat) (c : Char) : Bool := lo ≤ c.toNat && c.toNat ≤ hi
  match (cs.dropWhile (within 0x30 0x3f)).dropWhile (within 0x20 0x2f) with
  | c :: rest => if within 0x40 0x7e c then some rest else none
  | [] => none

/-- The rest behind a command to the terminal, which a bell or an escaped backslash on the same line
ends. -/
def behindCommand? : List Char → Option (List Char)
  | '\x07' :: rest => some rest
  | '\x1b' :: '\\' :: rest => some rest
  | '\n' :: _ => none
  | _ :: rest => behindCommand? rest
  | [] => none

def behindEscape? : List Char → Option (List Char)
  | '\x1b' :: '[' :: rest => behindControl? rest
  | '\x1b' :: ']' :: rest => behindCommand? rest
  | _ => none

def withoutEscapes (fuel : Nat) (cs : List Char) : List Char :=
  match fuel, cs with
  | 0, _ | _, [] => []
  | n + 1, c :: rest =>
    match behindEscape? (c :: rest) with
    | some rest => withoutEscapes n rest
    | none => c :: withoutEscapes n rest

def width (s : String) : Nat :=
  ((clusters (withoutEscapes s.length s.toList)).map clusterWidth).foldl (· + ·) 0

def padColumns (columns : Nat) (s : String) : String :=
  s ++ String.ofList (List.replicate (columns - width s) ' ')

def padRight (count : Nat) (s : String) : String :=
  s ++ String.ofList (List.replicate (count - s.length) ' ')

end Text

/-! ### Cells -/

/-! ### Kinds of letters

Beyond ASCII, a capital has a small letter and a small letter has a capital, except for letters of
one case only and signs of two cases that are no letters. -/

namespace Text

/-- The capitals that have no small letter, by runs. -/
def loneCapitalRuns : List Nat := [
  978,3,7469,1,4,1,3,3,2,3,2,1,3,5,6,1,3,1,3,2,2,2,1,1,10,2,5,1,111290,26,26,26,26,26,26,1,1,2,2,1,2,2,2,4,1,8,26,26,26,
  2,1,4,2,8,1,7,27,2,1,4,1,5,1,1,3,7,27,26,26,26,26,26,26,26,26,26,26,26,30,25,33,25,33,25,33,25,33,25,33,1]

/-- The small letters that have no capital, by runs. -/
def loneSmallRuns : List Nat := [
  223,1,88,1,16,1,67,1,28,2,14,1,3,1,49,1,48,1,18,6,27,1,2,1,1,1,2,3,2,1,4,1,5,2,1,1,2,2,1,7,1,2,1,1,2,3,6,5,1,1,1,8,2,
  17,224,1,31,1,75,1,355,1,38,2,6007,44,63,13,2,3,1,16,1,12,251,5,1,2,1,1,176,1,1,1,1,1,1,1,91,1,1,1,1,2,10,1,1,1,1,2,
  10,2,2,2,10,3,1,2,10,1,1,1,1,2,274,1,3,2,3,1,27,1,4,1,4,1,2,2,8,4,2855,1,2,1,2,5,104,1,31307,2,63,8,21,1,6,1,25,1,74,
  1,821,35,1,7,5,9,20375,7,12,5,55554,26,26,7,1,18,26,26,26,4,1,1,1,7,1,11,26,26,26,26,26,26,26,26,26,26,26,26,26,26,26,
  26,26,28,28,25,1,6,26,25,1,6,26,25,1,6,26,25,1,6,26,25,1,6,1,1,1844,10,1,20,6,6]

/-- The characters that have a small letter and are no capitals, by runs. -/
def falseCapitalRuns : List Nat := [
  453,1,2,1,2,1,38,1,7573,8,8,8,8,8,12,1,15,1,47,1,355,16,838,26]

/-- The characters that have a capital and are no small letters, by runs. -/
def falseSmallRuns : List Nat := [
  453,1,2,1,2,1,38,1,338,1,7722,16,848,26]

/-- The numbers of code points between decimal digits beyond ASCII, which come in tens. -/
def digitGaps : List Nat := [
  1632,134,198,412,118,118,118,118,118,118,118,118,118,96,118,70,278,70,1862,38,300,128,166,6,182,86,134,6,35270,678,38,
  198,22,86,406,21270,1414,2182,6,796,128,60,144,278,342,118,374,102,6,0,76,422,102,662,86,246,70,54,358,16854,2342,86,
  134,534,24438,2772,0,0,0,0,2368,422,502,247,853,4758]

def isCapital (c : Char) : Bool :=
  if c.toNat < 0x80 then c.isUpper
  else if lowerChar c == c then inRuns loneCapitalRuns c.toNat
  else !inRuns falseCapitalRuns c.toNat

def isSmall (c : Char) : Bool :=
  if c.toNat < 0x80 then c.isLower
  else if upperChar c == c then inRuns loneSmallRuns c.toNat
  else !inRuns falseSmallRuns c.toNat

def isDecimal (c : Char) : Bool :=
  if c.toNat < 0x80 then c.isDigit else inRuns (digitGaps.flatMap ([·, 10])) c.toNat

end Text

/-! ### Grids -/

structure Grid where
  heading : List String := []
  rows : List (List String) := []
  footing : List String := []
deriving Repr

namespace Grid

def isNumeric (c : Char) : Bool := c.isDigit || c == ' '

/-- The character of a column name as it is shown, between its neighbours: underscores and points
outside of numbers are blanks. -/
def nameChar (before : Option Char) (c : Char) (after : Option Char) : Char :=
  if c == '_' then ' '
  else if c == '.' && (before.any (!isNumeric ·) || after.any (!isNumeric ·)) then ' '
  else c

def nameChars (before : Option Char) : List Char → List Char
  | [] => []
  | c :: cs =>
    let shown := nameChar before c cs.head?
    shown :: nameChars (some shown) cs

/-- The kinds of characters between which a column name falls apart. -/
inductive NameKind where
  | small
  | capital
  | digit
  | other
deriving DecidableEq, Repr

def NameKind.of (c : Char) : NameKind :=
  if Text.isSmall c then .small
  else if Text.isCapital c then .capital
  else if Text.isDecimal c then .digit
  else .other

/-- Hands the last of several capitals over to the small letters behind them. -/
def handOver (group : List Char) : List (List Char) → List (List Char)
  | [] => [group]
  | next :: rest =>
    if group.head?.any Text.isCapital && next.head?.any Text.isSmall then
      group.dropLast :: handOver (group.getLast?.toList ++ next) rest
    else group :: handOver next rest

/-- The words of a column name: runs of characters of one kind. A capital belongs to the small
letters behind it; blanks and single underscores are no words. -/
def nameWords (name : String) : List (List Char) :=
  match name.toList.splitBy fun a b => NameKind.of a == .of b with
  | [] => []
  | group :: rest =>
    (handOver group rest).filter fun word => !word.all Text.isBlank && word != ['_']

/-- A column name as it is shown: its words in capitals. A name that leaves nothing but blanks is
one blank. -/
def columnName (name : String) : String :=
  let words := [' '].intercalate (nameWords name)
  let shown := Text.trim (String.ofList (nameChars none words))
  if shown == "" && !words.isEmpty then " " else Text.upper shown

def cellLines (cell : String) : List String := (cell.toList.splitOn '\n').map String.ofList

def rowLines (cells : List String) : List (List String) :=
  let split := cells.map cellLines
  let height := (split.map List.length).foldl max 0
  (List.range height).map fun i => split.map fun lines => lines[i]?.getD ""

def shownHeading (g : Grid) : List String := g.heading.map columnName

def allLines (g : Grid) : List (List String) :=
  (g.shownHeading :: (g.rows ++ [g.footing])).flatMap rowLines

def widths (g : Grid) : List Nat :=
  let columns := (g.allLines.map List.length).foldl max 0
  (List.range columns).map fun i =>
    (g.allLines.map fun cells => Text.width (cells[i]?.getD "")).foldl max 0

def line (widths : List Nat) (cells : List String) : String :=
  String.join (widths.zipIdx.map fun (w, i) => " " ++ Text.padColumns w (cells[i]?.getD "") ++ " ") ++ "\n"

def band (widths : List Nat) (cells : List String) : String :=
  String.join ((rowLines cells).map (line widths))

/-- The lines of a row that are shown: the first, and of the others those that are not empty. -/
def shownLines (cells : List String) : List (List String) :=
  match rowLines cells with
  | [] => []
  | first :: rest => first :: rest.filter fun line => line.any (· != "")

def row (widths : List Nat) (cells : List String) : String :=
  String.join ((shownLines cells).map (line widths))

def rule (widths : List Nat) : String :=
  String.ofList (List.replicate ((widths.map (· + 2)).foldl (· + ·) 0) '─') ++ "\n"

def render (g : Grid) : String :=
  let ws := g.widths
  let body := String.join (g.rows.map (row ws))
  let hasMore := body != "" || !g.footing.isEmpty
  let heading :=
    if g.heading.isEmpty then "" else band ws g.shownHeading ++ (if hasMore then rule ws else "")
  let footing := if g.footing.isEmpty then "" else rule ws ++ band ws g.footing
  heading ++ body ++ footing

end Grid

end BytecodeAudit
