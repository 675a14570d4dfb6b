import BytecodeAudit.Yaml.Token

/-!
# The stream of tokens

Line breaks inside a plain or quoted one fold: one break reads as a blank, further ones as
themselves.

Tokens are found on demand. A key shows itself only by the colon behind it, so the places where one
may have started are remembered, and its token is put before tokens that were found already. Hence a
token is handed out only when no key can start before it, and with two more found behind it, so that
the comments in between are known.
-/

namespace BytecodeAudit.Yaml

/-! ### Comments

A comment behind a token on its line belongs to it. A run of comment lines is the head of the token
that follows; but one that directly follows a token and ends with an empty line, one that is
indented less than its block, and one before a closing bracket are feet of what came before. -/

/-- How many characters are searched for the start of a comment. -/
def commentReach : Nat := 512

def Cursor.seek (target : Nat) : Nat → Cursor → Cursor
  | 0, c => c
  | fuel + 1, c =>
    if target ≤ c.mark.index then c
    else Cursor.seek target fuel (if isBreakOrEnd c.next? then c.advanceLine else c.advance)

def Cursor.takeLine (c : Cursor) : List Char × Cursor :=
  c.takeWhile fun x => !isBreak (some x)

/-- A comment behind a token on the same line, and the cursor behind it. -/
def Cursor.lineComment? (c : Cursor) (token : Mark) : Option (Comment × Cursor) :=
  if 0 < c.newlines then none
  else
    let blanks := (c.rest.takeWhile fun x => isBlank (some x)).length
    if commentReach ≤ blanks || c.ahead? blanks != some '#' then none
    else
      let start := c.advanceBy blanks
      let (text, c) := start.takeLine
      some ({ token, start := start.mark, text := { line := String.ofList text } }, c)

structure CommentContext where
  indent : Nat
  isInFlow : Bool
  isBehindColon : Bool
  /-- The line on which a foot of the token before would start. -/
  footLine : Option Nat

/-- The state of a search for comment lines: `ahead` characters from the cursor are blank. -/
structure CommentSearch where
  cursor : Cursor
  ahead : Nat := 0
  line : Nat
  column : Nat
  scan : Mark
  token : Mark
  start : Mark := {}
  text : List Char := []
  isBehindEmpty : Bool := false
  isBeforeEmpty : Bool
  found : List Comment := []

namespace CommentSearch

def here (s : CommentSearch) : Mark := ⟨s.cursor.mark.index + s.ahead, s.line, s.column⟩

def closeFoot (s : CommentSearch) (token : Mark) : CommentSearch :=
  let foot : Comment :=
    { scan := s.scan, token, start := s.start, stop := s.here,
      text := { foot := String.ofList s.text } }
  { s with found := s.found ++ [foot], scan := s.here, token := s.here, text := [] }

def takeComment (s : CommentSearch) : CommentSearch :=
  let target := s.cursor.mark.index + s.ahead
  let (text, cursor) := (Cursor.seek target s.cursor.bound s.cursor).takeLine
  let start := if s.text.isEmpty then s.here else s.start
  let before := if s.text.isEmpty then [] else s.text ++ ['\n']
  { s with
    cursor, start, text := before ++ text, isBehindEmpty := false, ahead := 1, column := 0,
    line := cursor.mark.line }

def isFoot (k : CommentContext) (s : CommentSearch) (isClosing : Bool) : Bool :=
  isClosing ||
    (s.isBeforeEmpty &&
      ((some s.start.line == k.footLine && !k.isBehindColon) || s.start.column < k.indent))

/-- Ends the current run at the end of a line, or adds an empty line to it. -/
def endLine (k : CommentContext) (s : CommentSearch) (isClosing hasMore : Bool) : CommentSearch :=
  if s.text.isEmpty || (!isClosing && s.isBehindEmpty) then s
  else if isFoot k s isClosing then s.closeFoot (if s.start.column < k.indent then s.start else s.token)
  else if hasMore then { s with text := s.text ++ ['\n'] }
  else s

def run (k : CommentContext) : Nat → CommentSearch → CommentSearch
  | 0, s => s
  | fuel + 1, s =>
    let c := s.cursor.ahead? s.ahead
    if commentReach ≤ s.ahead then s
    else if isBlank c then run k fuel { s with ahead := s.ahead + 1, column := s.column + 1 }
    else
      let isClosing := k.isInFlow && (c == some ']' || c == some '}')
      if isClosing || isBreakOrEnd c then
        let s := s.endLine k isClosing c.isSome
        if isBreak c then
          run k fuel { s with
            isBeforeEmpty := false, isBehindEmpty := true, ahead := s.ahead + 1, column := 0,
            line := s.line + 1 }
        else s
      else
        let isOut := !s.text.isEmpty && s.column < k.indent && s.column != s.start.column
        let s := if isOut then s.closeFoot s.token else s
        if c == some '#' then run k fuel s.takeComment else s

def comments (s : CommentSearch) : List Comment :=
  if s.text.isEmpty then s.found
  else
    s.found ++ [{ scan := s.scan, token := s.start, start := s.start,
                  stop := ⟨s.cursor.mark.index + s.ahead - 1, s.line, s.column⟩,
                  text := { head := String.ofList s.text } }]

end CommentSearch

/-- The comment lines that start here. `scan` is where the blank space before them began and `token`
the token before. -/
def Cursor.commentLines (c : Cursor) (k : CommentContext) (scan token : Mark) :
    List Comment × Cursor :=
  let s := CommentSearch.run k (2 * c.bound + commentReach)
    { cursor := c, line := c.mark.line, column := c.mark.column, scan, token,
      isBeforeEmpty := c.newlines ≤ 1 }
  (s.comments, s.cursor)

/-! ### Scalars -/

/-- Blanks and line breaks between two words of a scalar. -/
structure Gap where
  blanks : List Char := []
  isBroken : Bool := false
  firstBreak : List Char := []
  laterBreaks : List Char := []

def Gap.text (g : Gap) : List Char :=
  if !g.isBroken then g.blanks
  else if g.firstBreak.head? == some '\n' then
    if g.laterBreaks.isEmpty then [' '] else g.laterBreaks
  else g.firstBreak ++ g.laterBreaks

/-- Reads a gap. A tab left of `indent` on a new line is refused. -/
def Cursor.takeGap (indent : Nat) : Nat → Gap → Cursor → Except Fault (Gap × Cursor)
  | 0, g, c => .ok (g, c)
  | fuel + 1, g, c =>
    if isBlank c.next? then
      if g.isBroken && c.mark.column < indent && c.isAt '\t' then .error .tabIndent
      else
        let g := if g.isBroken then g else { g with blanks := g.blanks ++ c.next?.toList }
        Cursor.takeGap indent fuel g c.advance
    else if isBreak c.next? then
      let (b, c) := c.takeBreak
      let g :=
        if g.isBroken then { g with laterBreaks := g.laterBreaks ++ b }
        else { g with isBroken := true, firstBreak := b }
      Cursor.takeGap indent fuel g c
    else .ok (g, c)

/-! ### Plain scalars -/

def Cursor.endsPlainWord (c : Cursor) (isInFlow : Bool) : Bool :=
  match c.next? with
  | none => true
  | some x =>
    isBlankOrEnd (some x) || (x == ':' && isBlankOrEnd (c.ahead? 1)) ||
      (isInFlow && [',', '?', '[', ']', '\x7b', '\x7d'].contains x)

def Cursor.takePlainWord (isInFlow : Bool) : Nat → List Char → Cursor → List Char × Cursor
  | 0, acc, c => (acc.reverse, c)
  | fuel + 1, acc, c =>
    if c.endsPlainWord isInFlow then (acc.reverse, c)
    else Cursor.takePlainWord isInFlow fuel (c.next?.toList ++ acc) c.advance

/-- Words and gaps of a plain scalar, with the gap before the next word, and whether it ended behind
a line break. -/
def Cursor.takePlainWords (indent : Nat) (isInFlow : Bool) :
    Nat → List Char → Gap → Cursor → Except Fault (List Char × Bool × Cursor)
  | 0, acc, g, c => .ok (acc, g.isBroken, c)
  | fuel + 1, acc, g, c =>
    if c.isAtMarker || c.isAt '#' then .ok (acc, g.isBroken, c)
    else
      let (word, c) := Cursor.takePlainWord isInFlow c.bound [] c
      let (acc, g) := if word.isEmpty then (acc, g) else (acc ++ g.text ++ word, {})
      if isBlank c.next? || isBreak c.next? then do
        let (g, c) ← Cursor.takeGap indent c.bound g c
        if !isInFlow && c.mark.column < indent then .ok (acc, g.isBroken, c)
        else Cursor.takePlainWords indent isInFlow fuel acc g c
      else .ok (acc, g.isBroken, c)

def Cursor.takePlain (c : Cursor) (indent : Nat) (isInFlow : Bool) :
    Except Fault (List Char × Bool × Cursor) :=
  Cursor.takePlainWords indent isInFlow c.bound [] {} c

/-! ### Quoted scalars -/

def fixedEscape? : Char → Option Nat
  | '0' => some 0x00
  | 'a' => some 0x07
  | 'b' => some 0x08
  | 't' | '\t' => some 0x09
  | 'n' => some 0x0a
  | 'v' => some 0x0b
  | 'f' => some 0x0c
  | 'r' => some 0x0d
  | 'e' => some 0x1b
  | ' ' => some 0x20
  | '"' => some 0x22
  | '\'' => some 0x27
  | '\\' => some 0x5c
  | 'N' => some 0x85
  | '_' => some 0xa0
  | 'L' => some 0x2028
  | 'P' => some 0x2029
  | _ => none

def escapeWidth? : Char → Option Nat
  | 'x' => some 2
  | 'u' => some 4
  | 'U' => some 8
  | _ => none

def Cursor.takeEscape (c : Cursor) : Except Fault (Char × Cursor) :=
  match c.ahead? 1 with
  | none => .error .badEscape
  | some x =>
    match fixedEscape? x, escapeWidth? x with
    | some n, _ => .ok (Char.ofNat n, c.advanceBy 2)
    | none, some width =>
      let digits := (c.rest.drop 2).take width
      match if digits.length == width then Text.number? 16 digits else none with
      | some n => if n.isValidChar then .ok (Char.ofNat n, c.advanceBy (2 + width)) else .error .badEscape
      | none => .error .badEscape
    | none, none => .error .badEscape

/-- A word of a quoted scalar, and whether it ended with an escaped line break. -/
def Cursor.takeQuotedWord (isSingle : Bool) :
    Nat → List Char → Cursor → Except Fault (List Char × Bool × Cursor)
  | 0, acc, c => .ok (acc.reverse, false, c)
  | fuel + 1, acc, c =>
    match c.next? with
    | none => .ok (acc.reverse, false, c)
    | some x =>
      if isBlankOrEnd (some x) then .ok (acc.reverse, false, c)
      else if isSingle && x == '\'' then
        if c.ahead? 1 == some '\'' then Cursor.takeQuotedWord isSingle fuel ('\'' :: acc) (c.advanceBy 2)
        else .ok (acc.reverse, false, c)
      else if !isSingle && x == '"' then .ok (acc.reverse, false, c)
      else if !isSingle && x == '\\' then
        if isBreak (c.ahead? 1) then .ok (acc.reverse, true, c.advance.advanceLine)
        else do
          let (e, c) ← c.takeEscape
          Cursor.takeQuotedWord isSingle fuel (e :: acc) c
      else Cursor.takeQuotedWord isSingle fuel (x :: acc) c.advance

def Cursor.takeQuotedWords (isSingle : Bool) :
    Nat → List Char → Cursor → Except Fault (List Char × Cursor)
  | 0, _, _ => .error .unfinishedScalar
  | fuel + 1, acc, c =>
    if c.isAtMarker || c.next?.isNone then .error .unfinishedScalar
    else do
      let (word, isBroken, c) ← Cursor.takeQuotedWord isSingle c.bound [] c
      let acc := acc ++ word
      if c.isAt (if isSingle then '\'' else '"') then .ok (acc, c.advance)
      else
        let (g, c) ← Cursor.takeGap 0 c.bound { isBroken } c
        Cursor.takeQuotedWords isSingle fuel (acc ++ g.text) c

def Cursor.takeQuoted (c : Cursor) (isSingle : Bool) : Except Fault (List Char × Cursor) :=
  Cursor.takeQuotedWords isSingle (2 * c.bound) [] c.advance

/-! ### Block scalars -/

/-- Which line breaks at the end of a block scalar are kept. -/
inductive Chomping where
  | strip
  | clip
  | keep
deriving DecidableEq, Repr

def Cursor.takeChomping? (c : Cursor) : Option (Chomping × Cursor) :=
  match c.next? with
  | some '+' => some (.keep, c.advance)
  | some '-' => some (.strip, c.advance)
  | _ => none

def Cursor.takeIncrement (c : Cursor) : Except Fault (Nat × Cursor) :=
  match c.next? with
  | some x =>
    if !x.isDigit then .ok (0, c)
    else if x == '0' then .error .badBlockHeader
    else .ok (x.toNat - '0'.toNat, c.advance)
  | none => .ok (0, c)

def Cursor.takeBlockHeader (c : Cursor) : Except Fault (Chomping × Nat × Cursor) := do
  match c.takeChomping? with
  | some (chomping, c) =>
    let (increment, c) ← c.takeIncrement
    .ok (chomping, increment, c)
  | none =>
    let (increment, c) ← c.takeIncrement
    if increment == 0 then .ok (.clip, 0, c)
    else
      match c.takeChomping? with
      | some (chomping, c) => .ok (chomping, increment, c)
      | none => .ok (.clip, increment, c)

/-- Indentation, zero while it is to be determined, and empty lines; `deepest` is the deepest column
reached. -/
def Cursor.takeBlockBreaks (indent : Nat) :
    Nat → List Char → Nat → Cursor → Except Fault (List Char × Nat × Cursor)
  | 0, acc, deepest, c => .ok (acc, deepest, c)
  | fuel + 1, acc, deepest, c =>
    let isLeft (c : Cursor) : Bool := indent == 0 || c.mark.column < indent
    if isLeft c && c.isAt ' ' then Cursor.takeBlockBreaks indent fuel acc deepest c.advance
    else
      let deepest := max deepest c.mark.column
      if isLeft c && c.isAt '\t' then .error .tabIndent
      else if isBreak c.next? then
        let (b, c) := c.takeBreak
        Cursor.takeBlockBreaks indent fuel (acc ++ b) deepest c
      else .ok (acc, deepest, c)

/-- The text of an open block scalar: the lines so far, the break behind the last of them, the empty
lines after that, and whether the last line starts with a blank. -/
structure BlockText where
  done : List Char := []
  lastBreak : List Char := []
  emptyLines : List Char := []
  isIndented : Bool := false

/-- Adds a line; in a folded scalar the break before a line that is not indented more folds. -/
def BlockText.addLine (t : BlockText) (isLiteral : Bool) (line : List Char) (lineBreak : List Char) :
    BlockText :=
  let isIndented := isBlank line.head?
  let joint :=
    if !isLiteral && !t.isIndented && !isIndented && t.lastBreak.head? == some '\n' then
      if t.emptyLines.isEmpty then [' '] else []
    else t.lastBreak
  { done := t.done ++ joint ++ t.emptyLines ++ line, lastBreak := lineBreak, isIndented }

def Cursor.takeBlockLines (isLiteral : Bool) (indent : Nat) :
    Nat → BlockText → Cursor → Except Fault (BlockText × Cursor)
  | 0, t, c => .ok (t, c)
  | fuel + 1, t, c =>
    if c.mark.column != indent || c.next?.isNone then .ok (t, c)
    else do
      let (line, c) := c.takeLine
      let (lineBreak, c) := c.takeBreak
      let t := t.addLine isLiteral line lineBreak
      let (breaks, _, c) ← Cursor.takeBlockBreaks indent c.bound [] 0 c
      Cursor.takeBlockLines isLiteral indent fuel { t with emptyLines := breaks } c

def BlockText.chomp (t : BlockText) : Chomping → List Char
  | .strip => t.done
  | .clip => t.done ++ t.lastBreak
  | .keep => t.done ++ t.lastBreak ++ t.emptyLines

/-- A block scalar, from its indicator on, inside a block at `indent`; also the comment on its first
line. -/
def Cursor.takeBlock (c : Cursor) (isLiteral : Bool) (indent : Int) :
    Except Fault (List Char × Option Comment × Cursor) := do
  let (chomping, increment, header) ← c.advance.takeBlockHeader
  let (_, header) := header.takeWhile fun x => isBlank (some x)
  let (comment, header) :=
    match if header.isAt '#' then header.lineComment? c.mark else none with
    | some (comment, header) => (some comment, header)
    | none => (none, header)
  if !isBreakOrEnd header.next? then .error .badBlockHeader
  else
    let body := header.advanceLine
    let given : Nat := if increment == 0 then 0 else (max indent 0).toNat + increment
    let (breaks, deepest, body) ← Cursor.takeBlockBreaks given body.bound [] 0 body
    let column := if given == 0 then max (max deepest (indent + 1).toNat) 1 else given
    let (text, rest) ← Cursor.takeBlockLines isLiteral column body.bound { emptyLines := breaks } body
    .ok (text.chomp chomping, comment, rest)

/-! ### Streams -/

structure KeyPlace where
  isPossible : Bool := false
  isRequired : Bool := false
  token : Nat := 0
  mark : Mark := {}
deriving Repr, Inhabited

structure Scanner where
  cursor : Cursor
  /-- Whether what follows the text cannot be read. -/
  isCut : Bool := false
  tokens : Array Token := #[]
  taken : Nat := 0
  comments : List Comment := []
  /-- The column of the current block, and those of the blocks around it. -/
  indent : Int := -1
  indents : List Int := []
  isKeyAllowed : Bool := true
  /-- The key place of the current level and those of the levels of brackets around it. -/
  key : KeyPlace := {}
  outerKeys : List KeyPlace := []

abbrev ScanM := StateT Scanner (Except Fault)

namespace Scanner

def maxNesting : Nat := 10000

def maxKeyLength : Nat := 1024

def isInFlow (s : Scanner) : Bool := !s.outerKeys.isEmpty

def ofSource (source : Source) : Scanner :=
  { cursor := { rest := source.text }, isCut := source.isCut, tokens := #[⟨.streamStart, {}⟩] }

def need (n : Nat) : ScanM Unit := do
  let s ← get
  if s.isCut && (s.cursor.rest.take n).length < n then throw .forbiddenCharacter

def push (kind : TokenKind) (start : Mark) : ScanM Unit :=
  modify fun s => { s with tokens := s.tokens.push ⟨kind, start⟩ }

def moveTo (c : Cursor) : ScanM Unit := modify fun s => { s with cursor := c }

/-! ### Keys -/

/-- Whether a key place can still hold a key here. A required one that cannot is a fault. -/
def isOpenKey (c : Cursor) (k : KeyPlace) : Except Fault Bool :=
  if !k.isPossible then .ok false
  else if k.mark.line < c.mark.line || k.mark.index + maxKeyLength < c.mark.index then
    if k.isRequired then .error .unfinishedKey else .ok false
  else .ok true

def dropKey : ScanM Unit := do
  let s ← get
  if s.key.isPossible && s.key.isRequired then throw .unfinishedKey
  else set { s with key := { s.key with isPossible := false } }

def saveKey : ScanM Unit := do
  let s ← get
  if s.isKeyAllowed then
    dropKey
    modify fun s =>
      { s with
        key := { isPossible := true,
                 isRequired := !s.isInFlow && s.indent == (s.cursor.mark.column : Int),
                 token := s.tokens.size, mark := s.cursor.mark } }

def allowKey (allowed : Bool) : ScanM Unit := modify fun s => { s with isKeyAllowed := allowed }

/-! ### Blocks -/

/-- Opens a block at a column, unless one is open there; its token goes before the token of a
number. -/
def openBlock (column number : Nat) (kind : TokenKind) (mark : Mark) : ScanM Unit := do
  let s ← get
  if !s.isInFlow && s.indent < (column : Int) then
    if maxNesting < s.indents.length + 1 then throw .tooDeep
    set { s with
      indents := s.indent :: s.indents, indent := column,
      tokens := s.tokens.insertIdxIfInBounds number ⟨kind, mark⟩ }

/-- Where a block ends: at a place, or before comments behind it that start at its column, with
nothing but comments in between. -/
def blockEnd (indent : Int) (comments : List Comment) (place : Mark) : Mark :=
  (comments.reverse.foldl (fun (isOver, stop, place) k =>
    if isOver || k.stop.index < stop then (true, stop, place)
    else (false, k.scan.index, if (k.start.column : Int) == indent then k.start else place))
    (false, place.index, place)).2.2

def closeBlocksAt (column : Int) : Nat → Mark → ScanM Unit
  | 0, _ => pure ()
  | fuel + 1, place => do
    let s ← get
    if !s.isInFlow && column < s.indent then
      let place := blockEnd s.indent s.comments place
      set { s with
        tokens := s.tokens.push ⟨.blockEnd, place⟩
        indent := s.indents.headD (-1)
        indents := s.indents.drop 1 }
      closeBlocksAt column fuel place

def closeBlocks (column : Int) (behind : Mark) : ScanM Unit := do
  closeBlocksAt column ((← get).indents.length + 1) { behind with index := behind.index - 1 }

/-! ### Blank space and comments -/

/-- A comment that directly follows the first dash of a sequence is the head of what follows the
dash. -/
def liftEntryComment : ScanM Unit := do
  let s ← get
  match s.tokens[s.tokens.size - 2]?, s.tokens.back?, s.comments.getLast? with
  | some a, some b, some k =>
    if a.kind == .blockSequenceStart && b.kind == .blockEntry && k.text.line != "" &&
        !isBreak s.cursor.next? then
      let k := { k with text := { k.text with head := k.text.line, line := "" } }
      let k := if k.start.line + 1 == s.cursor.mark.line then { k with token := s.cursor.mark } else k
      set { s with comments := s.comments.dropLast ++ [k] }
  | _, _, _ => pure ()

def takeComments (scan : Mark) : ScanM Unit := do
  let s ← get
  let last := s.tokens.back?.getD ⟨.streamStart, {}⟩
  let token :=
    if last.kind == .flowEntry then (s.tokens[s.tokens.size - 2]?).getD last else last
  let context : CommentContext :=
    { indent := s.indent.toNat, isInFlow := s.isInFlow, isBehindColon := token.kind == .value,
      footLine := if s.cursor.newlines == 0 then none
        else some (s.cursor.mark.line + 1 - s.cursor.newlines) }
  let (comments, cursor) := s.cursor.commentLines context scan token.start
  set { s with comments := s.comments ++ comments, cursor }

def skipToToken (scan : Mark) : Nat → ScanM Unit
  | 0 => pure ()
  | fuel + 1 => do
    let s ← get
    let c := if s.cursor.mark.column == 0 && s.cursor.next? == some '\ufeff' then s.cursor.advance
      else s.cursor
    let areTabsAllowed := s.isInFlow || !s.isKeyAllowed
    moveTo (c.takeWhile fun x => x == ' ' || (areTabsAllowed && x == '\t')).2
    liftEntryComment
    if (← get).cursor.isAt '#' then takeComments scan
    let s ← get
    if isBreak s.cursor.next? then
      set { s with cursor := s.cursor.advanceLine, isKeyAllowed := s.isKeyAllowed || !s.isInFlow }
      skipToToken scan fuel

def takeLineComment (token : Mark) : ScanM Unit := do
  let s ← get
  match s.cursor.lineComment? token with
  | some (k, c) => set { s with comments := s.comments ++ [k], cursor := c }
  | none => pure ()

/-! ### Tokens -/

def endLevel : ScanM Unit := do
  closeBlocks (-1) (← get).cursor.mark
  dropKey
  allowKey false

def scanEnd : ScanM Unit := do
  let s ← get
  let m := s.cursor.mark
  let m := if m.column == 0 then m else { m with column := 0, line := m.line + 1 }
  moveTo { s.cursor with mark := m }
  endLevel
  push .streamEnd m

def scanDirective : ScanM Unit := do
  endLevel
  let s ← get
  let (kind, c) ← s.cursor.takeDirective
  moveTo c
  push kind s.cursor.mark

def scanMarker (kind : TokenKind) : ScanM Unit := do
  endLevel
  let s ← get
  moveTo (s.cursor.advanceBy 3)
  push kind s.cursor.mark

def scanSingle (kind : TokenKind) : ScanM Unit := do
  let s ← get
  moveTo s.cursor.advance
  push kind s.cursor.mark

def scanOpening (kind : TokenKind) : ScanM Unit := do
  saveKey
  let s ← get
  if maxNesting < s.outerKeys.length + 1 then throw .tooDeep
  set { s with outerKeys := s.key :: s.outerKeys, key := {}, isKeyAllowed := true }
  scanSingle kind

def scanClosing (kind : TokenKind) : ScanM Unit := do
  dropKey
  modify fun s =>
    match s.outerKeys with
    | k :: ks => { s with key := k, outerKeys := ks }
    | [] => s
  allowKey false
  scanSingle kind

def scanFlowEntry : ScanM Unit := do
  dropKey
  allowKey true
  scanSingle .flowEntry

def openEntry (kind : TokenKind) : ScanM Unit := do
  let s ← get
  if !s.isInFlow then
    if !s.isKeyAllowed then throw .misplacedEntry
    openBlock s.cursor.mark.column s.tokens.size kind s.cursor.mark

def scanBlockEntry : ScanM Unit := do
  openEntry .blockSequenceStart
  dropKey
  allowKey true
  scanSingle .blockEntry

def scanKey : ScanM Unit := do
  openEntry .blockMappingStart
  dropKey
  allowKey (!(← get).isInFlow)
  scanSingle .key

/-- A colon: the token of its key goes before what was read since the key started. -/
def scanValue : ScanM Unit := do
  let s ← get
  let k := s.key
  if ← isOpenKey s.cursor k then
    set { s with tokens := s.tokens.insertIdxIfInBounds k.token ⟨.key, k.mark⟩ }
    openBlock k.mark.column k.token .blockMappingStart k.mark
    modify fun s => { s with key := { k with isPossible := false } }
    allowKey false
  else
    modify fun s => { s with key := { k with isPossible := false } }
    openEntry .blockMappingStart
    allowKey (!(← get).isInFlow)
  scanSingle .value

def scanAnchor (kind : String → TokenKind) : ScanM Unit := do
  saveKey
  allowKey false
  let s ← get
  let (name, c) ← s.cursor.takeAnchor
  moveTo c
  push (kind name) s.cursor.mark

def scanTag : ScanM Unit := do
  saveKey
  allowKey false
  let s ← get
  let (handle, suffix, c) ← s.cursor.takeTag
  moveTo c
  push (.tag handle suffix) s.cursor.mark

def scanBlock (isLiteral : Bool) : ScanM Unit := do
  dropKey
  allowKey true
  let s ← get
  let (text, comment, c) ← s.cursor.takeBlock isLiteral s.indent
  set { s with cursor := c, comments := s.comments ++ comment.toList }
  push (.scalar (if isLiteral then .literal else .folded) (String.ofList text)) s.cursor.mark

def scanQuoted (isSingle : Bool) : ScanM Unit := do
  saveKey
  allowKey false
  let s ← get
  let (text, c) ← s.cursor.takeQuoted isSingle
  moveTo c
  push (.scalar (if isSingle then .singleQuoted else .doubleQuoted) (String.ofList text)) s.cursor.mark

/-- A plain scalar. A key may start behind one that ends with its line. -/
def scanPlain : ScanM Unit := do
  saveKey
  allowKey false
  let s ← get
  let (text, isBroken, c) ← s.cursor.takePlain (s.indent + 1).toNat s.isInFlow
  moveTo c
  if isBroken then allowKey true
  push (.scalar .plain (String.ofList text)) s.cursor.mark

def startsPlain (c : Cursor) (isInFlow : Bool) : Bool :=
  match c.next? with
  | none => false
  | some x =>
    let isIndicator := isBlankOrEnd (some x) ||
      ['-', '?', ':', ',', '[', ']', '\x7b', '\x7d', '#', '&', '*', '!', '|', '>', '\'', '"', '%',
        '@', '\x60'].contains x
    !isIndicator || (x == '-' && !isBlank (c.ahead? 1)) ||
      (!isInFlow && (x == '?' || x == ':') && !isBlankOrEnd (c.ahead? 1))

def scanContent (c : Cursor) (x : Char) (isInFlow : Bool) : ScanM Unit :=
  let isAlone := isBlankOrEnd (c.ahead? 1)
  match x with
  | '[' => scanOpening .flowSequenceStart
  | '\x7b' => scanOpening .flowMappingStart
  | ']' => scanClosing .flowSequenceEnd
  | '\x7d' => scanClosing .flowMappingEnd
  | ',' => scanFlowEntry
  | '*' => scanAnchor .alias
  | '&' => scanAnchor .anchor
  | '!' => scanTag
  | '\'' => scanQuoted true
  | '"' => scanQuoted false
  | x =>
    if x == '-' && isAlone then scanBlockEntry
    else if x == '?' && (isInFlow || isAlone) then scanKey
    else if x == ':' && (isInFlow || isAlone) then scanValue
    else if x == '|' && !isInFlow then scanBlock true
    else if x == '>' && !isInFlow then scanBlock false
    else if startsPlain c isInFlow then scanPlain
    else throw .strayCharacter

def scanNext : ScanM Unit := do
  let scan := (← get).cursor.mark
  skipToToken scan (← get).cursor.bound
  need 4
  let c := (← get).cursor
  closeBlocks c.mark.column scan
  match c.next? with
  | none => scanEnd
  | some x =>
    if c.mark.column == 0 && x == '%' then scanDirective
    else if c.isMarker '-' then scanMarker .documentStart
    else if c.isMarker '.' then scanMarker .documentEnd
    else
      let s ← get
      let isJoint := (!s.isInFlow && x == ':') || (s.isInFlow && x == ',')
      let token := if isJoint then (s.tokens.back?.map (·.start)).getD c.mark else c.mark
      scanContent c x s.isInFlow
      need 1
      if ((← get).tokens.back?.map (·.kind)) != some .blockEntry then takeLineComment token

def prepare : Nat → ScanM Unit
  | 0 => pure ()
  | fuel + 1 => do
    let s ← get
    let isWaiting ←
      if s.taken + 2 < s.tokens.size then
        match (s.key :: s.outerKeys).find? fun k => k.isPossible && k.token == s.taken with
        | some k => isOpenKey s.cursor k
        | none => pure false
      else pure true
    if isWaiting then
      scanNext
      prepare fuel

def peek : ScanM Token := do
  prepare (2 * (← get).cursor.bound + 4)
  let s ← get
  pure ((s.tokens[s.taken]?).getD ⟨.streamEnd, s.cursor.mark⟩)

end Scanner

end BytecodeAudit.Yaml
