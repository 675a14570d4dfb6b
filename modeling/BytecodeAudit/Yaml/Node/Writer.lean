import BytecodeAudit.Yaml.Node.Expand

/-!
# Writing YAML documents

A document as text, two blanks for a level. Styles, comments, anchors, and tags that were written
out are kept.
-/

namespace BytecodeAudit.Yaml

/-! ### Sheets

The text written so far and what the next piece of text depends on. -/

structure Sheet where
  text : String := ""
  column : Nat := 0
  /-- Whether a blank, or nothing, stands before the next character. -/
  isSpaced : Bool := true
  /-- Whether nothing but indentation and indicators stands on the line. -/
  isIndentation : Bool := true
  /-- The current indentation, negative outside of every collection. -/
  indent : Int := -1
  /-- The indentation at which a comment behind an entry was just written. -/
  footIndent : Option Int := none
  flowLevel : Nat := 0
  head : String := ""
  line : String := ""
  foot : String := ""
  tail : String := ""
  keyLine : String := ""

abbrev WriteM := StateM Sheet

namespace Sheet

def indentWidth : Int := 2

def put (c : Char) : WriteM Unit :=
  modify fun s => { s with text := s.text.push c, column := s.column + 1 }

def putAll (cs : List Char) : WriteM Unit := cs.forM put

def newLine : WriteM Unit :=
  modify fun s => { s with text := s.text.push '\n', column := 0, isIndentation := true }

def putBreak (c : Char) : WriteM Unit := do
  if c == '\n' then newLine
  else
    put c
    modify fun s => { s with column := 0, isIndentation := true }

def inWord : WriteM Unit := modify fun s => { s with isIndentation := false }

def indicator (text : String) (needsSpace isSpaced isIndentation : Bool) : WriteM Unit := do
  if needsSpace && !(← get).isSpaced then put ' '
  putAll text.toList
  modify fun s => { s with isSpaced, isIndentation := s.isIndentation && isIndentation }

/-- Goes to the start of a line at the current indentation; an empty line separates it from a
comment behind an entry there. -/
def startLine : WriteM Unit := do
  let s ← get
  let indent := (max s.indent 0).toNat
  if !s.isIndentation || indent < s.column || (s.column == indent && !s.isSpaced) then newLine
  if s.footIndent == some (indent : Int) then newLine
  let s ← get
  putAll (List.replicate (indent - s.column) ' ')
  modify fun s => { s with isSpaced := true, footIndent := none }

def putCommentFrom : List Char → (isBroken isMarked : Bool) → WriteM Unit
  | [], isBroken, _ => if isBroken then pure () else newLine
  | c :: cs, isBroken, isMarked => do
    if isBreak (some c) then
      putBreak c
      putCommentFrom cs true false
    else
      if isBroken then startLine
      if !isMarked && c != '#' then putAll ['#', ' ']
      put c
      inWord
      putCommentFrom cs false true

def putComment (comment : String) : WriteM Unit := do
  putCommentFrom comment.toList false false
  modify fun s => { s with isSpaced := true }

def markFoot : WriteM Unit := modify fun s => { s with footIndent := some (max s.indent 0) }

def flushHead : WriteM Unit := do
  let s ← get
  if s.tail != "" then
    startLine
    putComment s.tail
    modify fun s => { s with tail := "" }
    markFoot
  if s.head != "" then
    startLine
    putComment s.head
    modify fun s => { s with head := "" }

def flushLine : WriteM Unit := do
  let s ← get
  if s.line != "" then
    if !s.isSpaced then put ' '
    putComment s.line
    modify fun s => { s with line := "" }

def flushFoot : WriteM Unit := do
  let s ← get
  if s.foot != "" then
    startLine
    putComment s.foot
    modify fun s => { s with foot := "" }
    markFoot

/-- The indentation inside a collection. Blocks inside a sequence entry stand behind its dash. -/
def deeper (indent : Int) (isFlow isInEntry : Bool) : Int :=
  if indent < 0 then (if isFlow then indentWidth else 0)
  else if isInEntry then indent + 2
  else indentWidth * ((indent + indentWidth) / indentWidth)

def indented (isFlow isInEntry : Bool) (body : WriteM Unit) : WriteM Unit := do
  let indent := (← get).indent
  modify fun s => { s with indent := deeper indent isFlow isInEntry }
  body
  modify fun s => { s with indent }

end Sheet

/-! ### Scalars -/

def isPrintable (c : Char) : Bool :=
  let n := c.toNat
  n == 0x0a || (0x20 ≤ n && n ≤ 0x7e) || (0xa0 ≤ n && n ≤ 0xd7ff) ||
    (0xe000 ≤ n && n ≤ 0xfffd && n != 0xfeff)

structure TextFeatures where
  isMultiline : Bool := false
  allowsFlowPlain : Bool := true
  allowsBlockPlain : Bool := true
  allowsSingleQuoted : Bool := true
  allowsBlock : Bool := true
deriving Repr

def neighbours (before : Option Char) : List Char → List (Option Char × Char × Option Char)
  | [] => []
  | c :: cs => (before, c, cs.head?) :: neighbours (some c) cs

namespace TextFeatures

/-- Whether a character at its place is an indicator, inside brackets and outside of them. -/
def indicates (before : Option Char) (c : Char) (behind : Option Char) : Bool × Bool :=
  let isEnd := behind.isNone || isBlank behind
  if before.isNone then
    if ['#', ',', '[', ']', '\x7b', '\x7d', '&', '*', '!', '|', '>', '\'', '"', '%', '@',
        '\x60'].contains c then (true, true)
    else if c == '?' || c == ':' then (true, isEnd)
    else if c == '-' then (isEnd, isEnd)
    else (false, false)
  else
    if [',', '?', '[', ']', '\x7b', '\x7d'].contains c then (true, false)
    else if c == ':' then (true, isEnd)
    else if c == '#' && isBlankOrEnd before then (true, true)
    else (false, false)

def ofText (text : String) : TextFeatures :=
  let cs := text.toList
  if cs.isEmpty then { allowsFlowPlain := false, allowsBlock := false }
  else
    let places := neighbours none cs
    let isMarker := cs.take 3 == ['-', '-', '-'] || cs.take 3 == ['.', '.', '.']
    let inFlow := isMarker || places.any fun (a, c, b) => (indicates a c b).1
    let inBlock := isMarker || places.any fun (a, c, b) => (indicates a c b).2
    let hasBreak := cs.any fun c => isBreak (some c)
    let hasTab := cs.contains '\t'
    let isSpecial := cs.any fun c => c != '\t' && !isPrintable c
    let isSpace (c : Option Char) : Bool := c == some ' '
    let edge (c : Option Char) : Bool := isSpace c || isBreak c
    let breakSpace := places.any fun (a, c, _) => isBreak a && c == ' '
    let spaceBreak := places.any fun (a, c, _) => isSpace a && isBreak (some c)
    let noPlain := edge cs.head? || edge cs.getLast? || breakSpace || spaceBreak || hasTab ||
      isSpecial || hasBreak
    { isMultiline := hasBreak
      allowsFlowPlain := !noPlain && !inFlow
      allowsBlockPlain := !noPlain && !inBlock
      allowsSingleQuoted := !(breakSpace || spaceBreak || hasTab || isSpecial)
      allowsBlock := !(isSpace cs.getLast? || spaceBreak || isSpecial) }

def style (f : TextFeatures) (text : String) (wanted : ScalarStyle) (isInFlow isSimpleKey : Bool) :
    ScalarStyle :=
  let style := if isSimpleKey && f.isMultiline then .doubleQuoted else wanted
  let style :=
    if style != .plain then style
    else if (if isInFlow then !f.allowsFlowPlain else !f.allowsBlockPlain) then .singleQuoted
    else if text.isEmpty && (isInFlow || isSimpleKey) then .singleQuoted
    else .plain
  match style with
  | .singleQuoted => if f.allowsSingleQuoted then .singleQuoted else .doubleQuoted
  | .literal | .folded => if !f.allowsBlock || isInFlow || isSimpleKey then .doubleQuoted else style
  | s => s

end TextFeatures

namespace Sheet

def putPlain (text : String) : WriteM Unit := do
  if !text.isEmpty then
    if !(← get).isSpaced then put ' '
    putAll text.toList
    modify fun s => { s with isSpaced := false }
  inWord

/-- Writes the text of a single-quoted scalar; a line break is written twice unless another precedes
it. -/
def putSingleQuotedFrom : List Char → (isBroken : Bool) → WriteM Unit
  | [], _ => pure ()
  | c :: cs, isBroken => do
    if isBreak (some c) then
      if !isBroken && c == '\n' then newLine
      putBreak c
      putSingleQuotedFrom cs true
    else if c == ' ' then
      put c
      putSingleQuotedFrom cs isBroken
    else
      if isBroken then startLine
      if c == '\'' then put '\''
      put c
      inWord
      putSingleQuotedFrom cs false

def putSingleQuoted (text : String) : WriteM Unit := do
  indicator "'" true false false
  putSingleQuotedFrom text.toList false
  indicator "'" false false false

def escapeLetter? (n : Nat) : Option Char :=
  [(0x00, '0'), (0x07, 'a'), (0x08, 'b'), (0x09, 't'), (0x0a, 'n'), (0x0b, 'v'), (0x0c, 'f'),
    (0x0d, 'r'), (0x1b, 'e'), (0x22, '"'), (0x5c, '\\'), (0x85, 'N'), (0xa0, '_'), (0x2028, 'L'),
    (0x2029, 'P')].lookup n

def escapeChar (c : Char) : List Char :=
  let n := c.toNat
  if isPrintable c && !isBreak (some c) && c != '"' && c != '\\' then [c]
  else
    match escapeLetter? n with
    | some e => ['\\', e]
    | none =>
      let hex (width : Nat) : List Char := (Text.hexDigits width n).toList.map Char.toUpper
      if n ≤ 0xff then '\\' :: 'x' :: hex 2
      else if n ≤ 0xffff then '\\' :: 'u' :: hex 4
      else '\\' :: 'U' :: hex 8

def putDoubleQuoted (text : String) : WriteM Unit := do
  indicator "\"" true false false
  putAll (text.toList.flatMap escapeChar)
  indicator "\"" false false false

/-- Writes the indicators of a block scalar: the indentation before a leading blank, and what
becomes of the breaks at its end. -/
def putBlockHints (cs : List Char) : WriteM Unit := do
  if cs.head? == some ' ' || isBreak cs.head? then
    indicator (toString indentWidth) false false false
  match cs.reverse with
  | [] => indicator "-" false false false
  | [c] => indicator (if isBreak (some c) then "+" else "-") false false false
  | c :: d :: _ =>
    if !isBreak (some c) then indicator "-" false false false
    else if isBreak (some d) then indicator "+" false false false

def putLiteralFrom : List Char → (isBroken : Bool) → WriteM Unit
  | [], _ => pure ()
  | c :: cs, isBroken => do
    if isBreak (some c) then
      putBreak c
      putLiteralFrom cs true
    else
      if isBroken then startLine
      put c
      inWord
      putLiteralFrom cs false

/-- Writes the lines of a folded scalar; a line break inside the text is written twice, unless the
line before it or the start of the whole text is a blank. -/
def putFoldedFrom (startsBlank : Bool) : List Char → (isBroken isIndented : Bool) → WriteM Unit
  | [], _, _ => pure ()
  | c :: cs, isBroken, isIndented => do
    if isBreak (some c) then
      if !isBroken && !isIndented && c == '\n' && !startsBlank then newLine
      putBreak c
      putFoldedFrom startsBlank cs true isIndented
    else
      let isIndented := if isBroken then isBlank (some c) else isIndented
      if isBroken then startLine
      put c
      inWord
      putFoldedFrom startsBlank cs false isIndented

def putBlock (text : String) (isLiteral : Bool) : WriteM Unit := do
  let cs := text.toList
  indicator (if isLiteral then "|" else ">") true false false
  putBlockHints cs
  flushLine
  modify fun s => { s with isSpaced := true }
  if isLiteral then putLiteralFrom cs true
  else
    let first := (cs.dropWhile fun c => isBreak (some c)).head?
    putFoldedFrom (first.isNone || isBlank first) cs true true

def putScalar (text : String) : ScalarStyle → WriteM Unit
  | .plain => putPlain text
  | .singleQuoted => putSingleQuoted text
  | .doubleQuoted => putDoubleQuoted text
  | .literal => putBlock text true
  | .folded => putBlock text false

end Sheet

namespace Node

def writtenTag (n : Node) : String :=
  if n.trim.isTagged then n.trim.tag else ""

def needsQuotes (n : Node) : Bool :=
  match n with
  | .scalar trim .plain text =>
    !trim.isTagged && trim.tag == tagStr && (ScalarValue.ofPlain text).tag != tagStr
  | _ => false

def wantedStyle (n : Node) (style : ScalarStyle) (text : String) : ScalarStyle :=
  if style != .plain then style
  else if text.toList.contains '\n' then .literal
  else if n.needsQuotes then .doubleQuoted
  else .plain

def tagParts (tag : String) : String × String :=
  let long := longTag tag
  if tag == "" then ("", "")
  else if 1 < long.length && long.startsWith "!" then ("!", (long.drop 1).toString)
  else if tagSpace.length < long.length && long.startsWith tagSpace then
    ("!!", (long.drop tagSpace.length).toString)
  else ("", long)

def isSimpleKey (n : Node) : Bool :=
  let (handle, suffix) := tagParts n.writtenTag
  let length := n.trim.anchor.utf8ByteSize + handle.utf8ByteSize + suffix.utf8ByteSize
  match n with
  | .scalar _ _ text =>
    !(TextFeatures.ofText text).isMultiline && length + text.utf8ByteSize ≤ 128
  | .alias _ name _ | .knot _ name => name.utf8ByteSize ≤ 128
  | .sequence _ _ items => items.isEmpty && length ≤ 128
  | .mapping _ _ entries => entries.isEmpty && length ≤ 128

def isBracketed (n : Node) (isInFlow : Bool) : Bool :=
  match n with
  | .sequence _ isFlow items => isInFlow || isFlow || items.isEmpty
  | .mapping _ isFlow entries => isInFlow || isFlow || entries.isEmpty
  | _ => false

def isBlock : Node → Bool
  | .sequence _ isFlow _ => !isFlow
  | .mapping _ isFlow _ => !isFlow
  | _ => false

end Node

namespace Sheet

/-- Lets comments wait for their places; a place that gets none keeps what waits there. -/
def await (head line foot tail : String) : WriteM Unit :=
  modify fun s =>
    { s with
      head := if head == "" then s.head else head
      line := if line == "" then s.line else line
      foot := if foot == "" then s.foot else foot
      tail := if tail == "" then s.tail else tail }

/-- Lets the comments around a node wait; those at the end of a collection come later. -/
def awaitNode (n : Node) (tail : String) : WriteM Unit :=
  let c := n.trim.comments
  match n with
  | .sequence .. => await c.head "" "" ""
  | .mapping .. => await c.head "" "" tail
  | .alias .. | .knot .. => await c.head c.line c.foot ""
  | .scalar .. => await c.head c.line c.foot tail

def putAnchor (mark name : String) : WriteM Unit := do
  if name != "" then
    indicator mark true false false
    putAll name.toList
    modify fun s => { s with isSpaced := false, isIndentation := false }

def putTag (tag : String) : WriteM Unit := do
  match Node.tagParts tag with
  | ("", "") => pure ()
  | ("", suffix) =>
    indicator "!<" true false false
    putAll suffix.toList
    indicator ">" false false false
  | (handle, suffix) =>
    indicator (handle ++ suffix) true false false

def hasWaiting (s : Sheet) : Bool := s.line != "" || s.foot != "" || s.tail != ""

def startNode (n : Node) (isKey isInEntry : Bool) : WriteM Unit := do
  match n with
  | .alias _ name _ | .knot _ name => putAnchor "*" name
  | .scalar trim style text =>
    let isInFlow := 0 < (← get).flowLevel
    let style :=
      (TextFeatures.ofText text).style text (n.wantedStyle style text) isInFlow isKey
    putAnchor "&" trim.anchor
    putTag n.writtenTag
    indented true isInEntry (putScalar text style)
  | _ =>
    putAnchor "&" n.trim.anchor
    putTag n.writtenTag

/-- Lets a comment behind a key wait for the end of its line. -/
def saveKeyLine : WriteM Unit :=
  modify fun s => if s.line == "" then s else { s with keyLine := s.line, line := "" }

/-- Writes a comment behind a key: with a scalar behind the scalar, before a block on the line of
the key. -/
def placeKeyLine (value : Node) : WriteM Unit := do
  let s ← get
  if s.keyLine != "" then
    match value with
    | .scalar .. => if s.line == "" then set { s with line := s.keyLine, keyLine := "" }
    | value =>
      if value.isBlock then
        set { s with line := s.keyLine, keyLine := s.line }
        flushLine
        modify fun s => { s with line := s.keyLine, keyLine := "" }

mutual

def putBody (isInEntry : Bool) : Node → WriteM Unit
  | .sequence trim isFlow items => do
    let c := trim.comments
    if (Node.sequence trim isFlow items).isBracketed (0 < (← get).flowLevel) then
      indicator "[" true true false
      let indent := (← get).indent
      modify fun s => { s with indent := deeper indent true isInEntry, flowLevel := s.flowLevel + 1 }
      putFlowItems items true false
      await "" c.line c.foot ""
      modify fun s => { s with indent, flowLevel := s.flowLevel - 1 }
      if (← get).column == 0 then startLine
      indicator "]" false false false
      flushLine
      flushFoot
    else
      indented false isInEntry (putItems items)
      await "" c.line c.foot ""
  | .mapping trim isFlow entries => do
    let c := trim.comments
    if (Node.mapping trim isFlow entries).isBracketed (0 < (← get).flowLevel) then
      indicator "\x7b" true true false
      let indent := (← get).indent
      modify fun s => { s with indent := deeper indent true isInEntry, flowLevel := s.flowLevel + 1 }
      let (tail, isTrailing) ← putFlowEntries entries true false ""
      await "" c.line c.foot tail
      let s ← get
      if !entries.isEmpty && !isTrailing && (s.head != "" || s.foot != "" || s.tail != "") then
        indicator "," false false false
      flushHead
      modify fun s => { s with indent, flowLevel := s.flowLevel - 1 }
      indicator "\x7d" false false false
      flushLine
      flushFoot
    else
      indented false isInEntry do
        let tail ← putEntries entries ""
        await "" c.line c.foot tail
        flushHead
  | _ => pure ()

def putItems : List Node → WriteM Unit
  | [] => pure ()
  | n :: ns => do
    awaitNode n ""
    flushHead
    startLine
    indicator "-" true false true
    startNode n false true
    flushLine
    flushFoot
    putBody true n
    putItems ns

/-- Writes the entries of a block mapping. The comment behind an entry is handed on to the next one;
the last one is the result. -/
def putEntries : List (Node × Node) → (tail : String) → WriteM String
  | [], tail => pure tail
  | (k, v) :: rest, tail => do
    let foot := k.foot
    awaitNode (k.withFoot "") tail
    flushHead
    startLine
    saveKeyLine
    if k.isSimpleKey then
      startNode k true false
      putBody false k
      awaitNode v ""
      indicator ":" false false false
    else
      indicator "?" true false true
      startNode k false false
      putBody false k
      awaitNode v ""
      startLine
      indicator ":" true false true
    placeKeyLine v
    startNode v false false
    flushLine
    flushFoot
    putBody false v
    putEntries rest foot

/-- Writes the items between square brackets. `isTrailing` tells that a comma stands already. -/
def putFlowItems : List Node → (isFirst isTrailing : Bool) → WriteM Unit
  | [], _, _ => pure ()
  | n :: ns, isFirst, isTrailing => do
    awaitNode n ""
    if !isFirst && !isTrailing then indicator "," false false false
    flushHead
    if (← get).column == 0 then startLine
    let willTrail := (← get).hasWaiting
    startNode n false false
    if (← get).hasWaiting then indicator "," false false false
    flushLine
    flushFoot
    putBody false n
    putFlowItems ns false willTrail

/-- Writes the entries between braces. The comment behind an entry is handed on; the result is the
last one and whether a comma stands already. -/
def putFlowEntries : List (Node × Node) → (isFirst isTrailing : Bool) → (tail : String) →
    WriteM (String × Bool)
  | [], _, isTrailing, tail => pure (tail, isTrailing)
  | (k, v) :: rest, isFirst, isTrailing, tail => do
    let foot := k.foot
    awaitNode (k.withFoot "") tail
    if !isFirst && !isTrailing then indicator "," false false false
    flushHead
    if (← get).column == 0 then startLine
    if k.isSimpleKey then
      startNode k true false
      putBody false k
      awaitNode v ""
      indicator ":" false false false
    else
      indicator "?" true false false
      startNode k false false
      putBody false k
      awaitNode v ""
      indicator ":" true false false
    let willTrail := (← get).hasWaiting
    startNode v false false
    if (← get).hasWaiting then indicator "," false false false
    flushLine
    flushFoot
    putBody false v
    putFlowEntries rest false willTrail foot

end

def putDocument (d : Document) : WriteM Unit := do
  await d.head "" "" ""
  if d.head != "" then
    flushHead
    newLine
  match d.root with
  | some n =>
    awaitNode n ""
    flushHead
    startNode n false false
    flushLine
    flushFoot
    putBody false n
  | none => pure ()
  await "" "" d.foot ""
  modify fun s => { s with footIndent := some 0 }
  flushFoot
  modify fun s => { s with footIndent := none }
  startLine

end Sheet

def Document.render (d : Document) : String := ((Sheet.putDocument d).run {}).2.text

end BytecodeAudit.Yaml
