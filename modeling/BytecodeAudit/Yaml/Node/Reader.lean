import BytecodeAudit.Yaml.Node.Expand
import BytecodeAudit.Yaml.Token.Stream

/-!
# Reading YAML documents

The first document of a text as a node. Comments are kept until a node takes them; a comment behind
the value of an entry is moved to its key, so that it stays with the entry.
-/

namespace BytecodeAudit.Yaml

/-- The state of reading: the tokens, the comments that no node has taken, the anchors, of which
open ones have no node, and the handles of tags. -/
structure Reading where
  scanner : Scanner
  comments : Comments := {}
  /-- The comment before a sequence entry that holds a collection. -/
  stem : String := ""
  anchors : List (String × Option Node) := []
  handles : List (String × String) := []

abbrev ReadM := StateT Reading (Except Fault)

namespace Reading

def joinComments (a b : String) : String :=
  if b == "" then a else if a == "" then b else a ++ "\n" ++ b

/-- Takes over the comments that belong to a token. The end of a block takes no head. -/
def unfold (t : Token) : List Comment → Comments → List Comment × Comments
  | [], c => ([], c)
  | k :: ks, c =>
    if t.start.index < k.token.index || (k.text.head != "" && t.kind == .blockEnd) then (k :: ks, c)
    else
      unfold t ks
        { head := joinComments c.head k.text.head
          line := joinComments c.line k.text.line
          foot := joinComments c.foot k.text.foot }

def peek : ReadM Token := do
  let r ← get
  let (t, scanner) ← (Scanner.peek.run r.scanner : Except Fault _)
  let (rest, comments) := unfold t scanner.comments r.comments
  set { r with scanner := { scanner with comments := rest }, comments }
  pure t

def skip : ReadM Unit :=
  modify fun r => { r with scanner := { r.scanner with taken := r.scanner.taken + 1 } }

def takeComments : ReadM Comments := do
  let r ← get
  set { r with comments := {}, stem := "" }
  pure r.comments

def takeStem : ReadM String := do
  let r ← get
  set { r with stem := "" }
  pure r.stem

/-- Sets the comment before an entry aside, when the entry holds a collection; `before` is that
before the dash. -/
def splitStem (before : String) : ReadM Unit := do
  if before != "" then
    let t ← peek
    if t.kind == .blockSequenceStart || t.kind == .blockMappingStart then
      modify fun r =>
        { r with
          stem := before
          comments := { r.comments with head := (r.comments.head.drop (before.length + 1)).toString } }

def openAnchor (name : String) : ReadM Unit :=
  if name == "" then pure ()
  else modify fun r => { r with anchors := (name, none) :: r.anchors }

/-- Gives a name the node that was read, unless the name was given again inside it. -/
def closeAnchor (name : String) (n : Node) : ReadM Unit :=
  if name == "" then pure ()
  else modify fun r =>
    match r.anchors.lookup name with
    | some (some _) => r
    | _ => { r with anchors := (name, some n) :: r.anchors }

structure Properties where
  tag : String := ""
  anchor : String := ""
  line : Nat

def absent (line : Nat) : Node := .scalar { tag := tagNull, line } .plain ""

def resolveTag (handle suffix : String) : ReadM String := do
  if handle == "" then pure suffix
  else
    match (← get).handles.lookup handle with
    | some space => pure (space ++ suffix)
    | none => throw .badProperty

def takeProperties : ReadM Properties := do
  let t ← peek
  let line := t.start.line + 1
  match t.kind with
  | .anchor anchor =>
    skip
    match (← peek).kind with
    | .tag handle suffix =>
      skip
      discard peek
      pure { tag := ← resolveTag handle suffix, anchor, line }
    | _ => pure { anchor, line }
  | .tag handle suffix =>
    skip
    match (← peek).kind with
    | .anchor anchor =>
      skip
      discard peek
      pure { tag := ← resolveTag handle suffix, anchor, line }
    | _ => pure { tag := ← resolveTag handle suffix, line }
  | _ => pure { line }

/-- What a node carries: a tag that is written out, or else the one it has by default. -/
def Properties.trim (p : Properties) (defaultTag : String) (comments : Comments) : Trim :=
  let isTagged := p.tag != "" && p.tag != "!"
  { tag := if isTagged then shortTag p.tag else defaultTag, isTagged, anchor := p.anchor, comments,
    line := p.line }

def scalarTag (style : ScalarStyle) (text : String) : String :=
  if style != .plain then tagStr
  else if text == "<<" then tagMerge
  else (ScalarValue.ofPlain text).tag

/-- Adds an entry to a mapping, in reverse. In a block a comment behind a key is one behind the
entry before; a comment behind the value is moved to the key. -/
def addEntry (isFlow : Bool) (entries : List (Node × Node)) (k v : Node) : List (Node × Node) :=
  let (entries, k) := match entries with
    | (pk, pv) :: rest =>
      if !isFlow && k.foot != "" then ((pk.withFoot k.foot, pv) :: rest, k.withFoot "")
      else (entries, k)
    | [] => (entries, k)
  if k.foot == "" && v.foot != "" then (k.withFoot v.foot, v.withFoot "") :: entries
  else (k, v) :: entries

/-- A mapping from its entries in reverse and the comments at its end. In a block the last comment
belongs to the last key. -/
def closeMapping (trim : Trim) (isFlow : Bool) (entries : List (Node × Node)) (last : Comments) :
    Node :=
  let trim (foot : String) : Trim :=
    { trim with comments := { trim.comments with line := last.line, foot } }
  match entries with
  | (k, v) :: rest =>
    if !isFlow && last.foot != "" then .mapping (trim "") isFlow ((k.withFoot last.foot, v) :: rest).reverse
    else .mapping (trim last.foot) isFlow entries.reverse
  | [] => .mapping (trim last.foot) isFlow []

def closeSequence (trim : Trim) (isFlow : Bool) (items : List Node) (last : Comments) : Node :=
  .sequence { trim with comments := { trim.comments with line := last.line, foot := last.foot } } isFlow
    items.reverse

mutual

/-- Reads a node. Blocks are admitted only outside brackets, and a sequence at the column of its
mapping only as the value of an entry. -/
def readNode : Nat → (isBlock isValue : Bool) → ReadM Node
  | 0, _, _ => throw .tooDeep
  | fuel + 1, isBlock, isValue => do
    let t ← peek
    match t.kind with
    | .alias name =>
      let comments ← takeComments
      skip
      let trim : Trim := { comments, line := t.start.line + 1 }
      match (← get).anchors.lookup name with
      | some (some n) => pure (.alias trim name n)
      | some none => pure (.knot trim name)
      | none => throw (.unknownAlias name)
    | _ =>
      let p ← takeProperties
      openAnchor p.anchor
      let n ← readContent fuel isBlock isValue p
      closeAnchor p.anchor n
      pure n

def readContent : Nat → (isBlock isValue : Bool) → Properties → ReadM Node
  | 0, _, _, _ => throw .tooDeep
  | fuel + 1, isBlock, isValue, p => do
    let t ← peek
    match t.kind with
    | .scalar style text =>
      let comments ← takeComments
      skip
      pure (.scalar (p.trim (scalarTag style text) comments) style text)
    | .flowSequenceStart =>
      let trim := p.trim tagSeq { ← takeComments with line := "", foot := "" }
      skip
      readFlowItems fuel trim []
    | .flowMappingStart =>
      let trim := p.trim tagMap { ← takeComments with line := "", foot := "" }
      skip
      readFlowEntries fuel trim []
    | .blockEntry =>
      if isValue then readLooseItems fuel (p.trim tagSeq {}) []
      else readAbsent p
    | .blockSequenceStart =>
      if isBlock then
        let trim := p.trim tagSeq { head := ← takeStem }
        skip
        readBlockItems fuel trim []
      else readAbsent p
    | .blockMappingStart =>
      if isBlock then
        let trim := p.trim tagMap { head := ← takeStem }
        skip
        readBlockEntries fuel trim []
      else readAbsent p
    | _ => readAbsent p

def readAbsent (p : Properties) : ReadM Node :=
  if p.tag == "" && p.anchor == "" then throw .unexpectedToken
  else pure (.scalar (p.trim tagNull {}) .plain "")

def readBlockItems : Nat → Trim → List Node → ReadM Node
  | 0, _, _ => throw .tooDeep
  | fuel + 1, trim, items => do
    let t ← peek
    match t.kind with
    | .blockEntry =>
      let before := (← get).comments.head
      skip
      splitStem before
      let t ← peek
      let item ← match t.kind with
        | .blockEntry | .blockEnd => pure (absent (t.start.line + 1))
        | _ => readNode fuel true false
      readBlockItems fuel trim (item :: items)
    | .blockEnd =>
      skip
      pure (closeSequence trim false items {})
    | _ => throw .unexpectedToken

def readLooseItems : Nat → Trim → List Node → ReadM Node
  | 0, _, _ => throw .tooDeep
  | fuel + 1, trim, items => do
    let t ← peek
    match t.kind with
    | .blockEntry =>
      let before := (← get).comments.head
      skip
      splitStem before
      let t ← peek
      let item ← match t.kind with
        | .blockEntry | .key | .value | .blockEnd => pure (absent (t.start.line + 1))
        | _ => readNode fuel true false
      readLooseItems fuel trim (item :: items)
    | _ => pure (closeSequence trim false items {})

def readBlockValue : Nat → ReadM Node
  | 0 => throw .tooDeep
  | fuel + 1 => do
    let t ← peek
    match t.kind with
    | .value =>
      skip
      let t ← peek
      match t.kind with
      | .key | .value | .blockEnd => pure (absent (t.start.line + 1))
      | _ => readNode fuel true true
    | _ => pure (absent (t.start.line + 1))

def readBlockEntries : Nat → Trim → List (Node × Node) → ReadM Node
  | 0, _, _ => throw .tooDeep
  | fuel + 1, trim, entries => do
    let t ← peek
    match t.kind with
    | .key =>
      skip
      let t ← peek
      let k ← match t.kind with
        | .key | .value | .blockEnd => pure (absent (t.start.line + 1))
        | _ => readNode fuel true true
      let v ← readBlockValue fuel
      readBlockEntries fuel trim (addEntry false entries k v)
    | .blockEnd =>
      let last ← takeComments
      skip
      pure (closeMapping trim false entries last)
    | _ => throw .unexpectedToken

/-- Reads the mapping of one entry that an item between square brackets may be. -/
def readPair : Nat → ReadM Node
  | 0 => throw .tooDeep
  | fuel + 1 => do
    let t ← peek
    let line := t.start.line + 1
    skip
    let t ← peek
    let k ← match t.kind with
      | .value | .flowEntry | .flowSequenceEnd => do
        skip
        pure (absent (t.start.line + 1))
      | _ => readNode fuel false false
    let t ← peek
    let v ← match t.kind with
      | .value => do
        skip
        let t ← peek
        match t.kind with
        | .flowEntry | .flowSequenceEnd => pure (absent (t.start.line + 1))
        | _ => readNode fuel false false
      | _ => pure (absent (t.start.line + 1))
    pure (closeMapping { tag := tagMap, line } true (addEntry true [] k v) {})

def readFlowItems : Nat → Trim → List Node → ReadM Node
  | 0, _, _ => throw .tooDeep
  | fuel + 1, trim, items => do
    let t ← peek
    let isEnd ← match t.kind with
      | .flowSequenceEnd => pure true
      | .flowEntry =>
        if items.isEmpty then pure false
        else do
          skip
          pure ((← peek).kind == .flowSequenceEnd)
      | _ => if items.isEmpty then pure false else throw .unexpectedToken
    if isEnd then
      let last ← takeComments
      skip
      pure (closeSequence trim true items last)
    else
      let item ← if (← peek).kind == .key then readPair fuel else readNode fuel false false
      readFlowItems fuel trim (item :: items)

def readFlowValue : Nat → ReadM Node
  | 0 => throw .tooDeep
  | fuel + 1 => do
    let t ← peek
    match t.kind with
    | .value =>
      skip
      let t ← peek
      match t.kind with
      | .flowEntry | .flowMappingEnd => pure (absent (t.start.line + 1))
      | _ => readNode fuel false false
    | _ => pure (absent (t.start.line + 1))

def readFlowEntries : Nat → Trim → List (Node × Node) → ReadM Node
  | 0, _, _ => throw .tooDeep
  | fuel + 1, trim, entries => do
    let t ← peek
    let isEnd ← match t.kind with
      | .flowMappingEnd => pure true
      | .flowEntry =>
        if entries.isEmpty then pure false
        else do
          skip
          pure ((← peek).kind == .flowMappingEnd)
      | _ => if entries.isEmpty then pure false else throw .unexpectedToken
    if isEnd then
      let last ← takeComments
      skip
      pure (closeMapping trim true entries last)
    else if (← peek).kind == .key then
      skip
      let t ← peek
      let k ← match t.kind with
        | .value | .flowEntry | .flowMappingEnd => pure (absent (t.start.line + 1))
        | _ => readNode fuel false false
      let v ← readFlowValue fuel
      readFlowEntries fuel trim (addEntry true entries k v)
    else
      let k ← readNode fuel false false
      let t ← peek
      readFlowEntries fuel trim (addEntry true entries k (absent (t.start.line + 1)))

end

/-! ### Documents -/

def defaultHandles : List (String × String) := [("!", "!"), ("!!", tagSpace)]

def readDirectives : Nat → (hasVersion : Bool) → List (String × String) → ReadM (List (String × String))
  | 0, _, handles => pure handles
  | fuel + 1, hasVersion, handles => do
    match (← peek).kind with
    | .versionDirective major minor =>
      if hasVersion || major != 1 || minor != 1 then throw .badDirective
      skip
      readDirectives fuel true handles
    | .tagDirective handle space =>
      if (handles.lookup handle).isSome then throw .badDirective
      skip
      readDirectives fuel hasVersion ((handle, space) :: handles)
    | _ => pure handles

/-- The start of a head comment that belongs to the document: what comes before its last empty
line. -/
def splitHead (comment : List Char) : List Char × List Char :=
  match comment.reverse with
  | [] => ([], [])
  | '\n' :: front => (front.reverse, [])
  | back =>
    let rec go : List Char → List Char → List Char × List Char
      | seen, '\n' :: '\n' :: front => (front.reverse, seen)
      | seen, x :: front => go (x :: seen) front
      | _, [] => ([], comment)
    go [] back

def readEnd : ReadM String := do
  let t ← peek
  if t.kind == .documentEnd then skip
  let last ← takeComments
  pure (if last.head != "" && last.foot == "" then last.head else last.foot)

def readDocument (fuel : Nat) : ReadM (Option Document) := do
  skip
  let t ← peek
  match t.kind with
  | .streamEnd => pure none
  | .versionDirective .. | .tagDirective .. | .documentStart =>
    let own ← readDirectives fuel false []
    if (← peek).kind != .documentStart then throw .unexpectedToken
    modify fun r => { r with handles := own ++ defaultHandles }
    skip
    let t ← peek
    let root ← match t.kind with
      | .versionDirective .. | .tagDirective .. | .documentStart | .documentEnd | .streamEnd =>
        pure (absent (t.start.line + 1))
      | _ => readNode fuel true false
    pure (some { foot := ← readEnd, root := some root })
  | _ =>
    let (head, own) := splitHead (← get).comments.head.toList
    modify fun r =>
      { r with handles := defaultHandles, comments := { r.comments with head := String.ofList own } }
    let root ← readNode fuel true false
    pure (some { head := String.ofList head, foot := ← readEnd, root := some root })

end Reading

/-- Reads the first document of a text. A text without one is no fault. -/
def Document.parse (source : Source) : Except Fault (Option Document) :=
  (Reading.readDocument (8 * source.text.length + 64) { scanner := Scanner.ofSource source }).map (·.1)

def Document.ofBytes (bs : List UInt8) : Except Fault (Option Document) := Document.parse (Source.ofBytes bs)

end BytecodeAudit.Yaml
