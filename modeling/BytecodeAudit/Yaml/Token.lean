import BytecodeAudit.Text.Basic
import BytecodeAudit.Yaml.Node

/-!
# YAML tokens

A cursor is the text that is still to be read, with the place it starts at. Tokens and the comments
between them have their places.
-/

namespace BytecodeAudit.Yaml

/-- A place in a text: characters, lines and columns before it. -/
structure Mark where
  index : Nat := 0
  line : Nat := 0
  column : Nat := 0
deriving DecidableEq, Repr, Inhabited

def isBlank : Option Char → Bool
  | some c => c == ' ' || c == '\t'
  | none => false

def isBreak : Option Char → Bool
  | some c =>
    c == '\n' || c == '\r' || c.toNat == 0x85 || c.toNat == 0x2028 || c.toNat == 0x2029
  | none => false

def isBreakOrEnd (c : Option Char) : Bool := c.isNone || isBreak c

def isBlankOrEnd (c : Option Char) : Bool := isBlank c || isBreakOrEnd c

def isNameChar (c : Char) : Bool := c.isAlphanum || c == '_' || c == '-'

def isAllowedChar (c : Char) : Bool :=
  let n := c.toNat
  n == 0x09 || n == 0x0a || n == 0x0d || (0x20 ≤ n && n ≤ 0x7e) || n == 0x85 ||
    (0xa0 ≤ n && n ≤ 0xd7ff) || (0xe000 ≤ n && n ≤ 0xfffd) || 0x10000 ≤ n

structure Cursor where
  rest : List Char
  mark : Mark := {}
  /-- The number of line breaks since the last character that is no blank. -/
  newlines : Nat := 0
deriving Repr, Inhabited

namespace Cursor

def next? (c : Cursor) : Option Char := c.rest.head?

def ahead? (c : Cursor) (n : Nat) : Option Char := (c.rest.drop n).head?

def isAt (c : Cursor) (x : Char) : Bool := c.next? == some x

def advance (c : Cursor) : Cursor :=
  match c.rest with
  | [] => c
  | x :: rest =>
    { rest
      mark := { c.mark with index := c.mark.index + 1, column := c.mark.column + 1 }
      newlines := if isBlank (some x) then c.newlines else 0 }

def advanceBy : Nat → Cursor → Cursor
  | 0, c => c
  | n + 1, c => advanceBy n c.advance

def breakWidth (c : Cursor) : Nat :=
  match c.rest with
  | '\r' :: '\n' :: _ => 2
  | x :: _ => if isBreak (some x) then 1 else 0
  | [] => 0

def takeBreak (c : Cursor) : List Char × Cursor :=
  match c.breakWidth with
  | 0 => ([], c)
  | n =>
    let text := match c.next? with
      | some x => if x.toNat == 0x2028 || x.toNat == 0x2029 then [x] else ['\n']
      | none => []
    (text,
      { rest := c.rest.drop n
        mark := { index := c.mark.index + n, line := c.mark.line + 1, column := 0 }
        newlines := c.newlines + 1 })

def advanceLine (c : Cursor) : Cursor := c.takeBreak.2

def takeWhile (p : Char → Bool) (c : Cursor) : List Char × Cursor :=
  let xs := c.rest.takeWhile p
  (xs, advanceBy xs.length c)

def isMarker (c : Cursor) (x : Char) : Bool :=
  c.mark.column == 0 && c.rest.take 3 == [x, x, x] && isBlankOrEnd (c.ahead? 3)

def isAtMarker (c : Cursor) : Bool := c.isMarker '-' || c.isMarker '.'

def bound (c : Cursor) : Nat := c.rest.length + 1

end Cursor

/-! ### Encodings

A text comes in UTF-8 or, behind a byte order mark, in UTF-16. It is read in pieces of 512 bytes as
they are needed, so a bad piece does no harm to a document that ends before it. -/

inductive Encoding where
  | utf8
  | utf16 (isBigEndian : Bool)
deriving DecidableEq, Repr

namespace Encoding

def ofMark : List UInt8 → Encoding × Nat
  | 0xff :: 0xfe :: _ => (.utf16 false, 2)
  | 0xfe :: 0xff :: _ => (.utf16 true, 2)
  | 0xef :: 0xbb :: 0xbf :: _ => (.utf8, 3)
  | _ => (.utf8, 0)

def unit (isBigEndian : Bool) (a b : UInt8) : Nat :=
  if isBigEndian then a.toNat * 256 + b.toNat else b.toNat * 256 + a.toNat

/-- The number of bytes that the next character takes, as its first ones tell; none does for
zero. -/
def width : Encoding → List UInt8 → Nat
  | .utf8, a :: _ =>
    if a < 0x80 then 1 else if a < 0xc0 then 0 else if a < 0xe0 then 2 else if a < 0xf0 then 3
    else if a < 0xf8 then 4 else 0
  | .utf16 isBigEndian, a :: b :: _ =>
    let n := unit isBigEndian a b
    if 0xd800 ≤ n && n < 0xdc00 then 4 else 2
  | .utf16 _, [_] => 2
  | _, [] => 0

def char? (e : Encoding) (bs : List UInt8) : Option Char :=
  let c? : Option Char := match e, bs with
    | .utf8, bs => (Text.firstChar? bs).map fun (c, _) => c
    | .utf16 isBigEndian, a :: b :: rest =>
      let n := unit isBigEndian a b
      if n < 0xd800 || 0xe000 ≤ n then some (Char.ofNat n)
      else
        match rest with
        | c :: d :: _ =>
          let low := unit isBigEndian c d
          if n < 0xdc00 && 0xdc00 ≤ low && low < 0xe000 then
            some (Char.ofNat (0x10000 + (n - 0xd800) * 0x400 + (low - 0xdc00)))
          else none
        | _ => none
    | .utf16 _, _ => none
  c?.filter isAllowedChar

end Encoding

structure Source where
  /-- The characters before the first piece that cannot be read. -/
  text : List Char
  /-- Whether there is such a piece. -/
  isCut : Bool := false
deriving Repr, Inhabited

def Source.pieceSize : Nat := 512

/-- Reads characters. `done` are those of earlier pieces and `piece` those of the current one, in
reverse; `room` is left in it. A character that does not fit starts the next one. -/
def Source.readFrom (e : Encoding) : (fuel room : Nat) → (done piece : List Char) → List UInt8 → Source
  | 0, _, done, piece, _ => { text := (piece ++ done).reverse }
  | _, _, done, piece, [] => { text := (piece ++ done).reverse }
  | fuel + 1, room, done, piece, b :: bs =>
    let width := e.width (b :: bs)
    if width == 0 then { text := done.reverse, isCut := true }
    else if room < width then readFrom e fuel pieceSize (piece ++ done) [] (b :: bs)
    else if ((b :: bs).take width).length < width then { text := (piece ++ done).reverse, isCut := true }
    else
      match e.char? (b :: bs) with
      | some c =>
        readFrom e fuel (room - width) done ((Text.spelled c).reverse ++ piece) ((b :: bs).drop width)
      | none => { text := done.reverse, isCut := true }

def Source.ofBytes (bs : List UInt8) : Source :=
  let (e, mark) := Encoding.ofMark bs
  readFrom e (2 * bs.length) (pieceSize - mark) [] [] (bs.drop mark)

inductive Fault where
  | forbiddenCharacter
  | strayCharacter
  | unfinishedKey
  | misplacedEntry
  | tabIndent
  | unfinishedScalar
  | badEscape
  | badBlockHeader
  | badProperty
  | badDirective
  | unexpectedToken
  | unknownAlias (name : String)
  | tooDeep
  | repeatedKey (name : String)
  | unknownKey (name : String)
  | excessiveAliases
  | misfit
deriving DecidableEq, Repr

def Fault.message : Fault → String
  | .forbiddenCharacter => "control characters are not allowed"
  | .strayCharacter => "found character that cannot start any token"
  | .unfinishedKey => "could not find expected ':'"
  | .misplacedEntry => "entries are not allowed in this context"
  | .tabIndent => "found a tab character that violates indentation"
  | .unfinishedScalar => "found unexpected end of scalar"
  | .badEscape => "found unknown escape character"
  | .badBlockHeader => "malformed block scalar header"
  | .badProperty => "malformed tag or anchor"
  | .badDirective => "malformed directive"
  | .unexpectedToken => "did not find expected node content"
  | .unknownAlias name => "unknown anchor '" ++ name ++ "' referenced"
  | .tooDeep => "exceeded max depth"
  | .repeatedKey name => "mapping key " ++ name ++ " already defined"
  | .unknownKey name => "field " ++ name ++ " not found"
  | .excessiveAliases => "document contains excessive aliasing"
  | .misfit => "cannot decode the node"

inductive TokenKind where
  | streamStart
  | streamEnd
  | versionDirective (major minor : Nat)
  | tagDirective (handle space : String)
  | documentStart
  | documentEnd
  | blockSequenceStart
  | blockMappingStart
  | blockEnd
  | flowSequenceStart
  | flowSequenceEnd
  | flowMappingStart
  | flowMappingEnd
  | blockEntry
  | flowEntry
  | key
  | value
  | alias (name : String)
  | anchor (name : String)
  | tag (handle suffix : String)
  | scalar (style : ScalarStyle) (text : String)
deriving DecidableEq, Repr, Inhabited

structure Token where
  kind : TokenKind
  start : Mark
deriving DecidableEq, Repr, Inhabited

/-- A run of comment lines. It belongs to the first token that does not start before `token`. -/
structure Comment where
  scan : Mark := {}
  token : Mark
  start : Mark
  stop : Mark := {}
  text : Comments
deriving DecidableEq, Repr, Inhabited

/-! ### Anchors, tags and directives -/

def Cursor.takeAnchor (c : Cursor) : Except Fault (String × Cursor) :=
  let (name, rest) := c.advance.takeWhile isNameChar
  let isEnded := match rest.next? with
    | some x => isBlankOrEnd (some x) || ['?', ':', ',', ']', '\x7d', '%', '@', '\x60'].contains x
    | none => true
  if name.isEmpty || !isEnded then .error .badProperty else .ok (String.ofList name, rest)

/-- The handle of a tag: from an exclamation mark to another one, if the name in between ends with
one. -/
def Cursor.takeHandle (c : Cursor) : Except Fault (List Char × Cursor) :=
  if !c.isAt '!' then .error .badProperty
  else
    let (name, rest) := c.advance.takeWhile isNameChar
    if rest.isAt '!' then .ok ('!' :: name ++ ['!'], rest.advance) else .ok ('!' :: name, rest)

def isTagChar (c : Char) : Bool :=
  isNameChar c ||
    [';', '/', '?', ':', '@', '&', '=', '+', '$', '.', ',', '!', '~', '*', '\'', '(', ')', '[',
      ']', '%'].contains c

/-- Reads escaped bytes of one character and its value. -/
def unescapeTag : Nat → List Char → Option (List Char)
  | 0, _ => some []
  | _, [] => some []
  | fuel + 1, '%' :: a :: b :: cs => do
    let byte (x y : Char) : Option Nat := do
      let digit (c : Char) : Option Nat :=
        if c.isDigit then some (c.toNat - '0'.toNat)
        else if 'a' ≤ c && c ≤ 'f' then some (c.toNat - 'a'.toNat + 10)
        else if 'A' ≤ c && c ≤ 'F' then some (c.toNat - 'A'.toNat + 10)
        else none
      some ((← digit x) * 16 + (← digit y))
    let n ← byte a b
    if 0x80 ≤ n then none else (unescapeTag fuel cs).map (Char.ofNat n :: ·)
  | fuel + 1, c :: cs => if c == '%' then none else (unescapeTag fuel cs).map (c :: ·)

def Cursor.takeSuffix (c : Cursor) (before : List Char) : Except Fault (List Char × Cursor) :=
  let (raw, rest) := c.takeWhile isTagChar
  if before.isEmpty && raw.isEmpty then .error .badProperty
  else
    match unescapeTag raw.length raw with
    | some text => .ok (before.drop 1 ++ text, rest)
    | none => .error .badProperty

/-- A tag: its handle and the rest. A verbatim tag has no handle. -/
def Cursor.takeTag (c : Cursor) : Except Fault (String × String × Cursor) := do
  let (handle, suffix, rest) ←
    if c.ahead? 1 == some '<' then do
      let (suffix, rest) ← (c.advanceBy 2).takeSuffix []
      if rest.isAt '>' then pure (([] : List Char), suffix, rest.advance) else .error .badProperty
    else do
      let (handle, rest) ← c.takeHandle
      if 1 < handle.length && handle.getLast? == some '!' then do
        let (suffix, rest) ← rest.takeSuffix []
        pure (handle, suffix, rest)
      else do
        let (suffix, rest) ← rest.takeSuffix handle
        if suffix.isEmpty then pure ([], ['!'], rest) else pure (['!'], suffix, rest)
  if isBlankOrEnd rest.next? then .ok (String.ofList handle, String.ofList suffix, rest)
  else .error .badProperty

def Cursor.skipBlanks (c : Cursor) : Cursor := (c.takeWhile fun x => isBlank (some x)).2

def Cursor.takeVersionNumber (c : Cursor) : Except Fault (Nat × Cursor) :=
  let (digits, rest) := c.takeWhile Char.isDigit
  if digits.isEmpty || 2 < digits.length then .error .badDirective
  else .ok (Nat.ofDigitChars 10 digits 0, rest)

def Cursor.takeVersion (c : Cursor) : Except Fault (TokenKind × Cursor) := do
  let (major, c) ← c.skipBlanks.takeVersionNumber
  if !c.isAt '.' then .error .badDirective
  else
    let (minor, c) ← c.advance.takeVersionNumber
    .ok (.versionDirective major minor, c)

def Cursor.takeTagDirective (c : Cursor) : Except Fault (TokenKind × Cursor) := do
  let (handle, c) ← c.skipBlanks.takeHandle
  if handle != ['!'] && handle.getLast? != some '!' then .error .badDirective
  else if !isBlank c.next? then .error .badDirective
  else
    let (space, c) ← c.skipBlanks.takeSuffix []
    if isBlankOrEnd c.next? then
      .ok (.tagDirective (String.ofList handle) (String.ofList space), c)
    else .error .badDirective

def Cursor.takeDirective (c : Cursor) : Except Fault (TokenKind × Cursor) := do
  let (name, rest) := c.advance.takeWhile isNameChar
  if name.isEmpty || !isBlankOrEnd rest.next? then .error .badDirective
  else
    let (kind, rest) ← match String.ofList name with
      | "YAML" => rest.takeVersion
      | "TAG" => rest.takeTagDirective
      | _ => .error .badDirective
    let rest := rest.skipBlanks
    let rest := if rest.isAt '#' then (rest.takeWhile fun x => !isBreak (some x)).2 else rest
    if isBreakOrEnd rest.next? then .ok (kind, rest.advanceLine) else .error .badDirective

end BytecodeAudit.Yaml
