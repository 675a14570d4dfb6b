import BytecodeAudit.Setting.Basic

/-!
# TOML

A TOML document as a table of settings. Its words and signs are read in two ways: where a key may
stand, and where a value may stand. An equals sign leads to a value; the end of a line leads back to
a key, unless a list is open; a brace leads to a key, and so does a comma inside braces.
-/

namespace BytecodeAudit.Toml

/-! ### Strings, numbers and dates

Each reader takes a word off the start of a text, if one stands there that may. What a number or a
date stands for is told apart from where it ends. -/

def isSpace (c : Char) : Bool := c == ' ' || c == '\t'

def follows (start : String) (cs : List Char) : Bool := start.toList.isPrefixOf cs

/-! ### Strings -/

/-- The character of a code point; what is none reads as the replacement character. -/
def codeChar (n : Nat) : Char := if n.isValidChar then Char.ofNat n else '�'

def hexCode? (width : Nat) (cs : List Char) : Option (Nat × List Char) := do
  let digits := cs.take width
  if digits.length != width then failure
  some ((← Text.number? 16 digits), cs.drop width)

/-- The characters of an escape, from behind its backslash. A backslash before blanks and line
breaks stands for nothing, like them. -/
def escape? : List Char → Option (List Char × List Char)
  | 'u' :: cs => (hexCode? 4 cs).map fun (n, rest) => ([codeChar n], rest)
  | 'U' :: cs => (hexCode? 8 cs).map fun (n, rest) => ([codeChar n], rest)
  | c :: cs =>
    if Json.isSpace c then some ([], cs.dropWhile Json.isSpace)
    else (Json.simpleEscape? c).map fun c => ([c], cs)
  | [] => none

def mustEscape (isMultiline : Bool) (c : Char) : Bool :=
  c.toNat < 0x20 && c != '\t' && !(isMultiline && (c == '\n' || c == '\r'))

/-- The rest of a string with escapes, up to its closing quotes. -/
def escapedBody (quote : String) (isMultiline : Bool) (fuel : Nat) (acc cs : List Char) :
    Option (String × List Char) :=
  match fuel with
  | 0 => none
  | n + 1 =>
    if follows quote cs then some (Text.ofChars acc.reverse, cs.drop quote.length)
    else
      match cs with
      | [] => none
      | '\\' :: rest =>
        match escape? rest with
        | some (found, rest) => escapedBody quote isMultiline n (found.reverse ++ acc) rest
        | none => none
      | c :: rest => if mustEscape isMultiline c then none else escapedBody quote isMultiline n (c :: acc) rest

def literalBody (quote : String) (acc : List Char) : List Char → Option (String × List Char)
  | [] => none
  | c :: rest =>
    if follows quote (c :: rest) then some (Text.ofChars acc.reverse, (c :: rest).drop quote.length)
    else literalBody quote (c :: acc) rest

def dropBreak : List Char → List Char
  | '\r' :: '\n' :: cs => cs
  | '\n' :: cs => cs
  | cs => cs

def string? (cs : List Char) : Option (String × List Char) :=
  match cs with
  | '"' :: '"' :: '"' :: rest => escapedBody "\"\"\"" true (cs.length + 1) [] (dropBreak rest)
  | '"' :: rest => escapedBody "\"" false (cs.length + 1) [] rest
  | '\'' :: '\'' :: '\'' :: rest => literalBody "'''" [] (dropBreak rest)
  | '\'' :: rest => literalBody "'" [] rest
  | _ => none

/-! ### Numbers -/

def isDigitOf (base : Nat) (c : Char) : Bool := (Text.digit? base c).isSome

/-- Whether every underscore stands behind a digit and is not the last character. -/
def underscoresFit (isDigit : Char → Bool) : (isBehindDigit : Bool) → List Char → Bool
  | _, [] => true
  | isBehindDigit, c :: cs =>
    (c != '_' || (isBehindDigit && !cs.isEmpty)) && underscoresFit isDigit (isDigit c) cs

def markedBase? : Char → Option Nat
  | 'x' => some 16
  | 'o' => some 8
  | 'b' => some 2
  | _ => none

/-- The characters of a decimal number without its sign: digits, underscores, a point that a digit
follows, and exponents. -/
def decimalWord (fuel : Nat) (isPointSeen : Bool) (acc cs : List Char) : Option (List Char × List Char) :=
  match fuel, cs with
  | 0, _ => none
  | n + 1, '.' :: rest =>
    if isPointSeen || !(rest.head?.any Char.isDigit) || !(acc.any Char.isDigit) then none
    else decimalWord n true ('.' :: acc) rest
  | n + 1, c :: rest =>
    if c == 'e' || c == 'E' then
      match rest with
      | s :: rest' =>
        if s == '+' || s == '-' then decimalWord n isPointSeen (s :: c :: acc) rest'
        else decimalWord n isPointSeen (c :: acc) rest
      | [] => some ((c :: acc).reverse, [])
    else if c.isDigit || c == '_' then decimalWord n isPointSeen (c :: acc) rest
    else some (acc.reverse, c :: rest)
  | _, [] => some (acc.reverse, [])

def numberWord? (cs : List Char) : Option (List Char × List Char) := do
  let (sign, body) := Text.splitSign cs
  match sign, body with
  | none, '0' :: c :: rest =>
    match markedBase? c with
    | some base =>
      let isPart (c : Char) : Bool := isDigitOf base c || c == '_'
      if (rest.takeWhile isPart).isEmpty then none
      else some ('0' :: c :: rest.takeWhile isPart, rest.dropWhile isPart)
    | none => if c.isAlpha then none else decimalWord (cs.length + 1) false [] body
  | sign, body =>
    let (word, rest) ← decimalWord (cs.length + 1) false [] body
    if word.any Char.isDigit then some (sign.toList ++ word, rest) else none

def isWhole (word : List Char) : Bool :=
  match word with
  | '0' :: 'x' :: _ => true
  | word => word.all fun c => c != '.' && c != 'e' && c != 'E'

/-- A whole number of 64 bits, with or without a sign. A decimal one of three or more characters
does not start with zero. -/
def integer? (word : List Char) : Option Int := do
  let cleaned := word.filter (· != '_')
  let (base, digits) ← match cleaned with
    | '0' :: c :: d :: rest => (markedBase? c).map fun base => (base, d :: rest)
    | cs => some (10, cs)
  if !underscoresFit (if base == 16 then isDigitOf 16 else Char.isDigit) false word then failure
  let (sign, digits) := Text.splitSign digits
  let n ← Text.number? base digits
  if sign == some '-' then if n ≤ Word.span 63 then some (-(n : Int)) else none
  else if n < (if sign == some '+' then Word.span 63 else Word.span 64) then some n
  else none

def float? (word : List Char) : Option Binary64 :=
  if underscoresFit Char.isDigit false word then
    (Binary64.ofText? (String.ofList (word.filter (· != '_')))).filter fun
      | .finite .. => true
      | _ => false
  else none

/-! ### Dates -/

/-- Characters that fit a pattern, in which zeros stand for digits. -/
def shape? (pattern : String) (cs : List Char) : Option (List Char × List Char) :=
  let word := cs.take pattern.length
  if word.length == pattern.length &&
      (word.zip pattern.toList).all fun (c, p) => if p == '0' then c.isDigit else c == p then
    some (word, cs.drop pattern.length)
  else none

def fractionWord? (cs : List Char) : Option (List Char × List Char) :=
  match cs with
  | '.' :: rest =>
    if rest.head?.any Char.isDigit then
      some ('.' :: rest.takeWhile Char.isDigit, rest.dropWhile Char.isDigit)
    else none
  | cs => some ([], cs)

def timeWord? (cs : List Char) : Option (List Char × List Char) := do
  let (word, rest) ← shape? "00:00:00" cs
  let (fraction, rest) ← fractionWord? rest
  some (word ++ fraction, rest)

def offsetWord? (cs : List Char) : Option (List Char × List Char) :=
  match cs with
  | 'Z' :: rest => some (['Z'], rest)
  | '+' :: _ => shape? "+00:00" cs
  | '-' :: _ => shape? "-00:00" cs
  | cs => some ([], cs)

/-- Whether a time of day follows a date: behind the letter for it, or behind a blank and two
digits. No other character may follow a date. -/
def isTimed? : List Char → Option Bool
  | [] => some false
  | 'T' :: _ => some true
  | ' ' :: a :: b :: _ => some (a.isDigit && b.isDigit)
  | ' ' :: _ => some false
  | _ => none

def date? (word : List Char) : Option String := do
  let (year, cs) ← Instant.fixedNumber? 4 word
  let (month, cs) ← Instant.fixedNumber? 2 (cs.drop 1)
  let (day, _) ← Instant.fixedNumber? 2 (cs.drop 1)
  if month < 1 || 12 < month || day < 1 || Instant.daysInMonth year month < day then none
  else some (String.ofList word)

/-- A time of day, as it is displayed: with nine digits of a fraction that is not zero. -/
def time? (word : List Char) : Option String := do
  let (hour, cs) ← Instant.fixedNumber? 2 word
  let (minute, cs) ← Instant.fixedNumber? 2 (cs.drop 1)
  let (second, cs) ← Instant.fixedNumber? 2 (cs.drop 1)
  if 23 < hour || 59 < minute || 59 < second then none
  else
    let nanos := (Instant.fraction cs).1
    some (String.ofList (word.take 8) ++ if nanos == 0 then "" else "." ++ Instant.padded 9 nanos)

/-! ### Words and signs -/

/-- A token. Numbers, dates and keys are kept as they are written. -/
inductive Token where
  | key (text : List Char)
  | heading (text : List Char)
  | itemHeading (text : List Char)
  | equals
  | comma
  | openBracket
  | closeBracket
  | openBrace
  | closeBrace
  | string (s : String)
  | bool (b : Bool)
  | float (x : Binary64)
  | number (word : List Char)
  | date (word : List Char)
  | time (word : List Char)
  | offset (word : List Char)
deriving DecidableEq, Repr

inductive Bracket where
  | list
  | table
deriving DecidableEq, Repr

inductive Place where
  | key
  | value
deriving DecidableEq, Repr

/-! ### Keys -/

def isBare (c : Char) : Bool := c.isAlphanum || c == '_' || c == '-'

/-- The text of a key: up to an equals sign, the end, or a blank that no dot follows. Escapes in
quoted parts are resolved. -/
def keyText (fuel : Nat) (acc cs : List Char) : Option (List Char × List Char) :=
  match fuel, cs with
  | 0, _ => none
  | _, [] => some (acc.reverse, [])
  | _, '=' :: rest => some (acc.reverse, '=' :: rest)
  | n + 1, '"' :: rest =>
    (escapedBody "\"" true (rest.length + 1) [] rest).bind fun (s, rest) =>
      keyText n ('"' :: (s.toList.reverse ++ '"' :: acc)) rest
  | n + 1, '\'' :: rest =>
    (literalBody "'" [] rest).bind fun (s, rest) =>
      keyText n ('\'' :: (s.toList.reverse ++ '\'' :: acc)) rest
  | n + 1, c :: rest =>
    if isSpace c then
      match rest.dropWhile isSpace with
      | '.' :: rest =>
        let blanks := rest.takeWhile isSpace
        keyText n (blanks ++ '.' :: ' ' :: acc) (rest.dropWhile isSpace)
      | rest => some (acc.reverse, rest)
    else if isBare c || c == '.' then keyText n (c :: acc) rest
    else none

def headingText? (cs : List Char) : Option (List Char × List Char) :=
  let text := cs.takeWhile fun c => c != ']' && c != '['
  match cs.drop text.length with
  | ']' :: rest => if text.isEmpty then none else some (text, rest)
  | _ => none

/-! ### Values -/

def dropComment (cs : List Char) : List Char := cs.dropWhile (· != '\n')

def dateTokens? (cs : List Char) : Option (List Token × List Char) := do
  let (word, rest) ← shape? "0000-00-00" cs
  if ← isTimed? rest then
    let (time, rest) ← timeWord? (rest.drop 1)
    let (offset, rest) ← offsetWord? rest
    some ([.date word, .time time] ++ (if offset.isEmpty then [] else [.offset offset]), rest)
  else some ([.date word], rest)

def scalarTokens? (cs : List Char) : Option (List Token × List Char) :=
  let word (s : String) (t : Token) : Option (List Token × List Char) :=
    if follows s cs then some ([t], cs.drop s.length) else none
  let number : Option (List Token × List Char) := (numberWord? cs).map fun (w, rest) => ([.number w], rest)
  match cs with
  | [] => none
  | c :: rest =>
    if c == '"' || c == '\'' then (string? cs).map fun (s, rest) => ([.string s], rest)
    else if c == '+' || c == '-' then
      if follows "inf" rest then some ([.float (.infinite (c == '-'))], rest.drop 3)
      else if follows "nan" rest then some ([.float .notANumber], rest.drop 3)
      else number
    else if c.isDigit then
      let lead := cs.takeWhile Char.isDigit
      let mark := cs[lead.length]?
      if lead.length == 4 && mark == some '-' then dateTokens? cs
      else if lead.length == 2 && mark == some ':' then
        (timeWord? cs).map fun (w, rest) => ([.time w], rest)
      else number
    else
      word "true" (.bool true) <|> word "false" (.bool false) <|> word "inf" (.float (.infinite false)) <|>
        word "nan" (.float .notANumber)

/-- The tokens of a text, behind `acc` in reverse. Every call but the last drops a character, so its
length is fuel enough. -/
def tokensFrom (fuel : Nat) (place : Place) (brackets : List Bracket) (acc : List Token) (cs : List Char) :
    Option (List Token) :=
  match fuel, place, cs with
  | _, _, [] => some acc.reverse
  | 0, _, _ => none
  | n + 1, place, '#' :: rest => tokensFrom n place brackets acc (dropComment rest)
  | n + 1, _, '=' :: rest => tokensFrom n .value brackets (.equals :: acc) rest
  | n + 1, _, '\x7d' :: rest =>
    match brackets with
    | .table :: outer => tokensFrom n .value outer (.closeBrace :: acc) rest
    | _ => none
  | _ + 1, .key, '[' :: '[' :: ']' :: _ => none
  | n + 1, .key, '[' :: '[' :: rest =>
    match headingText? rest with
    | some (text, ']' :: rest) => tokensFrom n .key brackets (.itemHeading text :: acc) rest
    | _ => none
  | n + 1, .key, '[' :: ']' :: rest => tokensFrom n .key brackets (.closeBracket :: .openBracket :: acc) rest
  | n + 1, .key, '[' :: rest =>
    match headingText? rest with
    | some (text, rest) => tokensFrom n .key brackets (.heading text :: acc) rest
    | none => none
  | n + 1, .key, c :: rest =>
    if Json.isSpace c then tokensFrom n .key brackets acc rest
    else
      match keyText (rest.length + 2) [] (c :: rest) with
      | some (text, rest) => tokensFrom n .key brackets (.key text :: acc) rest
      | none => none
  | n + 1, .value, '[' :: rest => tokensFrom n .value (.list :: brackets) (.openBracket :: acc) rest
  | n + 1, .value, ']' :: rest =>
    let outer := if brackets.head? == some .list then brackets.drop 1 else brackets
    tokensFrom n .value outer (.closeBracket :: acc) rest
  | n + 1, .value, '\x7b' :: rest => tokensFrom n .key (.table :: brackets) (.openBrace :: acc) rest
  | n + 1, .value, ',' :: rest =>
    let place := if brackets.head? == some .table then Place.key else .value
    tokensFrom n place brackets (.comma :: acc) rest
  | n + 1, .value, c :: rest =>
    if c == '\n' || c == '\r' then
      tokensFrom n (if brackets.head? == some .list then .value else .key) brackets acc rest
    else if isSpace c then tokensFrom n .value brackets acc rest
    else
      match scalarTokens? (c :: rest) with
      | some (ts, rest) => tokensFrom n .value brackets (ts.reverse ++ acc) rest
      | none => none

def tokens? (cs : List Char) : Option (List Token) := tokensFrom cs.length .key [] [] cs

/-! ### Reading documents

A dotted key names a table inside a table, a heading in brackets the table that the lines below it
fill; one in double brackets starts a new item of a list of tables. No key is given twice, no
heading stands twice, and a table in braces takes no further keys. -/

/-! ### Keys -/

def keyPartsFrom (fuel : Nat) (acc : List String) (cs : List Char) : Option (List String) :=
  match fuel, cs.dropWhile isSpace with
  | 0, _ => none
  | _, [] => some acc.reverse
  | n + 1, '.' :: rest =>
    match rest with
    | [] => none
    | c :: _ => if isBare c || c == '"' || c == '\'' || c == ' ' then keyPartsFrom n acc rest else none
  | n + 1, '"' :: rest => (literalBody "\"" [] rest).bind fun (s, rest) => keyPartsFrom n (s :: acc) rest
  | n + 1, '\'' :: rest => (literalBody "'" [] rest).bind fun (s, rest) => keyPartsFrom n (s :: acc) rest
  | n + 1, cs =>
    let part := cs.takeWhile isBare
    let rest := cs.dropWhile isBare
    let next := (rest.dropWhile isSpace).head?
    if part.isEmpty || !(next == none || next == some '.') then none
    else keyPartsFrom n (String.ofList part :: acc) rest

def keyParts? (cs : List Char) : Option (List String) :=
  (keyPartsFrom (cs.length + 1) [] cs).filter fun parts => !parts.isEmpty

/-! ### Trees -/

/-- A value of a document that is still read. -/
inductive Tree where
  | value (v : Setting)
  | list (items : List Tree)
  /-- A table; one that is written in braces, or stands in such a table, is closed. -/
  | table (isClosed : Bool) (fields : List (String × Tree))
  /-- A list of tables, which is never empty. -/
  | tables (items : List Tree)

abbrev Fields := List (String × Tree)

namespace Tree

mutual

def toSetting : Tree → Setting
  | .value v => v
  | .list items => .list (itemSettings items)
  | .table _ fields => .table (fieldSettings fields)
  | .tables items => .list (itemSettings items)

def itemSettings : List Tree → List Setting
  | [] => []
  | t :: ts => t.toSetting :: itemSettings ts

def fieldSettings : List (String × Tree) → List (String × Setting)
  | [] => []
  | (k, t) :: fs => (k, t.toSetting) :: fieldSettings fs

end

def isTable : Tree → Bool
  | .table .. => true
  | _ => false

def ofItems (items : List Tree) : Tree :=
  if !items.isEmpty && items.all isTable then .tables items else .list items

def insert (name : String) (t : Tree) : Fields → Fields
  | [] => [(name, t)]
  | (n, u) :: fs => if n == name then (n, t) :: fs else (n, u) :: insert name t fs

/-- The table that paths go on in: a table itself, or the last one of a list. -/
def inner? : Tree → Option (Bool × Fields)
  | .table isClosed fields => some (isClosed, fields)
  | .tables items =>
    match items.getLast? with
    | some (.table isClosed fields) => some (isClosed, fields)
    | _ => none
  | _ => none

def withInner (t : Tree) (inner : Bool × Fields) : Tree :=
  match t with
  | .tables items => .tables (items.dropLast ++ [.table inner.1 inner.2])
  | _ => .table inner.1 inner.2

def find? : List String → Fields → Option Tree
  | [], _ => none
  | [k], fs => fs.lookup k
  | k :: ks, fs => do
    let (_, inner) ← (← fs.lookup k).inner?
    find? ks inner

/-- Changes the table at a path, which is created where it is missing. A table is created closed in
a closed one. -/
def updateAt (change : Bool × Fields → Option (Bool × Fields)) :
    List String → Bool × Fields → Option (Bool × Fields)
  | [], here => change here
  | k :: ks, (isClosed, fs) => do
    let t := (fs.lookup k).getD (.table isClosed [])
    let inner ← updateAt change ks (← t.inner?)
    some (isClosed, insert k (t.withInner inner) fs)

/-- Gives a path a value, over the one it has. A part of the path that has a value which is no table
is passed over. -/
def setAt (v : Tree) : List String → Fields → Fields
  | [], fs => fs
  | [k], fs => insert k v fs
  | k :: ks, fs =>
    let t := (fs.lookup k).getD (.table false [])
    match t.inner? with
    | some (isClosed, inner) => insert k (t.withInner (isClosed, setAt v ks inner)) fs
    | none => setAt v ks fs

end Tree

/-! ### Values -/

/-- The value of a date, with the time of day and the distance from universal time behind it. -/
def dated? (date : List Char) : List Token → Option (Setting × List Token)
  | .time time :: .offset offset :: rest => do
    some (.time (← Instant.parse? (String.ofList (date ++ 'T' :: time ++ offset))), rest)
  | .time time :: rest => do some (.civil ((← date? date) ++ "T" ++ (← time? time)), rest)
  | rest => do some (.civil (← date? date), rest)

def scalar? : Token → List Token → Option (Setting × List Token)
  | .string s, rest => some (.text s, rest)
  | .bool b, rest => some (.bool b, rest)
  | .float x, rest => some (.float x, rest)
  | .number w, rest =>
    if isWhole w then (integer? w).map fun n => (.int n, rest) else (float? w).map fun x => (.float x, rest)
  | .date w, rest => dated? w rest
  | .time w, rest => do some (.civil (← time? w), rest)
  | _, _ => none

mutual

def value (fuel : Nat) (ts : List Token) : Option (Tree × List Token) :=
  match fuel, ts with
  | 0, _ | _, [] => none
  | n + 1, .openBracket :: rest => (itemsFrom n [] rest).map fun (xs, rest) => (.ofItems xs, rest)
  | n + 1, .openBrace :: rest => (fieldsFrom n false [] rest).map fun (fs, rest) => (.table true fs, rest)
  | _ + 1, t :: rest => (scalar? t rest).map fun (v, rest) => (.value v, rest)

def itemsFrom (fuel : Nat) (acc : List Tree) (ts : List Token) : Option (List Tree × List Token) :=
  match fuel, ts with
  | 0, _ => none
  | _ + 1, .closeBracket :: rest => some (acc.reverse, rest)
  | n + 1, ts =>
    match value n ts with
    | some (x, .comma :: rest) => itemsFrom n (x :: acc) rest
    | some (x, .closeBracket :: rest) => some ((x :: acc).reverse, rest)
    | _ => none

def fieldsFrom (fuel : Nat) (isBehindComma : Bool) (acc : Fields) (ts : List Token) :
    Option (Fields × List Token) :=
  match fuel, ts with
  | 0, _ => none
  | _ + 1, .closeBrace :: rest => if isBehindComma then none else some (acc, rest)
  | n + 1, .key text :: .equals :: rest =>
    match keyParts? text, value n rest with
    | some path, some (v, .comma :: rest) => fieldsFrom n true (Tree.setAt v path acc) rest
    | some path, some (v, .closeBrace :: rest) => some (Tree.setAt v path acc, rest)
    | _, _ => none
  | _ + 1, _ => none

end

/-! ### Documents -/

structure Draft where
  fields : Fields := []
  table : List String := []
  /-- The headings that cannot stand again. -/
  headings : List (List Char) := []

namespace Draft

def updateAt (d : Draft) (change : Bool × Fields → Option (Bool × Fields)) (path : List String) :
    Option Draft :=
  (Tree.updateAt change path (false, d.fields)).map fun (_, fields) => { d with fields }

/-- A heading in brackets. The table it names must not be closed, unless it is the last one of a
list. -/
def openTable (d : Draft) (heading : List Char) : Option Draft := do
  if d.headings.contains heading then failure
  let path ← keyParts? heading
  let d ← d.updateAt some path
  match Tree.find? path d.fields with
  | some (.table true _) => none
  | _ => some { d with table := path, headings := heading :: d.headings }

/-- A heading in double brackets. The headings of the tables inside the list may stand again. -/
def openItem (d : Draft) (heading : List Char) : Option Draft := do
  let path ← keyParts? heading
  let d := (d.updateAt some path.dropLast).getD d
  let items ← match Tree.find? path d.fields with
    | none => some []
    | some (.tables items) => some items
    | some _ => none
  some
    { fields := Tree.setAt (.tables (items ++ [.table false []])) path d.fields
      table := path
      headings := heading :: d.headings.filter fun h => !(heading ++ ['.']).isPrefixOf h }

def assign (d : Draft) (path : List String) (v : Tree) : Option Draft := do
  let k ← path.getLast?
  d.updateAt (fun (isClosed, fs) =>
    if isClosed || (fs.lookup k).isSome then none else some (false, fs ++ [(k, v)])) (d.table ++ path.dropLast)

end Draft

def lines (fuel : Nat) (d : Draft) (ts : List Token) : Option Draft :=
  match fuel, ts with
  | _, [] => some d
  | n + 1, .itemHeading text :: rest => (d.openItem text).bind fun d => lines n d rest
  | n + 1, .heading text :: rest => (d.openTable text).bind fun d => lines n d rest
  | n + 1, .key text :: .equals :: rest =>
    match keyParts? text, value rest.length rest with
    | some path, some (v, rest) => (d.assign path v).bind fun d => lines n d rest
    | _, _ => none
  | _, _ => none

/-- What follows a byte order mark of any encoding; the text behind it is in UTF-8 all the same. -/
def dropMark : List UInt8 → List UInt8
  | 0x00 :: 0x00 :: 0xfe :: 0xff :: bs | 0xff :: 0xfe :: 0x00 :: 0x00 :: bs => bs
  | 0xef :: 0xbb :: 0xbf :: bs => bs
  | 0xfe :: 0xff :: bs | 0xff :: 0xfe :: bs => bs
  | bs => bs

def ofBytes? (bs : List UInt8) : Option Setting := do
  let ts ← tokens? (Text.shownChars (dropMark bs))
  let d ← lines ts.length {} ts
  some (.table (Tree.fieldSettings d.fields))

/-! ### Writing documents

Values by name, then tables by name, each under a heading with its path and two blanks further in
than the table around it. -/

/-- A character of a string. Control characters, as the lowest sixteen bits tell, have a letter or a
number of four digits. -/
def writtenChar (c : Char) : String :=
  match c.toNat with
  | 0x08 => "\\b"
  | 0x09 => "\\t"
  | 0x0a => "\\n"
  | 0x0c => "\\f"
  | 0x0d => "\\r"
  | 0x22 => "\\\""
  | 0x5c => "\\\\"
  | n =>
    if n % 0x10000 < 0x1f then "\\u" ++ (Text.hexDigits 4 (n % 0x10000)).map Char.toUpper
    else String.singleton c

def writtenString (s : String) : String := "\"" ++ String.join ((Text.shown s).toList.map writtenChar) ++ "\""

mutual

def writtenValue : Setting → String
  | .bool b => if b then "true" else "false"
  | .int n => toString n
  | .float x => x.display
  | .time t => t.text
  | .civil s => s
  | .text s => writtenString s
  | .list items => "[" ++ String.intercalate ", " (writtenValues items) ++ "]"
  | .null | .table _ | .dictionary _ => ""

def writtenValues : List Setting → List String
  | [] => []
  | v :: vs => writtenValue v :: writtenValues vs

end

def hasHeading : Setting → Bool
  | .table _ => true
  | .list (.table _ :: _) => true
  | _ => false

mutual

def section? (path indent : String) : Setting → String
  | .table fs => "\n" ++ indent ++ "[" ++ path ++ "]\n" ++ tableText path (indent ++ "  ") fs
  | .list items => itemSections path indent items
  | _ => ""

def itemSections (path indent : String) : List Setting → String
  | [] => ""
  | v :: vs =>
    (match v with
      | .table fs => "\n" ++ indent ++ "[[" ++ path ++ "]]\n" ++ tableText path (indent ++ "  ") fs
      | _ => "") ++ itemSections path indent vs

/-- The content of a table. Its fields stand in ascending order of names. -/
def tableText (path indent : String) (fs : List (String × Setting)) : String :=
  valueLines indent fs ++ fieldSections path indent fs

def valueLines (indent : String) : List (String × Setting) → String
  | [] => ""
  | (k, v) :: fs =>
    (if hasHeading v || v.isNull then "" else indent ++ k ++ " = " ++ writtenValue v ++ "\n") ++
      valueLines indent fs

def fieldSections (path indent : String) : List (String × Setting) → String
  | [] => ""
  | (k, v) :: fs =>
    (if hasHeading v then section? (if path == "" then k else path ++ "." ++ k) indent v else "") ++
      fieldSections path indent fs

end

def render (fs : List (String × Setting)) : String := tableText "" "" fs

end BytecodeAudit.Toml
