import BytecodeAudit.Decimal
import BytecodeAudit.Report.Basic
import BytecodeAudit.Scan.Findings
import BytecodeAudit.View.Grid

/-!
# Views

Something to show: how it reads as text, as Markdown, and which data stand for it. A document is
made of views such as tables and sections. On a terminal, text stands between the escape sequences
that set a style and set it back.

Data are written in TOON, a line-oriented notation of JSON values. Fields stand on lines of their
own, indented by two blanks a level. A list tells its length: values without parts stand behind it
on one line, objects with the same fields as rows under the names of the fields, and everything else
as items behind dashes.
-/

namespace BytecodeAudit

/-! ### Canonical JSON

Numbers are double-precision ones with the fewest digits that read back, with an exponent from
`10 ^ 21` on and below a millionth; fields stand in ascending order of names, each once. -/

def Binary64.layout (text : DecimalDigits → String) : Binary64 → String
  | .finite negative significand exponent =>
    let d := shortest significand exponent
    (if negative then "-" else "") ++ (if d.digits.isEmpty then "0" else text d)
  | x => x.display

def Binary64.plain (x : Binary64) : String := x.layout DecimalDigits.positional

namespace Json

def numberText (x : Binary64) : String :=
  x.layout fun d => if d.point - 1 < -6 || 21 ≤ d.point - 1 then d.scientific 1 else d.positional

def insertSorted (name : String) (v : Json) (fs : List (String × Json)) : List (String × Json) :=
  Text.place name v (fun _ => v) fs

mutual

def canonical : Json → Json
  | .number s => .number (((Binary64.ofText? s).map numberText).getD s)
  | .array xs => .array (canonicalItems xs)
  | .object fs => .object (canonicalFields [] fs)
  | j => j

def canonicalItems : List Json → List Json
  | [] => []
  | x :: xs => x.canonical :: canonicalItems xs

def canonicalFields (acc : List (String × Json)) : List (String × Json) → List (String × Json)
  | [] => acc
  | (k, v) :: fs => canonicalFields (insertSorted k v.canonical acc) fs

end

end Json

namespace Toon

def isNumeric (cs : List Char) : Bool :=
  let unsigned := match cs with
    | '-' :: cs => cs
    | cs => cs
  let rest := unsigned.dropWhile Char.isDigit
  let rest := match rest with
    | '.' :: d :: more => if d.isDigit then more.dropWhile Char.isDigit else rest
    | _ => rest
  let isExponent := match rest with
    | [] => true
    | e :: more =>
      (e == 'e' || e == 'E') && (Binary64.exponent? more).isSome
  (unsigned.head?.any Char.isDigit) && isExponent

/-- Whether a text starts like a number with a leading zero. -/
def isPadded : List Char → Bool
  | '0' :: c :: _ => c.isDigit
  | _ => false

def isMark (c : Char) : Bool :=
  c == ',' || c == ':' || c == '"' || c == '\\' || c == '[' || c == ']' || c == '\x7b' || c == '\x7d' ||
    c.toNat < 0x20

def needsQuotes (s : String) : Bool :=
  let cs := s.toList
  cs.isEmpty || cs.head?.any Text.isBlank || cs.getLast?.any Text.isBlank ||
    ["true", "false", "null"].contains s || isNumeric cs || isPadded cs || cs.head? == some '-' ||
    cs.any isMark

def quotedChar (c : Char) : String :=
  match c with
  | '"' => "\\\""
  | '\\' => "\\\\"
  | '\n' => "\\n"
  | '\r' => "\\r"
  | '\t' => "\\t"
  | c => String.singleton c

def quoted (s : String) : String := "\"" ++ String.join (s.toList.map quotedChar) ++ "\""

def text (s : String) : String := if needsQuotes s then quoted s else s

def isNameChar (c : Char) : Bool :=
  c.isAlphanum || c == '_' || c == '.' || (0x80 ≤ c.toNat && Text.isPrintable c)

def name (s : String) : String :=
  match s.toList with
  | c :: cs => if isNameChar c && !c.isDigit && c != '.' && cs.all isNameChar then s else quoted s
  | [] => "\"\""

/-- The name in front of the length of a list. The empty name is left out. -/
def listName (s : String) : String := if s == "" then "" else name s

/-- An integer. One that cannot be told from its neighbours as a binary64 number is a text. -/
def integer (n : Int) : Json := if n.natAbs ≤ 9007199254740991 then .int n else .string (toString n)

def number (literal : String) : String :=
  if literal == "-0" then "0"
  else if literal.toList.all fun c => c.isDigit || c == '-' then literal
  else ((Binary64.ofText? literal).map Binary64.plain).getD literal

def atom? : Json → Option String
  | .null => some "null"
  | .bool true => some "true"
  | .bool false => some "false"
  | .number s => some (number s)
  | .string s => some (text s)
  | .array _ | .object _ => none

/-- The values of an object under some names, if these are all its names and the values have no
parts. -/
def rowOf? (names : List String) : Json → Option (List String)
  | .object fs =>
    if fs.length == names.length then names.mapM fun n => (fs.lookup n).bind atom? else none
  | _ => none

def rows? : List Json → Option (List String × List (List String))
  | .object fs :: rest =>
    let names := fs.map (·.1)
    if names.isEmpty then none
    else ((Json.object fs :: rest).mapM (rowOf? names)).map (names, ·)
  | _ => none

def indent (depth : Nat) : String := String.join (List.replicate depth "  ")

def count (xs : List Json) : String := "[" ++ toString xs.length ++ "]"

mutual

def listLines (lead : String) (depth : Nat) (xs : List Json) : List String :=
  match xs.mapM atom?, rows? xs with
  | some [], _ => [lead ++ count xs ++ ":"]
  | some atoms, _ => [lead ++ count xs ++ ": " ++ String.intercalate "," atoms]
  | none, some (names, rows) =>
    (lead ++ count xs ++ "\x7b" ++ String.intercalate "," (names.map name) ++ "\x7d:") ::
      rows.map fun row => indent depth ++ String.intercalate "," row
  | none, none => (lead ++ count xs ++ ":") :: itemLines depth xs

def itemLines (depth : Nat) : List Json → List String
  | [] => []
  | x :: xs => item depth x ++ itemLines depth xs

/-- The lines of an item. The first field of an object stands behind the dash, unless it is an
object. -/
def item (depth : Nat) : Json → List String
  | .array xs => listLines (indent depth ++ "- ") (depth + 1) xs
  | .object [] => [indent depth ++ "- \x7b\x7d"]
  | .object ((k, v) :: fs) =>
    (match v with
      | .array xs => listLines (indent depth ++ "- " ++ listName k) (depth + 1) xs
      | .object inner =>
        (indent depth ++ "-") :: (indent (depth + 1) ++ name k ++ ":") :: fieldLines (depth + 2) inner
      | v => [indent depth ++ "- " ++ name k ++ ": " ++ (atom? v).getD ""]) ++
      fieldLines (depth + 1) fs
  | v => [indent depth ++ "- " ++ (atom? v).getD ""]

def fieldLines (depth : Nat) : List (String × Json) → List String
  | [] => []
  | (k, v) :: fs =>
    (match v with
      | .array xs => listLines (indent depth ++ listName k) (depth + 1) xs
      | .object inner => (indent depth ++ name k ++ ":") :: fieldLines (depth + 1) inner
      | v => [indent depth ++ name k ++ ": " ++ (atom? v).getD ""]) ++ fieldLines depth fs

end

def lines : Json → List String
  | .array xs => listLines "" 1 xs
  | .object fs => fieldLines 0 fs
  | v => [(atom? v).getD ""]

/-- The first control character of some lines, which cannot be written; line ends and tabs are
escaped. -/
def control? (ls : List String) : Option Char :=
  (ls.flatMap String.toList).find? fun c => c.toNat < 0x20

def codePoint (c : Char) : String := "U+00" ++ (Text.hexDigits 2 c.toNat).toUpper

/-- The notation of a value. Control characters without an escape cannot be written. -/
def render (j : Json) : Except Failure String :=
  let ls := lines j
  match control? ls with
  | some c => .error (.malformed ("toon: unsupported control character " ++ codePoint c ++ " in string"))
  | none => .ok (String.intercalate "\n" ls)

end Toon

/-! ### Views -/

inductive Style where
  | bold
  | red
  | green
  | yellow
  | cyan
  | gray
deriving DecidableEq, Repr

namespace Style

def code : Style → String
  | .bold => "1"
  | .red => "31"
  | .green => "32"
  | .yellow => "33"
  | .cyan => "36"
  | .gray => "90"

def resetCode : Style → String
  | .bold => "22"
  | _ => "0"

def sequence (codes : List String) : String := "\x1b[" ++ String.intercalate ";" codes ++ "m"

def apply (styles : List Style) (text : String) : String :=
  sequence (styles.map code) ++ text ++ sequence (styles.map resetCode)

end Style

/-- Text in the color of a severity. Labels without a color leave it plain. -/
def Severity.tint (s : Severity) (text : String) : String :=
  if s == critical || s == major then Style.apply [.red] text
  else if s == moderate then Style.apply [.yellow] text
  else if s == minor then Style.apply [.cyan] text
  else if s == info || s == muted then Style.apply [.gray] text
  else text

/-- The data that stand for a view. The two forms name fields differently; some data have no form
for TOON. -/
structure ViewData where
  json : Json
  toon : Option Json

def ViewData.ofJson (j : Json) : ViewData := ⟨j, some j⟩

structure View where
  text : (isColored : Bool) → Except Failure String
  markdown : Except Failure String
  data : ViewData

def View.heading (title : String) (mark : Char) (styles : List Style) : String :=
  (if styles.isEmpty then title else Style.apply styles title) ++ "\n" ++
    String.ofList (List.replicate (Text.toBytes title).length mark) ++ "\n"

def View.jsonText (j : Json) : String := j.pretty 0 ++ "\n"

def View.ofData (j : Json) : View :=
  { text := fun _ => .ok (jsonText j)
    markdown := .ok ("\x60\x60\x60json\n" ++ jsonText j ++ "\x60\x60\x60\n")
    data := .ofJson j }

/-! ### Tables -/

structure Table where
  title : String := ""
  headers : List String := []
  rows : List (List String) := []
  footer : List String := []
  data : Option ViewData := none
  severityColumn : Option Nat := none

namespace Table

def record (headers row : List String) : Json :=
  .object ((headers.zip row).foldl (fun fs (h, c) => Json.insertSorted h (.string c) fs) [])

def viewData (t : Table) : ViewData :=
  t.data.getD (.ofJson (.array (t.rows.map (record t.headers))))

def tintCell (cell : String) : String :=
  match Severity.parse cell with
  | .ok s => s.tint cell
  | .error _ => cell

def tintRow (t : Table) (row : List String) : List String :=
  match t.severityColumn with
  | some i => row.modify i tintCell
  | none => row

def text (t : Table) (isColored : Bool) : String :=
  let title := if t.title == "" then ""
    else View.heading t.title '=' (if isColored then [.bold] else []) ++ "\n"
  let rows := if isColored then t.rows.map t.tintRow else t.rows
  title ++ (Grid.render ⟨t.headers, rows, t.footer⟩) ++ "\n"

def markdownLine (cells : List String) : String := "| " ++ String.intercalate " | " cells ++ " |\n"

def markdown (t : Table) : String :=
  (if t.title == "" then "" else "## " ++ t.title ++ "\n\n") ++ markdownLine t.headers ++
    markdownLine (t.headers.map fun _ => "---") ++ String.join (t.rows.map markdownLine) ++
    (if t.footer.isEmpty then "" else markdownLine t.footer) ++ "\n"

def view (t : Table) : View := ⟨fun c => .ok (t.text c), .ok t.markdown, t.viewData⟩

end Table

/-! ### Sections -/

/-- A titled block of text with a caller tree and further sections below it. -/
inductive Section where
  | mk (title content : String) (tree : Option CallNode) (sections : List Section)
      (data : Option ViewData)

mutual

def CallNode.toToon : CallNode → Json
  | .mk n t m o l cs b =>
    .object [("Name", .string n), ("Type", .string t), ("Method", .string m), ("Module", .string o),
      ("Location", .string (Location.displayOption l)), ("Children", .array (CallNode.childrenToToon cs)),
      ("Truncated", .bool b)]
  | .gap => .null

def CallNode.childrenToToon : List CallNode → List Json
  | [] => []
  | c :: cs => c.toToon :: CallNode.childrenToToon cs

end

namespace Section

def plain (title content : String) : Section := .mk title content none [] none

mutual

def textAt (isColored : Bool) (depth : Nat) : Section → String
  | .mk title content tree sections _ =>
    (if title == "" then ""
      else View.heading title (if depth == 0 then '=' else '-') (if isColored then [.bold] else [])) ++
    (if content == "" then "" else content ++ "\n") ++
    (match tree with
    | some n => n.print
    | none => "") ++ textsAt isColored (depth + 1) sections

def textsAt (isColored : Bool) (depth : Nat) : List Section → String
  | [] => ""
  | s :: ss => "\n" ++ s.textAt isColored depth ++ textsAt isColored depth ss

end

mutual

def markdownAt (level : Nat) : Section → String
  | .mk title content tree sections _ =>
    (if title == "" then ""
      else String.ofList (List.replicate level '#') ++ " " ++ title ++ "\n\n") ++
    (if content == "" then "" else content ++ "\n\n") ++
    (match tree with
    | some n => "\x60\x60\x60\n" ++ n.print ++ "\x60\x60\x60\n\n"
    | none => "") ++ markdownsAt (level + 1) sections

def markdownsAt (level : Nat) : List Section → String
  | [] => ""
  | s :: ss => s.markdownAt level ++ markdownsAt level ss

end

mutual

def toJson : Section → Json
  | .mk title content tree sections _ =>
    .compactFields [("title", Json.text? title), ("content", Json.text? content),
      ("tree", tree.map CallNode.toJson), ("sections", Json.nonempty? (sectionsToJson sections))]

def sectionsToJson : List Section → List Json
  | [] => []
  | s :: ss => s.toJson :: sectionsToJson ss

end

mutual

def toToon : Section → Option Json
  | .mk title content tree sections data => do
    let inner ← sectionsToToon sections
    let own ← match data with
      | some d => d.toon
      | none => some .null
    some (.object [("Title", .string title), ("Content", .string content),
      ("Tree", (tree.map CallNode.toToon).getD .null), ("Sections", .array inner), ("Data", own)])

def sectionsToToon : List Section → Option (List Json)
  | [] => some []
  | s :: ss => do
    let v ← s.toToon
    some (v :: (← sectionsToToon ss))

end

mutual

def hasGap : Section → Bool
  | .mk _ _ tree sections _ =>
    (match tree with
    | some n => n.hasGap
    | none => false) || anyGap sections

def anyGap : List Section → Bool
  | [] => false
  | s :: ss => s.hasGap || anyGap ss

end

/-- The data of a section. Data that stand for it take its place. -/
def viewData (s : Section) : ViewData :=
  match s with
  | .mk _ _ _ _ (some data) => data
  | .mk _ _ _ _ none => ⟨s.toJson, s.toToon⟩

def view (s : Section) : View :=
  let whole (t : String) : Except Failure String := if s.hasGap then .error .nullEntry else .ok t
  ⟨fun c => whole (s.textAt c 0), whole (s.markdownAt 2), s.viewData⟩

end Section

/-! ### Documents -/

structure Document where
  title : String := ""
  parts : List View := []
  data : Option ViewData := none

namespace Document

def viewData (d : Document) : ViewData :=
  let record (parts : List Json) : Json := .object [("sections", .array parts), ("title", .string d.title)]
  d.data.getD
    ⟨record (d.parts.map fun v => v.data.json), (d.parts.mapM fun (v : View) => v.data.toon).map record⟩

def text (d : Document) (isColored : Bool) : Except Failure String := do
  let parts ← d.parts.mapM fun (v : View) => v.text isColored
  .ok ((if d.title == "" then ""
    else View.heading d.title '=' (if isColored then [.bold, .cyan] else []) ++ "\n") ++
    String.intercalate "\n" parts)

def markdown (d : Document) : Except Failure String := do
  let parts ← d.parts.mapM fun (v : View) => v.markdown
  .ok ((if d.title == "" then "" else "# " ++ d.title ++ "\n\n") ++ String.join parts)

def view (d : Document) : View := ⟨d.text, d.markdown, d.viewData⟩

end Document

/-! ### Formats and status lines -/

inductive Format where
  | text
  | json
  | markdown
  | toon
deriving DecidableEq, Repr, Inhabited

def Format.name : Format → String
  | .text => "text"
  | .json => "json"
  | .markdown => "markdown"
  | .toon => "toon"

def Format.parse (s : String) : Format :=
  match Text.lower s with
  | "json" => .json
  | "markdown" | "md" => .markdown
  | "toon" => .toon
  | _ => .text

/-- Writes a view. Trees with gaps cannot be printed, nor can data that TOON has no form or
characters for. -/
def Format.write (f : Format) (isColored : Bool) (v : View) : Except Failure String :=
  match f with
  | .text => v.text isColored
  | .markdown => v.markdown
  | .json => .ok (View.jsonText v.data.json)
  | .toon =>
    match v.data.toon with
    | some j => (Toon.render j).map (· ++ "\n")
    | none => .error (.malformed "toon: unsupported value")

inductive Tone where
  | info
  | success
  | warning
  | error
deriving DecidableEq, Repr

namespace Tone

def lead : Tone → String
  | .warning => "warning: "
  | .error => "error: "
  | .info | .success => ""

def style : Tone → Style
  | .info => .cyan
  | .success => .green
  | .warning => .yellow
  | .error => .red

def line (t : Tone) (isColored : Bool) (message : String) : String :=
  if isColored then Style.apply [t.style] (message ++ "\n") else t.lead ++ message ++ "\n"

/-- A status line made of a template and its arguments. The start and the end of the line belong to
the template. -/
def notify (t : Tone) (isColored : Bool) (format : String) (args : List Text.Template.Arg) : String :=
  if isColored then Style.apply [t.style] (Text.Template.render (format ++ "\n") args)
  else Text.Template.render (t.lead ++ format ++ "\n") args

def ofNumber : Int → Tone
  | 1 => .success
  | 2 => .warning
  | 3 => .error
  | _ => .info

end Tone

/-! ### Reports

The issues of a report are shown with the most severe first, without those that are hidden or below
a threshold, and followed by a summary. Without a selection, or with one that selects nothing, all
issues are shown. -/

namespace Descriptor

def toToon (d : Descriptor) : Json :=
  .object [("ID", .string d.id), ("Title", .string d.title), ("MessageFormat", .string d.messageFormat),
    ("DefaultSeverity", .string d.defaultSeverity.display), ("Areas", .strings (d.areas.map (·.name))),
    ("Platforms", .strings (d.platforms.map (·.display))), ("MinVersion", .string d.minVersion),
    ("MaxVersion", .string d.maxVersion), ("Description", .string d.description),
    ("Recommendation", .string d.recommendation), ("DocumentationURL", .string d.documentationUrl),
    ("Type", .string d.typeName), ("Method", .string d.method), ("OpCode", .string d.opcode)]

/-- What a descriptor matches: a member, or else an opcode. -/
def criteria (d : Descriptor) : String := if d.typeName == "" then d.opcode else d.typeName ++ "::" ++ d.method

def cells (d : Descriptor) : List String :=
  [d.id, d.defaultSeverity.label, d.title, d.criteria, String.intercalate "," (d.platforms.map (·.display))]

def table (ds : List Descriptor) : Table :=
  { title := "Descriptors"
    headers := ["ID", "Severity", "Title", "Matches", "Platforms"]
    rows := ds.map cells
    footer := ["", "", toString ds.length ++ " descriptors", "", ""]
    data := some ⟨.array (ds.map toJson), some (.array (ds.map toToon))⟩
    severityColumn := some 1 }

def listing (ds : List Descriptor) : Table :=
  { table ds with data := some ⟨Json.arrayOrNull (ds.map toJson), some (.array (ds.map toToon))⟩ }

def details (d : Descriptor) (canFix : Bool) : List String :=
  let listed (what : String) (names : List String) : List String :=
    if names.isEmpty then [] else [what ++ ": " ++ String.intercalate ", " names]
  ["Severity: " ++ d.defaultSeverity.label] ++ listed "Areas" (d.areas.map (·.name)) ++
    listed "Platforms" (d.platforms.map (·.display)) ++
    (if d.minVersion == "" && d.maxVersion == "" then []
      else ["Versions: " ++ d.minVersion ++ " - " ++ d.maxVersion]) ++
    (if canFix then ["Fixable: yes"] else [])

def fullSection (d : Descriptor) (canFix : Bool) : Section :=
  let part (title content : String) : List Section :=
    if content == "" then [] else [.plain title content]
  .mk (d.id ++ " " ++ d.title) (String.intercalate "\n" (d.details canFix)) none
    (part "Description" d.description ++ part "Recommendation" d.recommendation ++
      part "Documentation" d.documentationUrl) none

def view (d : Descriptor) (canFix : Bool) : View :=
  { (d.fullSection canFix).view with data := ⟨d.toJson, some d.toToon⟩ }

end Descriptor

namespace ModuleRun

def duration (r : ModuleRun) : Duration := Duration.clamp ⟨r.finish.nanos - r.start.nanos⟩

def cells (isColored : Bool) (r : ModuleRun) : List String :=
  let outcome := if isColored && r.outcome != Outcome.success then Style.apply [.red] r.outcome.label
    else r.outcome.label
  [r.name, String.intercalate "," ((r.analyzed.map (·.name)).mergeSort (Text.rank · ≤ Text.rank ·)), outcome,
    (r.duration.round 1000000).text, r.error]

def table (rs : List ModuleRun) (isColored : Bool) : Table :=
  { title := "Modules"
    headers := ["Module", "Categories", "Outcome", "Duration", "Error"]
    rows := rs.map (cells isColored)
    data := some ⟨.array (rs.map toJson), if rs.isEmpty then some (.array []) else none⟩ }

end ModuleRun

/-! ### Issues -/

structure IssueRow where
  descriptorId : String
  severity : Severity
  category : Category
  description : String
  location : String
  fixed : Bool
  dependencies : Option CallNode

def IssueRow.toJson (r : IssueRow) : Json :=
  .compactFields [("descriptor_id", Json.text? r.descriptorId), ("severity", some (.string r.severity.label)),
    ("category", some (.string r.category.name)), ("description", some (.string r.description)),
    ("location", Json.text? r.location), ("fixed", Json.true? r.fixed),
    ("dependencies", r.dependencies.map CallNode.toJson)]

def IssueRow.toToon (r : IssueRow) : Json :=
  .object [("descriptor_id", .string r.descriptorId), ("severity", .string r.severity.display),
    ("category", .string r.category.name), ("description", .string r.description),
    ("location", .string r.location), ("fixed", .bool r.fixed)]

def IssueRow.cells (r : IssueRow) : List String := [r.severity.label, r.descriptorId, r.description, r.location]

def Session.toToon (s : Session) : Json :=
  .object [("ToolVersion", .string s.toolVersion), ("Hostname", .string s.hostname), ("OS", .string s.os),
    ("Arch", .string s.arch), ("Platform", .string s.platform.display),
    ("RuntimeVersion", .string s.runtimeVersion), ("Revision", .string s.revision),
    ("Timestamp", .string s.timestamp.text)]

def Counts.toToon (cs : Counts) : Json := .object (cs.map fun (n, k) => (n, Toon.integer k))

def Summary.toToon (s : Summary) : Json :=
  .object [("Total", Toon.integer s.total), ("Fixed", Toon.integer s.fixed),
    ("ByCategory", s.byCategory.toToon), ("BySeverity", s.bySeverity.toToon),
    ("Failures", Toon.integer s.failures), ("Cancelled", Toon.integer s.cancelled)]

def Summary.count (s : Summary) (severity : Severity) : Int := (s.bySeverity.lookup severity.label).getD 0

def Summary.table (s : Summary) : Table :=
  { title := "Summary"
    headers := ["Severity", "Issues"]
    rows := (Severity.known.filter fun x => 0 < s.count x).map fun x => [x.label, toString (s.count x)]
    footer := ["total", toString s.total]
    data := some ⟨s.toJson, some s.toToon⟩
    severityColumn := some 0 }

structure IssuesView where
  report : Report
  /-- The issues to show; all when there is none. -/
  selection : List Issue := []
  /-- The threshold; the default severity is none. -/
  minimum : Severity := Severity.default
  showTrees : Bool := false

namespace IssuesView

def issues (v : IssuesView) : List Issue := if v.selection.isEmpty then v.report.issues else v.selection

def shows (v : IssuesView) (s : Severity) : Bool :=
  s.isVisible && (v.minimum.isDefault || v.minimum.rank ≤ s.rank)

def rowOf (v : IssuesView) (i : Issue) : IssueRow :=
  { descriptorId := i.descriptorId
    severity := v.report.effectiveSeverity i
    category := i.category
    description := i.description
    location := Location.displayOption i.location
    fixed := i.fixed
    dependencies := i.dependencies }

def rows (v : IssuesView) : List IssueRow :=
  ((v.report.sorted v.issues).map v.rowOf).filter fun r => v.shows r.severity

def indentation : String := String.ofList (List.replicate 20 ' ')

def rowText (isColored showTrees : Bool) (r : IssueRow) : String :=
  let severity := Text.padRight 11 ("[" ++ r.severity.label ++ "]")
  let severity := if isColored then r.severity.tint severity else severity
  let id := Text.padRight 8 (if r.descriptorId == "" then "-" else r.descriptorId)
  let tree := if showTrees then (r.dependencies.map (CallNode.branches indentation)).getD [] else []
  severity ++ " " ++ id ++ " " ++ r.description ++ "\n" ++
    (if r.location == "" then "" else indentation ++ r.location ++ "\n") ++
    String.join (tree.map (· ++ "\n"))

def hasGap (v : IssuesView) : Bool :=
  v.showTrees && v.rows.any fun r => (r.dependencies.map CallNode.hasGap).getD false

def text (v : IssuesView) (isColored : Bool) : String :=
  match v.rows with
  | [] => "No issues found.\n"
  | rows =>
    String.join (rows.map (rowText isColored v.showTrees)) ++ "\n" ++ v.report.summary.table.text isColored

def markdown (v : IssuesView) : String :=
  Table.markdown
      { title := "Issues"
        headers := ["Severity", "ID", "Description", "Location"]
        rows := v.rows.map IssueRow.cells } ++
    v.report.summary.table.markdown

def data (v : IssuesView) : ViewData :=
  ⟨.object [("session", v.report.session.toJson), ("summary", v.report.summary.toJson),
      ("issues", Json.arrayOrNull (v.rows.map IssueRow.toJson))],
    some (.object [("session", v.report.session.toToon), ("summary", v.report.summary.toToon),
      ("issues", .array (v.rows.map IssueRow.toToon))])⟩

def view (v : IssuesView) : View :=
  { text := fun c => if v.hasGap then .error .nullEntry else .ok (v.text c)
    markdown := .ok v.markdown
    data := v.data }

end IssuesView

/-! ### Listings -/

/-- The text of a listing line's operand: the called member, or else the type. -/
def ScannedInstruction.operandName (i : ScannedInstruction) : String :=
  match i.callee, i.operand with
  | some m, _ => m.fullName
  | none, some t => t.fullName
  | none, none => ""

structure Listing where
  content : Module
  isShort : Bool := false

namespace Listing

def lines (l : Listing) : List ScannedInstruction :=
  (l.content.scan (!l.isShort)).filterMap ScanEvent.instruction?

def offset (i : ScannedInstruction) : String := "IL_" ++ Text.hexDigits 4 i.offset.toNat

def position (i : ScannedInstruction) : String := Location.displayOption i.location

def lineJson (i : ScannedInstruction) : Json :=
  .compactFields [("method", some (.string i.methodId)), ("offset", some (.nat i.offset.toNat)),
    ("opcode", some (.string i.opcode.mnemonic)), ("operand", Json.text? i.operandName),
    ("location", Json.text? (position i))]

def lineToon (i : ScannedInstruction) : Json :=
  .object [("method", .string i.methodId), ("offset", .nat i.offset.toNat),
    ("opcode", .string i.opcode.mnemonic), ("operand", .string i.operandName),
    ("location", .string (position i))]

def facts (m : Module) : List (String × Json) :=
  [("debug_build", .bool m.isDebugBuild), ("has_symbols", .bool m.hasSymbols), ("methods", .nat m.methodCount)]

def data (l : Listing) : ViewData :=
  let m := l.content
  let versions (text : String → Option Json) : List (String × Option Json) :=
    [("name", some (.string m.name)), ("version", text m.version), ("runtime_version", text m.runtimeVersion)]
  let record (text : String → Option Json) (instructions : Json) : Json :=
    .compactFields (versions text ++ (facts m ++ [("instructions", instructions)]).map fun (k, v) => (k, some v))
  ⟨record Json.text? (Json.arrayOrNull (l.lines.map lineJson)),
    some (record (some ∘ Json.string) (.array (l.lines.map lineToon)))⟩

def header (m : Module) : String :=
  "module " ++ m.name ++ (if m.version == "" then "" else " " ++ m.version) ++
    " (" ++ toString m.methodCount ++ " methods" ++ (if m.isDebugBuild then ", debug" else "") ++
    (if m.hasSymbols then "" else ", no symbols") ++ ")\n"

def lineText (i : ScannedInstruction) : String :=
  "  " ++ offset i ++ "  " ++ Text.padRight 10 i.opcode.mnemonic ++ " " ++ i.operandName ++
    (if position i == "" then "" else "  // " ++ position i) ++ "\n"

def linesText (method : String) : List ScannedInstruction → String
  | [] => ""
  | i :: is =>
    (if i.methodId == method then "" else "\n" ++ i.methodId ++ "\n") ++ lineText i ++
      linesText i.methodId is

def text (l : Listing) : String := header l.content ++ linesText "" l.lines

def markdown (l : Listing) : String :=
  "## " ++ l.content.name ++ "\n\n" ++ Table.markdown
    { headers := ["Method", "Offset", "OpCode", "Operand", "Location"]
      rows := l.lines.map fun i => [i.methodId, offset i, i.opcode.mnemonic, i.operandName, position i] }

def view (l : Listing) : View := ⟨fun _ => .ok l.text, .ok l.markdown, l.data⟩

end Listing

namespace CallStats

def toToon (s : CallStats) : Json :=
  .object [("Methods", .nat s.methods), ("Edges", .nat s.edges), ("Roots", .nat s.roots),
    ("Cycles", .array (s.cycles.map .strings)), ("SelfCalls", .nat s.selfCalls)]

def table (s : CallStats) : Table :=
  { title := "Call graph"
    headers := ["Metric", "Value"]
    rows := [["Methods", toString s.methods], ["Call edges", toString s.edges],
      ["Entry points", toString s.roots], ["Recursive methods", toString s.selfCalls],
      ["Cycles", toString s.cycles.length]] }

def view (s : CallStats) : View :=
  let cycles := String.intercalate "\n" (s.cycles.map fun c => "- " ++ String.intercalate " -> " c)
  Document.view
    { parts := s.table.view :: (if s.cycles.isEmpty then [] else [(Section.plain "Cycles" cycles).view])
      data := some ⟨s.toJson, some s.toToon⟩ }

end CallStats

def CallNode.callersView (root : CallNode) (method : String) : View :=
  (Section.mk ("Callers of " ++ method) "" (some root) [] (some ⟨root.toJson, some root.toToon⟩)).view

/-! ### Views from JSON -/

def Text.Template.Arg.ofJson : Json → Text.Template.Arg
  | .string s => .text s
  | .bool b => .bool b
  | .null => .null
  | n => .int n.integer

def ViewData.ofField (j : Json) : Option ViewData :=
  match j.field "data" with
  | .null => none
  | d => some (.ofJson d.canonical)

def Table.ofJson (j : Json) : Table :=
  { title := (j.field "title").text
    headers := (j.field "headers").texts
    rows := (j.field "rows").items.map Json.texts
    footer := (j.field "footer").texts
    data := ViewData.ofField j
    severityColumn := (j.field? "severity_col").map Json.natural }

def CallNode.ofField (j : Json) : Option CallNode := (CallNode.decode none (j.field "tree")).getD none

def Section.ofJson (fuel : Nat) (j : Json) : Section :=
  let inner := match fuel with
    | 0 => []
    | n + 1 => (j.field "sections").items.map (ofJson n)
  .mk (j.field "title").text (j.field "content").text (CallNode.ofField j) inner (ViewData.ofField j)

def Counts.ofJson (j : Json) : Counts :=
  (j.fields.foldl (fun fs (n, v) => Json.insertSorted n v fs) []).map fun (n, v) => (n, v.integer)

def Summary.ofJson (j : Json) : Summary :=
  { total := (j.field "total").integer
    fixed := (j.field "fixed").integer
    byCategory := .ofJson (j.field "by_category")
    bySeverity := .ofJson (j.field "by_severity")
    failures := (j.field "failures").integer
    cancelled := (j.field "cancelled").integer }

end BytecodeAudit
