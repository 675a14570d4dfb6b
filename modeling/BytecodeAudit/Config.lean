import BytecodeAudit.Params
import BytecodeAudit.Setting.Document

/-!
# Configuration

What an audit is configured with: its target, the modules to analyze, the settings file, further
descriptor databases, parameter and severity overrides, the cache and the output. A configuration is
read over defaults from a settings document, and is written as a TOML document.
-/

namespace BytecodeAudit

namespace Config

structure Analysis where
  platform : String := ""
  supportedPlatforms : List String := Platform.known.map (·.name)
  runtimeVersion : String := ""
  categories : List String := []
  parallel : Bool := false
  callDepth : Int := 10
deriving DecidableEq, Repr, Inhabited

structure Modules where
  paths : List String := []
  included : List String := ["**/*.bcm"]
  excluded : List String := ["**/obj/**", "**/.auger/**"]
deriving DecidableEq, Repr, Inhabited

structure Caching where
  enabled : Bool := true
  dir : String := ".auger/cache"
  ttl : Int := 24
deriving DecidableEq, Repr, Inhabited

structure Output where
  format : String := "text"
  color : Bool := true
  verbose : Bool := false
deriving DecidableEq, Repr, Inhabited

/-- Parameter values for a platform, in document order. The list of values may be missing. -/
structure Layer where
  platform : Platform := Platform.default
  values : Option (List (String × Int)) := none
deriving DecidableEq, Repr, Inhabited

end Config

structure Config where
  analysis : Config.Analysis := {}
  modules : Config.Modules := {}
  settingsPath : String := ""
  descriptorFiles : List String := []
  params : List Config.Layer := []
  rules : List Rule := []
  cache : Config.Caching := {}
  output : Config.Output := {}
deriving DecidableEq, Repr, Inhabited

namespace Config

def Layer.flat (l : Layer) : ParamLayer := ⟨l.platform, l.values.getD []⟩

def platform (c : Config) : Platform := Platform.parse c.analysis.platform

def supportedPlatforms (c : Config) : List Platform :=
  (c.analysis.supportedPlatforms.map Platform.parse).filter Platform.isKnown

def categories (c : Config) : List Category := c.analysis.categories.map fun name => ⟨name⟩

/-! ### Reading -/

open Setting (decodeText decodeTexts decodeBool decodeInt decodeList decodeFields)

def Analysis.decode (a : Analysis) (v : Setting) : Option Analysis :=
  decodeFields [
    ("platform", fun a v => (decodeText a.platform v).map fun s => { a with platform := s }),
    ("supported_platforms", fun a v =>
      (decodeTexts a.supportedPlatforms v).map fun xs => { a with supportedPlatforms := xs }),
    ("runtime_version", fun a v =>
      (decodeText a.runtimeVersion v).map fun s => { a with runtimeVersion := s }),
    ("categories", fun a v => (decodeTexts a.categories v).map fun xs => { a with categories := xs }),
    ("parallel", fun a v => (decodeBool a.parallel v).map fun b => { a with parallel := b }),
    ("call_depth", fun a v => (decodeInt a.callDepth v).map fun n => { a with callDepth := n })] a v

def Modules.decode (m : Modules) (v : Setting) : Option Modules :=
  decodeFields [
    ("paths", fun m v => (decodeTexts m.paths v).map fun xs => { m with paths := xs }),
    ("include", fun m v => (decodeTexts m.included v).map fun xs => { m with included := xs }),
    ("exclude", fun m v => (decodeTexts m.excluded v).map fun xs => { m with excluded := xs })] m v

def Caching.decode (c : Caching) (v : Setting) : Option Caching :=
  decodeFields [
    ("enabled", fun c v => (decodeBool c.enabled v).map fun b => { c with enabled := b }),
    ("dir", fun c v => (decodeText c.dir v).map fun s => { c with dir := s }),
    ("ttl", fun c v => (decodeInt c.ttl v).map fun n => { c with ttl := n })] c v

def Output.decode (o : Output) (v : Setting) : Option Output :=
  decodeFields [
    ("format", fun o v => (decodeText o.format v).map fun s => { o with format := s }),
    ("color", fun o v => (decodeBool o.color v).map fun b => { o with color := b }),
    ("verbose", fun o v => (decodeBool o.verbose v).map fun b => { o with verbose := b })] o v

def decodeParam (p : String × Int) (v : Setting) : Option (String × Int) :=
  decodeFields [
    ("name", fun (n, x) v => (decodeText n v).map fun s => (s, x)),
    ("value", fun (n, x) v => (decodeInt x v).map fun y => (n, y))] p v

def Layer.decode (l : Layer) (v : Setting) : Option Layer :=
  decodeFields [
    ("platform", fun (l : Layer) v =>
      (decodeText l.platform.name v).map fun s => { l with platform := ⟨s⟩ }),
    ("params", fun (l : Layer) v =>
      if v.isNull then some l
      else (decodeList decodeParam ("", 0) (l.values.getD []) v).map fun vs => { l with values := some vs })]
    l v

def decodeRule (r : Rule) (v : Setting) : Option Rule :=
  decodeFields [
    ("id", fun (r : Rule) v => (decodeText r.id v).map fun s => { r with id := s }),
    ("filter", fun (r : Rule) v => (decodeText r.filter v).map fun s => { r with filter := s }),
    ("severity", fun (r : Rule) v =>
      (decodeText r.severity.label v).map fun s => { r with severity := ⟨s⟩ })] r v

/-- Reads a configuration over another. The platforms of parameter layers are normalized. -/
def decode (c : Config) (v : Setting) : Option Config :=
  (decodeFields [
    ("analysis", fun c v => (c.analysis.decode v).map fun a => { c with analysis := a }),
    ("modules", fun c v => (c.modules.decode v).map fun m => { c with modules := m }),
    ("settings", fun c v =>
      (decodeFields [("path", decodeText)] c.settingsPath v).map fun s => { c with settingsPath := s }),
    ("descriptors", fun c v =>
      (decodeFields [("files", decodeTexts)] c.descriptorFiles v).map fun xs =>
        { c with descriptorFiles := xs }),
    ("params", fun c v => (decodeList Layer.decode {} c.params v).map fun ls => { c with params := ls }),
    ("rules", fun c v =>
      (decodeList decodeRule ⟨"", "", Severity.default⟩ c.rules v).map fun rs => { c with rules := rs }),
    ("cache", fun c v => (c.cache.decode v).map fun x => { c with cache := x }),
    ("output", fun c v => (c.output.decode v).map fun o => { c with output := o })] c v).map fun c =>
      { c with params := c.params.map fun l => { l with platform := Platform.parse l.platform.name } }

/-! ### Writing -/

def textList (xs : List String) : Setting := .list (xs.map .text)

def paramTable (p : String × Int) : Setting := .table [("name", .text p.1), ("value", .int p.2)]

def Layer.table (l : Layer) : Setting :=
  let inner : List (String × Setting) :=
    match l.values.getD [] with
    | [] => []
    | vs => [("params", .list (vs.map paramTable))]
  .table (inner ++ [("platform", .text l.platform.name)])

def ruleTable (r : Rule) : Setting :=
  let filter : List (String × Setting) := if r.filter == "" then [] else [("filter", .text r.filter)]
  .table (filter ++ [("id", .text r.id), ("severity", .text r.severity.label)])

def tableList (name : String) : List Setting → List (String × Setting)
  | [] => []
  | items => [(name, .list items)]

def tableFields (c : Config) : List (String × Setting) :=
  [("analysis", .table [
      ("call_depth", .int c.analysis.callDepth),
      ("categories", textList c.analysis.categories),
      ("parallel", .bool c.analysis.parallel),
      ("platform", .text c.analysis.platform),
      ("runtime_version", .text c.analysis.runtimeVersion),
      ("supported_platforms", textList c.analysis.supportedPlatforms)]),
    ("cache", .table [
      ("dir", .text c.cache.dir),
      ("enabled", .bool c.cache.enabled),
      ("ttl", .int c.cache.ttl)]),
    ("descriptors", .table [("files", textList c.descriptorFiles)]),
    ("modules", .table [
      ("exclude", textList c.modules.excluded),
      ("include", textList c.modules.included),
      ("paths", textList c.modules.paths)]),
    ("output", .table [
      ("color", .bool c.output.color),
      ("format", .text c.output.format),
      ("verbose", .bool c.output.verbose)])] ++
    tableList "params" (c.params.map Layer.table) ++
    tableList "rules" (c.rules.map ruleTable) ++
    [("settings", .table [("path", .text c.settingsPath)])]

def render (c : Config) : String := Toml.render c.tableFields

def toJson (c : Config) : Json :=
  .object [
    ("analysis", .object [
      ("platform", .string c.analysis.platform),
      ("supported_platforms", .strings c.analysis.supportedPlatforms),
      ("runtime_version", .string c.analysis.runtimeVersion),
      ("categories", .strings c.analysis.categories),
      ("parallel", .bool c.analysis.parallel),
      ("call_depth", .int c.analysis.callDepth)]),
    ("modules", .object [
      ("paths", .strings c.modules.paths),
      ("include", .strings c.modules.included),
      ("exclude", .strings c.modules.excluded)]),
    ("settings", .object [("path", .string c.settingsPath)]),
    ("descriptors", .object [("files", .strings c.descriptorFiles)]),
    ("params", .array (c.params.map fun l =>
      match l.values with
      | none => .object [("platform", .string l.platform.name), ("params", .null)]
      | some _ => l.flat.toJson)),
    ("rules", .array (c.rules.map Rule.toJson)),
    ("cache", .object [
      ("enabled", .bool c.cache.enabled), ("dir", .string c.cache.dir), ("ttl", .int c.cache.ttl)]),
    ("output", .object [
      ("format", .string c.output.format), ("color", .bool c.output.color),
      ("verbose", .bool c.output.verbose)])]

instance : ToJson Config := ⟨toJson⟩

/-! ### Loading

Without a path a configuration is looked for under a few names, in the working directory and in one
directory below it. Its check reports everything that is wrong, in a fixed order. -/

def knownFormats : List String := ["", "text", "json", "markdown", "toon"]

def ruleFaults (catalog : Option Catalog) (i : Nat) (r : Rule) : List Failure :=
  let activity := "rules[" ++ toString i ++ "]"
  let severity := match Severity.parse r.severity.label with
    | .ok _ => []
    | .error e => [.during activity (.unknownSeverity e.given)]
  let id := match catalog.map (·.lookup r.id) with
    | some (.error f) => [.during activity f]
    | _ => []
  severity ++ id

def unknownPlatform (what name : String) : List Failure :=
  if (Platform.parse name).isKnown then []
  else [.plain (what ++ ": unknown platform " ++ Text.quoted name)]

/-- Everything that is wrong with a configuration. With a catalog, rules must name descriptors in
it. -/
def faults (c : Config) (catalog : Option Catalog) : List Failure :=
  let depth := if c.analysis.callDepth < 0 then
      [.plain ("analysis.call_depth must not be negative, got " ++ toString c.analysis.callDepth)]
    else []
  let format := if knownFormats.contains c.output.format then []
    else [.plain ("output.format: unknown format " ++ Text.quoted c.output.format)]
  unknownPlatform "analysis.platform" c.analysis.platform ++
    c.analysis.supportedPlatforms.flatMap (unknownPlatform "analysis.supported_platforms") ++
    depth ++
    c.params.flatMap (fun l => unknownPlatform "params" l.platform.name) ++
    (c.rules.zipIdx.flatMap fun (r, i) => ruleFaults catalog i r) ++
    format

def validate (c : Config) (catalog : Option Catalog) : Except Failure Unit :=
  match c.faults catalog with
  | [] => .ok ()
  | fs => .error (.joined fs)

/-- Reads a configuration from a file. A file without a known extension holds TOML. -/
def load (d : Disk) (path : String) : Except Failure Config := do
  let bytes ← Failure.ofIo (d.read path)
  let v ← Setting.ofText ((SettingFormat.ofPath? path).getD .toml) bytes
  match Config.decode {} v with
  | some c => .ok c
  | none => .error (.malformed "a value does not fit its field")

def fileNames : List String :=
  ["auger.toml", "auger.yaml", "auger.yml", "auger.json",
    ".auger.toml", ".auger.yaml", ".auger.yml", ".auger.json"]

def searchDirectories : List String := [".", ".auger"]

def find? (d : Disk) : Option String :=
  (searchDirectories.flatMap fun dir => fileNames.map fun name => Path.join [dir, name]).find? d.isPresent

def loadOrDefault (d : Disk) : Config :=
  match (find? d).map (load d) with
  | some (.ok c) => c
  | _ => {}

/-- Loads and checks the configuration of a path, or else of the file that is found, and tells
which. Without a file it is the default one. -/
def loadChecked (d : Disk) (path : Option String) : Except Failure (Config × Option String) :=
  match path <|> find? d with
  | none => .ok ({}, none)
  | some p => do
    let c ← Failure.within ("loading " ++ p) (load d p)
    Failure.within p (c.validate none)
    .ok (c, some p)

end Config

end BytecodeAudit
