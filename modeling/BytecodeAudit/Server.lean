import BytecodeAudit.Auditor
import BytecodeAudit.View.Report

/-!
# What a client can ask for

A server offers prompts, which are texts with arguments, and tools, which audit files and answer
with a text.
-/

namespace BytecodeAudit.Server

/-! ### Prompts

Arguments are put in, in the order of their declarations, where the text holds their names between
double braces. -/

/-- Puts a text in place of every occurrence of another, from left to right. The number counts the
characters still to be left out. -/
def replaceAll (old new : List Char) : Nat → List Char → List Char
  | _, [] => []
  | n + 1, _ :: cs => replaceAll old new n cs
  | 0, c :: cs =>
    if old.isPrefixOf (c :: cs) then new ++ replaceAll old new (old.length - 1) cs
    else c :: replaceAll old new 0 cs

structure PromptArgument where
  name : String
  description : String := ""
  isRequired : Bool := false
deriving DecidableEq, Repr

def PromptArgument.toJson (a : PromptArgument) : Json :=
  .compactFields [("name", some (.string a.name)), ("description", Json.text? a.description),
    ("required", Json.true? a.isRequired)]

structure Prompt where
  name : String
  description : String
  arguments : List PromptArgument := []
  body : String
deriving DecidableEq, Repr

namespace Prompt

def placeholder (argument : String) : List Char := "\x7b\x7b".toList ++ argument.toList ++ "\x7d\x7d".toList

def fillOne (values : List (String × String)) (text : List Char) (argument : String) : List Char :=
  replaceAll (placeholder argument) ((values.lookup argument).getD "").toList 0 text

def fillAll (arguments : List String) (values : List (String × String)) (text : List Char) : List Char :=
  arguments.foldl (fillOne values) text

def fill (p : Prompt) (values : List (String × String)) : String :=
  String.ofList (fillAll (p.arguments.map (·.name)) values p.body.toList)

def toJson (p : Prompt) : Json :=
  .object [("name", .string p.name), ("description", .string p.description),
    ("arguments", .array (p.arguments.map PromptArgument.toJson))]

instance : ToJson Prompt := ⟨toJson⟩

def platformReview : Prompt where
  name := "platform-review"
  description := "Compare audit results across target platforms"
  arguments :=
    [{ name := "platforms", description := "Comma separated platforms to compare, e.g. android,ios"
       isRequired := true }]
  body :=
    "Run the `audit` tool once for each of these platforms: \x7b\x7bplatforms\x7d\x7d.\n" ++
    "Pass the platform in the `platform` argument.\n" ++
    "\n" ++
    "Report the descriptors that only fire on some platforms and explain what\n" ++
    "the platform difference means for the player. Use `list_descriptors` with\n" ++
    "the `platform` argument to confirm which rules are platform specific.\n"

def triageIssues : Prompt where
  name := "triage-issues"
  description := "Audit the project and propose fixes for the most severe issues"
  body :=
    "Run the `audit` tool on the project's compiled modules and settings file.\n" ++
    "\n" ++
    "For each critical or major issue:\n" ++
    "\n" ++
    "1. Call `describe_descriptor` with its descriptor id.\n" ++
    "2. Walk the call hierarchy to find the entry point that reaches the call site.\n" ++
    "3. Propose a concrete change following the descriptor's recommendation.\n" ++
    "\n" ++
    "Group issues that share a root cause. Skip info issues unless they explain\n" ++
    "why a module could not be analyzed.\n"

def all : List Prompt := [platformReview, triageIssues]

def find? (name : String) : Option Prompt := all.find? (·.name == name)

end Prompt

/-! ### Tools

A call with undeclared arguments is refused. Every call works with an auditor of its own. Results
are TOON, also where another format is asked for; Markdown puts them into a block. -/

inductive ArgumentKind where
  | text
  | texts
deriving DecidableEq, Repr

def ArgumentKind.admits : ArgumentKind → Json → Bool
  | .text, .string _ => true
  | .texts, .array xs => xs.all fun
    | .string _ => true
    | _ => false
  | _, _ => false

structure ToolArgument where
  name : String
  kind : ArgumentKind := .text
  description : String := ""
  isRequired : Bool := false
deriving DecidableEq, Repr

structure Host where
  config : Config := {}
  version : String := "dev"
  env : Environment := {}

structure ToolResult where
  text : String
  isError : Bool := false
deriving DecidableEq, Repr

structure Tool where
  name : String
  description : String
  arguments : List ToolArgument
  /-- Computes the data of the result, and what became of the files. -/
  call : Host → Json → Disk → Except Failure Json × Disk

def Host.auditor (h : Host) (d : Disk) : Except Failure (Auditor × Disk) := do
  let (a, _, d) ← Auditor.create h.config Analyzer.builtin h.version none d
  .ok (a, d)

/-! ### The audit tool -/

def textArgument? (args : Json) (name : String) : Option String := Option.guard (· != "") (args.field name).text

def minimumOf (args : Json) : Except Failure Severity :=
  match textArgument? args "min_severity" with
  | none => .ok Severity.default
  | some label =>
    match Severity.parse label with
    | .ok s => .ok s
    | .error e => .error (.unknownSeverity e.given)

def targetOf (a : Auditor) (args : Json) (modules : List String) : AuditTarget :=
  let t := a.target modules
  let categories := (args.field "categories").texts
  { t with
    platform := (textArgument? args "platform").elim t.platform Platform.parse
    runtimeVersion := (textArgument? args "runtime_version").getD t.runtimeVersion
    settingsPath := (textArgument? args "settings").getD t.settingsPath
    categories := if categories.isEmpty then t.categories
      else categories.map fun c => ⟨Text.lower c⟩ }

def modulesOf (h : Host) (args : Json) (d : Disk) : Except Failure (List String) := do
  let paths := (args.field "paths").texts
  let modules ← Scan.discover d (if paths.isEmpty then ["."] else paths) h.config.modules.included
    h.config.modules.excluded
  if modules.isEmpty && (textArgument? args "settings").isNone then .error (.plain "no modules found")
  else .ok modules

def callAudit (h : Host) (args : Json) (d : Disk) : Except Failure Json × Disk :=
  let prepared : Except Failure (Severity × List String × Auditor × Disk) := do
    let minimum ← minimumOf args
    let modules ← modulesOf h args d
    let (a, d) ← h.auditor d
    .ok (minimum, modules, a, d)
  match prepared with
  | .error f => (.error f, d)
  | .ok (minimum, modules, a, d) =>
    match a.run h.env (targetOf a args modules) none false d with
    | (s, some f) => (.error f, s.disk)
    | (s, none) => (.ok ((IssuesView.data { report := s.report, minimum }).toon.getD .null), s.disk)

/-! ### The descriptor tools -/

def commaList (names : List String) : String := String.intercalate "," (names.mergeSort (Text.rank · ≤ Text.rank ·))

def summaryOf (a : Auditor) (d : Descriptor) : Json :=
  .object [("id", .string d.id), ("title", .string d.title), ("severity", .string d.defaultSeverity.display),
    ("areas", .string (commaList (d.areas.map (·.name)))),
    ("platforms", .string (commaList (d.platforms.map (·.display)))),
    ("fixable", .bool (a.catalog.canFix d.id))]

def withAuditor (h : Host) (d : Disk) (f : Auditor → Except Failure Json) : Except Failure Json × Disk :=
  match h.auditor d with
  | .error e => (.error e, d)
  | .ok (a, d) => (f a, d)

def callList (h : Host) (args : Json) (d : Disk) : Except Failure Json × Disk :=
  withAuditor h d fun a =>
    let platform := Platform.parse (args.field "platform").text
    let ds := a.catalog.list.filter fun x =>
      (textArgument? args "area").all (fun area => x.hasArea ⟨area⟩) && x.isApplicable platform ""
    .ok (.array (ds.map (summaryOf a)))

def callDescribe (h : Host) (args : Json) (d : Disk) : Except Failure Json × Disk :=
  match textArgument? args "id" with
  | none => (.error (.plain "id is required"), d)
  | some id => withAuditor h d fun a => (a.catalog.lookup (Text.upper id)).map Descriptor.toToon

namespace Tool

def toJson (t : Tool) : Json := .object [("name", .string t.name), ("description", .string t.description)]

instance : ToJson Tool := ⟨toJson⟩

def formatArgument : ToolArgument :=
  { name := "format", description := "Output format: toon (default), json, or markdown." }

def audit : Tool where
  name := "audit"
  description :=
    "Audits compiled bytecode modules (.bcm) and project settings for performance problems.\n\n" ++
    "USE WHEN:\n" ++
    "- Looking for expensive API calls (reflection, string concatenation, allocations) in game code\n" ++
    "- Checking which code paths reach a flagged call site\n" ++
    "- Reviewing a build for debug flags, missing symbols or oversized modules\n" ++
    "- Validating project settings before shipping to a platform\n\n" ++
    "INTERPRETING RESULTS:\n" ++
    "- Severity levels: critical > major > moderate > minor > info\n" ++
    "- descriptor_id identifies the rule; call describe_descriptor for the fix\n" ++
    "- Issues without a descriptor_id are informational (unloadable modules, skipped methods)\n" ++
    "- location is the source line of the call site when debug symbols exist\n" ++
    "- Platform changes the result: some descriptors only apply to mobile targets\n\n" ++
    "METRICS RETURNED:\n" ++
    "- session: tool version, platform, runtime version, VCS revision\n" ++
    "- summary: totals by category and severity, failed and cancelled modules\n" ++
    "- issues: severity, descriptor id, category, description, location"
  arguments :=
    [{ name := "paths", kind := .texts
       description := "Module files or directories to audit. Defaults to current directory if empty." },
     { name := "platform"
       description := "Target platform: windows, macos, linux, android, ios or webgl. " ++
         "Defaults to the configured platform." },
     { name := "runtime_version"
       description := "Runtime version used to filter descriptors, e.g. 2022.3." },
     { name := "settings"
       description := "Project settings file (YAML, TOML or JSON) checked by the settings module." },
     { name := "categories", kind := .texts
       description := "Limit the audit to these categories: code, assembly, settings." },
     { name := "min_severity"
       description := "Drop issues below this severity: critical, major, moderate, minor or info." },
     formatArgument]
  call := callAudit

def describeDescriptor : Tool where
  name := "describe_descriptor"
  description :=
    "Describes one diagnostic descriptor in full.\n\n" ++
    "USE WHEN:\n" ++
    "- Explaining an issue reported by audit\n" ++
    "- Looking up the recommended fix for a descriptor id\n\n" ++
    "INTERPRETING RESULTS:\n" ++
    "- type and method name the API call that triggers the descriptor\n" ++
    "- opcode names a conversion instruction that triggers it\n" ++
    "- min_version and max_version bound the runtime versions it applies to\n\n" ++
    "METRICS RETURNED:\n" ++
    "- id, title, message format, default severity, areas, platforms\n" ++
    "- description, recommendation and documentation URL"
  arguments := [{ name := "id", description := "Descriptor id, e.g. API0001.", isRequired := true }, formatArgument]
  call := callDescribe

def listDescriptors : Tool where
  name := "list_descriptors"
  description :=
    "Lists the diagnostic descriptors the auditor checks for.\n\n" ++
    "USE WHEN:\n" ++
    "- Discovering what the auditor can detect\n" ++
    "- Finding descriptor ids to raise, lower or hide with severity rules\n" ++
    "- Checking which diagnostics apply to a platform\n\n" ++
    "INTERPRETING RESULTS:\n" ++
    "- severity is the default; configured rules can override it\n" ++
    "- areas tag what an issue costs: cpu, memory, gpu, build-size, load-time\n" ++
    "- fixable descriptors can be repaired automatically\n\n" ++
    "METRICS RETURNED:\n" ++
    "- Per descriptor: id, title, default severity, areas, platforms, fixable"
  arguments :=
    [{ name := "area"
       description := "Only list descriptors tagged with this area, e.g. memory or cpu." },
     { name := "platform", description := "Only list descriptors applicable to this platform." },
     formatArgument]
  call := callList

def all : List Tool := [audit, describeDescriptor, listDescriptors]

def accepts (t : Tool) (args : Json) : Bool :=
  (args.fields.all fun (name, v) => t.arguments.any fun a => a.name == name && a.kind.admits v) &&
    t.arguments.all fun a => !a.isRequired || (args.field? a.name).isSome

def resultOf (format : String) (data : Json) : ToolResult :=
  match Toon.render data with
  | .error f => { text := f.message, isError := true }
  | .ok text =>
    if format == "markdown" || format == "md" then { text := "\x60\x60\x60\n" ++ text ++ "\n\x60\x60\x60" }
    else { text }

def run (t : Tool) (h : Host) (args : Json) (d : Disk) : ToolResult × Disk :=
  match t.call h args d with
  | (.ok data, d) => (resultOf (args.field "format").text data, d)
  | (.error f, d) => ({ text := "Error: " ++ f.message, isError := true }, d)

/-- Calls the tool of a name. No such tool, or arguments that it does not accept, are no call at
all. -/
def call? (h : Host) (name : String) (args : Json) (d : Disk) : Option (ToolResult × Disk) := do
  let t ← all.find? (·.name == name)
  if t.accepts args then some (t.run h args d) else none

end Tool

/-! ### The registry -/

def registryVersion (version : String) : String :=
  if version == "" || version == "dev" then "0.0.0" else version

/-- The registry entry of a version. The image runs the server over standard input and output. -/
def manifest (version : String) : String :=
  let version := registryVersion version
  Json.pretty 0 (.object [
    ("$schema", .string "https://static.modelcontextprotocol.io/schemas/2025-10-17/server.schema.json"),
    ("name", .string "io.github.panbanda/auger"),
    ("description", .string
      "Bytecode diagnostics for expensive API usage, build configuration and project settings"),
    ("version", .string version),
    ("repository", .object [
      ("url", .string "https://github.com/panbanda/auger"), ("source", .string "github")]),
    ("packages", .array [.object [
      ("registryType", .string "oci"),
      ("identifier", .string ("ghcr.io/panbanda/auger:" ++ version)),
      ("packageArguments", .array [.object [("type", .string "positional"), ("value", .string "mcp")]]),
      ("transport", .object [("type", .string "stdio")])]])])

end BytecodeAudit.Server
