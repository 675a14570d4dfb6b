import BytecodeAudit.CommandLine.Commands
import BytecodeAudit.Server

/-!
# The command line

The commands by name. A command line is a list of words: flags for all commands, the name of a
command, its flags, and operands. Every command has a flag and a command for its help text, and a
complaint about its flags comes with it.
-/

namespace BytecodeAudit.CommandLine

/-! ### Help texts

A help text has parts with a heading each; parts without content are left out. Names stand in a
column two blanks before what they are for. -/

structure Info where
  names : List String
  usage : String
  arguments : String := ""
  description : String := ""
  flags : List Flag := []

def Info.name (i : Info) : String := i.names.headD ""

def Info.title (i : Info) : String := String.intercalate ", " i.names

def helpFlag : Flag :=
  { name := "help", aliases := ["h"], kind := .switch, usage := "show help", showsDefault := false }

/-- The command of help texts, which every command holds. -/
def helpInfo : Info :=
  { names := ["help", "h"]
    usage := "Shows a list of commands or help for one command"
    arguments := "[command]" }

namespace Help

def flagTitle (f : Flag) : String :=
  let value := if f.kind == .switch then "" else " value"
  let names := String.intercalate ", " (f.names.map fun n => (if n.length == 1 then "-" else "--") ++ n ++ value)
  if f.kind == .list then names ++ " [ " ++ names ++ " ]" else names

/-- What a flag is for, with its value when it is not given and the variable that it is taken
from. -/
def flagUsage (f : Flag) : String :=
  let value := if !f.showsDefault then "" else
    match f.kind with
    | .switch => "false"
    | .number => "0"
    | .duration => f.initial
    | .text | .list => ""
  f.usage ++ (if value == "" then "" else " (default: " ++ value ++ ")") ++
    (if f.environment == "" then "" else " [$" ++ f.environment ++ "]")

def columns (rows : List (String × String)) : List String :=
  let width := (rows.map fun (left, _) => left.length).foldl max 0 + 2
  rows.map fun (left, right) => "   " ++ Text.padRight width left ++ right

def indented (text : String) : List String :=
  (text.splitOn "\n").map fun l => if l == "" then l else "   " ++ l

def part (heading : String) (lines : List String) : List String :=
  if lines.isEmpty then [] else [String.intercalate "\n" ((heading ++ ":") :: lines)]

def commandLines (commands : List Info) : List String := columns (commands.map fun c => (c.title, c.usage))

def flagLines (flags : List Flag) : List String := columns (flags.map fun f => (flagTitle f, flagUsage f))

def join (parts : List (List String)) : String := String.intercalate "\n\n" parts.flatten ++ "\n"

def descriptionLines (text : String) : List String := if text == "" then [] else indented text

def page (i : Info) (fullName : String) (commands : List Info) : String :=
  join
    [part "NAME" ["   " ++ fullName ++ " - " ++ i.usage],
     part "USAGE"
      ["   " ++ fullName ++ " [command options]" ++ (if i.arguments == "" then "" else " " ++ i.arguments)],
     part "DESCRIPTION" (descriptionLines i.description),
     part "COMMANDS" (commandLines commands),
     part "OPTIONS" (flagLines (i.flags ++ [helpFlag]))]

def programPage (i : Info) (version : String) (commands : List Info) : String :=
  join
    [part "NAME" ["   " ++ i.name ++ " - " ++ i.usage],
     part "USAGE" ["   " ++ i.name ++ " [global options] command [command options]"],
     part "VERSION" ["   " ++ version],
     part "DESCRIPTION" (descriptionLines i.description),
     part "COMMANDS" (commandLines commands),
     part "GLOBAL OPTIONS" (flagLines i.flags)]

end Help

/-! ### Command lines -/

/-- What is left to do for whoever runs a command line: to feed a watcher, or to bring the requests
of a client to a server. -/
inductive Followup where
  | none
  | watch (w : Watching)
  | serve (h : Server.Host)

structure Entry extends Info where
  action : Invocation → Command Followup

structure Group extends Info where
  members : List Entry := []
  action : Option (Invocation → Command Followup) := none

def plain (run : Invocation → Command Unit) : Invocation → Command Followup := fun s => do
  run s
  return .none

def runServer (s : Invocation) : Command Followup := do
  return .serve { config := ← s.config, version := s.version, env := s.env }

def runManifest (s : Invocation) : Command Unit := Command.write (Server.manifest s.version ++ "\n")

def platformFlag (usage : String) : Flag := { name := "platform", aliases := ["p"], usage }

def minimumFlag : Flag := { name := "min-severity", usage := "Hide issues below this severity" }

def treeFlag : Flag := { name := "tree", kind := .switch, usage := "Show the call paths reaching each issue" }

/-- The program. Its flags are those of all commands. -/
def program : Info :=
  { names := ["auger"]
    usage := "Bytecode diagnostics for game projects"
    description :=
      "Auger scans compiled bytecode modules (.bcm) for expensive API usage,\n" ++
        "checks build configuration and project settings, and reports each finding\n" ++
        "with the call paths that reach it."
    flags :=
      [{ name := "config", aliases := ["c"], usage := "Path to config file (TOML, YAML, or JSON)"
         environment := "AUGER_CONFIG" },
       { name := "format", aliases := ["f"], usage := "Output format: text, json, markdown, toon" },
       { name := "output", aliases := ["o"], usage := "Write output to file" },
       { name := "no-cache", kind := .switch, usage := "Disable caching" },
       { name := "no-color", kind := .switch, usage := "Disable colored output" },
       { name := "verbose", kind := .switch, usage := "Enable verbose output" },
       helpFlag,
       { name := "version", aliases := ["v"], kind := .switch, usage := "print the version"
         showsDefault := false }] }

def auditGroup : Group :=
  { names := ["audit"]
    usage := "Audit bytecode modules and project settings"
    arguments := "[path...]"
    flags :=
      [platformFlag "Target platform: windows, macos, linux, android, ios, webgl",
       { name := "runtime-version", usage := "Runtime version used to filter descriptors" },
       { name := "settings", usage := "Project settings file to check (YAML, TOML, or JSON)" },
       { name := "category", kind := .list
         usage := "Only run modules producing these categories: code, assembly, settings" },
       { name := "parallel", kind := .switch, usage := "Run analyzer modules concurrently" },
       minimumFlag,
       { name := "fail-on"
         usage := "Exit with an error when an issue at or above this severity is found" },
       treeFlag,
       { name := "save", usage := "Save the full report as JSON to this file" },
       { name := "fix", kind := .switch, usage := "Apply automatic fixes for fixable issues" }]
    action := some (plain Invocation.runAudit) }

def descriptorsGroup : Group :=
  { names := ["descriptors", "desc"]
    usage := "Inspect the diagnostic descriptors"
    members :=
      [{ names := ["list"]
         usage := "List registered descriptors"
         flags :=
           [{ name := "area", usage := "Only list descriptors tagged with this area" },
            { name := "platform", usage := "Only list descriptors applicable to this platform" },
            { name := "runtime-version"
              usage := "Only list descriptors applicable to this runtime version" }]
         action := plain Invocation.runDescriptorsList },
       { names := ["show"]
         usage := "Show one descriptor in full"
         arguments := "<id>"
         action := plain Invocation.runDescriptorsShow }] }

def reportGroup : Group :=
  { names := ["report"]
    usage := "Work with saved audit reports"
    members :=
      [{ names := ["show"]
         usage := "Display a saved report"
         arguments := "<report.json>"
         flags :=
           [minimumFlag,
            { name := "category", usage := "Only show issues of this category" },
            { name := "id", usage := "Only show issues of this descriptor" },
            treeFlag]
         action := plain Invocation.runReportShow },
       { names := ["validate"]
         usage := "Check a saved report against the report schema"
         arguments := "<report.json>"
         action := plain Invocation.runReportValidate }] }

def graphGroup : Group :=
  { names := ["graph"]
    usage := "Summarize the call graph, or show the callers of one method"
    arguments := "[path...]"
    flags :=
      [{ name := "method", aliases := ["m"]
         usage := "Show the caller tree of this method, e.g. 'Game.Player::Update()'" },
       { name := "depth", kind := .number
         usage := "Maximum caller depth (defaults to analysis.call_depth)" }]
    action := some (plain Invocation.runGraph) }

def dumpGroup : Group :=
  { names := ["dump"]
    usage := "Print the types, methods and instructions of a module"
    arguments := "<module.bcm>"
    flags := [{ name := "calls-only", kind := .switch, usage := "Only print calls and conversions" }]
    action := some (plain Invocation.runDump) }

def paramsGroup : Group :=
  { names := ["params"]
    usage := "List diagnostic parameters and their per-platform values"
    flags := [platformFlag "Show the values that apply to this platform"]
    action := some (plain Invocation.runParams) }

def configGroup : Group :=
  { names := ["config"]
    usage := "Configuration management commands"
    members :=
      [{ names := ["validate"]
         usage := "Validate a configuration file"
         description :=
           "Validates an auger configuration file for syntax errors and invalid values.\n" ++
             "Severity rules are checked against the registered descriptors.\n\nExamples:\n" ++
             "  auger config validate                  # Validates default config locations\n" ++
             "  auger -c auger.toml config validate    # Validates specific file"
         action := plain Invocation.runConfigValidate },
       { names := ["show"]
         usage := "Show the effective configuration"
         description :=
           "Shows the merged configuration from defaults and config file.\n\nExamples:\n" ++
             "  auger config show                # Show effective config\n" ++
             "  auger -c auger.toml config show  # Show config from specific file"
         action := plain Invocation.runConfigShow }] }

def watchGroup : Group :=
  { names := ["watch"]
    usage := "Audit modules and re-audit whenever they are rebuilt"
    arguments := "[path...]"
    flags :=
      [platformFlag "Target platform",
       { name := "settings", usage := "Project settings file to check and watch" },
       { name := "debounce", kind := .duration
         usage := "Quiet period after the last change before re-auditing"
         initial := Watcher.defaultDebounce.text },
       minimumFlag]
    action := some fun s => do return .watch (← s.runWatch) }

def cacheGroup : Group :=
  { names := ["cache"]
    usage := "Inspect or clear cached module scans"
    members :=
      [{ names := ["stats"]
         usage := "Show the number, size and age of cached scans"
         action := plain Invocation.runCacheStats },
       { names := ["clear"]
         usage := "Remove every cached scan"
         action := plain Invocation.runCacheClear },
       { names := ["invalidate"]
         usage := "Drop the cached scans of the given modules"
         arguments := "[path...]"
         action := plain Invocation.runCacheInvalidate }] }

def serverGroup : Group :=
  { names := ["mcp"]
    usage := "Start MCP (Model Context Protocol) server for LLM tool integration"
    description :=
      "Starts an MCP server over stdio transport that exposes auger's audits\n" ++
        "as tools that LLMs can invoke.\n\nTo use with Claude Desktop, add to your config:\n" ++
        "  \x7b\n    \"mcpServers\": \x7b\n      \"auger\": \x7b\n        \"command\": \"auger\",\n" ++
        "        \"args\": [\"mcp\"]\n      \x7d\n    \x7d\n  \x7d\n\nAvailable tools:\n" ++
        "  - audit                Audit modules and settings for a platform\n" ++
        "  - list_descriptors     List the diagnostics auger can report\n" ++
        "  - describe_descriptor  Full description of one diagnostic"
    members :=
      [{ names := ["manifest"]
         usage := "Print the MCP registry server.json"
         action := plain runManifest }]
    action := some runServer }

def groups : List Group :=
  [auditGroup, descriptorsGroup, reportGroup, graphGroup, dumpGroup, paramsGroup, configGroup, watchGroup,
    cacheGroup, serverGroup]

/-! ### Help -/

/-- A place in a command line where a name picks a command, as far as help texts are concerned. -/
structure Level where
  path : String
  page : String
  complaint : String
  topics : List (Info × String)

def helpTopic (path : String) : Info × String := (helpInfo, Help.page helpInfo (path ++ " help") [])

def Entry.level (e : Entry) (path : String) : Level :=
  let path := path ++ " " ++ e.name
  { path
    page := Help.page e.toInfo path []
    complaint := Help.page e.toInfo path [helpInfo]
    topics := [helpTopic path] }

/-- The level of a group. A command of its own lists no commands, unless behind a complaint. -/
def Group.level (g : Group) : Level :=
  let path := program.name ++ " " ++ g.name
  let listed := g.members.map (·.toInfo) ++ [helpInfo]
  { path
    page := Help.page g.toInfo path (if g.members.isEmpty then [] else listed)
    complaint := Help.page g.toInfo path listed
    topics := g.members.map (fun e => (e.toInfo, (e.level path).page)) ++ [helpTopic path] }

def programLevel (version : String) : Level :=
  let page := Help.programPage program version (groups.map (·.toInfo) ++ [helpInfo])
  { path := program.name
    page
    complaint := page
    topics := groups.map (fun g => (g.toInfo, g.level.page)) ++ [helpTopic program.name] }

def unknownTopic (name : String) : Failure := .plain ("No help topic for '" ++ name ++ "'")

namespace Level

def parse (l : Level) (flags : List Flag) (words : List String) : Command (Options × List String) :=
  match Options.parse flags words with
  | .ok r => pure r
  | .error f => do
    Command.write ("Incorrect Usage: " ++ f.message ++ "\n\n" ++ l.complaint)
    throw f

def help (l : Level) (words : List String) : Command Followup := do
  let name := words.headD ""
  if name == "" then Command.write l.page
  else
    match l.topics.find? fun (i, _) => i.names.contains name with
    | some (_, page) => Command.write page
    | none => throw (unknownTopic name)
  return .none

def ofHelp (l : Level) : Level :=
  let path := l.path ++ " help help"
  let page := Help.page helpInfo path []
  { path, page, complaint := Help.page helpInfo path [helpInfo], topics := [(helpInfo, page)] }

def namesHelp (words : List String) : Bool := helpInfo.names.contains (words.headD "")

def runHelp (l : Level) (words : List String) : Command Followup := do
  let (options, rest) ← l.ofHelp.parse [helpFlag] words
  if namesHelp rest && !options.isOn helpFlag.name then l.ofHelp.help (rest.dropWhile helpInfo.names.contains)
  else l.help rest

/-- Reads the flags of a command and goes on with it, or shows help. -/
def enter (l : Level) (flags : List Flag) (s : Invocation) (words : List String)
    (next : Invocation → Command Followup) : Command Followup := do
  let (options, rest) ← l.parse (flags ++ [helpFlag]) words
  if options.isOn helpFlag.name then l.help rest
  else if namesHelp rest then l.runHelp rest.tail
  else next { s with options := s.options.append options, operands := rest }

end Level

/-! ### Running -/

def Entry.run (e : Entry) (path : String) (s : Invocation) (words : List String) : Command Followup :=
  (e.level path).enter e.flags s words e.action

def Group.run (g : Group) (s : Invocation) (words : List String) : Command Followup :=
  g.level.enter g.flags s words fun s =>
    match g.members.find? fun e => e.names.contains (s.operands.headD ""), g.action with
    | some e, _ => e.run g.level.path s s.operands.tail
    | none, some action => action s
    | none, none => g.level.help s.operands

/-- Runs a command line. The options that the invocation brings hold where the words do not say
otherwise. -/
def run (s : Invocation) (words : List String) : Command Followup := do
  let level := programLevel s.version
  let (given, rest) ← level.parse program.flags words
  let options := s.options.append given
  let s := { s with options, showsColors := s.showsColors && !options.isOn "no-color" }
  if options.isOn helpFlag.name then level.help rest
  else if options.isOn "version" then
    Command.write (program.name ++ " version " ++ s.version ++ "\n")
    return .none
  else if Level.namesHelp rest then level.runHelp rest.tail
  else
    match groups.find? fun g => g.names.contains (rest.headD "") with
    | some g => g.run s rest.tail
    | none => level.help rest

def execute (s : Invocation) (words : List String) (d : Disk) : Except Failure Followup × Console :=
  (run s words).run { disk := d }

end BytecodeAudit.CommandLine
