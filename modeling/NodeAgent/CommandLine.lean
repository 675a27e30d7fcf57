import NodeAgent.Config

/-!
The command line: what the arguments ask for, and the texts that explain it. Arguments are read from
left to right, and the first one that is wrong or asks for help decides.
-/

namespace NodeAgent

inductive Invocation
  | server (configPath : String) (watch : Bool)
  | version
  /-- A text is shown, and nothing is done. -/
  | inform (text : String)
  | misuse
  deriving DecidableEq, Repr

namespace CommandLine

def programName : String := "node"

def versionNumber : String := "0.0.0-dev"

def about : String := "面板节点代理 - 从面板同步协议、用户并上报流量"

def aboutServer : String := "前台运行节点服务"

def aboutVersion : String := "显示版本信息"

def aboutHelp : String := "Print this message or the help of the given subcommand(s)"

def versionLine : String := programName ++ " v" ++ versionNumber ++ "\n"

def unlines (lines : List String) : String := String.join (lines.map (· ++ "\n"))

def help : String := unlines [
  about, "",
  "Usage: node <COMMAND>", "",
  "Commands:",
  "  server   " ++ aboutServer,
  "  version  " ++ aboutVersion,
  "  help     " ++ aboutHelp, "",
  "Options:",
  "  -h, --help     Print help",
  "  -V, --version  Print version"]

def helpServer : String := unlines [
  aboutServer, "",
  "Usage: node server [OPTIONS]", "",
  "Options:",
  "  -c, --config <CONFIG>  配置文件路径 [default: " ++ Config.defaultPath ++ "]",
  "      --watch <WATCH>    配置文件变更时自动重载 [default: true] [possible values: true, false]",
  "  -h, --help             Print help"]

def helpVersion : String := unlines [
  aboutVersion, "",
  "Usage: node version", "",
  "Options:",
  "  -h, --help  Print help"]

def helpHelp : String := unlines [
  aboutHelp, "",
  "Usage: node help [COMMAND]...", "",
  "Arguments:",
  "  [COMMAND]...  Print help for the subcommand(s)"]

/-- Short flags may stand together; the first of them decides. -/
def asksForHelp (arg : String) : Bool := arg == "--help" || "-h".toList.isPrefixOf arg.toList

def asksForVersion (arg : String) : Bool :=
  arg == "--version" || "-V".toList.isPrefixOf arg.toList

structure ServerOptions where
  config : Option String := none
  watch : Option Bool := none
  deriving DecidableEq, Repr

inductive ServerOption
  | config
  | watch

def ServerOptions.toInvocation (o : ServerOptions) : Invocation :=
  .server (o.config.getD Config.defaultPath) (o.watch.getD true)

/-- An option may be given once. A path is not empty, and the switch is one of two words. -/
def ServerOptions.set (o : ServerOptions) : ServerOption → String → Option ServerOptions
  | .config, value => if o.config.isNone ∧ value ≠ "" then some { o with config := value } else none
  | .watch, value =>
    if o.watch.isSome then none
    else if value = "true" then some { o with watch := true }
    else if value = "false" then some { o with watch := false }
    else none

def dropMark (mark : String) (s : List Char) : Option (List Char) :=
  if mark.toList.isPrefixOf s then some (s.drop mark.length) else none

/-- An option, and its value if that stands in the same argument. -/
def option? (arg : String) : Option (ServerOption × Option String) :=
  let s := arg.toList
  if arg = "--config" ∨ arg = "-c" then some (.config, none)
  else if arg = "--watch" then some (.watch, none)
  else
    let long := dropMark "--config=" s <|> dropMark "-c=" s <|> dropMark "-c" s
    match long, dropMark "--watch=" s with
    | some value, _ => some (.config, some (String.ofList value))
    | none, some value => some (.watch, some (String.ofList value))
    | none, none => none

/-- A lone dash is a value, and all else that begins with a dash is not. -/
def isValue (arg : String) : Bool := arg == "-" || arg.toList.head? != some '-'

def parseServer (o : ServerOptions) : List String → Invocation
  | [] => o.toInvocation
  | ["--"] => o.toInvocation
  | arg :: rest =>
    if asksForHelp arg then .inform helpServer
    else
      match option? arg, rest with
      | some (option, some value), rest =>
        match o.set option value with
        | some o => parseServer o rest
        | none => .misuse
      | some (option, none), value :: rest =>
        match (if isValue value then o.set option value else none) with
        | some o => parseServer o rest
        | none => .misuse
      | _, _ => .misuse

def parseVersion : List String → Invocation
  | [] => .version
  | ["--"] => .version
  | arg :: _ => if asksForHelp arg then .inform helpVersion else .misuse

def parseHelp : List String → Invocation
  | [] => .inform help
  | ["server"] => .inform helpServer
  | ["version"] => .inform helpVersion
  | ["help"] => .inform helpHelp
  | _ => .misuse

def parse : List String → Invocation
  | [] => .misuse
  | "server" :: rest => parseServer {} rest
  | "version" :: rest => parseVersion rest
  | "help" :: rest => parseHelp rest
  | arg :: _ =>
    if asksForHelp arg then .inform help
    else if asksForVersion arg then .inform (programName ++ " " ++ versionNumber ++ "\n")
    else .misuse

end CommandLine

end NodeAgent
