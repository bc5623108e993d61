import RcdServer.Calc.Rust.Ordering
import RcdServer.Operations.Files
import RcdServer.Protocol.Startup
import RcdServer.Serial.Manager

/-!
# Validation of a configuration set

`validate_set` of `files.rs`. The result is only written to while the set is read, so every pass
here returns what it reports, and the reports are bounded at the end. Decoding TOML, reading rows
of a CSV text, socket addresses and log specifications are parameters.
-/
namespace RcdServer.Operations.Files

open Calc (FloatOps RawRule SyntaxError Token)
open Calc.Rust (CalcRule extractVariables normalizeDataType parse tokenize)
open Lib (Kahn.sort Map)
open Lib.Text
open Protocol (Config CsvReader Record validateCsvContentWithPointWarnings)
open Serial (RunLocation)

/-! ## Bounded messages -/

inductive Report where
  | error (message : String)
  | warning (message : String)
  deriving DecidableEq

structure Messages where
  items : List String
  total : Nat
  truncated : Bool
  deriving DecidableEq

structure Validation where
  errors : Messages
  warnings : Messages
  deriving DecidableEq

def Messages.empty : Messages := ⟨[], 0, false⟩

def maxValidationText : Nat := 12 * 1024
def maxCalcExpressionBytes : Nat := 64 * 1024
def maxCalcTokens : Nat := 8192

def notice : String := "其余校验信息已省略，请先修复以上问题后再次校验。"

def suffix : String := "…（此条信息已截断）"

/-- The characters that fit into `limit` bytes. -/
def utf8Prefix : Nat → List Char → List Char
  | _, [] => []
  | limit, c :: cs => if c.utf8Size ≤ limit then c :: utf8Prefix (limit - c.utf8Size) cs else []

def boundedValidationMessage (m : Messages) (message : String) : Messages :=
  if m.items.getLast? = some notice then m
  else
    let long := decide (1024 < message.utf8ByteSize)
    let message :=
      if long then
        String.ofList (utf8Prefix (1024 - suffix.utf8ByteSize) message.toList) ++ suffix
      else message
    if 100 ≤ m.items.length ∨
        maxValidationText ≤ m.total + message.utf8ByteSize + 1 + notice.utf8ByteSize then
      { items := m.items ++ [notice]
        total := m.total + notice.utf8ByteSize + 1
        truncated := true }
    else
      { items := m.items ++ [message]
        total := m.total + message.utf8ByteSize + 1
        truncated := m.truncated || long }

def Validation.report (v : Validation) : Report → Validation
  | .error message => { v with errors := boundedValidationMessage v.errors message }
  | .warning message => { v with warnings := boundedValidationMessage v.warnings message }

/-! ## Application settings -/

inductive CalculationMode where
  | local_ | manager
  deriving DecidableEq

/-- The fields of `config.toml` that are looked at here. -/
structure Application where
  primaryIp : String
  secondaryIp : String
  runOn : RunLocation
  baudRate : Nat
  timeout : Nat
  pollIntervalMs : Nat
  commandRetryCount : Nat
  queryRetryCount : Nat
  paritySwitchDelayMs : Nat
  transmitSettleGuardMs : Nat
  level : String
  basename : String
  rotateAge : String
  writeMode : String
  duplicateToStderr : Option String
  rotateSizeBytes : Option Nat
  mode : CalculationMode
  deriving DecidableEq

/-- A decoded TOML value, as far as fields are looked for. -/
inductive Toml where
  | table (entries : List (String × Toml))
  | array (items : List Toml)
  | other

/-- What the validation calls. -/
structure Parsers (F64 : Type) where
  csv : CsvReader
  /-- `toml::from_str` at the three types it is used at. -/
  application : String → Except String Application
  toml : String → Except String Toml
  rules : String → Except String (List (RawRule F64))
  /-- The host of a socket address, IPv6 in brackets. -/
  socketHost : String → Option String
  logSpecification : String → Except String Unit
  /-- `{:?}` -/
  debug : String → String
  debugToken : Token F64 → String

/-- `rsplit_once(':')` -/
def rsplitColon (s : String) : Option (String × String) :=
  let reversed := s.toList.reverse
  match reversed.dropWhile (· ≠ ':') with
  | [] => none
  | _ :: before =>
    some (String.ofList before.reverse, String.ofList (reversed.takeWhile (· ≠ ':')).reverse)

variable {F64 F32 : Type}

section Application

variable (p : Parsers F64)

def serverHost (address : String) : Except String String :=
  match p.socketHost address with
  | some host => .ok host
  | none =>
    match rsplitColon address with
    | some (host, port) =>
      if host = "" ∨ (parseUnsigned 65535 port).toOption.isNone then
        .error ("服务器地址格式无效: " ++ address)
      else .ok host
    | none => .ok address

/-- A host with `://` also has a slash. -/
def advertisedHostFromServerAddress (address : String) : Except String String :=
  let address := trim address
  if address = "" then .error "服务器地址为空"
  else
    match serverHost p address with
    | .error e => .error e
    | .ok host =>
      if host ∈ ["0.0.0.0", "::", "[::]"] then
        .error ("OPC UA 广告地址不能使用通配地址: " ++ host)
      else if '/' ∈ host.toList then .error ("OPC UA 广告主机名格式无效: " ++ host)
      else .ok host

def opcuaAdvertisedHost (config : Application) : Except String String :=
  advertisedHostFromServerAddress p
    (match config.runOn with
    | .primary => config.primaryIp
    | .secondary => config.secondaryIp)

/-- One error if the condition holds. -/
def errorIf (condition : Bool) (message : String) : List Report :=
  if condition then [.error message] else []

def validateApplication (content : String) : List Report :=
  match p.application content with
  | .error e => [.error ("config.toml: " ++ e)]
  | .ok config =>
    (match opcuaAdvertisedHost p config with
      | .error e => [.error ("config.toml server: " ++ e)]
      | .ok _ => []) ++
    errorIf (config.baudRate == 0 || config.timeout == 0 || config.pollIntervalMs == 0 ||
        config.commandRetryCount == 0)
      "config.toml: baud_rate、timeout、poll_interval_ms、command_retry_count 必须大于 0" ++
    errorIf (decide (1 < config.queryRetryCount))
      "config.toml: query_retry_count 只能是 0 或 1" ++
    errorIf (decide (100 < config.paritySwitchDelayMs ∨ 100 < config.transmitSettleGuardMs))
      "config.toml: parity_switch_delay_ms、transmit_settle_guard_ms 不能超过 100" ++
    (match p.logSpecification config.level with
      | .error e => [.error ("config.toml logging.level: " ++ e)]
      | .ok _ => []) ++
    errorIf (!safeName config.basename)
      "config.toml logging.basename 必须为单个非空文件名" ++
    errorIf (!(["day", "daily", "", "hour", "hourly", "minute", "second", "none", "off"].contains
        (asciiLower (trim config.rotateAge))))
      "config.toml logging.rotate_age 无效" ++
    errorIf (!(["direct", "buffer_dont_flush", "buffer-dont-flush", "buffer_and_flush",
        "buffer-and-flush", ""].contains (asciiLower (trim config.writeMode))))
      "config.toml logging.write_mode 无效" ++
    errorIf (config.duplicateToStderr.any fun value =>
        !(["none", "off", "error", "warn", "warning", "info", "debug", "trace", "all"].contains
          (asciiLower (trim value))))
      "config.toml logging.duplicate_to_stderr 无效" ++
    errorIf (config.rotateSizeBytes == some 0)
      "config.toml logging.rotate_size_bytes 必须大于 0"

/-! ## Texts of the set -/

/-- `BTreeMap` iteration. -/
def sortedFiles (files : ConfigSet) : List (String × ByteArray) :=
  (sortTexts files.keys).filterMap fun name => (files.lookup name).map fun bytes => (name, bytes)

def managerCalculation (files : ConfigSet) : Bool :=
  (((files.lookup "config.toml").bind String.fromUTF8?).bind fun text =>
    (p.application text).toOption).any fun config => config.mode == .manager

/-- The texts to be checked, and what is said about the others. -/
def readTexts (manager : Bool) : List (String × ByteArray) → List (String × String) × List Report
  | [] => ([], [])
  | (name, bytes) :: files =>
    let (texts, reports) := readTexts manager files
    if manager && name == "calc.toml" then
      (texts, .warning "calc.toml 是 manager 模式下未生效的回滚副本，本次不加载；切回 local 前会重新校验。" ::
        reports)
    else
      match String.fromUTF8? bytes with
      | some content => ((name, content) :: texts, reports)
      | none => (texts, .error (name ++ ": 配置必须为 UTF-8 文本") :: reports)

def isCsv (name : String) : Bool := ".csv".toList.isSuffixOf name.toList

def csvFiles (texts : List (String × String)) : List (String × String) :=
  texts.filter fun file => isCsv file.1

end Application

/-! ## Point tables -/

/-- What the loop over the point tables collects. -/
structure Tables where
  pointOwners : Map String String
  ports : Map String (UInt32 × Bool × String)
  devices : List (String × UInt8)

def Tables.empty : Tables := ⟨∅, ∅, []⟩

def addPoint (name : String) (s : Map String String × List Report) (record : Record) :
    Map String String × List Report :=
  (s.1.insert record.kks name,
    s.2 ++ (s.1.lookup record.kks).toList.map fun previous =>
      .error s!"{name}: KKS 重复 {record.kks}（已存在于 {previous}）")

def portConflict (name : String) (config : Config) (known : Option (UInt32 × Bool × String)) :
    List Report :=
  match known with
  | some (baudRate, special, previous) =>
    errorIf (baudRate != config.baudRate || special != config.isSpecial)
      s!"{name}: 串口 {config.com} 的 baud_rate/is_special 与 {previous} 冲突"
  | none => []

def addTable (csv : CsvReader) (s : Tables × List Report) (file : String × String) :
    Tables × List Report :=
  let (warnings, parsed) := validateCsvContentWithPointWarnings csv file.2
  let reports := s.2 ++ warnings.map fun warning => .warning s!"{file.1}: {warning}"
  match parsed with
  | .error e => (s.1, reports ++ [.error s!"{file.1}: {e}"])
  | .ok (config, records) =>
    let known := s.1.ports.lookup config.com
    let device := (config.com, config.deviceId)
    let (pointOwners, repeated) := records.foldl (addPoint file.1) (s.1.pointOwners, [])
    ({ pointOwners := pointOwners
       ports :=
        if known.isSome then s.1.ports
        else s.1.ports.insert config.com (config.baudRate, config.isSpecial, file.1)
       devices := device :: s.1.devices },
      reports ++ portConflict file.1 config known ++
        errorIf (s.1.devices.contains device) s!"{file.1}: 设备重复 {config.com}:{config.deviceId}" ++
        (if records.isEmpty then [.warning (file.1 ++ ": 此设备没有采集点")] else []) ++ repeated)

/-! ## Node names -/

/-- The stem as this validation computes it, without the server's function. -/
def portStem (port : String) : String :=
  let parts := splitAtChars (fun c => c == '/' || c == '\\') port.toList
  (parts.reverse.find? fun part => !part.isEmpty).elim port String.ofList

def nodeSuffixes : List String :=
  ["_Send", "_SendCommand", "_SendCommand_Input", "_SendCommand_Output"]

def addNode (port : String) (s : Map String String × List Report) (suffix : String) :
    Map String String × List Report :=
  let node := portStem port ++ suffix
  (s.1.insert node port,
    s.2 ++ (s.1.lookup node).toList.map fun previous =>
      .error s!"OPC 节点重名 {node}: {port} 与 {previous}")

def addPortNodes (debug : String → String) (s : Map String String × List Report) (port : String) :
    Map String String × List Report :=
  nodeSuffixes.foldl (addNode port)
    (s.1, s.2 ++ errorIf (trim (portStem port)).isEmpty ("串口 " ++ debug port ++ " 的 OPC 名称为空"))

def systemNodes : Map String String :=
  ((∅ : Map String String).insert "Devices" "系统对象").insert "Methods" "系统对象"

def reserveNodes (debug : String → String) (ports : Map String (UInt32 × Bool × String)) :
    Map String String × List Report :=
  (sortTexts ports.keys).foldl (addPortNodes debug) (systemNodes, [])

def pointConflicts (pointOwners reserved : Map String String) : List Report :=
  (sortTexts pointOwners.keys).flatMap fun name =>
    errorIf (reserved.lookup name).isSome
      ((pointOwners.lookup name).getD "" ++ ": KKS " ++ name ++ " 与系统/命令节点冲突")

/-! ## Calculation rules -/

def ruleFields : List String :=
  ["kks_calc", "data_type", "expression", "min_limit", "max_limit", "default_value"]

def unknownFields (raw : Toml) : List Report :=
  match raw with
  | .table entries =>
    (entries.filter fun entry => entry.1 != "rules").map (fun entry =>
      .error s!"calc.toml: 未知字段 {entry.1}，公式应使用 [[rules]]") ++
    match entries.lookup "rules" with
    | some (.array items) =>
      items.zipIdx.flatMap fun (item, index) =>
        match item with
        | .table fields =>
          (fields.filter fun field => !ruleFields.contains field.1).map fun field =>
            .error s!"calc.toml rules[{index + 1}]: 未知字段 {field.1}"
        | _ => []
    | _ => []
  | _ => []

/-- The text of an error of the tokenizer or the parser. -/
def syntaxMessage (debugToken : Token F64 → String) : SyntaxError F64 → String
  | .illegalChar pos ch => s!"位置 {pos} 处出现非法字符 '{ch}'"
  | .loneEquals pos => s!"位置 {pos} 处出现单独的 '='，请使用 '=='"
  | .badFloat text => s!"无法解析浮点数 '{text}': invalid float literal"
  | .badInt text => s!"无法解析整数 '{text}': number too large to fit in target type"
  | .expectedExpression found => "期望表达式，但遇到 " ++ debugToken found
  | .missingRParen => "缺少右括号 ')'"
  | .ifMissingLParen => "IF 函数缺少左括号 '('"
  | .ifMissingFirstComma => "IF 函数第 1 个参数后缺少逗号 ','"
  | .ifMissingSecondComma => "IF 函数第 2 个参数后缺少逗号 ','"
  | .ifMissingRParen => "IF 函数缺少右括号 ')' 或参数过多"
  | .extraToken found => "解析完成后仍有多余的 Token: " ++ debugToken found
  | .tooManyTokens | .outOfFuel => ""

/-- `outputs`: the last position of every name. -/
def outputIndices (rules : List (CalcRule F64)) : String → Option Nat :=
  rules.zipIdx.foldl (fun table x => Function.update table x.1.kksCalc (some x.2)) fun _ => none

def outputReports (pointOwners reserved : Map String String) :
    List String → List (CalcRule F64 × Nat) → List Report
  | _, [] => []
  | seen, (rule, index) :: rules =>
    errorIf ((trim rule.kksCalc).isEmpty || rule.kksCalc.toList.any isControl)
      s!"calc.toml rules[{index + 1}]: kks_calc 为空或含控制字符" ++
    errorIf (seen.contains rule.kksCalc) ("calc.toml: 计算点重复 " ++ rule.kksCalc) ++
    errorIf ((pointOwners.lookup rule.kksCalc).isSome || (reserved.lookup rule.kksCalc).isSome)
      ("calc.toml: 计算点 " ++ rule.kksCalc ++ " 与采集点/系统节点冲突") ++
    outputReports pointOwners reserved (rule.kksCalc :: seen) rules

section Rules

variable [FloatOps F64 F32]

/-- One rule: the positions it depends on, and what is said about it. -/
def checkRule (p : Parsers F64) (pointOwners : Map String String) (outputs : String → Option Nat)
    (rule : CalcRule F64) : List Nat × List Report :=
  let name := rule.kksCalc
  let early :=
    errorIf (normalizeDataType rule.dataType).isNone
      s!"calc.toml {name}: 不支持的数据类型 {rule.dataType}" ++
    errorIf (!FloatOps.isFinite rule.minLimit || !FloatOps.isFinite rule.maxLimit ||
        !FloatOps.isFinite rule.defaultValue || FloatOps.lt rule.maxLimit rule.minLimit)
      s!"calc.toml {name}: 上下限/默认值必须为有限数，且 min_limit <= max_limit"
  if maxCalcExpressionBytes < rule.expression.utf8ByteSize then
    ([], early ++ [.error s!"calc.toml {name}: 单个表达式最大 64 KiB"])
  else
    match tokenize rule.expression with
    | .error e => ([], early ++ [.error s!"calc.toml {name}: {syntaxMessage p.debugToken e}"])
    | .ok tokens =>
      if maxCalcTokens < tokens.length then
        ([], early ++ [.error s!"calc.toml {name}: 单个表达式最多 8192 个词法单元"])
      else
        match parse tokens with
        | .error e => ([], early ++ [.error s!"calc.toml {name}: {syntaxMessage p.debugToken e}"])
        | .ok ast =>
          let dependencies := extractVariables ast
          (dependencies.filterMap outputs,
            early ++ dependencies.flatMap fun dependency =>
              errorIf ((outputs dependency).isNone && (pointOwners.lookup dependency).isNone)
                s!"calc.toml {name}: 引用不存在的点位 {dependency}")

/-- `edges` and `degrees` as the list of what each position waits for. -/
def ruleDependencies (p : Parsers F64) (pointOwners : Map String String)
    (rules : List (CalcRule F64)) (index : Nat) : List Nat :=
  rules[index]?.elim [] fun rule => (checkRule p pointOwners (outputIndices rules) rule).1

def cycleReports (p : Parsers F64) (pointOwners : Map String String)
    (rules : List (CalcRule F64)) : List Report :=
  let degrees := (Kahn.sort rules.length (ruleDependencies p pointOwners rules)).inDegree
  rules.zipIdx.flatMap fun (rule, index) =>
    errorIf (degrees index != 0)
      ("calc.toml: 计算点 " ++ rule.kksCalc ++ " 存在循环依赖或依赖循环节点")

def validateRules (p : Parsers F64) (pointOwners reserved : Map String String)
    (rules : List (CalcRule F64)) : List Report :=
  outputReports pointOwners reserved [] rules.zipIdx ++
    (rules.flatMap fun rule => (checkRule p pointOwners (outputIndices rules) rule).2) ++
    cycleReports p pointOwners rules

def validateCalc (p : Parsers F64) (pointOwners reserved : Map String String) (content : String) :
    List Report :=
  match p.toml content with
  | .error e => [.error ("calc.toml: " ++ e)]
  | .ok raw =>
    unknownFields raw ++
      match p.rules content with
      | .error e => [.error ("calc.toml: " ++ e)]
      | .ok rules => validateRules p pointOwners reserved (rules.map CalcRule.ofRaw)

/-- Everything reported about a set, in the order of the source. -/
def setReports (p : Parsers F64) (files : ConfigSet) : List Report :=
  let (texts, unread) := readTexts (managerCalculation p files) (sortedFiles files)
  let application :=
    match texts.lookup "config.toml" with
    | some content => validateApplication p content
    | none => [.error "缺少 config.toml，无法校验完整配置集"]
  let (tables, tableReports) := (csvFiles texts).foldl (addTable p.csv) (.empty, [])
  let (reserved, nodeReports) := reserveNodes p.debug tables.ports
  unread ++ application ++ tableReports ++ nodeReports ++
    pointConflicts tables.pointOwners reserved ++
    match texts.lookup "calc.toml" with
    | some content => validateCalc p tables.pointOwners reserved content
    | none => []

def validateSet (p : Parsers F64) (files : ConfigSet) : Validation :=
  (setReports p files).foldl Validation.report ⟨.empty, .empty⟩

end Rules

end RcdServer.Operations.Files
