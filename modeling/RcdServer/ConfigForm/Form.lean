import Mathlib.Algebra.Group.Int.Defs
import Mathlib.Data.List.Infix
import RcdServer.Lib.Run
import RcdServer.Lib.Text

/-!
# Configuration forms

The crate `rcd-config-form`. A configuration is read as a tree of tables; `walk` lists its scalars
as fields, `target` finds the item at the path of a field, and `prepare` puts the values of a list
of edits in their places. The parser and the printer of the text are parameters.
-/
namespace RcdServer.ConfigForm

open Lib Lib.Text

/-! ## Documents -/

inductive Profile where
  | acquisition | communicate
  deriving DecidableEq

inductive Segment where
  | key (name : String)
  | index (index : Nat)
  deriving DecidableEq

/-- `serde_json::Value`; of `other` kinds of value no parameter is. -/
inductive Json where
  | int (n : Int)
  | bool (b : Bool)
  | string (s : String)
  | other (text : String)
  deriving DecidableEq

/-- `toml_edit::Value` without its decor. A float, a date, an array and an inline table are values
of `other` kinds. -/
inductive Value where
  | integer (n : Int)
  | boolean (b : Bool)
  | string (s : String)
  | other (text : String)
  deriving DecidableEq

/-- The text around a value. -/
structure Decor where
  before : Option String := none
  after : Option String := none
  deriving DecidableEq

inductive Item where
  | none
  | value (value : Value) (decor : Decor)
  | table (entries : List (String × Item))
  | arrayOfTables (tables : List (List (String × Item)))

abbrev Table := List (String × Item)

/-- The parser and the printer of `toml_edit`. -/
structure Toml where
  parse : String → Option Table
  print : Table → String

namespace Item

def isNone : Item → Bool
  | .none => true
  | _ => false

def asTable : Item → Option Table
  | .table entries => some entries
  | _ => Option.none

def asArrayOfTables : Item → Option (List Table)
  | .arrayOfTables tables => some tables
  | _ => Option.none

end Item

/-- `Table::iter` and `Table::get` pass over an item that is none. -/
def iter (table : Table) : List (String × Item) := table.filter fun e => !e.2.isNone

def get (table : Table) (key : String) : Option Item :=
  (table.lookup key).filter fun item => !item.isNone

/-- The item of the key, which takes its place or is appended. -/
def insert (key : String) (item : Item) : Table → Table
  | [] => [(key, item)]
  | (k, i) :: table => if k = key then (k, item) :: table else (k, i) :: insert key item table

/-! ## Fields -/

inductive Kind where
  | integer | boolean | string
  deriving DecidableEq

structure Field where
  path : List Segment
  key : String
  label : String
  hint : String
  kind : Kind
  value : Json
  options : List Json
  inherited : Bool
  readonly : Bool
  deriving DecidableEq

def scalarOf : Value → Option (Kind × Json)
  | .integer n => some (.integer, .int n)
  | .boolean b => some (.boolean, .bool b)
  | .string s => some (.string, .string s)
  | .other _ => none

def scalar : Item → Option (Kind × Json)
  | .value v _ => scalarOf v
  | _ => none

structure Metadata where
  label : String
  hint : String
  options : List Json
  readonly : Bool

def known : List (String × Metadata) :=
  [("settings.command_retry_count", ⟨"命令最大下发次数（含首次）",
    "3 表示最多发送 3 次，不是额外重试 3 次。收到有效 ACK 后立即停止。保存后重启生效。", [], false⟩),
   ("settings.command_interval_ms", ⟨"控制命令最小间隔（ms）",
    "0 关闭；范围 0–60000。各物理串口独立，从上一条控制事务结束到下一条首次发送；不改变普通轮询或同条命令重试。保存后重启生效。", [], false⟩),
   ("settings.query_retry_count", ⟨"轮询失败补发次数", "0 不补发；1 失败后最多补发一次。", [.int 0, .int 1], false⟩),
   ("settings.timeout", ⟨"串口读取超时（ms）", "增大后设备无响应时等待更久。", [], false⟩),
   ("settings.poll_interval_ms", ⟨"轮询间隔（ms）", "不会改变命令 ACK 规则。", [], false⟩),
   ("settings.parity_switch_delay_ms", ⟨"校验位切换保护（ms）", "范围 0–100；影响串口设备时序，请按设备要求设置。", [], false⟩),
   ("settings.transmit_settle_guard_ms", ⟨"发送完成保护（ms）", "范围 0–100；线速发送完成后追加等待。", [], false⟩),
   ("server.primary_ip", ⟨"主机地址", "含原 TCP 端口；更改地址可能导致管理端断连。", [], false⟩),
   ("server.secondary_ip", ⟨"备机地址", "含原 TCP 端口。", [], false⟩),
   ("server.run_on", ⟨"运行角色", "保存后重启生效。", [.string "primary", .string "secondary"], false⟩),
   ("server.current_run", ⟨"运行角色", "保存后重启生效。", [.string "primary", .string "secondary"], false⟩),
   ("serial.baud_rate", ⟨"全局默认波特率", "各串口 CSV 中的波特率可覆盖此项；请同时核对对应 CSV。", [], false⟩),
   ("serial.data_bits", ⟨"数据位",
    "全局串口参数。", [.string "Five", .string "Six", .string "Seven", .string "Eight"], false⟩),
   ("serial.stop_bits", ⟨"停止位", "全局串口参数。", [.string "One", .string "Two"], false⟩),
   ("serial.parity", ⟨"校验位",
    "轮询协议的 Mark/Space 切换行为仍由协议决定。",
    [.string "None", .string "Odd", .string "Even", .string "Mark", .string "Space"], false⟩),
   ("serial.flow_control", ⟨"流控（预留，未生效）", "程序目前未使用此字段，不将它显示为可生效参数。", [], true⟩),
   ("calculation.mode", ⟨"计算执行位置",
    "local 下级计算；manager 由管理端计算。需重启。", [.string "local", .string "manager"], false⟩),
   ("logging.level", ⟨"日志等级",
    "修改文件后需重启生效；模块级过滤表达式可在原文中编辑。",
    [.string "error", .string "warn", .string "info", .string "debug", .string "trace"], false⟩),
   ("logging.rotate_age", ⟨"日志按时间轮转",
    "与大小轮转条件共同生效。",
    [.string "day", .string "hour", .string "minute", .string "second", .string "none"], false⟩),
   ("logging.write_mode", ⟨"日志写入方式",
    "direct 直接写；buffer_and_flush 缓冲并刷新。",
    [.string "direct", .string "buffer_dont_flush", .string "buffer_and_flush"], false⟩),
   ("logging.directory", ⟨"日志目录", "相对路径按下级可执行文件目录解析，不是管理端目录。", [], false⟩),
   ("logging.basename", ⟨"日志文件名前缀", "只能为单个文件名，不含目录。", [], false⟩),
   ("logging.keep_files", ⟨"日志保留文件数", "0 表示不自动清理，请关注磁盘空间。", [], false⟩),
   ("logging.rotate_size_bytes", ⟨"日志轮转大小（字节）", "正整数；未配置时仅按时间轮转。", [], false⟩),
   ("logging.serial_frame_logs", ⟨"记录串口原始帧", "会显著增加日志量。保存后重启生效。", [], false⟩),
   ("logging.opcua_transport_errors", ⟨"记录 OPC 传输错误", "用于排查客户端断连。", [], false⟩),
   ("opc.bind_ip", ⟨"OPC 监听地址", "修改可能使管理端无法再连接，请核对访问地址。", [], false⟩),
   ("opc.advertised_host", ⟨"OPC 广告主机地址", "填写客户端可访问的主机名或 IPv4 地址，不带协议和端口。", [], false⟩),
   ("opc.port", ⟨"OPC 服务端口", "1–65535；不能与已有程序占用相同端口。", [], false⟩)]

/-- The leaves of the communicating program. -/
def leaves : List (String × Metadata) :=
  [("enabled", ⟨"启用", "尚未实现的协议不能启用；保存时由下级再次校验。", [], false⟩),
   ("device", ⟨"串口设备路径", "请使用该来源机器的设备路径，勿与其它程序争用串口。", [], false⟩),
   ("baud_rate", ⟨"波特率", "范围 300–4000000。", [], false⟩),
   ("parity", ⟨"校验位", "", [.string "none", .string "even", .string "odd"], false⟩),
   ("data_bits", ⟨"数据位", "", [.int 5, .int 6, .int 7, .int 8], false⟩),
   ("stop_bits", ⟨"停止位", "", [.int 1, .int 2], false⟩),
   ("first_byte_timeout_ms", ⟨"首字节超时（ms）", "1–60000。", [], false⟩),
   ("frame_timeout_ms", ⟨"完整帧超时（ms）", "不得小于首字节超时。", [], false⟩),
   ("write_timeout_ms", ⟨"发送超时（ms）", "1–60000。", [], false⟩),
   ("late_frame_guard_ms", ⟨"迟到帧隔离（ms）", "1–60000；不把旧响应计入下一次采集。", [], false⟩),
   ("interval_ms", ⟨"任务轮询间隔（ms）", "10–3600000；查询型任务生效，机组同步使用独立发送周期。", [], false⟩),
   ("reconnect_min_ms", ⟨"重连最短间隔（ms）", "不小于 100。", [], false⟩),
   ("reconnect_max_ms", ⟨"重连最长间隔（ms）", "不超过 60000，且不小于最短间隔。", [], false⟩),
   ("max_frame_bytes", ⟨"最大帧字节数", "18–65535。", [], false⟩),
   ("max_payload_bytes", ⟨"最大载荷字节数", "1–65535。", [], false⟩),
   ("protocol", ⟨"协议适配器",
    "同步协议按对方发送方向选择；不能把数据同步当作查询。",
    [.string "pending", .string "unit1-to9-v1", .string "unit9-to1-v1"], false⟩),
   ("transmit_protocol", ⟨"本方发送布局",
    "须与接收方向相反。", [.string "unit1-to9-v1", .string "unit9-to1-v1"], false⟩),
   ("transmit_enabled", ⟨"启用周期同步发送", "没有有效本方快照时不发送，不使用样例代替现场值。", [], false⟩),
   ("send_interval_ms", ⟨"同步发送周期（ms）", "文档示例5秒；不补发积压周期。", [], false⟩),
   ("initial_delay_ms", ⟨"启动错峰延时（ms）", "双方应错开配置，且小于发送周期。", [], false⟩),
   ("idle_gap_ms", ⟨"发送前静默间隔（ms）", "接收中让路，串口持续有数据时不强行发送。", [], false⟩),
   ("receive_timeout_ms", ⟨"对方数据过期时间（ms）", "超时将接收点清零并标记通信中断。", [], false⟩),
   ("snapshot_max_age_ms", ⟨"OPC输入超时（ms）", "默认15000；任一必需输入超时停止发送，须大于刷新间隔。", [], false⟩),
   ("input_refresh_interval_ms", ⟨"OPC客户端刷新间隔（ms）",
    "默认5000；客户端须按此周期刷新全部发送输入，变化立即写入；不会自动配置外部客户端。", [], false⟩)]

def metadata (profile : Profile) (key : String) : Metadata :=
  match known.lookup key with
  | some m => m
  | none =>
    if profile = .communicate then
      if key ∈ ["schema_version", "instance_id", "points_file"] then
        ⟨key, "实例身份和配置文件绑定不允许远程更换。", [], true⟩
      else
        let leaf := String.ofList ((splitAtChars (· == '.') key.toList).getLastD key.toList)
        (leaves.lookup leaf).getD
          ⟨key, "保存后重启生效；网络参数变化可能使当前连接中断。", [], false⟩
    else ⟨key, "保存后重启生效；完整校验以下级返回为准。", [], false⟩

def Segment.text : Segment → String
  | .key k => k
  | .index i => toString (i + 1)

/-- The path as it is displayed. -/
def display (path : List Segment) : String := ".".intercalate (path.map Segment.text)

/-- Secrets remain in the editor of the file. -/
def sensitive (name : String) : Bool :=
  ["password", "secret", "token", "private_key"].any fun v =>
    decide (v.toList <:+: (asciiLower name).toList)

def field (profile : Profile) (path : List Segment) (kind : Kind) (value : Json)
    (inherited : Bool) : Field :=
  let m := metadata profile (display path)
  ⟨path, display path, m.label, m.hint, kind, value, m.options, inherited, m.readonly⟩

def maxFields : Nat := 4096

def limited (fields : List Field) : Except String (List Field) :=
  if fields.length > maxFields then .error "参数过多，请使用配置原文编辑" else .ok fields

/-- A table is walked within the given depth; the check of the path ends the recursion before. -/
def walk (profile : Profile) :
    Nat → Table → List Segment → List Field → Except String (List Field)
  | 0, _, _, _ => .error "参数嵌套过深，请使用配置原文编辑"
  | depth + 1, table, above, fields =>
    if above.length > 24 then .error "参数嵌套过深，请使用配置原文编辑"
    else
      (iter table).foldlM (fun fields entry =>
        let path := above ++ [.key entry.1]
        (match scalar entry.2 with
          | some (kind, value) =>
            .ok (if sensitive entry.1 then fields
              else fields ++ [field profile path kind value false])
          | none =>
            match entry.2 with
            | .table child => walk profile depth child path fields
            | .arrayOfTables array =>
              array.zipIdx.foldlM (fun fields child =>
                walk profile depth child.1 (path ++ [.index child.2]) fields) fields
            | _ => .ok fields) >>= limited) fields

def acquisitionDefaults : List (String × Int) :=
  [("poll_interval_ms", 1), ("command_retry_count", 3), ("command_interval_ms", 0),
   ("query_retry_count", 0), ("parity_switch_delay_ms", 1), ("transmit_settle_guard_ms", 1)]

def synchronizationDefaults : List (String × Int) :=
  [("input_refresh_interval_ms", 5000), ("snapshot_max_age_ms", 15000)]

/-- The defaults of the settings whose key no field has. -/
def inheritedSettings (fields : List Field) : List Field :=
  acquisitionDefaults.filterMap fun (name, value) =>
    let path := [Segment.key "settings", .key name]
    if fields.any fun f => f.key == display path then none
    else some (field .acquisition path .integer (.int value) true)

/-- The defaults of the synchronisation of a port, where its table has no such key. -/
def inheritedSynchronization (doc : Table) : List Field :=
  match (get doc "ports").bind Item.asArrayOfTables with
  | none => []
  | some ports =>
    ports.zipIdx.flatMap fun (port, index) =>
      match (get port "synchronization").bind Item.asTable with
      | none => []
      | some sync =>
        synchronizationDefaults.filterMap fun (name, value) =>
          if (get sync name).isSome then none
          else some (field .communicate
            [.key "ports", .index index, .key "synchronization", .key name] .integer (.int value)
            true)

def inherited (profile : Profile) (doc : Table) (fields : List Field) : List Field :=
  match profile with
  | .acquisition => inheritedSettings fields
  | .communicate => inheritedSynchronization doc

def fields (doc : Table) (profile : Profile) : Except String (List Field) := do
  let own ← walk profile 25 doc [] []
  if ¬ (own.map (·.key)).Nodup then .error "参数显示路径重名，请使用配置原文编辑"
  else
    limited (own ++ inherited profile doc own)

/-! ## Edits -/

structure Edit where
  path : List Segment
  value : Json
  deriving DecidableEq

/-- The item at the path, with the document for every item in its place. -/
def target : Table → List Segment → Except String (Item × (Item → Table))
  | table, [.key key] => .ok ((table.lookup key).getD .none, fun item => insert key item table)
  | table, .key key :: .index index :: path =>
    match get table key with
    | none => .error "参数表不存在"
    | some item =>
      match item.asArrayOfTables.bind (·[index]?) with
      | none => .error "参数索引无效"
      | some child => do
        let (found, put) ← target child path
        .ok (found, fun item' =>
          insert key (.arrayOfTables ((item.asArrayOfTables.getD []).set index (put item'))) table)
  | table, .key key :: path =>
    match get table key with
    | none => .error "参数表不存在"
    | some item =>
      match item.asTable with
      | none => .error "参数不是表"
      | some child => do
        let (found, put) ← target child path
        .ok (found, fun item' => insert key (.table (put item')) table)
  | _, _ => .error "无效参数路径"

def Json.asU64 : Json → Option Nat
  | .int n => if 0 ≤ n ∧ n < 2 ^ 64 then some n.toNat else none
  | _ => none

def Json.asI64 : Json → Option Int
  | .int n => if -2 ^ 63 ≤ n ∧ n < 2 ^ 63 then some n else none
  | _ => none

def Json.asBool : Json → Option Bool
  | .bool b => some b
  | _ => none

def Json.asStr : Json → Option String
  | .string s => some s
  | _ => none

/-- The value of a parameter of the kind. -/
def convert (kind : Kind) (value : Json) : Except String Value :=
  match kind with
  | .integer =>
    match value.asI64 with
    | some n => .ok (.integer n)
    | none => .error "需要整数"
  | .boolean =>
    match value.asBool with
    | some b => .ok (.boolean b)
    | none => .error "需要布尔值"
  | .string =>
    match value.asStr.filter fun s =>
        decide (s.utf8ByteSize ≤ 8192) && !s.toList.contains (Char.ofNat 0) with
    | some s => .ok (.string s)
    | none => .error "需要有界字符串"

/-- What is checked of an edit before its item is looked up. -/
def check (profile : Profile) (available : List Field) (edit : Edit) : Except String Value :=
  match available.find? fun f => f.path == edit.path with
  | none => .error "不支持的参数路径"
  | some field =>
    if field.readonly then .error (field.label ++ " 不允许修改")
    else if profile = .acquisition ∧ field.key = "settings.command_interval_ms" ∧
        edit.value.asU64.any (fun n => decide (n ≤ 60000)) = false then
      .error "控制命令最小间隔必须为 0–60000 毫秒的整数"
    else
      match convert field.kind edit.value with
      | .error e => .error e
      | .ok value =>
        if field.options ≠ [] ∧ edit.value ∉ field.options then
          .error (field.label ++ " 选项无效")
        else .ok value

def Item.decor : Item → Decor
  | .value _ decor => decor
  | _ => {}

/-- A new value keeps the text around the old one. -/
def applyEdit (profile : Profile) (available : List Field) (doc : Table) (edit : Edit) :
    Except String Table := do
  let value ← check profile available edit
  let (item, put) ← target doc edit.path
  .ok (put (.value value item.decor))

/-- The loop over the edits, with the paths seen so far. -/
def draft (profile : Profile) (available : List Field) (doc : Table) (edits : List Edit) :
    Except String (List (List Segment) × Table) :=
  edits.foldlM (fun x edit =>
    if edit.path ∈ x.1 then .error "重复的参数修改"
    else do
      let doc ← applyEdit profile available x.2 edit
      .ok (edit.path :: x.1, doc)) ([], doc)

/-- What `prepare` makes of the document. -/
def edited (profile : Profile) (doc : Table) (edits : List Edit) : Except String Table := do
  let available ← fields doc profile
  let (_, doc) ← draft profile available doc edits
  .ok doc

structure Form where
  content : String
  fields : List Field

def maxContent : Nat := 2 * 1024 * 1024

def prepare (toml : Toml) (content : String) (edits : List Edit) (profile : Profile) :
    Except String Form :=
  if content.utf8ByteSize > maxContent ∨ edits.length > 4096 then .error "配置草稿超限"
  else
    match toml.parse content with
    | none => .error "TOML 语法无效，请先在配置原文中修正"
    | some doc => do
      let doc ← edited profile doc edits
      let fields ← fields doc profile
      let content := if edits.isEmpty then content else toml.print doc
      if content.utf8ByteSize > maxContent then .error "生成的配置草稿超限，参数未保存"
      else .ok ⟨content, fields⟩

end RcdServer.ConfigForm
