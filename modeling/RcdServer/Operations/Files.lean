import Mathlib
import RcdServer.Lib.Maps
import RcdServer.Lib.Run
import RcdServer.Lib.Text

/-!
# Configuration writes

`write_config` of `files.rs` and the typed edits that share its core. A write takes the file lock,
reads the whole set of configuration files, compares, validates, reads the set again, keeps a
backup, reads the set once more and renames a temporary file over the target. Every read of a file
is a step of its own, any of them may fail, and other processes and local editors come in between.
-/
namespace RcdServer.Operations.Files

open Lib Lib.Text

/-! ## Files -/

structure FileError where
  code : String
  message : String
  currentRevision : Option String
  deriving DecidableEq

def FileError.new (code message : String) : FileError := ⟨code, message, none⟩

/-- A regular file; `stamp` is its identity with its time of modification. -/
structure File where
  bytes : ByteArray
  stamp : Nat
  deriving DecidableEq

abbrev ConfigSet := Map String ByteArray

/-- `{unique_id}-{digest}`: the time with the counter, then the digest. -/
structure BackupId where
  unique : Nat
  digest : String
  deriving DecidableEq

def BackupId.newer (a b : BackupId) : Bool :=
  decide (b.unique < a.unique) ||
    (decide (a.unique = b.unique) && textLe b.digest.toList a.digest.toList)

def maxConfigBytes : Nat := 2 * 1024 * 1024

def maxBackups : Nat := 200

def safeName (name : String) : Bool :=
  name != "" && decide (name.utf8ByteSize ≤ 255) && name != "." && name != ".." &&
    !(name.toList.getLast?.any fun c => c == '.' || c == ' ') &&
    !name.toList.any fun c => isControl c || c == '/' || c == '\\' || c == ':'

def allowedConfig (name : String) : Bool :=
  safeName name &&
    (name == "config.toml" || name == "calc.toml" ||
      ("rcd".toList.isPrefixOf name.toList && ".csv".toList.isSuffixOf name.toList))

/-! ## Requests -/

/-- What the writes call: SHA-256, the validation of a set and the parser of the application. -/
structure Externals where
  digest : ByteArray → String
  validateSet : (String → Option ByteArray) → List String
  parseApplication : String → Option String

inductive WriteKind where
  /-- `write_config` -/
  | config
  /-- `write_typed_application`, which does not validate the set. -/
  | application
  deriving DecidableEq

structure Request where
  kind : WriteKind
  name : String
  content : String
  expected : String
  deriving DecidableEq

def Request.target (r : Request) : String :=
  match r.kind with
  | .config => r.name
  | .application => "config.toml"

def Request.bytes (r : Request) : ByteArray := r.content.toByteArray

def isRevision (s : String) : Bool :=
  decide (s.utf8ByteSize = 64) && s.toList.all fun c =>
    isAsciiDigit c || decide ('a' ≤ c ∧ c ≤ 'f') || decide ('A' ≤ c ∧ c ≤ 'F')

def revisionRefused (r : Request) : Option FileError :=
  if isRevision r.expected then none
  else some (.new "invalid_request" "expected_revision 必须为内容 SHA256")

/-- What is checked before the lock. -/
def Request.refused (ext : Externals) (r : Request) : Option FileError :=
  let tooLarge := some (FileError.new "too_large" "配置文件最大为 2 MiB")
  match r.kind with
  | .config =>
    if !allowedConfig r.name then
      some (.new "invalid_request" "仅允许已有 config.toml、calc.toml、rcd*.csv 文件")
    else if r.bytes.size > maxConfigBytes then tooLarge
    else revisionRefused r
  | .application =>
    if r.bytes.size > maxConfigBytes then tooLarge
    else
      match ext.parseApplication r.content with
      | some error => some (.new "invalid_request" ("config.toml: " ++ error))
      | none => revisionRefused r

/-- The set with the new content in place of the target. -/
def candidate (r : Request) (original : ConfigSet) : ConfigSet :=
  original.mapValues fun name bytes => if name = r.target then r.bytes else bytes

def validate (ext : Externals) (r : Request) (set : ConfigSet) : Option FileError :=
  match r.kind with
  | .config =>
    let errors := ext.validateSet fun name => set.lookup name
    if errors.isEmpty then none else some (.new "invalid_request" (String.intercalate "\n" errors))
  | .application => none

/-- `ensure_config_set_unchanged`: the first change in the order of the names. -/
def setChanged (ext : Externals) (expected current : ConfigSet) : Option FileError :=
  if current.keys.length ≠ expected.keys.length then
    some (.new "conflict" "校验期间配置文件集合发生变化")
  else
    (sortTexts current.keys).findSome? fun name =>
      (current.lookup name).bind fun bytes =>
        if (expected.lookup name).map ext.digest = some (ext.digest bytes) then none
        else some ⟨"conflict", "校验期间配置 " ++ name ++ " 发生变化", some (ext.digest bytes)⟩

/-! ## Results -/

structure Document where
  name : String
  kind : String
  sizeBytes : Nat
  revision : String
  activeRevision : String
  restartRequired : Bool
  content : String
  /-- The newest backups with their sizes. -/
  backups : List (BackupId × Nat)
  backupsTruncated : Bool
  deriving DecidableEq

def configKind (name : String) : String :=
  if name = "config.toml" then "application"
  else if name = "calc.toml" then "calculation"
  else "device_csv"

abbrev Backups := Map (String × BackupId) ByteArray

/-- All backups of a file, the newest first. -/
def backupIds (backups : Backups) (name : String) : List BackupId :=
  ((backups.keys.filter fun key => key.1 == name).map (·.2)).insertionSort fun a b => a.newer b

/-- `read_config` of a file that is there. -/
def document (ext : Externals) (active : String → Option String) (backups : Backups) (name : String)
    (bytes : ByteArray) : Except FileError Document :=
  let revision := ext.digest bytes
  let activeRevision := (active name).getD ""
  let ids := backupIds backups name
  match String.fromUTF8? bytes with
  | none => .error (.new "invalid_request" "配置必须为 UTF-8 文本")
  | some content => .ok
    { name := name
      kind := configKind name
      sizeBytes := bytes.size
      revision := revision
      activeRevision := activeRevision
      restartRequired := decide (activeRevision ≠ revision)
      content := content
      backups := (ids.take maxBackups).map fun id =>
        (id, ((backups.lookup (name, id)).map (·.size)).getD 0)
      backupsTruncated := decide (maxBackups < ids.length) }

/-! ## Calls -/

/-- What a set of files is read for. -/
inductive Use where
  | snapshot
  | validated (original : ConfigSet) (current : ByteArray)
  | backedUp (original : ConfigSet)

/-- The next step of a call. -/
inductive Phase where
  | lock
  | list (use : Use)
  | read (use : Use) (todo : List String) (got : ConfigSet)
  | backup (original : ConfigSet) (current : ByteArray)
  | syncBackup (original : ConfigSet)
  /-- Open the target and write the temporary file. -/
  | prepare
  | rename (stamp : Nat)
  | syncDirectory
  /-- `read_config` for the answer. -/
  | answer
  | done (result : Except FileError Document)

structure Call where
  request : Request
  /-- The revisions that the process has loaded. -/
  active : String → Option String
  phase : Phase

/-- After a set has been read. -/
def afterSet (ext : Externals) (r : Request) (use : Use) (got : ConfigSet) : Phase :=
  match use with
  | .snapshot =>
    match got.lookup r.target with
    | none => .done (.error (.new "not_found" "配置文件不存在"))
    | some current =>
      if ext.digest current ≠ r.expected then
        .done (.error ⟨"conflict", "配置已被修改，请重新读取", some (ext.digest current)⟩)
      else
        match validate ext r (candidate r got) with
        | some error => .done (.error error)
        | none => .list (.validated got current)
  | .validated original current =>
    match setChanged ext original got with
    | some error => .done (.error error)
    | none => if r.bytes = current then .answer else .backup original current
  | .backedUp original =>
    match setChanged ext original got with
    | some error => .done (.error error)
    | none => .prepare

def nextRead (ext : Externals) (r : Request) (use : Use) (todo : List String) (got : ConfigSet) :
    Phase :=
  match todo with
  | [] => afterSet ext r use got
  | _ :: _ => .read use todo got

/-! ## The processes and the directory -/

/-- A change of a configuration file by a call or, without one, by an editor. -/
structure Change (ι : Type) where
  writer : Option ι
  name : String
  before : Option ByteArray
  after : Option ByteArray

structure State (ι : Type) where
  files : Map String File
  backups : Backups
  /-- The call that has the lock. -/
  holder : Option ι
  calls : ι → Option Call
  /-- All changes so far; nothing reads it. -/
  history : List (Change ι)

def State.contents {ι : Type} (s : State ι) (name : String) : Option ByteArray :=
  (s.files.lookup name).map (·.bytes)

def setFile (files : Map String File) (name : String) : Option File → Map String File
  | none => files.erase name
  | some file => files.insert name file

def State.change {ι : Type} (s : State ι) (writer : Option ι) (name : String)
    (file : Option File) : State ι :=
  { s with
    files := setFile s.files name file
    history := s.history ++ [⟨writer, name, s.contents name, file.map (·.bytes)⟩] }

/-- The last reading of the set has begun. -/
def Phase.late (r : Request) : Phase → Bool
  | .list (.validated _ current) | .read (.validated _ current) _ _ => decide (r.bytes = current)
  | .list (.backedUp _) | .read (.backedUp _) _ _ => true
  | .prepare | .rename _ | .syncDirectory | .answer => true
  | _ => false

def Call.late (c : Call) : Bool := c.phase.late c.request

inductive Action (ι : Type) where
  | request (i : ι) (active : String → Option String) (r : Request)
  /-- The next step of the call; `fresh` is the stamp or the backup number it draws. -/
  | proceed (i : ι) (fresh : Nat)
  /-- The next step of the call fails. -/
  | fail (i : ι) (error : FileError)
  /-- An editor saves or removes a file. -/
  | edit (name : String) (file : Option File)

variable {ι : Type} [DecidableEq ι]

/-- The call goes on; with its result it drops the lock. -/
def State.goto (s : State ι) (i : ι) (c : Call) (phase : Phase) : State ι :=
  { s with
    calls := Function.update s.calls i (some { c with phase := phase })
    holder := match phase with
      | .done _ => if s.holder = some i then none else s.holder
      | _ => s.holder }

def missing : FileError := .new "not_found" "No such file or directory"

def proceed (ext : Externals) (s : State ι) (i : ι) (fresh : Nat) (c : Call) : Option (State ι) :=
  let r := c.request
  match c.phase with
  | .lock =>
    if s.holder.isSome then some (s.goto i c (.done (.error (.new "conflict" "另一个配置保存正在进行"))))
    else some ({ s with holder := some i }.goto i c (.list .snapshot))
  | .list use => some (s.goto i c (nextRead ext r use (sortTexts s.files.keys) ∅))
  | .read use todo got =>
    match todo with
    | [] => none
    | name :: rest =>
      match s.files.lookup name with
      | none => some (s.goto i c (.done (.error missing)))
      | some file =>
        if file.bytes.size > maxConfigBytes then
          some (s.goto i c (.done (.error (.new "too_large" "配置文件最大为 2 MiB"))))
        else some (s.goto i c (nextRead ext r use rest (got.insert name file.bytes)))
  | .backup original current =>
    let id : BackupId := ⟨fresh, ext.digest current⟩
    some ({ s with backups := s.backups.insert (r.target, id) current }.goto i c
      (.syncBackup original))
  | .syncBackup original => some (s.goto i c (.list (.backedUp original)))
  | .prepare =>
    match s.files.lookup r.target with
    | none => some (s.goto i c (.done (.error missing)))
    | some file => some (s.goto i c (.rename file.stamp))
  | .rename stamp =>
    match s.files.lookup r.target with
    | none => some (s.goto i c (.done (.error missing)))
    | some file =>
      if file.stamp ≠ stamp then
        some (s.goto i c (.done (.error (.new "conflict" "保存期间目标配置已被替换"))))
      else
        some ((s.change (some i) r.target (some ⟨r.bytes, fresh⟩)).goto i c .syncDirectory)
  | .syncDirectory => some (s.goto i c .answer)
  | .answer =>
    match s.files.lookup r.target with
    | none => some (s.goto i c (.done (.error missing)))
    | some file =>
      if file.bytes.size > maxConfigBytes then
        some (s.goto i c (.done (.error (.new "too_large" "配置文件最大为 2 MiB"))))
      else some (s.goto i c (.done (document ext c.active s.backups r.target file.bytes)))
  | .done _ => none

/-- Editors come in as long as no write is past the beginning of its last reading of the set. -/
def editable (s : State ι) : Bool :=
  match s.holder.bind s.calls with
  | none => true
  | some c => !c.late

def step (ext : Externals) (s : State ι) : Action ι → Option (State ι)
  | .request i active r =>
    if (s.calls i).isSome then none
    else
      let phase : Phase := match r.refused ext with
        | some error => .done (.error error)
        | none => .lock
      some (s.goto i ⟨r, active, phase⟩ phase)
  | .proceed i fresh => (s.calls i).bind fun c => proceed ext s i fresh c
  | .fail i error => (s.calls i).bind fun c =>
    match c.phase with
    | .done _ => none
    | _ => some (s.goto i c (.done (.error error)))
  | .edit name file =>
    if allowedConfig name && editable s then
      some (s.change none name file)
    else none

def initial (files : Map String File) (backups : Backups) : State ι where
  files := files
  backups := backups
  holder := none
  calls := fun _ => none
  history := []

end RcdServer.Operations.Files
