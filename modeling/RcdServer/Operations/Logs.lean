import RcdServer.Lib.Lines
import RcdServer.Lib.Utf8
import RcdServer.Operations.Files

/-!
# Reading logs

`read_log` of `files.rs` for a file that does not change while it is read. Slices and subtractions
that would panic are outcomes of their own.
-/
namespace RcdServer.Operations.Logs

open Lib.Lines Lib.Utf8
open Operations.Files (FileError)

def maxLogScan : Nat := 256 * 1024 - 2048

def maxLogText : Nat := 64 * 1024

def maxLogLookbehind : Nat := 256 * 1024

def newline : UInt8 := 10

/-! ## Outcomes -/

inductive Failure where
  | panics
  | refused (error : FileError)
  deriving DecidableEq

abbrev Outcome := Except Failure

def refuse {α : Type} (code message : String) : Outcome α :=
  .error (.refused (FileError.new code message))

/-- `a - b` -/
def sub (a b : Nat) : Outcome Nat := if b ≤ a then .ok (a - b) else .error .panics

/-- `bytes[index]` -/
def byteAt (bytes : Bytes) (index : Nat) : Outcome UInt8 :=
  match bytes[index]? with
  | some b => .ok b
  | none => .error .panics

/-- `bytes[start..stop]` -/
def slice (bytes : Bytes) (start stop : Nat) : Outcome Bytes :=
  if start ≤ stop ∧ stop ≤ bytes.length then .ok ((bytes.take stop).drop start)
  else .error .panics

/-- What is left by `bytes.drain(..count)`. -/
def drain (bytes : Bytes) (count : Nat) : Outcome Bytes := slice bytes count bytes.length

/-- A read of an unchanging file is as long as the file allows. -/
def readAt (file : Bytes) (offset count : Nat) : Bytes := (file.drop offset).take count

/-! ## Cutting texts -/

def isContinuation (b : UInt8) : Bool := decide (0x80 ≤ b.toNat ∧ b.toNat ≤ 0xbf)

/-- The bytes of the sequence that starts with this one, if there are more. -/
def sequenceWidth (b : UInt8) : Option Nat :=
  if 0xc2 ≤ b.toNat ∧ b.toNat ≤ 0xdf then some 2
  else if 0xe0 ≤ b.toNat ∧ b.toNat ≤ 0xef then some 3
  else if 0xf0 ≤ b.toNat ∧ b.toNat ≤ 0xf4 then some 4
  else none

/-- The loop of `complete_utf8_end`, over the last of so many bytes from `start` on. -/
def completeUtf8Loop (bytes : Bytes) (start : Nat) : Nat → Outcome Nat
  | 0 => .ok bytes.length
  | n + 1 => do
    let b ← byteAt bytes (start + n)
    match sequenceWidth b with
    | some width => .ok (if bytes.length < start + n + width then start + n else bytes.length)
    | none => if isContinuation b then completeUtf8Loop bytes start n else .ok bytes.length

def completeUtf8End (bytes : Bytes) : Outcome Nat :=
  let start := bytes.length - 4
  completeUtf8Loop bytes start (bytes.length - start)

/-- How much of the bytes is cut off at `limit`. -/
def boundedCount (bytes : Bytes) (limit : Nat) : Outcome Nat :=
  if limit < bytes.length then do completeUtf8End (← slice bytes 0 limit) else .ok bytes.length

def boundedText (bytes : Bytes) (limit : Nat) : Outcome (List Char × Nat) := do
  let count ← boundedCount bytes limit
  match fromUtf8 (← slice bytes 0 count) with
  | some text => .ok (text, count)
  | none =>
    let count ← boundedCount bytes (limit / 3)
    if count = 0 ∧ bytes ≠ [] then
      let width := (sequenceWidth (← byteAt bytes 0)).getD 1
      if width ≤ bytes.length ∧ width ≤ limit then
        match fromUtf8 (← slice bytes 0 width) with
        | some text => .ok (text, width)
        | none => .ok (['\uFFFD'], 1)
      else .ok (['\uFFFD'], 1)
    else .ok (lossy (← slice bytes 0 count), count)

/-! ## Filters -/

/-- `str::split_once` -/
def splitOnce (pattern : List Char) : List Char → Option (List Char × List Char)
  | [] => if pattern = [] then some ([], []) else none
  | c :: cs =>
    if pattern <+: c :: cs then some ([], (c :: cs).drop pattern.length)
    else (splitOnce pattern cs).map fun (front, rest) => (c :: front, rest)

/-- `str::contains` -/
def contains (text pattern : List Char) : Bool := decide (pattern <:+: text)

def logLevelMatches (text : List Char) (level : String) : Bool :=
  level == "" || level == "ALL" ||
    match splitOnce [' ', '['] text with
    | none => false
    | some (_, remainder) =>
      match splitOnce [']'] remainder with
      | none => false
      | some (actual, _) => Lib.Text.trim (String.ofList actual) == level

def matchesText (query level : String) (text : List Char) : Bool :=
  logLevelMatches text level && contains text query.toList

/-- The loop of `filter_log_page`; only the first line has a part on earlier pages. -/
def filterLines (query level : String) (limit : Nat) :
    Bytes → List Bytes → List Char → Nat → Outcome (List Char × Nat × Bool)
  | _, [], output, consumed => .ok (output, consumed, false)
  | linePrefix, line :: lines, output, consumed => do
    let text := lossy line
    let matchText := lossy (linePrefix ++ line)
    if matchesText query level matchText then
      if size text ≤ (← sub limit (size output)) then
        filterLines query level limit [] lines (output ++ text) (consumed + line.length)
      else if output ≠ [] then .ok (output, consumed, true)
      else
        let (part, count) ← boundedText line limit
        .ok (output ++ part, consumed + count, true)
    else filterLines query level limit [] lines output (consumed + line.length)

def filterLogPage (bytes linePrefix : Bytes) (query level : String) (limit : Nat) :
    Outcome (List Char × Nat × Bool) :=
  filterLines query level limit linePrefix (splitInclusive newline bytes) [] 0

/-! ## The line in front of a page -/

/-- The loop of `read_log_line_prefix`, with the chunks in the order they were read. -/
def lookBack (file : Bytes) : Nat → Nat → Nat → List Bytes → Outcome Bytes
  | rounds + 1, cursor, scanned, chunks =>
    if 0 < cursor ∧ scanned < maxLogLookbehind then do
      let room ← sub maxLogLookbehind scanned
      let count := min (min cursor 4096) room
      let cursor ← sub cursor count
      let chunk := readAt file cursor count
      if chunk.length ≠ count then refuse "conflict" "日志在回溯期间被截断"
      else
        match lastIndex newline chunk with
        | some i => do
          let front ← slice chunk (i + 1) chunk.length
          .ok (front ++ chunks.reverse.flatten)
        | none => lookBack file rounds cursor (scanned + count) (chunks ++ [chunk])
    else if cursor ≠ 0 then
      refuse "invalid_request"
        "日志行首超过 256 KiB 回溯上限，不能可靠延续级别/关键词筛选；请清除筛选后按字节分页读取"
    else .ok chunks.reverse.flatten
  | 0, cursor, _, chunks =>
    if cursor ≠ 0 then
      refuse "invalid_request"
        "日志行首超过 256 KiB 回溯上限，不能可靠延续级别/关键词筛选；请清除筛选后按字节分页读取"
    else .ok chunks.reverse.flatten

def readLogLinePrefix (file : Bytes) (offset : Nat) : Outcome Bytes :=
  if offset = 0 then .ok []
  else do
    let cursor ← sub offset 1
    let last := readAt file cursor 1
    if last.length ≠ 1 then refuse "conflict" "日志在回溯期间被截断"
    else if last = [newline] then .ok []
    else lookBack file cursor cursor 1 [last]

/-! ## Pages -/

structure LogRequest where
  generation : Option String
  offset : Option Nat
  limit : Option Nat
  query : Option String
  level : Option String
  tail : Bool

structure LogPage where
  generation : String
  offset : Nat
  nextOffset : Nat
  sizeBytes : Nat
  eof : Bool
  truncated : Bool
  text : List Char
  deriving DecidableEq

/-- A request that has been checked. -/
structure Reading where
  offset : Nat
  limit : Nat
  query : String
  level : String
  tail : Bool

def asciiUpper (s : String) : String := String.ofList (s.toList.map Char.toUpper)

def LogRequest.queryText (request : LogRequest) : String := request.query.getD ""

def LogRequest.levelText (request : LogRequest) : String :=
  asciiUpper (Lib.Text.trim (request.level.getD ""))

def checkRequest (generation : String) (request : LogRequest) : Outcome Reading :=
  let limit := request.limit.getD maxLogText
  let query := request.queryText
  let level := request.levelText
  if ¬ (4 ≤ limit ∧ limit ≤ maxLogText) then
    refuse "invalid_request" "limit 必须在 4..=65536 字节之间"
  else if 4096 < query.utf8ByteSize then refuse "too_large" "日志查询最大 4096 字节"
  else if level ∉ ["", "ALL", "ERROR", "WARN", "INFO", "DEBUG", "TRACE"] then
    refuse "invalid_request" "无效日志 level"
  else if request.generation.any (· ≠ generation) then
    .error (.refused ⟨"conflict", "日志代次已变化，请从新文件重新读取", some generation⟩)
  else .ok ⟨request.offset.getD 0, limit, query, level, request.tail⟩

def Reading.filtering (r : Reading) : Bool :=
  r.query != "" || (r.level != "" && r.level != "ALL")

/-- The bytes of a page without what belongs in front of it, and where they start. -/
def alignStart (bytes : Bytes) (offset : Nat) (tailFragment : Bool) : Outcome (Bytes × Nat) :=
  if offset = 0 then .ok (bytes, offset)
  else do
    let skipped := ((bytes.take 3).takeWhile isContinuation).length
    let bytes ← drain bytes skipped
    let offset := offset + skipped
    if tailFragment then
      match bytes.findIdx? (· == newline) with
      | some stop =>
        if stop + 1 < bytes.length then do .ok (← drain bytes (stop + 1), offset + stop + 1)
        else .ok (bytes, offset)
      | none => .ok (bytes, offset)
    else .ok (bytes, offset)

def cutEnd (bytes : Bytes) (moreOnDisk : Bool) : Outcome Bytes :=
  if moreOnDisk then
    match lastIndex newline bytes with
    | some i => .ok (bytes.take (i + 1))
    | none => do .ok (bytes.take (← completeUtf8End bytes))
  else .ok bytes

/-- A keyword might occur behind the part of an unfinished line that a page can hold. -/
def undecided (r : Reading) (bytes linePrefix : Bytes) (moreOnDisk : Bool) : Bool :=
  moreOnDisk && decide (newline ∉ bytes) && r.query != "" &&
    (let text := lossy (linePrefix ++ bytes)
     logLevelMatches text r.level && !contains text r.query.toList)

/-- The check that the end of the page is still the same. -/
def checkAnchor (file bytes : Bytes) (offset consumed : Nat) : Outcome Unit :=
  if consumed = 0 then .ok ()
  else do
    let nextOffset := offset + consumed
    let anchorOffset := max (nextOffset - 64) offset
    let anchor ← slice bytes (← sub anchorOffset offset) consumed
    let count ← sub nextOffset anchorOffset
    if readAt file anchorOffset count ≠ anchor then refuse "conflict" "日志在读取期间内容发生变化"
    else .ok ()

def Reading.start (r : Reading) (file : Bytes) : Nat :=
  if r.tail then file.length - r.limit else r.offset

/-- The tail starts within a line. -/
def tailFragment (file : Bytes) (r : Reading) : Outcome Bool :=
  if r.tail ∧ 0 < r.start file then do
    .ok (decide (readAt file (← sub (r.start file) 1) 1 ≠ [newline]))
  else .ok false

def pageLinePrefix (file bytes : Bytes) (offset : Nat) (r : Reading) : Outcome Bytes :=
  if r.filtering ∧ bytes ≠ [] then readLogLinePrefix file offset else .ok []

/-- `read_log` from the bytes of the page on. -/
def finishPage (generation : String) (file : Bytes) (r : Reading) (bytes : Bytes) (offset : Nat)
    (moreOnDisk : Bool) : Outcome LogPage := do
  let linePrefix ← pageLinePrefix file bytes offset r
  if undecided r bytes linePrefix moreOnDisk then
    refuse "invalid_request"
      "日志行超过单页筛选扫描上限，无法确定整行是否匹配；请清除筛选后按字节分页读取"
  else
    let (text, consumed, outputLimited) ←
      filterLogPage bytes linePrefix r.query r.level r.limit
    checkAnchor file bytes offset consumed
    .ok {
      generation := generation
      offset := offset
      nextOffset := offset + consumed
      sizeBytes := file.length
      eof := decide (file.length ≤ offset + consumed)
      truncated := outputLimited || moreOnDisk || (r.tail && offset != 0)
      text := text }

def readPage (generation : String) (file : Bytes) (r : Reading) : Outcome LogPage :=
  let start := r.start file
  if file.length < start then
    .error (.refused ⟨"conflict", "日志已截断，offset 超出文件大小", some generation⟩)
  else do
    let fragment ← tailFragment file r
    let count := min (← sub file.length start) maxLogScan
    let read := readAt file start count
    let moreOnDisk := decide (start + read.length < file.length)
    let (aligned, offset) ← alignStart read start fragment
    let bytes ← cutEnd aligned moreOnDisk
    finishPage generation file r bytes offset moreOnDisk

def readLog (generation : String) (file : Bytes) (request : LogRequest) : Outcome LogPage := do
  readPage generation file (← checkRequest generation request)

end RcdServer.Operations.Logs
