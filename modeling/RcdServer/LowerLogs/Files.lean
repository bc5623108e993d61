import RcdServer.Lib.Lines
import RcdServer.LowerLogs.Events

/-!
# The central log files

`lowerlogs/store.go` and `scanReverse` of `lowerlogs/snapshot.go` over the files of one directory.
`sourceDirectory` gives each source a directory of its own, with 48 bits of a hash in its name.
-/
namespace RcdServer.LowerLogs.Files

open Lib.Lines

abbrev Bytes := List UInt8

def newline : UInt8 := 10

/-- The buffer of `repairIncompleteTail` and of `scanReverse`. -/
def blockBytes : Nat := 64 <<< 10

/-! ## Events and files -/

/-- Times are nanoseconds since the zero time, and `F` are the objects that `encoding/json`
decodes. -/
structure Event (F : Type) where
  sourceID : String
  bootID : String
  sequence : Nat
  timestamp : Int
  receivedAt : Int
  level : String
  component : String
  portID : String
  deviceID : String
  message : String
  fields : Option F
  deriving DecidableEq

/-- `encoding/json` at the type of events. -/
structure Json (F : Type) where
  marshal : Event F → Except String Bytes
  unmarshal : Bytes → Option (Event F)

/-- Control characters are escaped, what is written can be read, and a JSON object is not complete
before its last bracket. -/
structure Json.Lawful {F : Type} (json : Json F) : Prop where
  one_line : ∀ {e line}, json.marshal e = .ok line → newline ∉ line
  reads : ∀ {e line}, json.marshal e = .ok line → json.unmarshal line = some e
  part : ∀ {e line part}, json.marshal e = .ok line → part <+: line → part ≠ line →
    json.unmarshal part = none

structure Store where
  maxFileBytes : Nat
  keepFiles : Nat
  bytes_min : 1024 ≤ maxFileBytes
  keep_min : 1 ≤ keepFiles

def openWithOptions (root : String) (maxFileBytes keepFiles : Int) : Except String Store :=
  if Lib.Text.trim root = "" then .error "lower log directory is required"
  else if h : maxFileBytes < 1024 ∨ keepFiles < 1 then .error "invalid lower log rotation options"
  else .ok ⟨maxFileBytes.toNat, keepFiles.toNat, by omega, by omega⟩

/-- The files of a directory, `current.jsonl` at 0 and `archive-<n>.jsonl` at n, and what the
removed archives held. -/
structure Disk where
  files : Nat → Option Bytes
  expired : List Bytes

/-! ## Appending -/

def Disk.put (d : Disk) (slot : Nat) (file : Option Bytes) : Disk :=
  { d with files := Function.update d.files slot file }

def Disk.remove (slot : Nat) (d : Disk) : Disk :=
  match d.files slot with
  | none => d
  | some content => { d.put slot none with expired := d.expired ++ [content] }

def Disk.rename (slot target : Nat) (d : Disk) : Disk :=
  match d.files slot with
  | none => d
  | some content => (d.put target content).put slot none

/-- The file is made if it is not there. -/
def Disk.openCurrent (d : Disk) : Disk := d.put 0 ((d.files 0).getD [])

def Disk.onCurrent (f : Bytes → Bytes) (d : Disk) : Disk := d.put 0 ((d.files 0).map f)

/-- `bytes.LastIndexByte(_, '\n')` -/
def lastIndexNewline (buf : Bytes) : Option Nat := lastIndex newline buf

/-- The loop of `repairIncompleteTail`, from the block that stops at `last`. -/
def findBoundary (block : Nat) (content : Bytes) : Nat → Nat → Nat
  | 0, _ => 0
  | rounds + 1, last =>
    if last = 0 then 0
    else
      let start := last - block
      match lastIndexNewline ((content.take last).drop start) with
      | some i => start + i + 1
      | none => findBoundary block content rounds start

/-- The size that `repairIncompleteTail` returns. -/
def completeSize (content : Bytes) : Nat :=
  if content.length = 0 then 0
  else if content.getLast? = some newline then content.length
  else findBoundary blockBytes content content.length content.length

def repairIncompleteTail (content : Bytes) : Bytes := content.take (completeSize content)

def rotate (keepFiles : Nat) : List (Disk → Disk) :=
  Disk.remove keepFiles ::
    (List.range keepFiles).reverse.map fun index => Disk.rename index (index + 1)

section
variable {F : Type} (json : Json F) (store : Store)

def encode (sourceID : String) : List (Event F) → Except String Bytes
  | [] => .ok []
  | event :: events =>
    if event.sourceID ≠ sourceID then
      .error "one lower log append must contain exactly one source"
    else
      match json.marshal event with
      | .error e => .error ("encode lower log event: " ++ e)
      | .ok line =>
        if maxJSONLineBytes < line.length then .error "encoded lower log event exceeds 64 KiB"
        else (encode sourceID events).map (line ++ newline :: ·)

def needsRotation (encoded : Bytes) (d : Disk) : Bool :=
  match d.files 0 with
  | none => false
  | some content => decide (store.maxFileBytes < content.length + encoded.length)

/-- What `Append` does to the directory, one after the other; the encoded events are written byte
by byte. -/
def changes (encoded : Bytes) (d : Disk) : List (Disk → Disk) :=
  (if needsRotation store encoded d then rotate store.keepFiles else []) ++
    Disk.openCurrent :: Disk.onCurrent repairIncompleteTail ::
      encoded.map fun b => Disk.onCurrent (· ++ [b])

/-- How far a call comes: it fails or the process ends after some of the changes, or it returns
without an error. A failed write that is undone has come as far as the repair. -/
inductive Fate where
  | stops (done : Nat)
  | returns
  deriving DecidableEq

inductive Answer where
  | acknowledged
  | rejected (message : String)
  | failed
  deriving DecidableEq

def apply (fs : List (Disk → Disk)) (d : Disk) : Disk := fs.foldl (fun d f => f d) d

def append (events : List (Event F)) (fate : Fate) (d : Disk) : Disk × Answer :=
  match events with
  | [] => (d, .acknowledged)
  | first :: _ =>
    match encode json first.sourceID events with
    | .error message => (d, .rejected message)
    | .ok encoded =>
      match fate with
      | .stops done => (apply ((changes store encoded d).take done) d, .failed)
      | .returns => (apply (changes store encoded d) d, .acknowledged)

end

/-! ## Reading backwards -/

inductive ReadError where
  | context
  | readFailed (message : String)
  | unexpectedEOF
  deriving DecidableEq

/-- What the file holds while it is read, its size when it was opened, and what goes wrong with so
many bytes left to read. -/
structure FileSnapshot where
  file : Bytes
  size : Nat
  failing : Nat → Option ReadError

structure Scan (σ : Type) where
  line : Bytes
  oversized : Bool
  trailing : Bool
  result : σ

section
variable {σ : Type} (visit : σ → Bytes → Bool → σ)

def emit (s : Scan σ) : Scan σ :=
  { s with line := [], oversized := false, result := visit s.result s.line.reverse s.oversized }

def scanByte (b : UInt8) (s : Scan σ) : Scan σ :=
  if b = newline then
    if s.trailing then { s with trailing := false } else emit visit s
  else if s.line.length < maxJSONLineBytes then
    { s with trailing := false, line := s.line ++ [b] }
  else { s with trailing := false, oversized := true }

/-- The loop of `scanReverse`, from the block that stops at `last`. -/
def scanBlocks (block : Nat) (f : FileSnapshot) : Nat → Nat → Scan σ → Except ReadError (Scan σ)
  | 0, _, s => .ok s
  | rounds + 1, last, s =>
    if last = 0 then .ok s
    else
      match f.failing last with
      | some e => .error e
      | none =>
        if f.file.length < last then .error .unexpectedEOF
        else
          let start := last - block
          scanBlocks block f rounds start
            (((f.file.take last).drop start).foldr (scanByte visit) s)

def scanReverse (f : FileSnapshot) (result : σ) : Except ReadError σ :=
  match scanBlocks visit blockBytes f f.size f.size ⟨[], false, true, result⟩ with
  | .error e => .error e
  | .ok s =>
    match f.failing 0 with
    | some e => .error e
    | none => .ok (if 0 < f.size then emit visit s else s).result

end

/-! ## The end of the last line -/

theorem blockBytes_pos : 0 < blockBytes := by decide

theorem take_split (content : Bytes) {start last : Nat} (h : start ≤ last) :
    content.take last = content.take start ++ (content.take last).drop start := by
  calc content.take last
    _ = (content.take last).take start ++ (content.take last).drop start :=
      (List.take_append_drop start _).symm
    _ = content.take start ++ (content.take last).drop start := by
      rw [List.take_take, Nat.min_eq_left h]

theorem findBoundary_eq {block : Nat} (hblock : 0 < block) (content : Bytes) {rounds last : Nat}
    (hrounds : last ≤ rounds) (hlast : last ≤ content.length) :
    findBoundary block content rounds last = (whole newline (content.take last)).length := by
  induction rounds generalizing last with
  | zero =>
    obtain rfl := Nat.le_zero.mp hrounds
    rfl
  | succ rounds ih =>
    rw [findBoundary]
    split_ifs with hzero
    · rw [hzero]
      rfl
    · have hsplit := take_split content (Nat.sub_le last block)
      have hstart : (content.take (last - block)).length = last - block :=
        List.length_take_of_le (by omega)
      dsimp only
      cases hfound : lastIndexNewline ((content.take last).drop (last - block)) with
      | some i =>
        obtain ⟨front, rest, hbuf, hlen, hopen⟩ := lastIndex_some hfound
        have hend : content.take last =
            (content.take (last - block) ++ front ++ [newline]) ++ rest := by
          rw [hsplit, hbuf]
          simp
        rw [hend, whole_append hopen, whole_of_getLast (by simp), List.length_append,
          List.length_append, hstart, hlen, List.length_singleton]
      | none =>
        rw [hsplit, whole_append (lastIndex_none hfound)]
        exact ih (by omega) (by omega)

theorem completeSize_eq (content : Bytes) :
    completeSize content = (whole newline content).length := by
  rw [completeSize]
  split_ifs with hnil hlast
  · rw [List.length_eq_zero_iff.mp hnil]
    rfl
  · rw [whole_of_getLast]
    intro hne
    rw [List.getLast?_eq_some_getLast hne] at hlast
    exact Option.some.inj hlast
  · rw [findBoundary_eq blockBytes_pos content (Nat.le_refl _) (Nat.le_refl _), List.take_length]

/-- Exactly what follows the last end of a line is cut. -/
theorem repairIncompleteTail_eq (content : Bytes) :
    repairIncompleteTail content = whole newline content := by
  rw [repairIncompleteTail, completeSize_eq]
  exact (List.prefix_iff_eq_take.mp (List.rdropWhile_prefix _ content)).symm

/-! ## The lines of a snapshot -/

section
variable {σ : Type} {visit : σ → Bytes → Bool → σ} {s₀ : σ}

/-- What is kept of a line, and whether it is all of it. -/
def keptPart (line : Bytes) : Bytes := line.drop (line.length - maxJSONLineBytes)

def tooLong (line : Bytes) : Bool := decide (maxJSONLineBytes < line.length)

def visitLine (visit : σ → Bytes → Bool → σ) (s : σ) (line : Bytes) : σ :=
  visit s (keptPart line) (tooLong line)

/-- The first line of what has been read is not finished. -/
def scanned (visit : σ → Bytes → Bool → σ) (s₀ : σ) (content : Bytes) : Scan σ :=
  match lines newline content with
  | [] => ⟨[], false, true, s₀⟩
  | l :: ls => ⟨(keptPart l).reverse, tooLong l, false, ls.reverse.foldl (visitLine visit) s₀⟩

theorem keptPart_of_short {line : Bytes} (h : line.length ≤ maxJSONLineBytes) :
    keptPart line = line := by
  rw [keptPart, Nat.sub_eq_zero_of_le h, List.drop_zero]

theorem length_keptPart (line : Bytes) :
    (keptPart line).length = min line.length maxJSONLineBytes := by
  rw [keptPart, List.length_drop]
  omega

theorem scanByte_scanned (visit : σ → Bytes → Bool → σ) (s₀ : σ) (b : UInt8) (content : Bytes) :
    scanByte visit b (scanned visit s₀ content) = scanned visit s₀ (b :: content) := by
  by_cases hb : b = newline
  · subst hb
    rw [scanByte, if_pos rfl, scanned, scanned, lines_nl]
    cases hlines : lines newline content with
    | nil => rfl
    | cons l ls => simp [emit, visitLine, keptPart, tooLong]
  · rw [scanByte, if_neg hb, scanned, scanned, lines_cons hb]
    cases hlines : lines newline content with
    | nil =>
      have hmax : 0 < maxJSONLineBytes := by decide
      have hone : [b].length ≤ maxJSONLineBytes := hmax
      simp only [List.length_nil, if_pos hmax]
      rw [keptPart_of_short hone, tooLong, decide_eq_false (Nat.not_lt.mpr hone)]
      rfl
    | cons l ls =>
      by_cases hlong : l.length < maxJSONLineBytes
      · have hshort : (keptPart l).reverse.length < maxJSONLineBytes := by
          rw [List.length_reverse, length_keptPart]
          omega
        simp only [if_pos hshort]
        have hmore : (b :: l).length ≤ maxJSONLineBytes := hlong
        rw [keptPart_of_short (Nat.le_of_lt hlong), keptPart_of_short hmore, tooLong, tooLong,
          decide_eq_false (Nat.not_lt.mpr (Nat.le_of_lt hlong)),
          decide_eq_false (Nat.not_lt.mpr hmore), List.reverse_cons]
      · have hfull : ¬ (keptPart l).reverse.length < maxJSONLineBytes := by
          rw [List.length_reverse, length_keptPart]
          omega
        simp only [if_neg hfull]
        have hkept : keptPart (b :: l) = keptPart l := by
          rw [keptPart, keptPart, List.length_cons, Nat.sub_add_comm (Nat.not_lt.mp hlong),
            List.drop_succ_cons]
        have hover : tooLong (b :: l) = true := by
          rw [tooLong, List.length_cons, decide_eq_true_eq]
          omega
        rw [hkept, hover]

theorem foldr_scanned (block content : Bytes) :
    block.foldr (scanByte visit) (scanned visit s₀ content) =
      scanned visit s₀ (block ++ content) := by
  induction block with
  | nil => rfl
  | cons b block ih => rw [List.foldr_cons, ih, scanByte_scanned, List.cons_append]

variable {block : Nat} {f : FileSnapshot} {rounds last : Nat}

theorem scanBlocks_zero (s : Scan σ) : scanBlocks visit block f rounds 0 s = .ok s := by
  cases rounds with
  | zero => rfl
  | succ rounds => rw [scanBlocks, if_pos rfl]

/-- The bytes of a block are those between what is left to read and what has been read. -/
theorem scanBlocks_next (hpos : last ≠ 0) (hread : f.failing last = none) (hsize : last ≤ f.size)
    (hlen : last ≤ f.file.length) :
    scanBlocks visit block f (rounds + 1) last
        (scanned visit s₀ ((f.file.take f.size).drop last)) =
      scanBlocks visit block f rounds (last - block)
        (scanned visit s₀ ((f.file.take f.size).drop (last - block))) := by
  have hbytes : (f.file.take last).drop (last - block) ++ (f.file.take f.size).drop last =
      (f.file.take f.size).drop (last - block) := by
    have hstart : last - block ≤ (f.file.take last).length := by
      rw [List.length_take_of_le hlen]
      exact Nat.sub_le last block
    rw [← List.drop_append_of_le_length hstart]
    congr 1
    conv_rhs => rw [← List.take_append_drop last (f.file.take f.size), List.take_take,
      Nat.min_eq_left hsize]
  rw [scanBlocks, if_neg hpos, hread]
  simp only [if_neg (Nat.not_lt.mpr hlen)]
  rw [foldr_scanned, hbytes]

theorem scanBlocks_ok (hblock : 0 < block) (hrounds : last ≤ rounds) (hsize : last ≤ f.size)
    {s : Scan σ}
    (h : scanBlocks visit block f rounds last
      (scanned visit s₀ ((f.file.take f.size).drop last)) = .ok s) :
    s = scanned visit s₀ (f.file.take f.size) ∧ last ≤ f.file.length := by
  induction rounds generalizing last with
  | zero =>
    obtain rfl := Nat.le_zero.mp hrounds
    exact ⟨(Except.ok.inj h).symm, Nat.zero_le _⟩
  | succ rounds ih =>
    by_cases hpos : last = 0
    · subst hpos
      rw [scanBlocks_zero] at h
      exact ⟨(Except.ok.inj h).symm, Nat.zero_le _⟩
    · have hread : f.failing last = none := by
        cases hfail : f.failing last with
        | none => rfl
        | some e =>
          rw [scanBlocks, if_neg hpos, hfail] at h
          cases h
      have hlen : last ≤ f.file.length := by
        by_contra hshort
        rw [scanBlocks, if_neg hpos, hread] at h
        simp only [if_pos (Nat.not_le.mp hshort)] at h
        cases h
      rw [scanBlocks_next hpos hread hsize hlen] at h
      exact ⟨(ih (by omega) (by omega) h).1, hlen⟩

theorem scanBlocks_of_readable (hblock : 0 < block) (hrounds : last ≤ rounds)
    (hsize : last ≤ f.size) (hlen : last ≤ f.file.length) (hread : ∀ n, f.failing n = none) :
    scanBlocks visit block f rounds last (scanned visit s₀ ((f.file.take f.size).drop last)) =
      .ok (scanned visit s₀ (f.file.take f.size)) := by
  induction rounds generalizing last with
  | zero =>
    obtain rfl := Nat.le_zero.mp hrounds
    rfl
  | succ rounds ih =>
    by_cases hpos : last = 0
    · subst hpos
      rw [scanBlocks_zero, List.drop_zero]
    · rw [scanBlocks_next hpos (hread last) hsize hlen]
      exact ih (by omega) (by omega) (by omega)

/-- What a reader of the whole file is told: each line, the last one first. -/
def visits (visit : σ → Bytes → Bool → σ) (s₀ : σ) (content : Bytes) : σ :=
  (lines newline content).reverse.foldl (visitLine visit) s₀

theorem emit_scanned {content : Bytes} (h : content ≠ []) :
    (emit visit (scanned visit s₀ content)).result = visits visit s₀ content := by
  rw [scanned, visits]
  cases hlines : lines newline content with
  | nil => exact absurd hlines (lines_ne_nil h)
  | cons l ls => simp [emit, visitLine]

theorem scanned_drop_size (f : FileSnapshot) :
    scanned visit s₀ ((f.file.take f.size).drop f.size) = ⟨[], false, true, s₀⟩ := by
  rw [List.drop_eq_nil_of_le (List.length_take_le _ _)]
  rfl

theorem result_scanned (hlen : f.size ≤ f.file.length) :
    (if 0 < f.size then emit visit (scanned visit s₀ (f.file.take f.size))
      else scanned visit s₀ (f.file.take f.size)).result =
      visits visit s₀ (f.file.take f.size) := by
  split_ifs with hpos
  · refine emit_scanned fun hnil => ?_
    have := List.length_take_of_le hlen
    rw [hnil, List.length_nil] at this
    omega
  · rw [Nat.eq_zero_of_not_pos hpos]
    rfl

theorem scanReverse_ok {s : σ} (h : scanReverse visit f s₀ = .ok s) :
    s = visits visit s₀ (f.file.take f.size) ∧ f.size ≤ f.file.length := by
  rw [scanReverse] at h
  cases hscan : scanBlocks visit blockBytes f f.size f.size ⟨[], false, true, s₀⟩ with
  | error e =>
    rw [hscan] at h
    cases h
  | ok t =>
    rw [hscan] at h
    rw [← scanned_drop_size] at hscan
    obtain ⟨rfl, hlen⟩ := scanBlocks_ok blockBytes_pos (Nat.le_refl _) (Nat.le_refl _) hscan
    cases hfail : f.failing 0 with
    | some e =>
      simp only [hfail] at h
      cases h
    | none =>
      simp only [hfail] at h
      rw [result_scanned hlen] at h
      exact ⟨(Except.ok.inj h).symm, hlen⟩

theorem scanReverse_of_readable (hlen : f.size ≤ f.file.length)
    (hread : ∀ n, f.failing n = none) :
    scanReverse visit f s₀ = .ok (visits visit s₀ (f.file.take f.size)) := by
  rw [scanReverse, ← scanned_drop_size,
    scanBlocks_of_readable blockBytes_pos (Nat.le_refl _) (Nat.le_refl _) hlen hread]
  simp only [hread]
  rw [result_scanned hlen]

end

end RcdServer.LowerLogs.Files
