import RcdServer.Operations.Logs

/-!
# Pages of logs

Whatever a file holds, no page panics, and every page that does not fail is short enough and makes
progress.
-/
namespace RcdServer.Operations.Logs

open Lib.Lines Lib.Utf8
open Lib.Run (Ends bind_eq_ok_iff ok_bind)

/-! ## Checked operations -/

theorem sub_ok {a b : Nat} (h : b ≤ a) : sub a b = .ok (a - b) := if_pos h

theorem byteAt_ok {bytes : Bytes} {index : Nat} {b : UInt8} (h : bytes[index]? = some b) :
    byteAt bytes index = .ok b := by
  rw [byteAt, h]

theorem slice_ok {bytes : Bytes} {start stop : Nat} (hstart : start ≤ stop)
    (hstop : stop ≤ bytes.length) :
    slice bytes start stop = .ok ((bytes.take stop).drop start) := if_pos ⟨hstart, hstop⟩

theorem slice_front {bytes : Bytes} {stop : Nat} (h : stop ≤ bytes.length) :
    slice bytes 0 stop = .ok (bytes.take stop) := slice_ok (Nat.zero_le stop) h

theorem drain_ok {bytes : Bytes} {count : Nat} (h : count ≤ bytes.length) :
    drain bytes count = .ok (bytes.drop count) := by
  rw [drain, slice_ok h (Nat.le_refl _), List.take_length]

/-! ## Cutting texts -/

theorem sequenceWidth_le {b : UInt8} {width : Nat} (h : sequenceWidth b = some width) :
    width ≤ 4 := by
  rw [sequenceWidth] at h
  split_ifs at h
  all_goals
    obtain rfl := Option.some.inj h
    decide

/-- At most three bytes are cut off. -/
theorem completeUtf8Loop_bounds {bytes : Bytes} {start n : Nat} (h : start + n ≤ bytes.length) :
    ∃ count, completeUtf8Loop bytes start n = .ok count ∧ count ≤ bytes.length ∧
      bytes.length ≤ count + 3 := by
  induction n with
  | zero => exact ⟨bytes.length, rfl, Nat.le_refl _, Nat.le_add_right _ _⟩
  | succ n ih =>
    have hbyte : bytes[start + n]? = some bytes[start + n] := List.getElem?_eq_getElem (by omega)
    rw [completeUtf8Loop, byteAt_ok hbyte, ok_bind]
    cases hwidth : sequenceWidth bytes[start + n] with
    | some width =>
      have hle := sequenceWidth_le hwidth
      refine ⟨_, rfl, ?_, ?_⟩ <;> split_ifs <;> omega
    | none =>
      dsimp only
      split_ifs
      · exact ih (by omega)
      · exact ⟨bytes.length, rfl, Nat.le_refl _, Nat.le_add_right _ _⟩

theorem completeUtf8End_bounds (bytes : Bytes) :
    ∃ count, completeUtf8End bytes = .ok count ∧ count ≤ bytes.length ∧
      bytes.length ≤ count + 3 :=
  completeUtf8Loop_bounds (by omega)

theorem boundedCount_bounds (bytes : Bytes) (limit : Nat) :
    ∃ count, boundedCount bytes limit = .ok count ∧ count ≤ bytes.length ∧ count ≤ limit ∧
      (bytes.length ≤ limit ∧ count = bytes.length ∨ limit ≤ count + 3) := by
  rw [boundedCount]
  split_ifs with hlong
  · obtain ⟨count, hcount, hle, hge⟩ := completeUtf8End_bounds (bytes.take limit)
    rw [List.length_take] at hle hge
    rw [slice_front (Nat.le_of_lt hlong), ok_bind]
    exact ⟨count, hcount, by omega, by omega, Or.inr (by omega)⟩
  · have hshort := Nat.not_lt.mp hlong
    exact ⟨bytes.length, rfl, Nat.le_refl _, hshort, Or.inl ⟨hshort, rfl⟩⟩

theorem size_of_fromUtf8 {bytes : Bytes} {text : List Char} (h : fromUtf8 bytes = some text) :
    size text = bytes.length := by
  rw [encode_fromUtf8 h, length_encode]

theorem boundedText_bounds {bytes : Bytes} {limit : Nat} (hbytes : bytes ≠ []) (hlimit : 4 ≤ limit) :
    ∃ text count, boundedText bytes limit = .ok (text, count) ∧ size text ≤ limit ∧
      0 < count ∧ count ≤ bytes.length := by
  have hpos := List.length_pos_iff.mpr hbytes
  have hmark : size ['\uFFFD'] = 3 := rfl
  obtain ⟨count, hcount, hle, hbound, hge⟩ := boundedCount_bounds bytes limit
  rw [boundedText, hcount, ok_bind, slice_front hle, ok_bind]
  cases htext : fromUtf8 (bytes.take count) with
  | some text =>
    have hsize := size_of_fromUtf8 htext
    rw [List.length_take] at hsize
    exact ⟨text, count, rfl, by omega, by omega, hle⟩
  | none =>
    obtain ⟨third, hthird, hle', hbound', -⟩ := boundedCount_bounds bytes (limit / 3)
    dsimp only
    rw [hthird, ok_bind]
    split_ifs with hzero
    · have hbyte : bytes[0]? = some bytes[0] := List.getElem?_eq_getElem hpos
      rw [byteAt_ok hbyte, ok_bind]
      split_ifs with hwidth
      · rw [slice_front hwidth.1, ok_bind]
        cases hfirst : fromUtf8 (bytes.take ((sequenceWidth bytes[0]).getD 1)) with
        | some text =>
          have hsize := size_of_fromUtf8 hfirst
          have hone : 0 < (sequenceWidth bytes[0]).getD 1 := by
            rw [sequenceWidth]
            split_ifs <;> decide
          rw [List.length_take] at hsize
          exact ⟨text, _, rfl, by omega, hone, hwidth.1⟩
        | none => exact ⟨_, 1, rfl, by omega, Nat.one_pos, hpos⟩
      · exact ⟨_, 1, rfl, by omega, Nat.one_pos, hpos⟩
    · have hthirdPos : 0 < third := Nat.pos_of_ne_zero fun h => hzero ⟨h, hbytes⟩
      have hsize := size_lossy_le (bytes.take third)
      rw [List.length_take] at hsize
      rw [slice_front hle', ok_bind]
      exact ⟨_, third, rfl, by omega, hthirdPos, hle'⟩

/-! ## Filters -/

section
variable {query level : String} {limit : Nat}

theorem filterLines_skip {linePrefix line : Bytes} {lines : List Bytes} {output : List Char}
    {consumed : Nat} (h : matchesText query level (lossy (linePrefix ++ line)) = false) :
    filterLines query level limit linePrefix (line :: lines) output consumed =
      filterLines query level limit [] lines output (consumed + line.length) := by
  rw [filterLines]
  simp only [h, Bool.false_eq_true, if_false]

theorem filterLines_fits {linePrefix line : Bytes} {lines : List Bytes} {output : List Char}
    {consumed : Nat} (h : matchesText query level (lossy (linePrefix ++ line)) = true)
    (hfits : size (output ++ lossy line) ≤ limit) :
    filterLines query level limit linePrefix (line :: lines) output consumed =
      filterLines query level limit [] lines (output ++ lossy line) (consumed + line.length) := by
  rw [size_append] at hfits
  rw [filterLines]
  simp only [h, if_true]
  rw [sub_ok (by omega), ok_bind, if_pos (by omega)]

theorem filterLines_full {linePrefix line : Bytes} {lines : List Bytes} {output : List Char}
    {consumed : Nat} (h : matchesText query level (lossy (linePrefix ++ line)) = true)
    (houtput : size output ≤ limit) (hfull : limit < size (output ++ lossy line))
    (hsome : output ≠ []) :
    filterLines query level limit linePrefix (line :: lines) output consumed =
      .ok (output, consumed, true) := by
  rw [size_append] at hfull
  rw [filterLines]
  simp only [h, if_true]
  rw [sub_ok houtput, ok_bind, if_neg (by omega), if_pos hsome]

theorem filterLines_part {linePrefix line : Bytes} {lines : List Bytes} {consumed count : Nat}
    {part : List Char} (h : matchesText query level (lossy (linePrefix ++ line)) = true)
    (hlong : limit < size (lossy line)) (hpart : boundedText line limit = .ok (part, count)) :
    filterLines query level limit linePrefix (line :: lines) [] consumed =
      .ok (part, consumed + count, true) := by
  rw [filterLines]
  simp only [h, if_true]
  rw [size_nil, sub_ok (Nat.zero_le limit), ok_bind, if_neg (by omega), if_neg (not_not.mpr rfl),
    hpart]
  rfl

/-- The text stays within the limit, and some of the bytes are done with. -/
theorem filterLines_bounds (hlimit : 4 ≤ limit) {lines : List Bytes} (hlines : ∀ l ∈ lines, l ≠ [])
    (linePrefix : Bytes) {output : List Char} (houtput : size output ≤ limit) (consumed : Nat) :
    ∃ text count cut,
      filterLines query level limit linePrefix lines output consumed =
        .ok (text, consumed + count, cut) ∧
      size text ≤ limit ∧ count ≤ lines.flatten.length ∧
      (output = [] → lines ≠ [] → 0 < count) := by
  induction lines generalizing linePrefix output consumed with
  | nil => exact ⟨output, 0, false, rfl, houtput, Nat.le_refl 0, fun _ h => absurd rfl h⟩
  | cons line lines ih =>
    have hline := List.length_pos_iff.mpr (hlines line List.mem_cons_self)
    have hrest := ih fun l hl => hlines l (List.mem_cons_of_mem line hl)
    have hnext : ∀ {out : List Char}, size out ≤ limit → ∃ text count cut,
        filterLines query level limit [] lines out (consumed + line.length) =
          .ok (text, consumed + count, cut) ∧
        size text ≤ limit ∧ count ≤ (line :: lines).flatten.length ∧
        (output = [] → line :: lines ≠ [] → 0 < count) := by
      intro out hout
      obtain ⟨text, count, cut, hrun, hsize, hcount, -⟩ := hrest [] hout (consumed + line.length)
      refine ⟨text, line.length + count, cut, ?_, hsize, ?_, fun _ _ => by omega⟩
      · rw [hrun, Nat.add_assoc]
      · rw [List.flatten_cons, List.length_append]
        omega
    cases hmatch : matchesText query level (lossy (linePrefix ++ line)) with
    | false =>
      rw [filterLines_skip hmatch]
      exact hnext houtput
    | true =>
      rcases Nat.lt_or_ge limit (size (output ++ lossy line)) with hfull | hfits
      · by_cases hsome : output = []
        · subst hsome
          obtain ⟨part, count, hpart, hsize, hpos, hcount⟩ :=
            boundedText_bounds (hlines line List.mem_cons_self) hlimit
          rw [filterLines_part hmatch hfull hpart]
          refine ⟨part, count, true, rfl, hsize, ?_, fun _ _ => hpos⟩
          rw [List.flatten_cons, List.length_append]
          omega
        · rw [filterLines_full hmatch houtput hfull hsome]
          exact ⟨output, 0, true, rfl, houtput, Nat.zero_le _, fun h => absurd h hsome⟩
      · rw [filterLines_fits hmatch hfits]
        exact hnext hfits

theorem filterLogPage_bounds (hlimit : 4 ≤ limit) (bytes linePrefix : Bytes) :
    ∃ text count cut, filterLogPage bytes linePrefix query level limit = .ok (text, count, cut) ∧
      size text ≤ limit ∧ count ≤ bytes.length ∧ (bytes ≠ [] → 0 < count) := by
  have hlines : ∀ l ∈ splitInclusive newline bytes, l ≠ [] :=
    fun l hl => ne_nil_of_mem_splitInclusive hl
  have hempty : size [] ≤ limit := Nat.zero_le limit
  obtain ⟨text, count, cut, hrun, hsize, hcount, hpos⟩ :=
    @filterLines_bounds query level limit hlimit _ hlines linePrefix [] hempty 0
  rw [flatten_splitInclusive] at hcount
  rw [Nat.zero_add] at hrun
  refine ⟨text, count, cut, hrun, hsize, hcount, fun hbytes => hpos rfl ?_⟩
  exact fun hnil => hbytes (splitInclusive_eq_nil.mp hnil)

end

/-! ## The line in front of a page -/

theorem length_readAt {file : Bytes} {offset count : Nat} (h : offset + count ≤ file.length) :
    (readAt file offset count).length = count := by
  rw [readAt, List.length_take, List.length_drop]
  omega

/-- The part of a line in front of a page is found unless it is too long. -/
def LineFront (front : Bytes) (found : Outcome Bytes) : Prop :=
  (found = .ok front ∧ front.length ≤ maxLogLookbehind) ∨
    (∃ e, found = .error (.refused e)) ∧ maxLogLookbehind ≤ front.length

/-- What has been read back from `offset` holds no end of a line. -/
structure Looked (file : Bytes) (offset cursor scanned : Nat) (chunks : List Bytes) : Prop where
  length : cursor + scanned = offset
  bound : scanned ≤ maxLogLookbehind
  split : file.take offset = file.take cursor ++ chunks.reverse.flatten
  within : newline ∉ chunks.reverse.flatten

section
variable {file front : Bytes} {offset cursor scanned : Nat} {chunks ls : List Bytes}

theorem Looked.length_eq (h : Looked file offset cursor scanned chunks)
    (hoffset : offset ≤ file.length) : chunks.reverse.flatten.length = scanned := by
  have hlen := congrArg List.length h.split
  have hsum := h.length
  rw [List.length_append, List.length_take_of_le hoffset,
    List.length_take_of_le (by omega)] at hlen
  omega

theorem Looked.lineFront (h : Looked file offset cursor scanned chunks)
    (hoffset : offset ≤ file.length) (hline : Stores newline (file.take offset) ls front)
    (hend : cursor = 0 ∨ maxLogLookbehind ≤ scanned) :
    LineFront front (if cursor ≠ 0 then
      refuse "invalid_request"
        "日志行首超过 256 KiB 回溯上限，不能可靠延续级别/关键词筛选；请清除筛选后按字节分页读取"
      else .ok chunks.reverse.flatten) := by
  have hlen := h.length_eq hoffset
  split_ifs with hzero
  · have hle := hline.length_le_rest h.split h.within
    exact Or.inr ⟨⟨_, rfl⟩, by omega⟩
  · have hall := h.split
    rw [not_not.mp hzero, List.take_zero, List.nil_append] at hall
    have hfront := hline.rest_of_open (by rw [hall]; exact h.within)
    rw [hfront, hall]
    exact Or.inl ⟨rfl, by rw [hlen]; exact h.bound⟩

theorem Looked.next (h : Looked file offset cursor scanned chunks) {count : Nat}
    (hcount : count ≤ cursor) (hbound : scanned + count ≤ maxLogLookbehind)
    (hnone : newline ∉ readAt file (cursor - count) count) :
    Looked file offset (cursor - count) (scanned + count)
      (chunks ++ [readAt file (cursor - count) count]) := by
  have hflat : (chunks ++ [readAt file (cursor - count) count]).reverse.flatten =
      readAt file (cursor - count) count ++ chunks.reverse.flatten := by simp
  have hread : file.take cursor = file.take (cursor - count) ++
      readAt file (cursor - count) count := by
    rw [readAt, ← List.take_add, Nat.sub_add_cancel hcount]
  have hsum := h.length
  refine ⟨by omega, hbound, ?_, ?_⟩
  · rw [hflat, ← List.append_assoc, ← hread]
    exact h.split
  · rw [hflat, List.mem_append, not_or]
    exact ⟨hnone, h.within⟩

theorem Looked.found (h : Looked file offset cursor scanned chunks) {count i : Nat}
    (hoffset : offset ≤ file.length) (hline : Stores newline (file.take offset) ls front)
    (hcount : count ≤ cursor) (hbound : scanned + count ≤ maxLogLookbehind)
    (hlast : lastIndex newline (readAt file (cursor - count) count) = some i) :
    LineFront front (do
      let rest ← slice (readAt file (cursor - count) count) (i + 1)
        (readAt file (cursor - count) count).length
      .ok (rest ++ chunks.reverse.flatten)) := by
  obtain ⟨before, rest, hchunk, hbefore, hrest⟩ := lastIndex_some hlast
  have hsum := h.length
  have hlen := h.length_eq hoffset
  have hread : file.take cursor = file.take (cursor - count) ++
      readAt file (cursor - count) count := by
    rw [readAt, ← List.take_add, Nat.sub_add_cancel hcount]
  have hsplit : file.take offset = (file.take (cursor - count) ++ before) ++
      newline :: (rest ++ chunks.reverse.flatten) := by
    rw [h.split, hread, hchunk]
    simp
  have hwithin : newline ∉ rest ++ chunks.reverse.flatten := by
    rw [List.mem_append, not_or]
    exact ⟨hrest, h.within⟩
  have hfront := hline.rest_of_last hsplit hwithin
  have htotal : (readAt file (cursor - count) count).length = count := length_readAt (by omega)
  rw [hchunk, List.length_append, List.length_cons] at htotal
  have hdrop : (before ++ newline :: rest).drop (i + 1) = rest := by
    rw [← hbefore, List.drop_length_add_append]
    rfl
  rw [hchunk, slice_ok (by simp; omega) (Nat.le_refl _), List.take_length, hdrop, ok_bind]
  refine Or.inl ⟨by rw [hfront], ?_⟩
  rw [hfront, List.length_append]
  omega

theorem lookBack_spec (hoffset : offset ≤ file.length)
    (hline : Stores newline (file.take offset) ls front) {rounds : Nat} (hrounds : cursor ≤ rounds)
    (h : Looked file offset cursor scanned chunks) :
    LineFront front (lookBack file rounds cursor scanned chunks) := by
  induction rounds generalizing cursor scanned chunks with
  | zero =>
    rw [lookBack]
    exact h.lineFront hoffset hline (Or.inl (Nat.le_zero.mp hrounds))
  | succ rounds ih =>
    rw [lookBack]
    by_cases hmore : 0 < cursor ∧ scanned < maxLogLookbehind
    · have hsum := h.length
      rw [if_pos hmore, sub_ok (Nat.le_of_lt hmore.2), ok_bind]
      dsimp only
      obtain ⟨count, hcount⟩ : ∃ count,
          min (min cursor 4096) (maxLogLookbehind - scanned) = count := ⟨_, rfl⟩
      rw [hcount, sub_ok (by omega), ok_bind, if_neg (not_not.mpr (length_readAt (by omega)))]
      cases hlast : lastIndex newline (readAt file (cursor - count) count) with
      | none =>
        exact ih (by omega) (h.next (by omega) (by omega) (lastIndex_none hlast))
      | some i => exact h.found hoffset hline (by omega) (by omega) hlast
    · rw [if_neg hmore]
      exact h.lineFront hoffset hline (by omega)

theorem readLogLinePrefix_spec (hoffset : offset ≤ file.length)
    (hline : Stores newline (file.take offset) ls front) :
    LineFront front (readLogLinePrefix file offset) := by
  rw [readLogLinePrefix]
  split_ifs with hzero
  · rw [hzero, List.take_zero] at hline
    rw [hline.rest_of_open List.not_mem_nil]
    exact Or.inl ⟨rfl, Nat.zero_le _⟩
  · obtain ⟨cursor, rfl⟩ := Nat.exists_eq_succ_of_ne_zero hzero
    rw [sub_ok (Nat.le_add_left 1 cursor), ok_bind, Nat.succ_sub_one]
    dsimp only
    have hone : (readAt file cursor 1).length = 1 := length_readAt (by omega)
    have hsplit : file.take (cursor + 1) = file.take cursor ++ readAt file cursor 1 := List.take_add
    rw [if_neg (not_not.mpr hone)]
    obtain ⟨b, hb⟩ := List.length_eq_one_iff.mp hone
    rw [hb] at hsplit ⊢
    split_ifs with hlast
    · rw [(List.cons.inj hlast).1] at hsplit
      rw [hline.rest_of_last hsplit List.not_mem_nil]
      exact Or.inl ⟨rfl, Nat.zero_le _⟩
    · refine lookBack_spec hoffset hline (Nat.le_refl cursor) ⟨rfl, by decide, ?_, ?_⟩
      · exact hsplit
      · simpa [eq_comm] using hlast

end

/-! ## Pages -/

section
variable {file bytes : Bytes} {offset : Nat}

/-- At the front of a page at most three bytes are skipped. -/
theorem alignStart_ok (bytes : Bytes) (offset : Nat) (tailFragment : Bool) :
    ∃ skipped, alignStart bytes offset tailFragment = .ok (bytes.drop skipped, offset + skipped) ∧
      skipped ≤ bytes.length ∧ (tailFragment = false → skipped ≤ 3) := by
  rw [alignStart]
  split_ifs with hzero htail
  · exact ⟨0, rfl, Nat.zero_le _, fun _ => Nat.zero_le _⟩
  all_goals
    have hfew : ((bytes.take 3).takeWhile isContinuation).length ≤ (bytes.take 3).length :=
      (List.takeWhile_prefix _).length_le
    rw [List.length_take] at hfew
    dsimp only
    rw [drain_ok (by omega), ok_bind]
  · cases hfind : List.findIdx? (· == newline) (bytes.drop _) with
    | none => exact ⟨_, rfl, by omega, fun h => absurd h (by simp [htail])⟩
    | some stop =>
      dsimp only
      split_ifs with hstop
      · rw [drain_ok (by omega), ok_bind, List.drop_drop]
        rw [List.length_drop] at hstop
        exact ⟨_, by rw [Nat.add_assoc, Nat.add_assoc], by omega, fun h => absurd h (by simp [htail])⟩
      · exact ⟨_, rfl, by omega, fun h => absurd h (by simp [htail])⟩
  · exact ⟨_, rfl, by omega, fun _ => by omega⟩

/-- At the end of a page something is left of four bytes. -/
theorem cutEnd_ok (bytes : Bytes) (moreOnDisk : Bool) :
    ∃ kept, cutEnd bytes moreOnDisk = .ok kept ∧ kept <+: bytes ∧
      (moreOnDisk = false → kept = bytes) ∧ (4 ≤ bytes.length → kept ≠ []) := by
  rw [cutEnd]
  split_ifs with hmore
  · have hmoreNot : moreOnDisk = false → ∀ kept : Bytes, kept = bytes := fun h => by simp [h] at hmore
    cases hlast : lastIndex newline bytes with
    | none =>
      obtain ⟨count, hcount, hle, hge⟩ := completeUtf8End_bounds bytes
      refine ⟨bytes.take count, by rw [hcount, ok_bind], List.take_prefix _ _,
        fun h => hmoreNot h _, fun hlong hnil => ?_⟩
      have := congrArg List.length hnil
      rw [List.length_take, List.length_nil] at this
      omega
    | some i =>
      refine ⟨bytes.take (i + 1), rfl, List.take_prefix _ _, fun h => hmoreNot h _,
        fun hlong hnil => ?_⟩
      have := congrArg List.length hnil
      rw [List.length_take, List.length_nil] at this
      omega
  · exact ⟨bytes, rfl, List.prefix_refl bytes, fun _ => rfl,
      fun hlong hnil => by simp [hnil] at hlong⟩

/-- What has been read is still there. -/
theorem checkAnchor_ok (hbytes : bytes <+: file.drop offset) {consumed : Nat}
    (hconsumed : consumed ≤ bytes.length) : checkAnchor file bytes offset consumed = .ok () := by
  rw [checkAnchor]
  split_ifs with hzero
  · rfl
  · obtain ⟨back, hskip⟩ : ∃ back, max (offset + consumed - 64) offset = offset + back :=
      ⟨_, (Nat.add_sub_cancel' (Nat.le_max_right _ _)).symm⟩
    have hback : back ≤ consumed := by omega
    dsimp only
    rw [hskip, sub_ok (Nat.le_add_right _ _), ok_bind, Nat.add_sub_cancel_left,
      slice_ok hback hconsumed, ok_bind, sub_ok (by omega), ok_bind, if_neg]
    rw [not_not, readAt, Nat.add_sub_add_left, ← List.drop_drop, List.take_drop,
      Nat.add_sub_cancel' hback]
    obtain ⟨more, hmore⟩ := hbytes
    rw [← hmore, List.take_append_of_le_length hconsumed]

end

/-- Reading panics nowhere. It fails behind the end of the file, and for a filter that has a keyword
or a file that could hold a line too long to be read back. -/
def MayFail (file : Bytes) (r : Reading) (e : Failure) : Prop :=
  e ≠ .panics ∧ (file.length < r.start file ∨
    r.filtering = true ∧ (r.query ≠ "" ∨ maxLogLookbehind ≤ file.length))

structure GoodPage (file : Bytes) (r : Reading) (page : LogPage) : Prop where
  text : size page.text ≤ r.limit
  eof : page.eof = decide (file.length ≤ page.nextOffset)
  bound : page.nextOffset ≤ file.length
  progress : r.tail = false → page.eof = true ∨ r.offset < page.nextOffset

theorem query_of_undecided {r : Reading} {bytes linePrefix : Bytes} {moreOnDisk : Bool}
    (h : undecided r bytes linePrefix moreOnDisk = true) :
    r.filtering = true ∧ r.query ≠ "" := by
  rw [undecided] at h
  simp only [Bool.and_eq_true] at h
  rw [Reading.filtering, h.1.2, Bool.true_or]
  exact ⟨rfl, bne_iff_ne.mp h.1.2⟩

section
variable {generation : String} {file : Bytes} {r : Reading}

theorem tailFragment_ok (file : Bytes) (r : Reading) :
    ∃ fragment, tailFragment file r = .ok fragment ∧ (r.tail = false → fragment = false) := by
  rw [tailFragment]
  split_ifs with h
  · rw [sub_ok h.2, ok_bind]
    exact ⟨_, rfl, fun hnot => by simp [hnot] at h⟩
  · exact ⟨false, rfl, fun _ => rfl⟩

theorem finishPage_ends (hlimit : 4 ≤ r.limit) {bytes : Bytes} {offset : Nat}
    (hbytes : bytes <+: file.drop offset) (hoffset : offset ≤ file.length) (moreOnDisk : Bool) :
    Ends (MayFail file r)
      (fun page => size page.text ≤ r.limit ∧
        page.eof = decide (file.length ≤ page.nextOffset) ∧ page.nextOffset ≤ file.length ∧
        offset ≤ page.nextOffset ∧ (bytes ≠ [] → offset < page.nextOffset))
      (finishPage generation file r bytes offset moreOnDisk) := by
  have hlen := hbytes.length_le
  rw [List.length_drop] at hlen
  have hprefix : Ends (MayFail file r) (fun _ => True) (pageLinePrefix file bytes offset r) := by
    rw [pageLinePrefix]
    split_ifs with h
    · obtain ⟨ls, front, hline⟩ := exists_stores newline (file.take offset)
      rcases readLogLinePrefix_spec hoffset hline with ⟨hfound, -⟩ | ⟨⟨e, hfound⟩, hlong⟩
      · rw [hfound]
        exact trivial
      · have hfile := congrArg List.length hline.content_eq
        rw [List.length_append, List.length_take_of_le hoffset] at hfile
        rw [hfound]
        exact ⟨nofun, Or.inr ⟨h.1, Or.inr (by omega)⟩⟩
    · exact trivial
  rw [finishPage]
  refine hprefix.bind fun linePrefix _ => ?_
  split_ifs with hundecided
  · obtain ⟨hfiltering, hquery⟩ := query_of_undecided hundecided
    exact ⟨nofun, Or.inr ⟨hfiltering, Or.inl hquery⟩⟩
  · obtain ⟨text, consumed, cut, hpage, hsize, hconsumed, hpos⟩ :=
      @filterLogPage_bounds r.query r.level r.limit hlimit bytes linePrefix
    rw [hpage, ok_bind]
    dsimp only
    rw [checkAnchor_ok hbytes hconsumed, ok_bind]
    refine ⟨hsize, rfl, ?_, Nat.le_add_right _ _, fun hne => ?_⟩
    · change offset + consumed ≤ file.length
      omega
    · exact Nat.lt_add_of_pos_right (hpos hne)

theorem readPage_ends (hlimit : 4 ≤ r.limit) :
    Ends (MayFail file r) (GoodPage file r) (readPage generation file r) := by
  rw [readPage]
  dsimp only
  split_ifs with hbehind
  · exact ⟨nofun, Or.inl hbehind⟩
  · obtain ⟨fragment, hfragment, hwhole⟩ := tailFragment_ok file r
    rw [hfragment, ok_bind, sub_ok (Nat.not_lt.mp hbehind), ok_bind]
    have hlen : (readAt file (r.start file) (min (file.length - r.start file) maxLogScan)).length =
        min (file.length - r.start file) maxLogScan := length_readAt (by omega)
    have hread : readAt file (r.start file) (min (file.length - r.start file) maxLogScan) <+:
        file.drop (r.start file) := List.take_prefix _ _
    generalize readAt file (r.start file) (min (file.length - r.start file) maxLogScan) = read at *
    obtain ⟨skipped, halign, hskipped, hfew⟩ := alignStart_ok read (r.start file) fragment
    rw [halign, ok_bind]
    dsimp only
    obtain ⟨bytes, hcut, hpre, hall, hsome⟩ := cutEnd_ok (read.drop skipped)
      (decide (r.start file + read.length < file.length))
    rw [hcut, ok_bind]
    have hfile : bytes <+: file.drop (r.start file + skipped) := by
      rw [← List.drop_drop]
      exact hpre.trans (hread.drop skipped)
    refine Ends.imp (finishPage_ends hlimit hfile (by omega) _) ?_
    rintro page ⟨hsize, heof, hbound, hfrom, hpos⟩
    refine ⟨hsize, heof, hbound, fun htail => ?_⟩
    have hstart : r.start file = r.offset := by
      rw [Reading.start, htail]
      rfl
    have hthree := hfew (hwhole htail)
    rw [List.length_drop] at hsome
    by_cases hbytes : bytes = []
    · refine Or.inl ?_
      rw [heof, decide_eq_true_eq]
      by_cases hmore : r.start file + read.length < file.length
      · have hlong : 4 ≤ read.length - skipped := by
          have hscan : 7 ≤ maxLogScan := by decide
          omega
        exact absurd hbytes (hsome hlong)
      · have hnone := congrArg List.length (hall (decide_eq_false hmore))
        rw [hbytes, List.length_drop, List.length_nil] at hnone
        omega
    · have hnext := hpos hbytes
      exact Or.inr (by omega)

end

end RcdServer.Operations.Logs
