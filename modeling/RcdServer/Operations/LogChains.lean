import RcdServer.Operations.LogCuts

/-!
# Chains of log pages

Pages of a file of valid UTF-8, each from where the page before ended. What a page shows of a line
that goes on is decided by the part of the line that has been seen.
-/
namespace RcdServer.Operations.Logs

open Lib.Lines Lib.Utf8
open Lib.Run (Ends bind_eq_ok_iff ok_bind)

/-! ## Positions -/

/-- At `offset` the part `k` of a line has been read, and these lines are left. -/
def At (cs : List Char) (offset : Nat) (k : List Char) (lines : List (List Char)) : Prop :=
  ∃ before ls, cs = before ++ lines.flatten ∧ offset = size before ∧
    (lines ≠ [] → Stores '\n' before ls k) ∧ splitInclusive '\n' lines.flatten = lines

section
variable {cs k : List Char} {offset : Nat} {lines : List (List Char)}

theorem at_start (cs : List Char) : At cs 0 [] (splitInclusive '\n' cs) := by
  refine ⟨[], [], ?_, rfl, fun _ => stores_nil '\n', ?_⟩
  · rw [flatten_splitInclusive, List.nil_append]
  · rw [flatten_splitInclusive]

theorem At.inside {front back : List Char} (h : At cs offset k ((front ++ back) :: lines))
    (hback : back ≠ []) : At cs (offset + size front) (k ++ front) (back :: lines) := by
  obtain ⟨before, ls, rfl, rfl, hstores, hlines⟩ := h
  obtain ⟨hopen, hrest⟩ := splitInclusive_back hlines hback
  refine ⟨before ++ front, ls, ?_, ?_, fun _ => ?_, hrest⟩
  · rw [List.flatten_cons, List.flatten_cons]
    simp only [List.append_assoc]
  · rw [size_append]
  · have hbefore := hstores (List.cons_ne_nil _ _)
    refine ⟨?_, hbefore.lines_end, ?_⟩
    · rw [← List.append_assoc, ← hbefore.content_eq]
    · rw [List.mem_append, not_or]
      exact ⟨hbefore.rest_open, hopen⟩

theorem At.next {r : List Char} (h : At cs offset k (r :: lines)) :
    At cs (offset + size r) [] lines := by
  obtain ⟨before, ls, rfl, rfl, hstores, hlines⟩ := h
  obtain ⟨hrest, front, hfront, hshape⟩ := splitInclusive_cons hlines
  have hbefore := hstores (List.cons_ne_nil _ _)
  refine ⟨before ++ r, ls ++ [k ++ front], ?_, ?_, fun hne => ?_, hrest⟩
  · rw [List.flatten_cons, List.append_assoc]
  · rw [size_append]
  · rcases hshape with rfl | ⟨-, -, hnil⟩
    · refine ⟨?_, ?_, List.not_mem_nil⟩
      · rw [hbefore.content_eq, stored_append, stored_cons]
        simp [stored]
      · intro l hl
        rcases List.mem_append.mp hl with hl | hl
        · exact hbefore.lines_end l hl
        · rw [List.mem_singleton.mp hl, List.mem_append, not_or]
          exact ⟨hbefore.rest_open, hfront⟩
    · exact absurd hnil hne

theorem At.line_ne_nil (h : At cs offset k lines) {l : List Char} (hl : l ∈ lines) : l ≠ [] := by
  obtain ⟨_, _, _, _, _, hlines⟩ := h
  rw [← hlines] at hl
  exact ne_nil_of_mem_splitInclusive hl

theorem Reads.at {m : List Char → Bool} {text taken k' : List Char}
    {rest more : List (List Char)} (h : Reads m k lines text taken k' rest)
    (hat : At cs offset k (lines ++ more)) : At cs (offset + size taken) k' (rest ++ more) := by
  induction h generalizing offset with
  | stop => exact hat
  | inside _ hback _ => exact hat.inside hback
  | shown _ _ ih =>
    rw [size_append, ← Nat.add_assoc]
    exact ih hat.next
  | skipped _ _ ih =>
    rw [size_append, ← Nat.add_assoc]
    exact ih hat.next

end

/-! ## What is shown of a line -/

section
variable {query level : String}

/-- The level stands behind the part of the line that one page can hold. -/
def late (level : String) (l : List Char) : Bool :=
  decide (fit maxLogScan l ≠ l) && !logLevelMatches (fit maxLogScan l) level

def shown (query level : String) (l : List Char) : List Char :=
  if matchesText query level l then
    if late level l then l.drop (fit maxLogScan l).length else l
  else []

/-- What is still to be shown, with `k` read of the first line. -/
def remaining (query level : String) (k : List Char) : List (List Char) → List Char
  | [] => []
  | r :: lines =>
    (if k = [] then shown query level r
      else if matchesText query level (k ++ r) then r else []) ++ lines.flatMap (shown query level)

theorem remaining_nil (query level : String) (lines : List (List Char)) :
    remaining query level [] lines = lines.flatMap (shown query level) := by
  cases lines with
  | nil => rfl
  | cons r lines => rw [remaining, if_pos rfl, List.flatMap_cons]

theorem shown_of_short {l : List Char} (h : size l ≤ maxLogScan) :
    shown query level l = if matchesText query level l then l else [] := by
  have hnot : late level l = false := by
    rw [late, decide_eq_false (not_not.mpr (fit_of_size_le h)), Bool.false_and]
  rw [shown, hnot, if_neg Bool.false_ne_true]

theorem remaining_of_short {k r : List Char} {lines : List (List Char)}
    (h : size r ≤ maxLogScan) :
    remaining query level k (r :: lines) =
      (if matchesText query level (k ++ r) then r else []) ++ lines.flatMap (shown query level) := by
  rw [remaining]
  split_ifs with hk hmatch hmatch
  · rw [hk, List.nil_append] at hmatch
    rw [shown_of_short h, if_pos hmatch]
  · rw [hk, List.nil_append] at hmatch
    rw [shown_of_short h, if_neg hmatch]
  · rfl
  · rfl

/-- The reader knows of a line that has been begun: it has seen a part that matches, or it has
skipped all that one page can hold without its level. -/
def Begun (query level : String) (k : List Char) : List (List Char) → Prop
  | [] => True
  | r :: _ => k = [] ∨
    (∃ q, q <+: k ++ r ∧ matchesText query level q = true ∧ size q ≤ size k + maxLogScan) ∨
    fit maxLogScan (k ++ r) = k ∧ logLevelMatches k level = false

theorem begun_nil (query level : String) (lines : List (List Char)) :
    Begun query level [] lines := by
  cases lines with
  | nil => exact trivial
  | cons r lines => exact Or.inl rfl

theorem Reads.begun {k text taken k' : List Char} {lines rest more : List (List Char)}
    (h : Reads (matchesText query level) k lines text taken k' rest)
    (hshort : ∀ l ∈ lines, size l ≤ maxLogScan) (hbegun : Begun query level k (lines ++ more)) :
    Begun query level k' (rest ++ more) := by
  induction h with
  | stop => exact hbegun
  | @inside k front back lines _ _ hmatch =>
    have hsize := hshort _ List.mem_cons_self
    rw [size_append] at hsize
    refine Or.inr (Or.inl ⟨k ++ (front ++ back), ?_, hmatch, ?_⟩)
    · rw [List.append_assoc]
    · rw [size_append, size_append, size_append]
      omega
  | shown _ _ ih => exact ih (fun l hl => hshort l (List.mem_cons_of_mem _ hl)) (begun_nil _ _ _)
  | skipped _ _ ih => exact ih (fun l hl => hshort l (List.mem_cons_of_mem _ hl)) (begun_nil _ _ _)

/-- The page and what remains behind it are what remained in front of it. -/
theorem Reads.remaining_eq {k text taken k' : List Char} {lines rest more : List (List Char)}
    (h : Reads (matchesText query level) k lines text taken k' rest)
    (hshort : ∀ l ∈ lines, size l ≤ maxLogScan) :
    text ++ remaining query level k' (rest ++ more) = remaining query level k (lines ++ more) := by
  induction h with
  | stop => rfl
  | @inside k front back lines hfront _ hmatch =>
    have hne : k ++ front ≠ [] := List.append_ne_nil_of_right_ne_nil k hfront
    rw [List.cons_append, List.cons_append, remaining_of_short (hshort _ List.mem_cons_self),
      if_pos hmatch, remaining, if_neg hne, List.append_assoc, if_pos hmatch, List.append_assoc]
  | @shown k r lines text taken k' rest hmatch _ ih =>
    rw [List.cons_append, remaining_of_short (hshort _ List.mem_cons_self), if_pos hmatch,
      List.append_assoc, ih fun l hl => hshort l (List.mem_cons_of_mem _ hl), remaining_nil]
  | @skipped k r lines text taken k' rest hmatch _ ih =>
    have hnot : ¬ matchesText query level (k ++ r) = true := by
      rw [hmatch]
      exact Bool.false_ne_true
    rw [List.cons_append, remaining_of_short (hshort _ List.mem_cons_self), if_neg hnot,
      List.nil_append, ih fun l hl => hshort l (List.mem_cons_of_mem _ hl), remaining_nil]

end

/-! ## One page -/

section
variable {query level : String}

theorem Reads.of_part {m : List Char → Bool} {k piece text taken k' : List Char}
    {rest : List (List Char)} (h : Reads m k [piece] text taken k' rest) (hpiece : piece ≠ []) :
    (text = [] ∧ taken = []) ∨
      (m (k ++ piece) = true ∧ text = taken ∧ taken ≠ [] ∧ ∃ back, piece = taken ++ back) ∨
      m (k ++ piece) = false ∧ text = [] ∧ taken = piece := by
  cases h with
  | stop => exact Or.inl ⟨rfl, rfl⟩
  | inside hfront _ hmatch => exact Or.inr (Or.inl ⟨hmatch, rfl, hfront, _, rfl⟩)
  | shown hmatch hrest =>
    cases hrest
    rw [List.append_nil]
    exact Or.inr (Or.inl ⟨hmatch, rfl, hpiece, [], (List.append_nil _).symm⟩)
  | skipped hmatch hrest =>
    cases hrest
    exact Or.inr (Or.inr ⟨hmatch, rfl, List.append_nil _⟩)

/-- More of a line has been skipped than can be read back. -/
def Lost (query level : String) (k : List Char) (lines : List (List Char)) : Prop :=
  (∃ text, matchesText query level text = false) ∧ lines ≠ [] ∧ maxLogLookbehind < size k

/-- What a page makes of a position. -/
def Follows (query level : String) (k text k' : List Char) (lines lines' : List (List Char)) :
    Prop :=
  (Begun query level k' lines' ∧
    text ++ remaining query level k' lines' = remaining query level k lines) ∨
    Lost query level k' lines'

/-- A page that cannot see the end of the first line. -/
theorem unfinished_follows {cs k r text taken k' : List Char} {ls rest : List (List Char)}
    {offset : Nat} (hat : At cs offset k (r :: ls)) (hbegun : Begun query level k (r :: ls))
    (hlong : fit maxLogScan r ≠ r)
    (hreads : Reads (matchesText query level) k [fit maxLogScan r] text taken k' rest)
    (hdecided : matchesText query level (k ++ fit maxLogScan r) = false →
      logLevelMatches (k ++ fit maxLogScan r) level = false) :
    ∃ k' lines', At cs (offset + size taken) k' lines' ∧
      Follows query level k text k' (r :: ls) lines' := by
  obtain ⟨tail, htail⟩ := fit_isPrefix maxLogScan r
  have hpiece := fit_scan_ne_nil hlong
  have hpieceSize := size_fit_le maxLogScan r
  have htailNe : tail ≠ [] := by
    rintro rfl
    rw [List.append_nil] at htail
    exact hlong htail
  rcases hreads.of_part hpiece with ⟨rfl, rfl⟩ | ⟨hmatch, rfl, hsome, back, hback⟩ | ⟨hno, rfl, rfl⟩
  · exact ⟨k, r :: ls, hat, Or.inl ⟨hbegun, rfl⟩⟩
  · have hr : r = text ++ (back ++ tail) := by rw [← List.append_assoc, ← hback, htail]
    have hrest : back ++ tail ≠ [] := List.append_ne_nil_of_right_ne_nil back htailNe
    have hk : k ++ text ≠ [] := List.append_ne_nil_of_right_ne_nil k hsome
    have hline : k ++ text ++ (back ++ tail) = k ++ r := by rw [hr, List.append_assoc]
    have hfront : k ++ fit maxLogScan r <+: k ++ r :=
      (List.prefix_append_right_inj k).mpr (fit_isPrefix maxLogScan r)
    have hall : matchesText query level (k ++ r) = true := matchesText_of_isPrefix hfront hmatch
    have hnotLate : k = [] → late level r = false := by
      rintro rfl
      rw [List.nil_append, matchesText, Bool.and_eq_true] at hmatch
      rw [late, hmatch.1, Bool.not_true, Bool.and_false]
    refine ⟨k ++ text, (back ++ tail) :: ls, ?_, Or.inl ⟨?_, ?_⟩⟩
    · rw [hr] at hat
      exact hat.inside hrest
    · refine Or.inr (Or.inl ⟨k ++ fit maxLogScan r, by rw [hline]; exact hfront, hmatch, ?_⟩)
      rw [size_append, size_append]
      omega
    · rw [remaining, if_neg hk, hline, if_pos hall, remaining, ← List.append_assoc, ← hr]
      congr 1
      split_ifs with hnil
      · rw [hnil, List.nil_append] at hall
        rw [shown, if_pos hall, hnotLate hnil, if_neg Bool.false_ne_true]
      · rfl
  · have hlevel := hdecided hno
    have hline : k ++ fit maxLogScan r ++ tail = k ++ r := by rw [List.append_assoc, htail]
    have hpos : At cs (offset + size (fit maxLogScan r)) (k ++ fit maxLogScan r) (tail :: ls) := by
      rw [← htail] at hat
      exact htail ▸ hat.inside htailNe
    refine ⟨k ++ fit maxLogScan r, tail :: ls, hpos, ?_⟩
    rcases hbegun with rfl | ⟨q, hq, hmatch, hsize⟩ | ⟨hfit, -⟩
    · refine Or.inl ⟨Or.inr (Or.inr ⟨?_, hlevel⟩), ?_⟩
      · rw [hline]
        rfl
      · have hlate : late level r = true := by
          rw [late, decide_eq_true hlong, ← List.nil_append (fit maxLogScan r), hlevel]
          rfl
        have hdrop : (fit maxLogScan r ++ tail).drop (fit maxLogScan r).length = tail :=
          List.drop_left
        rw [htail] at hdrop
        rw [List.nil_append, List.nil_append, remaining, if_neg hpiece, htail, remaining,
          if_pos rfl, shown, hlate, if_pos rfl, hdrop]
    · have hprefix : q <+: k ++ fit maxLogScan r := by
        rw [← fit_append]
        exact prefix_fit hq hsize
      rw [matchesText_of_isPrefix hprefix hmatch] at hno
      cases hno
    · have hr : r ≠ [] := fun hnil => hpiece (by rw [hnil]; rfl)
      have hother : fit maxLogScan (k ++ r) ≠ k ++ r := by
        rw [hfit]
        exact fun heq => hr (List.append_cancel_left (heq.symm.trans (List.append_nil k).symm))
      have hfirst := lt_size_fit hother
      have hsecond := lt_size_fit hlong
      rw [hfit] at hfirst
      refine Or.inr ⟨⟨_, hno⟩, List.cons_ne_nil _ _, ?_⟩
      have hscan : maxLogScan = 260096 := rfl
      have hback : maxLogLookbehind = 262144 := rfl
      rw [size_append]
      omega

theorem page_follows {cs k text taken k' : List Char} {lines seen rest : List (List Char)}
    {offset : Nat} {unfinished : Bool} (hat : At cs offset k lines)
    (hbegun : Begun query level k lines) (hwindow : Window lines seen unfinished)
    (hreads : Reads (matchesText query level) k seen text taken k' rest)
    (hdecided : unfinished = true → matchesText query level (k ++ seen.flatten) = false →
      logLevelMatches (k ++ seen.flatten) level = false) :
    ∃ k' lines', At cs (offset + size taken) k' lines' ∧
      Follows query level k text k' lines lines' := by
  cases hwindow with
  | @whole _ more hlines hshort =>
    subst hlines
    exact ⟨k', rest ++ more, hreads.at hat,
      Or.inl ⟨hreads.begun hshort hbegun, hreads.remaining_eq hshort⟩⟩
  | @unfinished r ls hlines hlong =>
    subst hlines
    rw [List.flatten_singleton] at hdecided
    exact unfinished_follows hat hbegun hlong hreads (hdecided rfl)

end

section
variable {generation : String} {cs k : List Char} {lines : List (List Char)} {r : Reading}
  {page : LogPage}

theorem matchesText_of_not_filtering (h : r.filtering = false) (text : List Char) :
    matchesText r.query r.level text = true := by
  rw [Reading.filtering, Bool.or_eq_false_iff, bne_eq_false_iff_eq] at h
  have hquery : contains text r.query.toList = true := by
    rw [h.1]
    exact decide_eq_true List.nil_infix
  have hlevel : logLevelMatches text r.level = true := by
    rw [logLevelMatches]
    rcases Bool.and_eq_false_iff.mp h.2 with hnone | hall
    · rw [bne_eq_false_iff_eq] at hnone
      simp [hnone]
    · rw [bne_eq_false_iff_eq] at hall
      simp [hall]
  rw [matchesText, hlevel, hquery]
  rfl

/-- A page that can be decided says whether the level matches. -/
theorem level_of_decided {bytes linePrefix : Bytes} {moreOnDisk : Bool}
    (h : undecided r bytes linePrefix moreOnDisk = false)
    (hunfinished : (moreOnDisk && decide (newline ∉ bytes)) = true)
    (hno : matchesText r.query r.level (lossy (linePrefix ++ bytes)) = false) :
    logLevelMatches (lossy (linePrefix ++ bytes)) r.level = false := by
  rw [undecided, hunfinished, Bool.true_and] at h
  rw [matchesText] at hno
  cases hlevel : logLevelMatches (lossy (linePrefix ++ bytes)) r.level with
  | false => rfl
  | true =>
    rw [hlevel, Bool.true_and] at hno
    simp only [hlevel, hno, Bool.not_false, Bool.and_true, bne_eq_false_iff_eq] at h
    rw [h] at hno
    have hempty : contains (lossy (linePrefix ++ bytes)) "".toList = true :=
      decide_eq_true List.nil_infix
    rw [hempty] at hno
    cases hno

/-- No byte in front of a character belongs to the one before. -/
theorem alignStart_encode (after : List Char) (n offset : Nat) :
    alignStart ((encode after).take n) offset false =
      .ok ((encode after).take n, offset) := by
  have hnone : (((encode after).take n).take 3).takeWhile isContinuation = [] := by
    cases after with
    | nil => simp
    | cons c cs =>
      obtain ⟨b, t, hc, hlead, -⟩ := encodeChar_shape c
      have hfirst : isContinuation b = false := by
        rw [isContinuation, decide_eq_false]
        rcases c.utf8Size_eq with hw | hw | hw | hw <;> rw [hw] at hlead <;>
          simp only [IsLead] at hlead <;> omega
      rw [encode_cons, hc, List.cons_append]
      cases n with
      | zero => rfl
      | succ n =>
        rw [List.take_succ_cons, List.take_succ_cons, List.takeWhile_cons_of_neg]
        rw [hfirst]
        exact Bool.false_ne_true
  rw [alignStart]
  by_cases hzero : offset = 0
  · rw [if_pos hzero]
  · rw [if_neg hzero]
    dsimp only
    rw [hnone, List.length_nil, drain_ok (Nat.zero_le _), ok_bind]
    rfl

/-- The bytes of a page are whole characters. -/
theorem readPage_encode (htail : r.tail = false) (hat : At cs r.offset k lines) :
    ∃ seen unfinished moreOnDisk, Window lines seen unfinished ∧
      splitInclusive '\n' seen.flatten = seen ∧ (lines ≠ [] → seen.flatten ≠ []) ∧
      (moreOnDisk && decide (newline ∉ encode seen.flatten)) = unfinished ∧
      readPage generation (encode cs) r =
        finishPage generation (encode cs) r (encode seen.flatten) r.offset moreOnDisk := by
  obtain ⟨before, ls, hcs, hoffset, -, hlines⟩ := hat
  obtain ⟨seen, unfinished, hwindow, hseen, hsome, hcut, hunfinished⟩ :=
    window_lines lines.flatten
  rw [hlines] at hwindow
  refine ⟨seen, unfinished, _, hwindow, hseen, fun hne => hsome fun hnil => hne ?_, hunfinished, ?_⟩
  · rw [← hlines, hnil]
    rfl
  have hstart : r.start (encode cs) = size before := by
    rw [Reading.start, htail, hoffset]
    rfl
  have hlen : (encode cs).length = size before + size lines.flatten := by
    rw [length_encode, hcs, size_append]
  have hdrop : (encode cs).drop (size before) = encode lines.flatten := by
    rw [hcs, encode_append, ← length_encode, List.drop_left]
  have hread : readAt (encode cs) (size before)
      (min ((encode cs).length - size before) maxLogScan) =
        (encode lines.flatten).take maxLogScan := by
    rw [readAt, hdrop, hlen, Nat.add_sub_cancel_left]
    rcases Nat.le_total (size lines.flatten) maxLogScan with hle | hle
    · rw [Nat.min_eq_left hle, List.take_of_length_le (by rw [length_encode]),
        List.take_of_length_le (by rw [length_encode]; exact hle)]
    · rw [Nat.min_eq_right hle]
  have hfragment : tailFragment (encode cs) r = .ok false := by
    rw [tailFragment, if_neg]
    rw [htail]
    exact fun h => Bool.false_ne_true h.1
  have hmore : decide (size before + ((encode lines.flatten).take maxLogScan).length <
      (encode cs).length) = decide (maxLogScan < size lines.flatten) := by
    rw [decide_eq_decide, hlen, List.length_take, length_encode]
    omega
  rw [readPage]
  dsimp only
  rw [hstart, if_neg (by omega), hfragment, ok_bind, sub_ok (by omega), ok_bind, hread,
    alignStart_encode, ok_bind]
  dsimp only
  rw [hmore, hcut, ok_bind, hoffset]

/-- With a filter a page knows all of the first line in front of it, or it fails. -/
theorem pageLinePrefix_at (hat : At cs r.offset k lines) (hlines : lines ≠ [])
    (hfiltering : r.filtering = true) {bytes linePrefix : Bytes} (hbytes : bytes ≠ [])
    (h : pageLinePrefix (encode cs) bytes r.offset r = .ok linePrefix) :
    linePrefix = encode k ∧ size k ≤ maxLogLookbehind := by
  obtain ⟨before, ls, hcs, hoffset, hstores, -⟩ := hat
  have htake : (encode cs).take r.offset = encode before := by
    rw [hcs, hoffset, take_size_encode]
  have hbefore := stores_encode (hstores hlines)
  rw [← htake] at hbefore
  have hle : r.offset ≤ (encode cs).length := by
    rw [hoffset, hcs, length_encode, size_append]
    exact Nat.le_add_right _ _
  rw [pageLinePrefix, if_pos ⟨hfiltering, hbytes⟩] at h
  rcases readLogLinePrefix_spec hle hbefore with ⟨hfound, hsize⟩ | ⟨⟨e, hfound⟩, -⟩
  · rw [hfound] at h
    rw [length_encode] at hsize
    exact ⟨(Except.ok.inj h).symm, hsize⟩
  · rw [hfound] at h
    cases h

/-- Nothing is read behind the end. -/
theorem finishPage_nil {file : Bytes} {offset : Nat} {moreOnDisk : Bool}
    (h : finishPage generation file r [] offset moreOnDisk = .ok page) :
    page.text = [] ∧ page.nextOffset = offset ∧
      page.eof = decide (file.length ≤ page.nextOffset) := by
  rw [finishPage] at h
  obtain ⟨linePrefix, -, h⟩ := bind_eq_ok_iff.mp h
  split_ifs at h
  · cases h
  · have hrun : filterLogPage [] linePrefix r.query r.level r.limit = .ok ([], 0, false) := rfl
    rw [hrun, ok_bind] at h
    dsimp only at h
    obtain ⟨_, -, h⟩ := bind_eq_ok_iff.mp h
    obtain rfl := Except.ok.inj h
    exact ⟨rfl, rfl, rfl⟩

/-- What a page that does not fail has read. -/
theorem finishPage_reads (hlimit : 4 ≤ r.limit) (hat : At cs r.offset k lines) (hlines : lines ≠ [])
    {seen : List (List Char)} (hseen : splitInclusive '\n' seen.flatten = seen)
    (hsome : seen.flatten ≠ []) {moreOnDisk : Bool}
    (h : finishPage generation (encode cs) r (encode seen.flatten) r.offset moreOnDisk = .ok page) :
    ∃ taken k' rest, Reads (matchesText r.query r.level) k seen page.text taken k' rest ∧
      page.nextOffset = r.offset + size taken ∧
      page.eof = decide (size cs ≤ page.nextOffset) ∧
      (r.filtering = true → size k ≤ maxLogLookbehind) ∧
      ((moreOnDisk && decide (newline ∉ encode seen.flatten)) = true →
        matchesText r.query r.level (k ++ seen.flatten) = false →
        logLevelMatches (k ++ seen.flatten) r.level = false) := by
  rw [finishPage] at h
  obtain ⟨linePrefix, hprefix, h⟩ := bind_eq_ok_iff.mp h
  split_ifs at h with hundecided
  · cases h
  rw [Bool.not_eq_true] at hundecided
  have hread : ∀ {front : List Char}, linePrefix = encode front →
      ∃ taken k' rest, Reads (matchesText r.query r.level) front seen page.text taken k' rest ∧
        page.nextOffset = r.offset + size taken ∧
        page.eof = decide (size cs ≤ page.nextOffset) := by
    rintro front rfl
    obtain ⟨text, taken, k', rest, cut, hreads, hrun⟩ :=
      @filterLogPage_reads r.query r.level r.limit hlimit seen hseen front
    rw [hrun, ok_bind] at h
    dsimp only at h
    obtain ⟨_, -, h⟩ := bind_eq_ok_iff.mp h
    obtain rfl := Except.ok.inj h
    refine ⟨taken, k', rest, hreads, rfl, ?_⟩
    dsimp only
    rw [length_encode]
  cases hfiltering : r.filtering with
  | true =>
    have hbytes : encode seen.flatten ≠ [] := by
      intro hnil
      have hpos := size_pos hsome
      rw [← length_encode, hnil] at hpos
      exact absurd hpos (by decide)
    obtain ⟨hfront, hsize⟩ := pageLinePrefix_at hat hlines hfiltering hbytes hprefix
    obtain ⟨taken, k', rest, hreads, hnext, heof⟩ := hread hfront
    refine ⟨taken, k', rest, hreads, hnext, heof, fun _ => hsize, fun hmore hno => ?_⟩
    rw [hfront] at hundecided
    rw [← lossy_line] at hno ⊢
    exact level_of_decided hundecided hmore hno
  | false =>
    have hall := matchesText_of_not_filtering hfiltering
    have hfront : linePrefix = encode [] := by
      have hnot : ¬ (r.filtering = true ∧ encode seen.flatten ≠ []) := by
        rw [hfiltering]
        exact fun hc => Bool.false_ne_true hc.1
      rw [pageLinePrefix, if_neg hnot] at hprefix
      exact (Except.ok.inj hprefix).symm
    obtain ⟨taken, k', rest, hreads, hnext, heof⟩ := hread hfront
    obtain ⟨k'', hreads⟩ := hreads.front hall k
    refine ⟨taken, k'', rest, hreads, hnext, heof, fun hc => ?_, fun _ hno => ?_⟩
    · cases hc
    · rw [hall] at hno
      cases hno

theorem at_end_iff (hat : At cs page.nextOffset k lines)
    (heof : page.eof = decide (size cs ≤ page.nextOffset)) : page.eof = true ↔ lines = [] := by
  obtain ⟨before, ls, hcs, hoffset, -, hlines⟩ := hat
  rw [heof, decide_eq_true_eq, hoffset, hcs, size_append]
  constructor
  · intro hle
    rw [← hlines, splitInclusive_eq_nil]
    by_contra hne
    have := size_pos hne
    omega
  · rintro rfl
    exact Nat.le_refl _

/-- What a page reads in front of the end of the file. -/
theorem readPage_reads (htail : r.tail = false) (hlimit : 4 ≤ r.limit)
    (hat : At cs r.offset k lines) (hlines : lines ≠ [])
    (h : readPage generation (encode cs) r = .ok page) :
    ∃ seen unfinished taken k' rest, Window lines seen unfinished ∧
      Reads (matchesText r.query r.level) k seen page.text taken k' rest ∧
      page.nextOffset = r.offset + size taken ∧
      page.eof = decide (size cs ≤ page.nextOffset) ∧
      (r.filtering = true → size k ≤ maxLogLookbehind) ∧
      (unfinished = true → matchesText r.query r.level (k ++ seen.flatten) = false →
        logLevelMatches (k ++ seen.flatten) r.level = false) := by
  obtain ⟨seen, unfinished, moreOnDisk, hwindow, hseen, hsome, hunfinished, heq⟩ :=
    @readPage_encode generation cs k lines r htail hat
  rw [heq] at h
  obtain ⟨taken, k', rest, hreads, hnext, heof, hsize, hdecided⟩ :=
    finishPage_reads hlimit hat hlines hseen (hsome hlines) h
  rw [hunfinished] at hdecided
  exact ⟨seen, unfinished, taken, k', rest, hwindow, hreads, hnext, heof, hsize, hdecided⟩

/-- Where too much has been skipped, there is no page. -/
theorem not_lost_of_page (htail : r.tail = false) (hlimit : 4 ≤ r.limit)
    (hat : At cs r.offset k lines) (h : readPage generation (encode cs) r = .ok page) :
    ¬ Lost r.query r.level k lines := by
  rintro ⟨⟨text, hno⟩, hlines, hlong⟩
  obtain ⟨_, _, _, _, _, -, -, -, -, hsize, -⟩ := readPage_reads htail hlimit hat hlines h
  cases hfiltering : r.filtering with
  | true => exact absurd (hsize hfiltering) (Nat.not_le.mpr hlong)
  | false =>
    rw [matchesText_of_not_filtering hfiltering] at hno
    cases hno

theorem readPage_follows (htail : r.tail = false) (hlimit : 4 ≤ r.limit)
    (hat : At cs r.offset k lines) (hbegun : Begun r.query r.level k lines)
    (h : readPage generation (encode cs) r = .ok page) :
    ∃ k' lines', At cs page.nextOffset k' lines' ∧ (page.eof = true ↔ lines' = []) ∧
      Follows r.query r.level k page.text k' lines lines' := by
  by_cases hlines : lines = []
  · subst hlines
    obtain ⟨seen, _, _, hwindow, -, -, -, heq⟩ :=
      @readPage_encode generation cs k [] r htail hat
    have hnil : seen = [] := by
      cases hwindow with
      | whole hsplit _ => exact (List.nil_eq_append_iff.mp hsplit).1
      | unfinished hsplit _ => cases hsplit
    rw [heq, hnil] at h
    obtain ⟨htext, hnext, heof⟩ := finishPage_nil h
    rw [← hnext] at hat
    rw [length_encode] at heof
    refine ⟨k, [], hat, at_end_iff hat heof, Or.inl ⟨hbegun, ?_⟩⟩
    rw [htext]
    rfl
  · obtain ⟨seen, unfinished, taken, _, _, hwindow, hreads, hnext, heof, -, hdecided⟩ :=
      readPage_reads htail hlimit hat hlines h
    obtain ⟨k', lines', hat', hfollows⟩ := page_follows hat hbegun hwindow hreads hdecided
    rw [← hnext] at hat'
    exact ⟨k', lines', hat', at_end_iff hat' heof, hfollows⟩

end

/-! ## Chains -/

theorem checkRequest_ok {generation : String} {request : LogRequest} {r : Reading}
    (h : checkRequest generation request = .ok r) :
    r = ⟨request.offset.getD 0, request.limit.getD maxLogText, request.queryText,
      request.levelText, request.tail⟩ ∧ 4 ≤ r.limit := by
  rw [checkRequest] at h
  split_ifs at h with hlimit
  · cases h
  · obtain rfl := Except.ok.inj h
    exact ⟨rfl, hlimit.1⟩
  · cases h
  · cases h

/-- The texts of pages from `offset` on, each from where the one before ended, up to the end of the
file. -/
inductive Chain (generation : String) (file : Bytes) (request : LogRequest) :
    Nat → List (List Char) → Prop
  | last {offset page} :
      readLog generation file { request with offset := some offset } = .ok page →
      page.eof = true → Chain generation file request offset [page.text]
  | more {offset page texts} :
      readLog generation file { request with offset := some offset } = .ok page →
      page.eof = false → Chain generation file request page.nextOffset texts →
      Chain generation file request offset (page.text :: texts)

section
variable {generation : String} {file : Bytes} {request : LogRequest} {cs k : List Char}
  {lines : List (List Char)} {offset : Nat} {texts : List (List Char)} {page : LogPage}

theorem readLog_ok (h : readLog generation file { request with offset := some offset } = .ok page) :
    ∃ r : Reading, r.offset = offset ∧ r.query = request.queryText ∧
      r.level = request.levelText ∧ r.tail = request.tail ∧ 4 ≤ r.limit ∧
      readPage generation file r = .ok page := by
  obtain ⟨r, hr, hpage⟩ := bind_eq_ok_iff.mp h
  obtain ⟨heq, hlimit⟩ := checkRequest_ok hr
  refine ⟨r, ?_, ?_, ?_, ?_, hlimit, hpage⟩
  all_goals rw [heq]
  all_goals rfl

theorem Chain.first (h : Chain generation file request offset texts) :
    ∃ page, readLog generation file { request with offset := some offset } = .ok page := by
  cases h with
  | last hpage _ => exact ⟨_, hpage⟩
  | more hpage _ _ => exact ⟨_, hpage⟩

theorem Chain.not_lost (htail : request.tail = false)
    (h : Chain generation (encode cs) request offset texts) (hat : At cs offset k lines) :
    ¬ Lost request.queryText request.levelText k lines := by
  obtain ⟨page, hpage⟩ := h.first
  obtain ⟨r, rfl, hquery, hlevel, hkind, hlimit, hread⟩ := readLog_ok hpage
  rw [← hquery, ← hlevel]
  exact not_lost_of_page (hkind.trans htail) hlimit hat hread

/-- A chain shows what was to be shown where it began. -/
theorem Chain.flatten_eq (htail : request.tail = false)
    (h : Chain generation (encode cs) request offset texts) (hat : At cs offset k lines)
    (hbegun : Begun request.queryText request.levelText k lines) :
    texts.flatten = remaining request.queryText request.levelText k lines := by
  induction h generalizing k lines with
  | last hpage hend =>
    obtain ⟨r, rfl, hquery, hlevel, hkind, hlimit, hread⟩ := readLog_ok hpage
    rw [← hquery, ← hlevel] at hbegun ⊢
    obtain ⟨k', lines', -, heof, hfollows⟩ :=
      readPage_follows (hkind.trans htail) hlimit hat hbegun hread
    rcases hfollows with ⟨-, hshown⟩ | hlost
    · rw [heof.mp hend] at hshown
      rw [← hshown]
      rfl
    · exact absurd (heof.mp hend) hlost.2.1
  | more hpage _ hrest ih =>
    obtain ⟨r, rfl, hquery, hlevel, hkind, hlimit, hread⟩ := readLog_ok hpage
    have hnotLost := fun k' lines' => @Chain.not_lost _ _ _ k' lines' _ _ htail hrest
    rw [← hquery, ← hlevel] at hbegun hnotLost ih ⊢
    obtain ⟨k', lines', hat', -, hfollows⟩ :=
      readPage_follows (hkind.trans htail) hlimit hat hbegun hread
    rcases hfollows with ⟨hbegun', hshown⟩ | hlost
    · rw [List.flatten_cons, ih hat' hbegun', hshown]
    · exact absurd hlost (hnotLost k' lines' hat')

end

/-! ## Matching lines -/

def matchingLines (query level : String) (cs : List Char) : List Char :=
  ((splitInclusive '\n' cs).filter fun l => matchesText query level l).flatten

theorem length_shown_le (query level : String) (l : List Char) :
    (shown query level l).length ≤ (if matchesText query level l then l else []).length := by
  rw [shown]
  split_ifs
  · rw [List.length_drop]
    exact Nat.sub_le _ _
  · exact Nat.le_refl _
  · exact Nat.le_refl _

theorem length_flatMap_shown_le (query level : String) (lines : List (List Char)) :
    (lines.flatMap (shown query level)).length ≤
      (lines.filter fun l => matchesText query level l).flatten.length := by
  induction lines with
  | nil => exact Nat.le_refl 0
  | cons l lines ih =>
    have hline := length_shown_le query level l
    rw [List.flatMap_cons, List.length_append, List.filter_cons]
    split_ifs at hline ⊢
    · rw [List.flatten_cons, List.length_append]
      omega
    · rw [List.length_nil] at hline
      omega

/-- All matching lines are shown in full just if the level of none of them is late. -/
theorem flatMap_shown_eq_iff (query level : String) (lines : List (List Char)) :
    lines.flatMap (shown query level) = (lines.filter fun l => matchesText query level l).flatten ↔
      ∀ l ∈ lines, matchesText query level l = true → late level l = false := by
  induction lines with
  | nil => simp
  | cons l lines ih =>
    have hrest := length_flatMap_shown_le query level lines
    rw [List.flatMap_cons, List.filter_cons, List.forall_mem_cons]
    by_cases hmatch : matchesText query level l = true
    · rw [if_pos hmatch, List.flatten_cons, shown, if_pos hmatch]
      cases hlate : late level l with
      | false =>
        rw [if_neg Bool.false_ne_true, List.append_cancel_left_eq, ih]
        exact ⟨fun h => ⟨fun _ => rfl, h⟩, fun h => h.2⟩
      | true =>
        rw [if_pos rfl]
        refine ⟨fun heq => ?_, fun h => absurd (h.1 hmatch) (by decide)⟩
        rw [late, Bool.and_eq_true, decide_eq_true_eq] at hlate
        have hpos := List.length_pos_iff.mpr (fit_scan_ne_nil hlate.1)
        have hle := (fit_isPrefix maxLogScan l).length_le
        have hlen := congrArg List.length heq
        rw [List.length_append, List.length_append, List.length_drop] at hlen
        omega
    · rw [if_neg hmatch, shown, if_neg hmatch, List.nil_append, ih]
      exact ⟨fun h => ⟨fun hyes => absurd hyes hmatch, h⟩, fun h => h.2⟩

section
variable {generation : String} {file : Bytes} {request : LogRequest}

theorem checkRequest_ne_panics : checkRequest generation request ≠ .error .panics := by
  rw [checkRequest]
  split_ifs <;> exact nofun

/-- No request panics, and a page is short enough and gets on. -/
theorem readLog_good (generation : String) (file : Bytes) (request : LogRequest) :
    readLog generation file request ≠ .error .panics ∧
      ∀ page, readLog generation file request = .ok page →
        size page.text ≤ request.limit.getD maxLogText ∧
        page.eof = decide (file.length ≤ page.nextOffset) ∧
        (request.tail = false → page.eof = true ∨ request.offset.getD 0 < page.nextOffset) := by
  rw [readLog]
  cases hcheck : checkRequest generation request with
  | error e =>
    refine ⟨fun h => ?_, fun page h => by cases h⟩
    have hpanics : (.error e : Outcome LogPage) = .error .panics := h
    exact checkRequest_ne_panics (hcheck.trans (congrArg Except.error (Except.error.inj hpanics)))
  | ok r =>
    obtain ⟨heq, hlimit⟩ := checkRequest_ok hcheck
    have hends := @readPage_ends generation file r hlimit
    rw [ok_bind]
    cases hread : readPage generation file r with
    | error e =>
      rw [hread] at hends
      refine ⟨fun h => hends.1 (Except.error.inj h), fun page h => by cases h⟩
    | ok page =>
      rw [hread] at hends
      refine ⟨nofun, fun page' h => ?_⟩
      obtain rfl := Except.ok.inj h
      have hgood : GoodPage file r page := hends
      rw [heq] at hgood
      exact ⟨hgood.text, hgood.eof, hgood.progress⟩

/-- A request for pages without a filter. -/
structure Unfiltered (generation : String) (request : LogRequest) : Prop where
  tail : request.tail = false
  least : 4 ≤ request.limit.getD maxLogText
  most : request.limit.getD maxLogText ≤ maxLogText
  generation : request.generation.getD generation = generation
  query : request.queryText = ""
  level : request.levelText = "" ∨ request.levelText = "ALL"

theorem checkRequest_of
    (hlimit : 4 ≤ request.limit.getD maxLogText ∧ request.limit.getD maxLogText ≤ maxLogText)
    (hquery : request.queryText.utf8ByteSize ≤ 4096)
    (hlevel : request.levelText ∈ ["", "ALL", "ERROR", "WARN", "INFO", "DEBUG", "TRACE"])
    (hgeneration : request.generation.getD generation = generation) (offset : Nat) :
    checkRequest generation { request with offset := some offset } =
      .ok ⟨offset, request.limit.getD maxLogText, request.queryText, request.levelText,
        request.tail⟩ := by
  have hany : ¬ request.generation.any (· ≠ generation) = true := by
    cases hwanted : request.generation with
    | none => exact Bool.false_ne_true
    | some wanted =>
      rw [hwanted] at hgeneration
      exact fun h => (decide_eq_true_eq.mp h) hgeneration
  rw [checkRequest]
  change (if ¬ (4 ≤ request.limit.getD maxLogText ∧ request.limit.getD maxLogText ≤ maxLogText)
    then _ else _) = _
  rw [if_neg (not_not.mpr hlimit)]
  change (if 4096 < request.queryText.utf8ByteSize then _ else _) = _
  rw [if_neg (Nat.not_lt.mpr hquery)]
  change (if request.levelText ∉ ["", "ALL", "ERROR", "WARN", "INFO", "DEBUG", "TRACE"]
    then _ else _) = _
  rw [if_neg (not_not.mpr hlevel)]
  change (if request.generation.any (· ≠ generation) = true then _ else _) = _
  rw [if_neg hany]
  rfl

theorem Unfiltered.check (h : Unfiltered generation request) (offset : Nat) :
    checkRequest generation { request with offset := some offset } =
      .ok ⟨offset, request.limit.getD maxLogText, "", request.levelText, false⟩ := by
  have hlevel : request.levelText ∈ ["", "ALL", "ERROR", "WARN", "INFO", "DEBUG", "TRACE"] := by
    rcases h.level with hlevel | hlevel <;> simp [hlevel]
  have hquery : request.queryText.utf8ByteSize ≤ 4096 := by
    rw [h.query]
    decide
  rw [checkRequest_of ⟨h.least, h.most⟩ hquery hlevel h.generation, h.query, h.tail]

/-- Pages without a filter come to the end of every file. -/
theorem Unfiltered.exists_chain (h : Unfiltered generation request) (file : Bytes) {offset : Nat}
    (hoffset : offset ≤ file.length) : ∃ texts, Chain generation file request offset texts := by
  obtain ⟨left, hleft⟩ := Nat.exists_eq_add_of_le hoffset
  induction left using Nat.strong_induction_on generalizing offset with
  | _ left ih =>
    obtain ⟨r, hr⟩ : ∃ r : Reading,
        r = ⟨offset, request.limit.getD maxLogText, "", request.levelText, false⟩ := ⟨_, rfl⟩
    have hcheck := h.check offset
    rw [← hr] at hcheck
    have hends := @readPage_ends generation file r (by rw [hr]; exact h.least)
    cases hread : readPage generation file r with
    | error e =>
      rw [hread] at hends
      have hfiltering : r.filtering = false := by
        rw [hr, Reading.filtering]
        rcases h.level with hlevel | hlevel <;> rw [hlevel] <;> rfl
      rcases hends.2 with hbehind | ⟨hfilter, -⟩
      · rw [hr] at hbehind
        exact absurd hbehind (Nat.not_lt.mpr hoffset)
      · rw [hfiltering] at hfilter
        cases hfilter
    | ok page =>
      have hgood : GoodPage file r page := by
        rw [hread] at hends
        exact hends
      have hpage : readLog generation file { request with offset := some offset } = .ok page := by
        rw [readLog, hcheck, ok_bind, hread]
      cases hend : page.eof with
      | true => exact ⟨_, .last hpage hend⟩
      | false =>
        have hnext : offset < page.nextOffset := by
          have hprogress := hgood.progress (by rw [hr])
          rw [hend, hr] at hprogress
          exact hprogress.resolve_left Bool.false_ne_true
        have hbound := hgood.bound
        obtain ⟨texts, htexts⟩ := ih (file.length - page.nextOffset) (by omega) hbound (by omega)
        exact ⟨_, .more hpage hend htexts⟩

theorem Unfiltered.matchesText (h : Unfiltered generation request) (text : List Char) :
    matchesText request.queryText request.levelText text = true ∧
      logLevelMatches text request.levelText = true := by
  have hlevel : logLevelMatches text request.levelText = true := by
    rw [logLevelMatches]
    rcases h.level with hlevel | hlevel <;> simp [hlevel]
  rw [Logs.matchesText, hlevel, h.query]
  exact ⟨decide_eq_true List.nil_infix, rfl⟩

theorem Unfiltered.matchingLines (h : Unfiltered generation request) (cs : List Char) :
    matchingLines request.queryText request.levelText cs = cs := by
  have hall : ∀ l ∈ splitInclusive '\n' cs,
      Logs.matchesText request.queryText request.levelText l = true :=
    fun l _ => (h.matchesText l).1
  rw [Logs.matchingLines, List.filter_eq_self.mpr hall, flatten_splitInclusive]

end

/-- A chain shows the matching lines in full just if no level among them stands behind the part of
the line that one page can hold. -/
theorem chain_flatten_iff {generation : String} {cs : List Char} {request : LogRequest}
    {texts : List (List Char)} (htail : request.tail = false)
    (h : Chain generation (encode cs) request 0 texts) :
    texts.flatten = matchingLines request.queryText request.levelText cs ↔
      ∀ l ∈ splitInclusive '\n' cs, matchesText request.queryText request.levelText l = true →
        late request.levelText l = false := by
  rw [h.flatten_eq htail (at_start cs) (begun_nil _ _ _), remaining_nil]
  exact flatMap_shown_eq_iff _ _ _

/-- No page panics; every page gets on and keeps its limit; without a filter the pages are the
file; with one they are the matching lines, except for those whose level is late. -/
theorem log_paging (generation : String) :
    (∀ file request, readLog generation file request ≠ .error .panics ∧
      ∀ page, readLog generation file request = .ok page →
        size page.text ≤ request.limit.getD maxLogText ∧
        page.eof = decide (file.length ≤ page.nextOffset) ∧
        (request.tail = false → page.eof = true ∨ request.offset.getD 0 < page.nextOffset)) ∧
    (∀ file cs request, fromUtf8 file = some cs → Unfiltered generation request →
      (∃ texts, Chain generation file request 0 texts) ∧
      ∀ texts, Chain generation file request 0 texts → texts.flatten = cs) ∧
    ∀ file cs request texts, fromUtf8 file = some cs → request.tail = false →
      Chain generation file request 0 texts →
      (texts.flatten = matchingLines request.queryText request.levelText cs ↔
        ∀ l ∈ splitInclusive '\n' cs, matchesText request.queryText request.levelText l = true →
          late request.levelText l = false) := by
  refine ⟨readLog_good generation, ?_, ?_⟩
  · intro file cs request hfile h
    refine ⟨h.exists_chain file (Nat.zero_le _), fun texts htexts => ?_⟩
    obtain rfl := encode_fromUtf8 hfile
    have hshown := (chain_flatten_iff h.tail htexts).mpr fun l _ _ => by
      rw [late, (h.matchesText _).2, Bool.not_true, Bool.and_false]
    rw [hshown, h.matchingLines]
  · intro file cs request texts hfile htail h
    obtain rfl := encode_fromUtf8 hfile
    exact chain_flatten_iff htail h

def sampleLines : List Char := "a [WARN] b\nc [INFO] d\ne [WARN] f\n".toList

def sampleRequest (level : Option String) : LogRequest := ⟨none, none, some 12, none, level, false⟩

theorem log_paging_sample :
    (∃ texts, Chain "g" (encode sampleLines) (sampleRequest none) 0 texts ∧
      texts.flatten = sampleLines) ∧
    ∃ texts, Chain "g" (encode sampleLines) (sampleRequest (some "WARN")) 0 texts ∧
      texts.flatten = "a [WARN] b\ne [WARN] f\n".toList := by
  have hfile := fromUtf8_encode sampleLines
  have hall : Unfiltered "g" (sampleRequest none) :=
    ⟨rfl, by decide, by decide, rfl, by decide, Or.inl (by decide)⟩
  constructor
  · obtain ⟨⟨texts, htexts⟩, hfull⟩ := (log_paging "g").2.1 _ _ _ hfile hall
    exact ⟨texts, htexts, hfull texts htexts⟩
  · have hfirst : readLog "g" (encode sampleLines)
        { sampleRequest (some "WARN") with offset := some 0 } =
          .ok ⟨"g", 0, 22, 33, false, true, "a [WARN] b\n".toList⟩ := by
      decide +kernel
    have hsecond : readLog "g" (encode sampleLines)
        { sampleRequest (some "WARN") with offset := some 22 } =
          .ok ⟨"g", 22, 33, 33, true, false, "e [WARN] f\n".toList⟩ := by
      decide +kernel
    have hchain := Chain.more hfirst rfl (Chain.last hsecond rfl)
    refine ⟨_, hchain, ?_⟩
    rw [((log_paging "g").2.2 _ _ _ _ hfile rfl hchain).mpr (by decide +kernel)]
    decide +kernel

/-! ## A level that is late -/

section
variable {cs k : List Char} {lines : List (List Char)} {r : Reading}

/-- Without a keyword a file that is short enough is read to its end. -/
theorem readPage_short (generation : String) (htail : r.tail = false) (hlimit : 4 ≤ r.limit)
    (hquery : r.query = "") (hshort : size cs < maxLogLookbehind)
    (hat : At cs r.offset k lines) (hlines : lines ≠ []) :
    ∃ page seen unfinished taken k' rest,
      readPage generation (encode cs) r = .ok page ∧ Window lines seen unfinished ∧
      Reads (matchesText r.query r.level) k seen page.text taken k' rest ∧ taken ≠ [] ∧
      page.nextOffset = r.offset + size taken ∧
      page.eof = decide (size cs ≤ page.nextOffset) := by
  have hends := @readPage_ends generation (encode cs) r hlimit
  have hoffset : r.offset < size cs := by
    obtain ⟨before, _, hcs, hbefore, _, hsplit⟩ := hat
    have hpos : 0 < size lines.flatten := size_pos fun hnil => hlines (by rw [← hsplit, hnil]; rfl)
    rw [hbefore, hcs, size_append]
    omega
  cases hread : readPage generation (encode cs) r with
  | error e =>
    rw [hread] at hends
    rcases hends.2 with hbehind | ⟨-, hkeyword | hlong⟩
    · rw [length_encode, Reading.start, htail] at hbehind
      exact absurd hbehind (Nat.not_lt.mpr (Nat.le_of_lt hoffset))
    · exact absurd hquery hkeyword
    · rw [length_encode] at hlong
      exact absurd hshort (Nat.not_lt.mpr hlong)
  | ok page =>
    have hgood : GoodPage (encode cs) r page := by
      rw [hread] at hends
      exact hends
    obtain ⟨seen, unfinished, taken, k', rest, hwindow, hreads, hnext, heof, -, -⟩ :=
      readPage_reads htail hlimit hat hlines hread
    refine ⟨page, seen, unfinished, taken, k', rest, rfl, hwindow, hreads, ?_, hnext, heof⟩
    rintro rfl
    rw [size_nil, Nat.add_zero] at hnext
    rcases hgood.progress htail with hend | hpast
    · rw [heof, decide_eq_true_eq] at hend
      omega
    · exact absurd hpast (by rw [hnext]; exact Nat.lt_irrefl _)

end

/-- A page that can see the one line there is reads a part of it. -/
theorem Window.cases_line {l : List Char} {seen : List (List Char)} {unfinished : Bool}
    (h : Window [l] seen unfinished) {m : List Char → Bool} {k text taken k' : List Char}
    {rest : List (List Char)} (hreads : Reads m k seen text taken k' rest) (hsome : taken ≠ []) :
    (seen = [l] ∧ size l ≤ maxLogScan) ∨ seen = [fit maxLogScan l] ∧ fit maxLogScan l ≠ l := by
  cases h with
  | @whole _ more hlines hshort =>
    cases seen with
    | nil =>
      cases hreads
      exact absurd rfl hsome
    | cons first others =>
      obtain ⟨rfl, hrest⟩ := List.cons.inj hlines
      obtain ⟨rfl, -⟩ := List.nil_eq_append_iff.mp hrest
      exact Or.inl ⟨rfl, hshort _ List.mem_cons_self⟩
  | unfinished hlines hlong =>
    obtain ⟨rfl, rfl⟩ := List.cons.inj hlines
    exact Or.inr ⟨rfl, hlong⟩

/-- A single character is read or not. -/
theorem Reads.of_char {m : List Char → Bool} {k text taken k' : List Char} {c : Char}
    {rest : List (List Char)} (h : Reads m k [[c]] text taken k' rest) (hsome : taken ≠ []) :
    taken = [c] := by
  rcases h.of_part (List.cons_ne_nil c []) with ⟨-, hnil⟩ | ⟨-, -, -, back, hback⟩ | ⟨-, -, htaken⟩
  · exact absurd hnil hsome
  · obtain ⟨d, ds, rfl⟩ := List.exists_cons_of_ne_nil hsome
    obtain ⟨rfl, hrest⟩ := List.cons.inj hback
    rw [(List.nil_eq_append_iff.mp hrest).1]
  · exact htaken

/-- Only the last character of a line is behind what one page can hold, and the level ends with it:
two pages read the file. -/
theorem exists_chain_of_late {generation level : String} {request : LogRequest} {front : List Char}
    {c : Char} (hread : ∀ offset file,
      readLog generation file { request with offset := some offset } =
        readPage generation file ⟨offset, maxLogText, "", level, false⟩)
    (hline : splitInclusive '\n' (front ++ [c]) = [front ++ [c]])
    (hfit : fit maxLogScan (front ++ [c]) = front)
    (hshort : size (front ++ [c]) < maxLogLookbehind) (hone : size [c] ≤ maxLogScan)
    (hno : matchesText "" level front = false) :
    ∃ texts, Chain generation (encode (front ++ [c])) request 0 texts := by
  have hlimit : 4 ≤ maxLogText := by decide
  have hlong : fit maxLogScan (front ++ [c]) ≠ front ++ [c] := by
    rw [hfit]
    simp
  have hpos : 0 < size [c] := size_pos (List.cons_ne_nil c [])
  have hstart := at_start (front ++ [c])
  rw [hline] at hstart
  obtain ⟨first, seen, _, taken, _, _, hfirst, hwindow, hreads, hsome, hnext, heof⟩ :=
    readPage_short (r := ⟨0, maxLogText, "", level, false⟩) generation rfl hlimit rfl hshort
      hstart (List.cons_ne_nil _ _)
  have htaken : taken = front := by
    rcases hwindow.cases_line hreads hsome with ⟨-, hsize⟩ | ⟨rfl, -⟩
    · exact absurd (fit_of_size_le hsize) hlong
    · rw [hfit] at hreads
      have hfront : front ≠ [] := by
        rw [← hfit]
        exact fit_scan_ne_nil hlong
      rcases hreads.of_part hfront with ⟨-, hnil⟩ | ⟨hyes, -⟩ | ⟨-, -, htaken⟩
      · exact absurd hnil hsome
      · rw [List.nil_append] at hyes
        exact absurd (hyes.symm.trans hno) (by decide)
      · exact htaken
  rw [htaken, Nat.zero_add] at hnext
  have hposition := hstart.inside (List.cons_ne_nil c [])
  rw [List.nil_append, Nat.zero_add] at hposition
  obtain ⟨second, seen, _, taken, _, _, hsecond, hwindow, hreads, hsome, hnext', heof'⟩ :=
    readPage_short (r := ⟨size front, maxLogText, "", level, false⟩) generation rfl hlimit rfl hshort
      hposition (List.cons_ne_nil _ _)
  have htaken' : taken = [c] := by
    rcases hwindow.cases_line hreads hsome with ⟨rfl, -⟩ | ⟨-, hfar⟩
    · exact hreads.of_char hsome
    · exact absurd (fit_of_size_le hone) hfar
  rw [htaken', ← size_append] at hnext'
  have hmore : first.eof = false := by
    rw [heof, decide_eq_false_iff_not, hnext, size_append]
    omega
  have hend : second.eof = true := by
    rw [heof', decide_eq_true_eq, hnext']
  have hlast : Chain generation (encode (front ++ [c])) request first.nextOffset [second.text] := by
    rw [hnext]
    exact .last (by rw [hread]; exact hsecond) hend
  exact ⟨_, .more (by rw [hread]; exact hfirst) hmore hlast⟩

/-- The level of the line ends one byte behind what a page can hold. -/
def lateLine : List Char := List.replicate 260090 'x' ++ [' ', '[', 'W', 'A', 'R', 'N', ']']

def lateRequest : LogRequest := ⟨none, none, none, none, some "WARN", false⟩

theorem size_replicate (n : Nat) : size (List.replicate n 'x') = n := by
  induction n with
  | zero => rfl
  | succ n ih =>
    have hone : ('x' : Char).utf8Size = 1 := rfl
    rw [List.replicate_succ, size_cons, ih, hone, Nat.add_comm]

theorem splitOnce_replicate (n : Nat) (rest : List Char) :
    splitOnce [' ', '['] (List.replicate n 'x' ++ rest) =
      (splitOnce [' ', '['] rest).map fun parts => (List.replicate n 'x' ++ parts.1, parts.2) := by
  induction n with
  | zero =>
    rw [List.replicate_zero, List.nil_append]
    cases splitOnce [' ', '['] rest <;> rfl
  | succ n ih =>
    have hno : ¬ [' ', '['] <+: 'x' :: (List.replicate n 'x' ++ rest) := by
      rintro ⟨t, ht⟩
      exact absurd (List.cons.inj ht).1 (by decide)
    rw [List.replicate_succ, List.cons_append, splitOnce, if_neg hno, ih]
    cases splitOnce [' ', '['] rest <;> rfl

theorem fit_lateLine :
    fit maxLogScan lateLine = List.replicate 260090 'x' ++ [' ', '[', 'W', 'A', 'R', 'N'] := by
  have hscan : maxLogScan = size (List.replicate 260090 'x') + 6 := by
    rw [size_replicate]
    rfl
  rw [lateLine, hscan, fit_append]
  rfl

theorem size_lateLine : size lateLine = 260097 := by
  rw [lateLine, size_append, size_replicate]
  rfl

theorem logLevelMatches_fit : logLevelMatches (fit maxLogScan lateLine) "WARN" = false := by
  rw [fit_lateLine, logLevelMatches, splitOnce_replicate]
  rfl

theorem logLevelMatches_lateLine : logLevelMatches lateLine "WARN" = true := by
  rw [lateLine, logLevelMatches, splitOnce_replicate]
  decide

theorem levelText_lateRequest : lateRequest.levelText = "WARN" := by decide

theorem readLog_lateRequest (offset : Nat) (file : Bytes) :
    readLog "" file { lateRequest with offset := some offset } =
      readPage "" file ⟨offset, maxLogText, "", "WARN", false⟩ := by
  have hlevel := levelText_lateRequest
  have hcheck := @checkRequest_of "" lateRequest ⟨by decide, by decide⟩ (by decide)
    (by rw [hlevel]; decide) rfl offset
  rw [readLog, hcheck, ok_bind, hlevel]
  rfl

theorem splitInclusive_lateLine : splitInclusive '\n' lateLine = [lateLine] := by
  have hopen : '\n' ∉ lateLine := by
    rw [lateLine, List.mem_append, not_or]
    exact ⟨fun h => absurd (List.eq_of_mem_replicate h) (by decide), by decide⟩
  rw [splitInclusive_open hopen, if_neg]
  intro hnil
  have hsize := size_lateLine
  rw [hnil] at hsize
  exact absurd hsize (by decide)

theorem exists_chain_lateLine :
    ∃ texts, Chain "" (encode lateLine) lateRequest 0 texts := by
  obtain ⟨front, hfront⟩ : ∃ front, fit maxLogScan lateLine = front := ⟨_, rfl⟩
  have hline : lateLine = front ++ [']'] := by
    rw [← hfront, fit_lateLine, lateLine, List.append_assoc]
    rfl
  have hsplit := splitInclusive_lateLine
  have hsize := size_lateLine
  have hno := logLevelMatches_fit
  rw [hfront] at hno
  rw [hline] at hfront hsplit hsize ⊢
  refine exists_chain_of_late readLog_lateRequest hsplit hfront ?_ (by decide) ?_
  · rw [hsize]
    decide
  · rw [matchesText, hno, Bool.false_and]

/-- The second page shows the last byte of a matching line whose front no page has shown. -/
theorem late_level_cut :
    ∃ texts, Chain "" (encode lateLine) lateRequest 0 texts ∧
      texts.flatten ≠ matchingLines lateRequest.queryText lateRequest.levelText lateLine := by
  obtain ⟨texts, hchain⟩ := exists_chain_lateLine
  refine ⟨texts, hchain, fun heq => ?_⟩
  have hnone := (chain_flatten_iff rfl hchain).mp heq lateLine
    (by rw [splitInclusive_lateLine]; exact List.mem_cons_self)
  rw [levelText_lateRequest] at hnone
  have hmatch : matchesText lateRequest.queryText "WARN" lateLine = true := by
    have hquery : contains lateLine lateRequest.queryText.toList = true :=
      decide_eq_true List.nil_infix
    rw [matchesText, logLevelMatches_lateLine, hquery]
    rfl
  have hlate : late "WARN" lateLine = true := by
    have hlong : fit maxLogScan lateLine ≠ lateLine := by
      intro hall
      have hle := size_fit_le maxLogScan lateLine
      rw [hall, size_lateLine] at hle
      exact absurd hle (by decide)
    rw [late, decide_eq_true hlong, logLevelMatches_fit]
    rfl
  rw [hnone hmatch] at hlate
  cases hlate

end RcdServer.Operations.Logs
