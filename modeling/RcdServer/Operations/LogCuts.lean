import RcdServer.Operations.LogPages

/-!
# Cuts in log pages

In a file of valid UTF-8 a page is cut between characters, at the end of a line if there is one.
-/
namespace RcdServer.Operations.Logs

open Lib.Lines Lib.Utf8
open Lib.Run (Ends bind_eq_ok_iff ok_bind)

/-! ## Cuts between characters -/

theorem sequenceWidth_lead {w : Nat} {b : UInt8} (h : IsLead w b) (hw : 2 ≤ w) (hw' : w ≤ 4) :
    sequenceWidth b = some w := by
  obtain rfl | rfl | rfl : w = 2 ∨ w = 3 ∨ w = 4 := by omega
  all_goals
    simp only [IsLead] at h
    rw [sequenceWidth]
    split_ifs <;> first | rfl | omega

theorem sequenceWidth_ascii {b : UInt8} (h : IsLead 1 b) :
    sequenceWidth b = none ∧ isContinuation b = false := by
  simp only [IsLead] at h
  constructor
  · rw [sequenceWidth]
    split_ifs <;> first | rfl | omega
  · rw [isContinuation, decide_eq_false]
    omega

theorem sequenceWidth_tail {b : UInt8} (h : IsTail b) :
    sequenceWidth b = none ∧ isContinuation b = true := by
  rw [IsTail] at h
  constructor
  · rw [sequenceWidth]
    split_ifs <;> first | rfl | omega
  · exact decide_eq_true h

theorem completeUtf8Loop_tail {bytes : Bytes} {start n : Nat} {b : UInt8}
    (hb : bytes[start + n]? = some b) (h : IsTail b) :
    completeUtf8Loop bytes start (n + 1) = completeUtf8Loop bytes start n := by
  obtain ⟨hnone, htail⟩ := sequenceWidth_tail h
  rw [completeUtf8Loop, byteAt_ok hb, ok_bind, hnone]
  exact if_pos htail

theorem completeUtf8Loop_lead {bytes : Bytes} {start n w : Nat} {b : UInt8}
    (hb : bytes[start + n]? = some b) (h : IsLead w b) (hw : 1 ≤ w) (hw' : w ≤ 4)
    (hlen : start + n < bytes.length) :
    completeUtf8Loop bytes start (n + 1) =
      .ok (if bytes.length < start + n + w then start + n else bytes.length) := by
  rw [completeUtf8Loop, byteAt_ok hb, ok_bind]
  rcases Nat.lt_or_ge w 2 with hone | hmore
  · obtain rfl : w = 1 := by omega
    obtain ⟨hnone, htail⟩ := sequenceWidth_ascii h
    rw [hnone]
    simp only [htail, Bool.false_eq_true, if_false]
    rw [if_neg (by omega)]
  · rw [sequenceWidth_lead h hmore hw']

/-- The loop goes back over the tail of the last character. -/
theorem completeUtf8End_last {front t : Bytes} {b : UInt8} {w : Nat} (h : IsLead w b)
    (hw : 1 ≤ w) (hw' : w ≤ 4) (ht : ∀ x ∈ t, IsTail x) (hlen : t.length ≤ 3) :
    completeUtf8End (front ++ b :: t) =
      .ok (if t.length + 1 < w then front.length else (front ++ b :: t).length) := by
  have htotal : (front ++ b :: t).length = front.length + (t.length + 1) := by simp
  obtain ⟨start, hstart⟩ : ∃ start, (front ++ b :: t).length - 4 = start := ⟨_, rfl⟩
  rw [completeUtf8End, hstart]
  have hskip : ∀ n, n ≤ t.length →
      completeUtf8Loop (front ++ b :: t) start (front.length - start + 1 + n) =
        completeUtf8Loop (front ++ b :: t) start (front.length - start + 1) := by
    intro n hn
    induction n with
    | zero => rfl
    | succ n ih =>
      have hbyte : (front ++ b :: t)[start + (front.length - start + 1 + n)]? = some t[n] := by
        rw [show start + (front.length - start + 1 + n) = front.length + (n + 1) by omega,
          List.getElem?_append_right (by omega), Nat.add_sub_cancel_left, List.getElem?_cons_succ]
        exact List.getElem?_eq_getElem hn
      rw [← Nat.add_assoc, completeUtf8Loop_tail hbyte (ht _ (List.getElem_mem hn))]
      exact ih (by omega)
  have hrounds : (front ++ b :: t).length - start = front.length - start + 1 + t.length := by
    omega
  have hbyte : (front ++ b :: t)[start + (front.length - start)]? = some b := by
    rw [show start + (front.length - start) = front.length by omega,
      List.getElem?_append_right (Nat.le_refl _), Nat.sub_self]
    rfl
  rw [hrounds, hskip t.length (Nat.le_refl _),
    completeUtf8Loop_lead hbyte h hw hw' (by omega)]
  congr 1
  split_ifs <;> omega

/-- Exactly the front of a character is cut off. -/
theorem completeUtf8End_encode (cs : List Char) {part : Bytes} (h : IsPart part) :
    completeUtf8End (encode cs ++ part) = .ok (size cs) := by
  rcases h.shape with rfl | ⟨b, t, w, rfl, hlead, hlen, hw, ht⟩
  · rw [List.append_nil]
    induction cs using List.reverseRecOn with
    | nil => rfl
    | append_singleton cs c _ =>
      obtain ⟨b, t, hc, hlead, ht⟩ := encodeChar_shape c
      have hsize := String.length_utf8EncodeChar c
      have hpos := c.utf8Size_pos
      have hle := c.utf8Size_le_four
      have hone : encode [c] = b :: t := by rw [encode_cons, hc, encode_nil, List.append_nil]
      rw [hc, List.length_cons] at hsize
      rw [encode_append, hone, completeUtf8End_last hlead hpos hle ht (by omega),
        if_neg (by omega), ← hone, ← encode_append, length_encode]
  · rw [List.length_cons] at hlen
    rw [completeUtf8End_last hlead (by omega) hw ht (by omega), if_pos hlen, length_encode]

theorem take_size_encode (cs ds : List Char) : (encode (cs ++ ds)).take (size cs) = encode cs := by
  rw [encode_append, ← length_encode, List.take_left]

theorem take_size_fit (n : Nat) (cs : List Char) :
    (encode cs).take (size (fit n cs)) = encode (fit n cs) := by
  obtain ⟨more, hmore⟩ := fit_isPrefix n cs
  have htake := take_size_encode (fit n cs) more
  rwa [hmore] at htake

theorem boundedText_encode (cs : List Char) (limit : Nat) :
    boundedText (encode cs) limit = .ok (fit limit cs, size (fit limit cs)) := by
  have hcount : boundedCount (encode cs) limit = .ok (size (fit limit cs)) := by
    rw [boundedCount]
    split_ifs with hlong
    · obtain ⟨part, htake, hpart⟩ := take_encode limit cs
      rw [slice_front (Nat.le_of_lt hlong), ok_bind, htake, completeUtf8End_encode _ hpart]
    · rw [length_encode] at hlong
      rw [fit_of_size_le (Nat.not_lt.mp hlong), length_encode]
  have hle : size (fit limit cs) ≤ (encode cs).length := by
    obtain ⟨more, hmore⟩ := fit_isPrefix limit cs
    rw [length_encode, ← hmore, size_append, hmore]
    exact Nat.le_add_right _ _
  rw [boundedText, hcount, ok_bind, slice_front hle, ok_bind, take_size_fit, fromUtf8_encode]

/-! ## What the front of a line tells of the line -/

theorem splitOnce_eq {pattern text front rest : List Char}
    (h : splitOnce pattern text = some (front, rest)) : text = front ++ (pattern ++ rest) := by
  induction text generalizing front with
  | nil =>
    rw [splitOnce] at h
    split_ifs at h with hnil
    obtain ⟨rfl, rfl⟩ := Prod.mk.inj (Option.some.inj h)
    rw [hnil]
    rfl
  | cons c cs ih =>
    rw [splitOnce] at h
    split_ifs at h with hfirst
    · obtain ⟨rfl, rfl⟩ := Prod.mk.inj (Option.some.inj h)
      obtain ⟨more, hmore⟩ := hfirst
      rw [← hmore, List.drop_left, List.nil_append]
    · obtain ⟨⟨front', rest'⟩, hrest, heq⟩ := Option.map_eq_some_iff.mp h
      obtain ⟨rfl, rfl⟩ := Prod.mk.inj heq
      rw [List.cons_append, ← ih hrest]

theorem splitOnce_append {pattern text front rest : List Char}
    (h : splitOnce pattern text = some (front, rest)) (more : List Char) :
    splitOnce pattern (text ++ more) = some (front, rest ++ more) := by
  induction text generalizing front with
  | nil =>
    rw [splitOnce] at h
    split_ifs at h with hnil
    obtain ⟨rfl, rfl⟩ := Prod.mk.inj (Option.some.inj h)
    subst hnil
    cases more with
    | nil => rfl
    | cons c cs => rw [List.nil_append, splitOnce, if_pos List.nil_prefix]; rfl
  | cons c cs ih =>
    rw [splitOnce] at h
    rw [List.cons_append, splitOnce]
    by_cases hfirst : pattern <+: c :: cs
    · rw [if_pos hfirst] at h
      obtain ⟨rfl, rfl⟩ := Prod.mk.inj (Option.some.inj h)
      have hlonger : pattern <+: c :: (cs ++ more) := hfirst.trans (List.prefix_append _ more)
      rw [if_pos hlonger, ← List.drop_append_of_le_length hfirst.length_le]
      rfl
    · rw [if_neg hfirst] at h
      obtain ⟨⟨front', rest'⟩, hrest, heq⟩ := Option.map_eq_some_iff.mp h
      obtain ⟨rfl, rfl⟩ := Prod.mk.inj heq
      have hlater : ¬ pattern <+: c :: (cs ++ more) := by
        intro hpre
        have hlen := congrArg List.length (splitOnce_eq hrest)
        rw [List.length_append, List.length_append] at hlen
        refine hfirst (List.prefix_of_prefix_length_le hpre (List.prefix_append (c :: cs) more) ?_)
        rw [List.length_cons]
        omega
      rw [if_neg hlater, ih hrest]
      rfl

theorem logLevelMatches_append {text : List Char} {level : String}
    (h : logLevelMatches text level = true) (more : List Char) :
    logLevelMatches (text ++ more) level = true := by
  rw [logLevelMatches, Bool.or_eq_true] at h ⊢
  refine h.imp_right fun htag => ?_
  cases hopen : splitOnce [' ', '['] text with
  | none => simp [hopen] at htag
  | some parts =>
    obtain ⟨before, remainder⟩ := parts
    simp only [hopen] at htag
    rw [splitOnce_append hopen]
    dsimp only
    cases hclose : splitOnce [']'] remainder with
    | none => simp [hclose] at htag
    | some tag =>
      obtain ⟨actual, rest⟩ := tag
      simp only [hclose] at htag
      rw [splitOnce_append hclose]
      exact htag

theorem matchesText_of_isPrefix {query level : String} {q text : List Char} (hq : q <+: text)
    (h : matchesText query level q = true) : matchesText query level text = true := by
  obtain ⟨more, rfl⟩ := hq
  rw [matchesText, Bool.and_eq_true] at h ⊢
  refine ⟨logLevelMatches_append h.1 more, ?_⟩
  rw [contains, decide_eq_true_eq] at h ⊢
  exact h.2.trans (List.prefix_append q more).isInfix

/-! ## The lines that a page can see -/

/-- Whole lines, or the part of the first line that a page can hold. -/
inductive Window (lines : List (List Char)) : List (List Char) → Bool → Prop
  | whole {seen more} : lines = seen ++ more → (∀ l ∈ seen, size l ≤ maxLogScan) →
      Window lines seen false
  | unfinished {r ls} : lines = r :: ls → fit maxLogScan r ≠ r →
      Window lines [fit maxLogScan r] true

theorem fit_scan_ne_nil {cs : List Char} (h : fit maxLogScan cs ≠ cs) : fit maxLogScan cs ≠ [] := by
  intro hnil
  have hlong := lt_size_fit h
  rw [hnil] at hlong
  exact absurd hlong (by decide)

theorem size_le_of_mem_flatten {l : List Char} {ls : List (List Char)} (h : l ∈ ls) :
    size l ≤ size ls.flatten := by
  obtain ⟨front, back, rfl⟩ := List.append_of_mem h
  rw [List.flatten_append, List.flatten_cons, size_append, size_append]
  omega

/-- The last end of a line among the bytes of a page is one among its whole characters. -/
theorem cutEnd_whole {after : List Char} {n : Nat} (h : '\n' ∈ fit n after) :
    cutEnd ((encode after).take n) true = .ok (encode (whole '\n' (fit n after))) := by
  obtain ⟨part, htake, hpart⟩ := take_encode n after
  have hopen : newline ∉ part := newline_notMem_part hpart
  rw [cutEnd, if_pos rfl, htake]
  cases hlast : lastIndex newline (encode (fit n after) ++ part) with
  | none =>
    have hnone := lastIndex_none hlast
    exact absurd (List.mem_append_left part (newline_mem_encode.mpr h)) hnone
  | some i =>
    obtain ⟨front, rest, hsplit, hfront, hrest⟩ := lastIndex_some hlast
    have hends : whole newline (front ++ newline :: rest) = front ++ [newline] := by
      rw [show front ++ newline :: rest = (front ++ [newline]) ++ rest by simp,
        whole_append hrest, whole_of_getLast (by simp)]
    have hwhole : encode (whole '\n' (fit n after)) = front ++ [newline] := by
      rw [← hends, ← hsplit, whole_append hopen]
      exact (whole_encode (fit n after)).symm
    dsimp only
    rw [hwhole, hsplit, ← hfront, List.take_length_add_append]
    rfl

theorem cutEnd_open {after : List Char} {n : Nat} (h : '\n' ∉ fit n after) :
    cutEnd ((encode after).take n) true = .ok (encode (fit n after)) := by
  obtain ⟨part, htake, hpart⟩ := take_encode n after
  rw [cutEnd, if_pos rfl, htake]
  cases hlast : lastIndex newline (encode (fit n after) ++ part) with
  | none =>
    dsimp only
    rw [completeUtf8End_encode _ hpart, ok_bind, ← length_encode, List.take_left]
  | some i =>
    obtain ⟨front, rest, hsplit, -, -⟩ := lastIndex_some hlast
    have hmem : newline ∈ encode (fit n after) ++ part := by
      rw [hsplit]
      exact List.mem_append_right _ List.mem_cons_self
    rcases List.mem_append.mp hmem with hmem | hmem
    · exact absurd (newline_mem_encode.mp hmem) h
    · exact absurd hmem (newline_notMem_part hpart)

theorem cutEnd_all {after : List Char} {n : Nat} (h : size after ≤ n) :
    cutEnd ((encode after).take n) false = .ok (encode after) := by
  rw [List.take_of_length_le (by rw [length_encode]; exact h)]
  rfl

/-- A line that goes on behind the page. -/
theorem first_unfinished {after : List Char} {n : Nat} (h : '\n' ∉ fit n after)
    (hlong : n < size after) :
    ∃ r ls, splitInclusive '\n' after = r :: ls ∧ fit n after = fit n r ∧ fit n r ≠ r := by
  obtain ⟨beyond, hbeyond⟩ := fit_isPrefix n after
  have hmore : beyond ≠ [] := by
    rintro rfl
    have hsize := size_fit_le n after
    rw [List.append_nil] at hbeyond
    rw [hbeyond] at hsize
    omega
  have hsplit := splitInclusive_open_append h beyond
  rw [hbeyond] at hsplit
  cases hrest : splitInclusive '\n' beyond with
  | nil => exact absurd (splitInclusive_eq_nil.mp hrest) hmore
  | cons l ls =>
    rw [hrest] at hsplit
    have hl : l ≠ [] := ne_nil_of_mem_splitInclusive (by rw [hrest]; exact List.mem_cons_self)
    obtain ⟨c, cs, rfl⟩ := List.exists_cons_of_ne_nil hl
    have hhead : beyond.head? = some c := by
      rw [← flatten_splitInclusive '\n' beyond, hrest]
      rfl
    have hfit : fit n (fit n after ++ c :: cs) = fit n after :=
      fit_append_of_ne_nil hmore (by rw [hbeyond]) hhead
    refine ⟨_, ls, hsplit, hfit.symm, ?_⟩
    rw [hfit]
    intro heq
    have hlen := congrArg List.length heq
    rw [List.length_append, List.length_cons] at hlen
    omega

theorem window_lines (after : List Char) :
    ∃ seen unfinished, Window (splitInclusive '\n' after) seen unfinished ∧
      splitInclusive '\n' seen.flatten = seen ∧ (after ≠ [] → seen.flatten ≠ []) ∧
      cutEnd ((encode after).take maxLogScan) (decide (maxLogScan < size after)) =
        .ok (encode seen.flatten) ∧
      (decide (maxLogScan < size after) && decide (newline ∉ encode seen.flatten)) =
        unfinished := by
  by_cases hmore : maxLogScan < size after
  · rw [decide_eq_true hmore]
    by_cases hends : '\n' ∈ fit maxLogScan after
    · obtain ⟨tail, htail⟩ : whole '\n' (fit maxLogScan after) <+: fit maxLogScan after :=
        List.rdropWhile_prefix _ _
      obtain ⟨beyond, hbeyond⟩ := fit_isPrefix maxLogScan after
      have hafter : whole '\n' (fit maxLogScan after) ++ (tail ++ beyond) = after := by
        rw [← List.append_assoc, htail, hbeyond]
      have hsplit := splitInclusive_whole_append '\n' (fit maxLogScan after) (tail ++ beyond)
      rw [hafter] at hsplit
      refine ⟨_, false, .whole hsplit ?_, ?_, ?_, ?_, ?_⟩
      · intro l hl
        have hle := size_le_of_mem_flatten hl
        have hfit := size_fit_le maxLogScan after
        rw [← htail, size_append] at hfit
        rw [flatten_splitInclusive] at hle
        omega
      · rw [flatten_splitInclusive]
      · rw [flatten_splitInclusive]
        exact fun _ => List.ne_nil_of_mem (mem_whole hends)
      · rw [flatten_splitInclusive, cutEnd_whole hends]
      · have hmem : newline ∈ encode (whole '\n' (fit maxLogScan after)) :=
          newline_mem_encode.mpr (mem_whole hends)
        rw [flatten_splitInclusive, Bool.true_and, decide_eq_false (not_not.mpr hmem)]
    · obtain ⟨r, ls, hlines, hfit, hne⟩ := first_unfinished hends hmore
      refine ⟨[fit maxLogScan r], true, .unfinished hlines hne, ?_, ?_, ?_, ?_⟩
      · rw [List.flatten_singleton, ← hfit, splitInclusive_open hends, if_neg]
        rw [hfit]
        exact fit_scan_ne_nil hne
      · rw [List.flatten_singleton]
        exact fun _ => fit_scan_ne_nil hne
      · rw [List.flatten_singleton, ← hfit, cutEnd_open hends]
      · rw [List.flatten_singleton, ← hfit, Bool.true_and, decide_eq_true_eq]
        exact fun hmem => hends (newline_mem_encode.mp hmem)
  · rw [decide_eq_false hmore]
    have hall := Nat.not_lt.mp hmore
    refine ⟨splitInclusive '\n' after, false, .whole (List.append_nil _).symm ?_, ?_, ?_, ?_, ?_⟩
    · intro l hl
      have hle := size_le_of_mem_flatten hl
      rw [flatten_splitInclusive] at hle
      omega
    · rw [flatten_splitInclusive]
    · rw [flatten_splitInclusive]
      exact id
    · rw [flatten_splitInclusive, cutEnd_all hall]
    · rfl

/-! ## Filtering the lines of a page -/

/-- Lines of which `k` has been read before: the text that is shown of them, the characters that are
done with, and what is left. -/
inductive Reads (m : List Char → Bool) :
    List Char → List (List Char) → List Char → List Char → List Char → List (List Char) → Prop
  | stop {k lines} : Reads m k lines [] [] k lines
  | inside {k front back lines} : front ≠ [] → back ≠ [] → m (k ++ (front ++ back)) = true →
      Reads m k ((front ++ back) :: lines) front front (k ++ front) (back :: lines)
  | shown {k r lines text taken k' rest} : m (k ++ r) = true →
      Reads m [] lines text taken k' rest →
      Reads m k (r :: lines) (r ++ text) (r ++ taken) k' rest
  | skipped {k r lines text taken k' rest} : m (k ++ r) = false →
      Reads m [] lines text taken k' rest → Reads m k (r :: lines) text (r ++ taken) k' rest

section
variable {query level : String} {limit : Nat}

theorem lossy_line (k r : List Char) : lossy (encode k ++ encode r) = k ++ r := by
  rw [← encode_append, lossy_encode]

theorem filterLines_reads (hlimit : 4 ≤ limit) {lines : List (List Char)}
    (hlines : ∀ l ∈ lines, l ≠ []) (k : List Char) {output : List Char}
    (houtput : size output ≤ limit) (consumed : Nat) :
    ∃ text taken k' rest cut, Reads (matchesText query level) k lines text taken k' rest ∧
      filterLines query level limit (encode k) (lines.map encode) output consumed =
        .ok (output ++ text, consumed + size taken, cut) := by
  induction lines generalizing k output consumed with
  | nil => exact ⟨[], [], k, [], false, .stop, by rw [List.append_nil]; rfl⟩
  | cons r lines ih =>
    have hrest := ih fun l hl => hlines l (List.mem_cons_of_mem r hl)
    rw [List.map_cons]
    cases hmatch : matchesText query level (k ++ r) with
    | false =>
      obtain ⟨text, taken, k', rest, cut, hreads, hrun⟩ :=
        hrest [] houtput (consumed + (encode r).length)
      refine ⟨text, r ++ taken, k', rest, cut, .skipped hmatch hreads, ?_⟩
      rw [filterLines_skip (by rw [lossy_line]; exact hmatch), ← encode_nil, hrun, length_encode,
        size_append, Nat.add_assoc]
    | true =>
      have hline : matchesText query level (lossy (encode k ++ encode r)) = true := by
        rw [lossy_line]
        exact hmatch
      rcases Nat.lt_or_ge limit (size (output ++ r)) with hfull | hfits
      · by_cases hsome : output = []
        · subst hsome
          have hlong : fit limit r ≠ r := by
            intro heq
            have hsize := size_fit_le limit r
            rw [heq] at hsize
            rw [List.nil_append] at hfull
            omega
          obtain ⟨back, hback⟩ := fit_isPrefix limit r
          have hfront : fit limit r ≠ [] := by
            intro hnil
            have hsize := lt_size_fit hlong
            rw [hnil, size_nil] at hsize
            omega
          have hmore : back ≠ [] := by
            rintro rfl
            rw [List.append_nil] at hback
            exact hlong hback
          have hinside : Reads (matchesText query level) k ((fit limit r ++ back) :: lines)
              (fit limit r) (fit limit r) (k ++ fit limit r) (back :: lines) :=
            .inside hfront hmore (by rw [hback]; exact hmatch)
          rw [hback] at hinside
          refine ⟨_, _, _, _, true, hinside, ?_⟩
          rw [filterLines_part hline (by rw [lossy_encode]; exact hfull)
            (boundedText_encode r limit), List.nil_append]
        · refine ⟨[], [], k, r :: lines, true, .stop, ?_⟩
          rw [filterLines_full hline houtput (by rw [lossy_encode]; exact hfull) hsome,
            List.append_nil]
          rfl
      · obtain ⟨text, taken, k', rest, cut, hreads, hrun⟩ :=
          hrest [] hfits (consumed + (encode r).length)
        refine ⟨r ++ text, r ++ taken, k', rest, cut, .shown hmatch hreads, ?_⟩
        rw [filterLines_fits hline (by rw [lossy_encode]; exact hfits), lossy_encode, ← encode_nil,
          hrun, length_encode, size_append, List.append_assoc, Nat.add_assoc]

theorem filterLogPage_reads (hlimit : 4 ≤ limit) {lines : List (List Char)}
    (hlines : splitInclusive '\n' lines.flatten = lines) (k : List Char) :
    ∃ text taken k' rest cut, Reads (matchesText query level) k lines text taken k' rest ∧
      filterLogPage (encode lines.flatten) (encode k) query level limit =
        .ok (text, size taken, cut) := by
  have hsplit : splitInclusive newline (encode lines.flatten) = lines.map encode := by
    conv_rhs => rw [← hlines]
    exact splitInclusive_encode lines.flatten
  have hne : ∀ l ∈ lines, l ≠ [] := by
    intro l hl
    rw [← hlines] at hl
    exact ne_nil_of_mem_splitInclusive hl
  have hempty : size [] ≤ limit := Nat.zero_le limit
  obtain ⟨text, taken, k', rest, cut, hreads, hrun⟩ :=
    @filterLines_reads query level limit hlimit lines hne k [] hempty 0
  refine ⟨text, taken, k', rest, cut, hreads, ?_⟩
  rw [filterLogPage, hsplit, hrun, List.nil_append, Nat.zero_add]

end

/-- Where everything matches, it does not matter what has been read before. -/
theorem Reads.front {m : List Char → Bool} (hm : ∀ t, m t = true) {k text taken k' : List Char}
    {lines rest : List (List Char)} (h : Reads m k lines text taken k' rest) (k₀ : List Char) :
    ∃ k'', Reads m k₀ lines text taken k'' rest := by
  cases h with
  | stop => exact ⟨k₀, .stop⟩
  | inside hfront hback _ => exact ⟨_, .inside hfront hback (hm _)⟩
  | shown _ hrest => exact ⟨_, .shown (hm _) hrest⟩
  | skipped hno _ => exact absurd (hm _) (by rw [hno]; exact Bool.false_ne_true)

end RcdServer.Operations.Logs
