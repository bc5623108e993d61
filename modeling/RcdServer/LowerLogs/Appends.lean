import RcdServer.LowerLogs.Files

/-!
# Runs of appends

Calls of `Append` for the source of one directory, any of which may fail or be the last act of a
process. Whatever they leave, the files hold whole lines and at most a part of one behind them, and
rotation only ever loses the oldest file.
-/
namespace RcdServer.LowerLogs.Files

open Lib.Lines

/-! ## Files from the oldest to the newest -/

/-- The files that are there, in the order of `filesNewestFirst`. -/
def filesNewestFirst (keepFiles : Nat) (d : Disk) : List Bytes :=
  (List.range (keepFiles + 1)).filterMap d.files

def archives (keepFiles : Nat) (d : Disk) : List Bytes :=
  (List.range keepFiles).filterMap fun index => d.files (index + 1)

/-- Everything there was before the current file, the oldest first. -/
def older (keepFiles : Nat) (d : Disk) : List Bytes := d.expired ++ (archives keepFiles d).reverse

def history (keepFiles : Nat) (d : Disk) : List Bytes :=
  d.expired ++ (filesNewestFirst keepFiles d).reverse

variable {keepFiles : Nat} {d : Disk}

theorem filesNewestFirst_eq (keepFiles : Nat) (d : Disk) :
    filesNewestFirst keepFiles d = (d.files 0).toList ++ archives keepFiles d := by
  rw [filesNewestFirst, List.range_succ_eq_map, List.filterMap_cons, List.filterMap_map]
  cases d.files 0 <;> rfl

theorem history_eq (keepFiles : Nat) (d : Disk) :
    history keepFiles d = older keepFiles d ++ (d.files 0).toList := by
  rw [history, filesNewestFirst_eq, List.reverse_append, older, List.append_assoc]
  cases d.files 0 <;> rfl

@[simp] theorem files_put (d : Disk) (slot : Nat) (file : Option Bytes) (k : Nat) :
    (d.put slot file).files k = if k = slot then file else d.files k := by
  rw [Disk.put]
  exact Function.update_apply _ _ _ _

@[simp] theorem expired_put (d : Disk) (slot : Nat) (file : Option Bytes) :
    (d.put slot file).expired = d.expired := rfl

theorem older_put_current (keepFiles : Nat) (d : Disk) (file : Option Bytes) :
    older keepFiles (d.put 0 file) = older keepFiles d := by
  simp [older, archives]

theorem history_put_current (keepFiles : Nat) (d : Disk) (content : Bytes) :
    history keepFiles (d.put 0 (some content)) = older keepFiles d ++ [content] := by
  rw [history_eq, older_put_current, files_put, if_pos rfl]
  rfl

theorem put_put (d : Disk) (slot : Nat) (file file' : Option Bytes) :
    (d.put slot file).put slot file' = d.put slot file' := by
  simp [Disk.put]

/-! ## Rotation -/

theorem files_remove (slot : Nat) (d : Disk) : (Disk.remove slot d).files slot = none := by
  cases h : d.files slot with
  | none => simp [Disk.remove, h]
  | some content => simp [Disk.remove, h, Disk.put]

theorem files_rename (slot target : Nat) (d : Disk) :
    (Disk.rename slot target d).files slot = none := by
  cases h : d.files slot with
  | none => simp [Disk.rename, h]
  | some content => simp [Disk.rename, h]

theorem history_remove (keepFiles : Nat) (d : Disk) :
    history keepFiles (Disk.remove keepFiles d) = history keepFiles d := by
  cases h : d.files keepFiles with
  | none => simp only [Disk.remove, h]
  | some content =>
    have hrest : (List.range keepFiles).filterMap (Function.update d.files keepFiles none) =
        (List.range keepFiles).filterMap d.files := by
      apply List.filterMap_congr
      intro k hk
      exact Function.update_of_ne (Nat.ne_of_lt (List.mem_range.mp hk)) _ _
    simp only [history, filesNewestFirst, Disk.remove, h, Disk.put, List.range_succ,
      List.filterMap_append, List.filterMap_cons, Function.update_self, List.filterMap_nil, hrest]
    simp

theorem range_around (index n : Nat) :
    List.range (index + n + 2) =
      List.range index ++ index :: (index + 1) :: List.range' (index + 2) n := by
  have h := List.range'_append_1 (s := 0) (m := index) (n := n + 2)
  rw [Nat.zero_add, List.range'_succ, List.range'_succ] at h
  rw [List.range_eq_range', List.range_eq_range', h, Nat.add_assoc]

/-- A file moves up by one into a free name. -/
theorem history_rename {index : Nat} (hindex : index < keepFiles)
    (hfree : d.files (index + 1) = none) :
    history keepFiles (Disk.rename index (index + 1) d) = history keepFiles d := by
  cases h : d.files index with
  | none => simp only [Disk.rename, h]
  | some content =>
    obtain ⟨n, rfl⟩ := Nat.exists_eq_add_of_lt hindex
    have hmoved : Disk.rename index (index + 1) d =
        (d.put (index + 1) (some content)).put index none := by simp only [Disk.rename, h]
    have hlow : (List.range index).filterMap (Disk.rename index (index + 1) d).files =
        (List.range index).filterMap d.files := by
      apply List.filterMap_congr
      intro k hk
      have := List.mem_range.mp hk
      rw [hmoved, files_put, files_put, if_neg (by omega), if_neg (by omega)]
    have hhigh : (List.range' (index + 2) n).filterMap (Disk.rename index (index + 1) d).files =
        (List.range' (index + 2) n).filterMap d.files := by
      apply List.filterMap_congr
      intro k hk
      have := (List.mem_range'_1.mp hk).1
      rw [hmoved, files_put, files_put, if_neg (by omega), if_neg (by omega)]
    have hfrom : (Disk.rename index (index + 1) d).files index = none := files_rename _ _ d
    have hto : (Disk.rename index (index + 1) d).files (index + 1) = some content := by
      rw [hmoved, files_put, files_put, if_neg (by omega), if_pos rfl]
    have hexpired : (Disk.rename index (index + 1) d).expired = d.expired := by
      rw [hmoved, expired_put, expired_put]
    rw [history, history, filesNewestFirst, filesNewestFirst, hexpired,
      show index + n + 1 + 1 = index + n + 2 from rfl, range_around, List.filterMap_append,
      List.filterMap_append, List.filterMap_cons, List.filterMap_cons, List.filterMap_cons,
      List.filterMap_cons, hlow, hhigh, hfrom, hto, h, hfree]

theorem apply_cons (f : Disk → Disk) (fs : List (Disk → Disk)) (d : Disk) :
    apply (f :: fs) d = apply fs (f d) := rfl

theorem apply_append (fs fs' : List (Disk → Disk)) (d : Disk) :
    apply (fs ++ fs') d = apply fs' (apply fs d) := List.foldl_append

/-- No file is lost in any state between the renames, from the highest name to the lowest. -/
theorem history_renames {n : Nat} (hn : n ≤ keepFiles) (hfree : d.files n = none) (done : Nat) :
    history keepFiles (apply (((List.range n).reverse.map fun index =>
      Disk.rename index (index + 1)).take done) d) = history keepFiles d := by
  induction n generalizing d done with
  | zero =>
    rw [List.range_zero, List.reverse_nil, List.map_nil, List.take_nil]
    rfl
  | succ n ih =>
    cases done with
    | zero => rfl
    | succ done =>
      rw [List.range_succ, List.reverse_append, List.reverse_singleton, List.singleton_append,
        List.map_cons, List.take_succ_cons, apply_cons,
        ih (Nat.le_of_succ_le hn) (files_rename n (n + 1) d), history_rename hn hfree]

theorem history_rotate (keepFiles : Nat) (d : Disk) (done : Nat) :
    history keepFiles (apply ((rotate keepFiles).take done) d) = history keepFiles d := by
  cases done with
  | zero => rfl
  | succ done =>
    rw [rotate, List.take_succ_cons, apply_cons,
      history_renames (Nat.le_refl _) (files_remove keepFiles d), history_remove]

/-! ## The current file -/

theorem onCurrent_eq {content : Bytes} (h : d.files 0 = some content) (f : Bytes → Bytes) :
    Disk.onCurrent f d = d.put 0 (some (f content)) := by
  rw [Disk.onCurrent, h]
  rfl

theorem put_current {content : Bytes} (h : d.files 0 = some content) :
    d.put 0 (some content) = d := by
  rw [Disk.put, ← h, Function.update_eq_self]

/-- Writing stops behind any byte. -/
theorem apply_written {content : Bytes} (h : d.files 0 = some content) (encoded : Bytes)
    (done : Nat) :
    apply ((encoded.map fun b => Disk.onCurrent (· ++ [b])).take done) d =
      d.put 0 (some (content ++ encoded.take done)) := by
  induction encoded generalizing d content done with
  | nil =>
    rw [List.map_nil, List.take_nil, List.take_nil, List.append_nil, put_current h]
    rfl
  | cons b encoded ih =>
    cases done with
    | zero =>
      rw [List.take_zero, List.take_zero, List.append_nil, put_current h]
      rfl
    | succ done =>
      have hput : (d.put 0 (some (content ++ [b]))).files 0 = some (content ++ [b]) := by simp
      rw [List.map_cons, List.take_succ_cons, apply_cons, onCurrent_eq h, ih hput done, put_put,
        List.take_succ_cons, List.append_assoc, List.singleton_append]

/-- Rotation, if there is any, and its states in between. -/
theorem history_rotation (store : Store) (encoded : Bytes) (d : Disk) (done : Nat) :
    history store.keepFiles (apply ((if needsRotation store encoded d then rotate store.keepFiles
      else []).take done) d) = history store.keepFiles d := by
  split_ifs
  · exact history_rotate store.keepFiles d done
  · rw [List.take_nil]
    rfl

theorem history_openCurrent (keepFiles : Nat) (d : Disk) :
    history keepFiles d.openCurrent = older keepFiles d ++ [(d.files 0).getD []] :=
  history_put_current keepFiles d _

theorem history_written (keepFiles : Nat) (d : Disk) (encoded : Bytes) (done : Nat) :
    history keepFiles (apply ((encoded.map fun b => Disk.onCurrent (· ++ [b])).take done)
      (Disk.onCurrent repairIncompleteTail d.openCurrent)) =
      older keepFiles d ++
        [repairIncompleteTail ((d.files 0).getD []) ++ encoded.take done] := by
  have hopened : d.openCurrent.files 0 = some ((d.files 0).getD []) := by simp [Disk.openCurrent]
  have hrepaired :
      (d.openCurrent.put 0 (some (repairIncompleteTail ((d.files 0).getD [])))).files 0 =
        some (repairIncompleteTail ((d.files 0).getD [])) := by simp
  rw [onCurrent_eq hopened, apply_written hrepaired, put_put, history_put_current,
    Disk.openCurrent, older_put_current]

/-- The current file as a call finds it, and all that the call has changed when it stops. -/
theorem history_changes (store : Store) (encoded : Bytes) (d : Disk) :
    ∃ (front : List Bytes) (current : Option Bytes),
      history store.keepFiles d = front ++ current.toList ∧
      (∀ done,
        let stopped := history store.keepFiles (apply ((changes store encoded d).take done) d)
        stopped = history store.keepFiles d ∨ stopped = front ++ [current.getD []] ∨
          ∃ n, stopped = front ++ [repairIncompleteTail (current.getD []) ++ encoded.take n]) ∧
      history store.keepFiles (apply (changes store encoded d) d) =
        front ++ [repairIncompleteTail (current.getD []) ++ encoded] := by
  let rotation := if needsRotation store encoded d then rotate store.keepFiles else []
  let rotated := apply rotation d
  have hrotation : ∀ done, history store.keepFiles (apply (rotation.take done) d) =
      history store.keepFiles d := history_rotation store encoded d
  have hrotated : history store.keepFiles rotated = history store.keepFiles d := by
    have h := hrotation rotation.length
    rwa [List.take_length] at h
  have hwritten := history_written store.keepFiles rotated encoded
  have hchanges : changes store encoded d = rotation ++ Disk.openCurrent ::
    Disk.onCurrent repairIncompleteTail :: encoded.map fun b => Disk.onCurrent (· ++ [b]) := rfl
  refine ⟨older store.keepFiles rotated, rotated.files 0, ?_, ?_, ?_⟩
  · rw [← hrotated, history_eq]
  · intro done
    rcases Nat.lt_or_ge rotation.length done with hdone | hdone
    · obtain ⟨more, rfl⟩ := Nat.exists_eq_add_of_lt hdone
      have hsplit : apply ((changes store encoded d).take (rotation.length + more + 1)) d =
          apply ((Disk.onCurrent repairIncompleteTail ::
            encoded.map fun b => Disk.onCurrent (· ++ [b])).take more) rotated.openCurrent := by
        rw [hchanges, Nat.add_assoc, List.take_length_add_append, apply_append,
          List.take_succ_cons, apply_cons]
      rw [hsplit]
      cases more with
      | zero => exact Or.inr (Or.inl (history_openCurrent store.keepFiles rotated))
      | succ more =>
        rw [List.take_succ_cons, apply_cons]
        exact Or.inr (Or.inr ⟨more, hwritten more⟩)
    · refine Or.inl ?_
      rw [hchanges, List.take_append_of_le_length hdone]
      exact hrotation done
  · have hall := hwritten encoded.length
    rw [← List.length_map (fun b => Disk.onCurrent (· ++ [b])), List.take_length,
      List.length_map, List.take_length] at hall
    rw [hchanges, apply_append, apply_cons, apply_cons]
    exact hall

/-! ## Calls -/

section
variable {F : Type} {json : Json F} {store : Store} {source : String}

structure Call (F : Type) where
  events : List (Event F)
  fate : Fate

/-- The directory, and the events of all calls that returned without an error. -/
structure State (F : Type) where
  disk : Disk
  acknowledged : List (Event F)

/-- A call for another source works in another directory. -/
def step (json : Json F) (store : Store) (source : String) (s : State F) (call : Call F) :
    State F :=
  match call.events.head? with
  | none => s
  | some first =>
    if first.sourceID ≠ source then s
    else
      let (disk, answer) := append json store call.events call.fate s.disk
      ⟨disk, if answer = .acknowledged then s.acknowledged ++ call.events else s.acknowledged⟩

def run (json : Json F) (store : Store) (source : String) (disk : Disk) (calls : List (Call F)) :
    State F := calls.foldl (step json store source) ⟨disk, []⟩

/-- The line of an event of the source. -/
structure Encodes (json : Json F) (source : String) (e : Event F) (line : Bytes) : Prop where
  source_eq : e.sourceID = source
  marshals : json.marshal e = .ok line
  fits : line.length ≤ maxJSONLineBytes

theorem encode_ok {events : List (Event F)} {encoded : Bytes}
    (h : encode json source events = .ok encoded) :
    ∃ ls, List.Forall₂ (Encodes json source) events ls ∧ encoded = stored newline ls := by
  induction events generalizing encoded with
  | nil =>
    obtain rfl := Except.ok.inj h
    exact ⟨[], List.Forall₂.nil, rfl⟩
  | cons e events ih =>
    rw [encode] at h
    split_ifs at h with hsource
    cases hline : json.marshal e with
    | error reason =>
      simp only [hline] at h
      cases h
    | ok line =>
      simp only [hline] at h
      split_ifs at h with hlong
      cases hrest : encode json source events with
      | error reason =>
        rw [hrest] at h
        cases h
      | ok more =>
        rw [hrest] at h
        obtain rfl := Except.ok.inj h
        obtain ⟨ls, hls, rfl⟩ := ih hrest
        refine ⟨line :: ls, hls.cons ⟨not_not.mp hsource, hline, Nat.not_lt.mp hlong⟩, ?_⟩
        rw [stored_cons]

/-- A file of known lines, with a known part of a line behind them. -/
def Holds (line part : Bytes → Prop) (content : Bytes) (ls : List Bytes) : Prop :=
  ∃ rest, Stores newline content ls rest ∧ (∀ l ∈ ls, line l) ∧ (rest ≠ [] → part rest)

/-- The files and the lines they hold, and the lines of what has been acknowledged among them. -/
structure Kept (json : Json F) (keepFiles : Nat) (source : String) (line part : Bytes → Prop)
    (s : State F) (groups : List (List Bytes)) : Prop where
  files : List.Forall₂ (Holds line part) (history keepFiles s.disk) groups
  acknowledged : ∃ ls, List.Forall₂ (Encodes json source) s.acknowledged ls ∧
    ls.Sublist groups.flatten

variable {line part : Bytes → Prop} {content : Bytes} {ls more : List Bytes}

theorem holds_nil : Holds line part [] [] :=
  ⟨[], stores_nil newline, fun _ h => absurd h List.not_mem_nil, fun h => absurd rfl h⟩

theorem Holds.repaired (h : Holds line part content ls) :
    Holds line part (repairIncompleteTail content) ls := by
  obtain ⟨rest, hstores, hline, -⟩ := h
  rw [repairIncompleteTail_eq]
  exact ⟨[], hstores.whole, hline, fun h => absurd rfl h⟩

theorem Holds.append_stored (h : Holds line part content ls)
    (hends : ∀ l ∈ more, newline ∉ l) (hmore : ∀ l ∈ more, line l ∧ ∀ p, p <+: l → part p)
    (n : Nat) :
    ∃ k, Holds line part (repairIncompleteTail content ++ (stored newline more).take n)
      (ls ++ more.take k) := by
  obtain ⟨rest, hstores, hline, -⟩ := h
  obtain ⟨k, rest', hstores', hpart⟩ := stores_take hends n
  rw [repairIncompleteTail_eq]
  refine ⟨k, rest', hstores.whole.append hstores', ?_, ?_⟩
  · intro l hl
    rcases List.mem_append.mp hl with hl | hl
    · exact hline l hl
    · exact (hmore l (List.mem_of_mem_take hl)).1
  · intro hne
    obtain ⟨l, hl, hpre⟩ := hpart.resolve_left hne
    exact (hmore l hl).2 rest' hpre

theorem Holds.append_all (h : Holds line part content ls)
    (hends : ∀ l ∈ more, newline ∉ l) (hmore : ∀ l ∈ more, line l) :
    Holds line part (repairIncompleteTail content ++ stored newline more) (ls ++ more) := by
  obtain ⟨rest, hstores, hline, -⟩ := h
  rw [repairIncompleteTail_eq]
  refine ⟨[], hstores.whole.append ⟨(List.append_nil _).symm, hends, List.not_mem_nil⟩, ?_,
    fun h => absurd rfl h⟩
  intro l hl
  rcases List.mem_append.mp hl with hl | hl
  · exact hline l hl
  · exact hmore l hl

theorem forall₂_append_left {α β : Type} {R : α → β → Prop} {l₁ l₂ : List α} {l : List β}
    (h : List.Forall₂ R (l₁ ++ l₂) l) :
    ∃ k₁ k₂, l = k₁ ++ k₂ ∧ List.Forall₂ R l₁ k₁ ∧ List.Forall₂ R l₂ k₂ :=
  ⟨l.take l₁.length, l.drop l₁.length, (List.take_append_drop _ _).symm,
    (List.forall₂_take_append l l₁ l₂ h.flip).flip, (List.forall₂_drop_append l l₁ l₂ h.flip).flip⟩

/-- The lines in front of the current file, and those of the current file if there is one. -/
theorem split_current {front : List Bytes} {current : Option Bytes} {groups : List (List Bytes)}
    (h : List.Forall₂ (Holds line part) (front ++ current.toList) groups) :
    ∃ before now, List.Forall₂ (Holds line part) front before ∧
      Holds line part (current.getD []) now ∧ before.flatten ++ now = groups.flatten := by
  obtain ⟨before, back, rfl, hfront, hback⟩ := forall₂_append_left h
  cases current with
  | none =>
    obtain rfl := List.forall₂_nil_left_iff.mp hback
    exact ⟨before, [], hfront, holds_nil, by simp⟩
  | some content =>
    obtain ⟨now, rest, hnow, hrest, rfl⟩ := List.forall₂_cons_left_iff.mp hback
    obtain rfl := List.forall₂_nil_left_iff.mp hrest
    exact ⟨before, now, hfront, hnow, by simp⟩

theorem exists_of_forall₂ {α β : Type} {R : α → β → Prop} {l : List α} {k : List β}
    (h : List.Forall₂ R l k) {b : β} (hb : b ∈ k) : ∃ a ∈ l, R a b := by
  induction h with
  | nil => exact absurd hb List.not_mem_nil
  | cons hab hrest ih =>
    rcases List.mem_cons.mp hb with rfl | hb
    · exact ⟨_, List.mem_cons_self, hab⟩
    · obtain ⟨a, ha, hrel⟩ := ih hb
      exact ⟨a, List.mem_cons_of_mem _ ha, hrel⟩

section
variable {s : State F} {first : Event F} {events : List (Event F)} {encoded : Bytes}

theorem step_rejected {fate : Fate} {message : String} (hsource : first.sourceID = source)
    (h : encode json source (first :: events) = .error message) :
    step json store source s ⟨first :: events, fate⟩ = s := by
  subst hsource
  simp only [step, List.head?_cons, ne_eq, not_true_eq_false, if_false, append, h]
  rfl

theorem step_stops (hsource : first.sourceID = source)
    (h : encode json source (first :: events) = .ok encoded) (done : Nat) :
    step json store source s ⟨first :: events, .stops done⟩ =
      ⟨apply ((changes store encoded s.disk).take done) s.disk, s.acknowledged⟩ := by
  subst hsource
  simp only [step, List.head?_cons, ne_eq, not_true_eq_false, if_false, append, h]
  rfl

theorem step_returns (hsource : first.sourceID = source)
    (h : encode json source (first :: events) = .ok encoded) :
    step json store source s ⟨first :: events, .returns⟩ =
      ⟨apply (changes store encoded s.disk) s.disk, s.acknowledged ++ first :: events⟩ := by
  subst hsource
  simp only [step, List.head?_cons, ne_eq, not_true_eq_false, if_false, append, h]
  rfl

end

/-- A call only adds lines, in the order of its events; without an error it adds all of them. -/
theorem append_kept (hjson : json.Lawful) {s : State F} {groups : List (List Bytes)}
    (h : Kept json store.keepFiles source line part s groups) {first : Event F}
    {events : List (Event F)} (hsource : first.sourceID = source) {fate : Fate}
    (hknown : ∀ e ∈ first :: events, ∀ l, Encodes json source e l →
      line l ∧ ∀ p, p <+: l → part p) :
    ∃ groups', Kept json store.keepFiles source line part
      (step json store source s ⟨first :: events, fate⟩) groups' := by
  obtain ⟨acked, hacked, hsub⟩ := h.acknowledged
  cases hencode : encode json source (first :: events) with
  | error message =>
    rw [step_rejected hsource hencode]
    exact ⟨groups, h⟩
  | ok encoded =>
    obtain ⟨ls, hls, rfl⟩ := encode_ok hencode
    have hends : ∀ l ∈ ls, newline ∉ l := by
      intro l hl
      obtain ⟨e, -, he⟩ := exists_of_forall₂ hls hl
      exact hjson.one_line he.marshals
    have hlines : ∀ l ∈ ls, line l ∧ ∀ p, p <+: l → part p := by
      intro l hl
      obtain ⟨e, he, hrel⟩ := exists_of_forall₂ hls hl
      exact hknown e he l hrel
    obtain ⟨front, current, hhistory, hstopped, hall⟩ :=
      history_changes store (stored newline ls) s.disk
    have hfiles := h.files
    rw [hhistory] at hfiles
    obtain ⟨before, now, hbefore, hnow, hflat⟩ := split_current hfiles
    have hsnoc : ∀ {c : Bytes} {g : List Bytes}, Holds line part c g →
        List.Forall₂ (Holds line part) (front ++ [c]) (before ++ [g]) := fun hg =>
      List.rel_append hbefore (List.Forall₂.cons hg List.Forall₂.nil)
    cases fate with
    | stops done =>
      rw [step_stops hsource hencode]
      rcases hstopped done with hsame | hopened | ⟨n, hwritten⟩
      · exact ⟨groups, by rw [hsame]; exact h.files, acked, hacked, hsub⟩
      · refine ⟨before ++ [now], by rw [hopened]; exact hsnoc hnow, acked, hacked, ?_⟩
        rw [List.flatten_append, List.flatten_singleton, hflat]
        exact hsub
      · obtain ⟨k, hk⟩ := hnow.append_stored hends hlines n
        refine ⟨before ++ [now ++ ls.take k], by rw [hwritten]; exact hsnoc hk, acked, hacked, ?_⟩
        rw [List.flatten_append, List.flatten_singleton, ← List.append_assoc, hflat]
        exact hsub.trans (List.sublist_append_left _ _)
    | returns =>
      rw [step_returns hsource hencode]
      have hk := hnow.append_all hends fun l hl => (hlines l hl).1
      refine ⟨before ++ [now ++ ls], by rw [hall]; exact hsnoc hk, acked ++ ls,
        List.rel_append hacked hls, ?_⟩
      rw [List.flatten_append, List.flatten_singleton, ← List.append_assoc, hflat]
      exact hsub.append (List.Sublist.refl ls)

theorem step_kept (hjson : json.Lawful) {s : State F} {groups : List (List Bytes)}
    (h : Kept json store.keepFiles source line part s groups) {call : Call F}
    (hknown : ∀ e ∈ call.events, ∀ l, Encodes json source e l → line l ∧ ∀ p, p <+: l → part p) :
    ∃ groups', Kept json store.keepFiles source line part (step json store source s call)
      groups' := by
  obtain ⟨events, fate⟩ := call
  cases events with
  | nil => exact ⟨groups, h⟩
  | cons first events =>
    by_cases hsource : first.sourceID = source
    · exact append_kept hjson h hsource hknown
    · refine ⟨groups, ?_⟩
      have hsame : step json store source s ⟨first :: events, fate⟩ = s := by
        simp only [step, List.head?_cons, ne_eq, hsource, not_false_eq_true, if_true]
      rw [hsame]
      exact h

/-! ## Runs -/

theorem exists_holds {files : List Bytes}
    (h : ∀ content ∈ files, ∀ l ∈ lines newline content, line l ∧ part l) :
    ∃ groups, List.Forall₂ (Holds line part) files groups := by
  induction files with
  | nil => exact ⟨[], List.Forall₂.nil⟩
  | cons content files ih =>
    obtain ⟨groups, hgroups⟩ := ih fun c hc => h c (List.mem_cons_of_mem content hc)
    obtain ⟨ls, rest, hstores⟩ := exists_stores newline content
    have hlines := h content List.mem_cons_self
    rw [hstores.lines_eq] at hlines
    refine ⟨ls :: groups, hgroups.cons ⟨rest, hstores, ?_, ?_⟩⟩
    · exact fun l hl => (hlines l (List.mem_append_left _ hl)).1
    · intro hne
      rw [if_neg hne] at hlines
      exact (hlines rest (List.mem_append_right _ (List.mem_singleton_self rest))).2

theorem run_kept (hjson : json.Lawful) {disk : Disk} {calls : List (Call F)}
    (hold : ∀ content ∈ history store.keepFiles disk, ∀ l ∈ lines newline content,
      line l ∧ part l)
    (hnew : ∀ call ∈ calls, ∀ e ∈ call.events, ∀ l, Encodes json source e l →
      line l ∧ ∀ p, p <+: l → part p) :
    ∃ groups, Kept json store.keepFiles source line part (run json store source disk calls)
      groups := by
  induction calls using List.reverseRecOn with
  | nil =>
    obtain ⟨groups, hgroups⟩ := exists_holds hold
    exact ⟨groups, hgroups, [], List.Forall₂.nil, List.nil_sublist _⟩
  | append_singleton calls call ih =>
    obtain ⟨groups, hkept⟩ := ih fun c hc => hnew c (List.mem_append_left _ hc)
    rw [run, List.foldl_append]
    exact step_kept hjson hkept (hnew call (List.mem_append_right _ (List.mem_singleton_self call)))

/-- What the reader makes of a line. -/
def decode (json : Json F) (l : Bytes) : Option (Event F) :=
  if tooLong l then none else json.unmarshal (keptPart l)

/-- The events in a file, the oldest first. -/
def readable (json : Json F) (content : Bytes) : List (Event F) :=
  (lines newline content).filterMap (decode json)

theorem decode_of_short {l : Bytes} (h : l.length ≤ maxJSONLineBytes) :
    decode json l = json.unmarshal l := by
  rw [decode, tooLong, decide_eq_false (Nat.not_lt.mpr h), keptPart_of_short h]
  rfl

theorem Encodes.decode_eq (hjson : json.Lawful) {e : Event F} {l : Bytes}
    (h : Encodes json source e l) : decode json l = some e := by
  rw [decode_of_short h.fits, hjson.reads h.marshals]

theorem decode_encoded (hjson : json.Lawful) {events : List (Event F)} {ls : List Bytes}
    (h : List.Forall₂ (Encodes json source) events ls) : ls.filterMap (decode json) = events := by
  induction h with
  | nil => rfl
  | cons he _ ih => rw [List.filterMap_cons_some (he.decode_eq hjson), ih]

theorem readable_sublist {files : List Bytes} {groups : List (List Bytes)}
    (h : List.Forall₂ (Holds line part) files groups) :
    (groups.flatten.filterMap (decode json)).Sublist (files.flatMap (readable json)) := by
  induction h with
  | nil => exact List.Sublist.refl _
  | cons hholds _ ih =>
    obtain ⟨rest, hstores, -, -⟩ := hholds
    rw [List.flatten_cons, List.filterMap_append, List.flatMap_cons, readable, hstores.lines_eq,
      List.filterMap_append]
    exact (List.sublist_append_left _ _).append ih

/-- Of the acknowledged events the first ones were in the removed archives, and all others are read
back. -/
theorem acknowledged_read (hjson : json.Lawful) {s : State F} {groups : List (List Bytes)}
    (h : Kept json store.keepFiles source line part s groups) :
    ∃ gone kept, s.acknowledged = gone ++ kept ∧
      gone.Sublist (s.disk.expired.flatMap (readable json)) ∧
      kept.Sublist ((filesNewestFirst store.keepFiles s.disk).reverse.flatMap (readable json)) := by
  obtain ⟨acked, hacked, hsub⟩ := h.acknowledged
  have hread :
      s.acknowledged.Sublist ((history store.keepFiles s.disk).flatMap (readable json)) := by
    rw [← decode_encoded hjson hacked]
    exact (hsub.filterMap (decode json)).trans (readable_sublist h.files)
  rw [history, List.flatMap_append] at hread
  exact List.sublist_append_iff.mp hread

/-- A line that was there before. -/
def Old (store : Store) (disk : Disk) (l : Bytes) : Prop :=
  ∃ content ∈ history store.keepFiles disk, l ∈ lines newline content

/-- The line of an event of a call. -/
def New (json : Json F) (source : String) (calls : List (Call F)) (e : Event F) (l : Bytes) :
    Prop :=
  Encodes json source e l ∧ ∃ call ∈ calls, e ∈ call.events

/-- Every file consists of lines that were there before and lines of events, in one piece, and at
most a part of such a line behind them. -/
theorem run_structured (hjson : json.Lawful) (disk : Disk) (calls : List (Call F)) :
    let s := run json store source disk calls
    (∀ content ∈ history store.keepFiles s.disk, ∃ ls rest, Stores newline content ls rest ∧
      (∀ l ∈ ls, Old store disk l ∨ ∃ e, New json source calls e l) ∧
      (rest ≠ [] → Old store disk rest ∨ ∃ e l, New json source calls e l ∧ rest <+: l)) ∧
    ∃ gone kept, s.acknowledged = gone ++ kept ∧
      gone.Sublist (s.disk.expired.flatMap (readable json)) ∧
      kept.Sublist ((filesNewestFirst store.keepFiles s.disk).reverse.flatMap (readable json)) := by
  obtain ⟨groups, hkept⟩ : ∃ groups, Kept json store.keepFiles source
      (fun l => Old store disk l ∨ ∃ e, New json source calls e l)
      (fun p => Old store disk p ∨ ∃ e l, New json source calls e l ∧ p <+: l)
      (run json store source disk calls) groups := by
    apply run_kept hjson
    · exact fun content hcontent l hl =>
        ⟨Or.inl ⟨content, hcontent, hl⟩, Or.inl ⟨content, hcontent, hl⟩⟩
    · exact fun call hcall e he l hl => ⟨Or.inr ⟨e, hl, call, hcall, he⟩,
        fun p hp => Or.inr ⟨e, l, ⟨hl, call, hcall, he⟩, hp⟩⟩
  refine ⟨?_, acknowledged_read hjson hkept⟩
  intro content hcontent
  obtain ⟨ls, -, rest, hholds⟩ := exists_of_forall₂ hkept.files.flip hcontent
  exact ⟨ls, rest, hholds⟩

/-- All that is read is of the source, if what was there before was. -/
theorem run_source (hjson : json.Lawful) {disk : Disk} {calls : List (Call F)}
    (hold : ∀ e ∈ (history store.keepFiles disk).flatMap (readable json), e.sourceID = source) :
    ∀ e ∈ (history store.keepFiles (run json store source disk calls).disk).flatMap (readable json),
      e.sourceID = source := by
  have holdLine : ∀ l, Old store disk l → ∀ e, decode json l = some e → e.sourceID = source := by
    rintro l ⟨content, hcontent, hl⟩ e he
    exact hold e (List.mem_flatMap.mpr ⟨content, hcontent, List.mem_filterMap.mpr ⟨l, hl, he⟩⟩)
  intro e he
  obtain ⟨content, hcontent, he⟩ := List.mem_flatMap.mp he
  obtain ⟨l, hl, hdecode⟩ := List.mem_filterMap.mp he
  obtain ⟨ls, rest, hstores, hlines, hrest⟩ := (run_structured hjson disk calls).1 content hcontent
  rw [hstores.lines_eq, List.mem_append] at hl
  rcases hl with hl | hl
  · rcases hlines l hl with hl | ⟨e', hnew, -⟩
    · exact holdLine l hl e hdecode
    · rw [hnew.decode_eq hjson] at hdecode
      exact Option.some.inj hdecode ▸ hnew.source_eq
  · have hne : rest ≠ [] := by
      rintro rfl
      rw [if_pos rfl] at hl
      exact absurd hl List.not_mem_nil
    rw [if_neg hne, List.mem_singleton] at hl
    subst hl
    rcases hrest hne with hl | ⟨e', whole, ⟨hnew, -⟩, hpart⟩
    · exact holdLine l hl e hdecode
    · by_cases hall : l = whole
      · subst hall
        rw [hnew.decode_eq hjson] at hdecode
        exact Option.some.inj hdecode ▸ hnew.source_eq
      · rw [decode_of_short (Nat.le_trans hpart.length_le hnew.fits),
          hjson.part hnew.marshals hpart hall] at hdecode
        cases hdecode

end

end RcdServer.LowerLogs.Files
