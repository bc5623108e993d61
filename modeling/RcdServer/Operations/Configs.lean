import RcdServer.Operations.Files

/-!
# Compare and swap of configuration files

The call with the lock carries what it has validated: the set it read first. Once its last reading
agrees with that set nobody else can change a file, so the set after the rename is the validated
one. A call that has renamed its file returns an error only if a later step of it fails.
-/
namespace RcdServer.Operations.Files

open Lib Lib.Run

/-! ## Sets of files -/

theorem lookup_candidate (r : Request) (original : ConfigSet) (name : String) :
    (candidate r original).lookup name =
      (original.lookup name).map fun bytes => if name = r.target then r.bytes else bytes :=
  Map.lookup_mapValues

/-- The files that are there and their revisions agree. -/
theorem setChanged_none {ext : Externals} {expected current : ConfigSet}
    (h : setChanged ext expected current = none) (name : String) :
    (expected.lookup name).map ext.digest = (current.lookup name).map ext.digest := by
  unfold setChanged at h
  split_ifs at h with hlength
  have hmem : ∀ name bytes, current.lookup name = some bytes →
      (expected.lookup name).map ext.digest = some (ext.digest bytes) := by
    intro name bytes hname
    have hkey : name ∈ current.keys := AList.mem_keys.mpr (Map.mem_iff.mpr ⟨bytes, hname⟩)
    have hnone := List.findSome?_eq_none_iff.mp h name (Text.mem_sortTexts.mpr hkey)
    rw [hname] at hnone
    simpa using hnone
  cases hcurrent : current.lookup name with
  | some bytes => exact hmem name bytes hcurrent
  | none =>
    have hsub : current.keys ⊆ expected.keys := by
      intro key hkey
      obtain ⟨bytes, hbytes⟩ := Map.mem_iff.mp (AList.mem_keys.mpr hkey)
      have hsome := hmem key bytes hbytes
      obtain ⟨found, hfound, -⟩ := Option.map_eq_some_iff.mp hsome
      exact AList.mem_keys.mp (Map.mem_iff.mpr ⟨found, hfound⟩)
    have hperm : current.keys.Perm expected.keys :=
      (List.subperm_of_subset (AList.keys_nodup _) hsub).perm_of_length_le (by omega)
    have hnone : expected.lookup name = none := by
      rw [AList.lookup_eq_none, AList.mem_keys, ← hperm.mem_iff, ← AList.mem_keys]
      exact AList.lookup_eq_none.mp hcurrent
    rw [hnone]

/-- Contents whose revisions agree are the same where SHA-256 tells them apart. -/
theorem same_of_digest {ext : Externals} {contents : Set ByteArray}
    (hsha : Set.InjOn ext.digest contents) {a b : Option ByteArray}
    (ha : ∀ bytes, a = some bytes → bytes ∈ contents) (hb : ∀ bytes, b = some bytes → bytes ∈ contents)
    (h : a.map ext.digest = b.map ext.digest) : a = b := by
  cases a with
  | none =>
    cases b with
    | none => rfl
    | some y => simp at h
  | some x =>
    cases b with
    | none => simp at h
    | some y =>
      have hxy : ext.digest x = ext.digest y := by simpa using h
      rw [hsha (ha x rfl) (hb y rfl) hxy]

theorem fromUTF8_bytes (r : Request) : String.fromUTF8? r.bytes = some r.content :=
  Lib.Text.fromUTF8_text r.content

/-! ## What a call knows -/

variable {ι : Type}

/-- The call has renamed a file. -/
def Committed (s : State ι) (i : ι) : Prop := ∃ change ∈ s.history, change.writer = some i

def Stored (s : State ι) (r : Request) (bytes : ByteArray) : Prop :=
  ∃ id, s.backups.lookup (r.target, id) = some bytes

/-- The set that the call compared and validated. -/
structure Original (ext : Externals) (contents : Set ByteArray) (r : Request) (original : ConfigSet)
    (current : ByteArray) : Prop where
  found : original.lookup r.target = some current
  named : ext.digest current = r.expected
  valid : validate ext r (candidate r original) = none
  known : ∀ name bytes, original.lookup name = some bytes → bytes ∈ contents

/-- The files are those of the validated candidate. -/
structure Written (ext : Externals) (s : State ι) (i : ι) (r : Request) (before : ByteArray) :
    Prop where
  named : ext.digest before = r.expected
  content : s.contents r.target = some r.bytes
  valid : r.kind = .config → ext.validateSet s.contents = []
  replaced : (before = r.bytes ∧ ¬ Committed s i) ∨
    (Stored s r before ∧ ⟨some i, r.target, some before, some r.bytes⟩ ∈ s.history)

def UseOk (ext : Externals) (contents : Set ByteArray) (s : State ι) (r : Request) : Use → Prop
  | .snapshot => True
  | .validated original current => Original ext contents r original current
  | .backedUp original => ∃ current, Original ext contents r original current ∧ Stored s r current

/-- The files before the rename are those that were validated with the new content. -/
def Ready (ext : Externals) (contents : Set ByteArray) (s : State ι) (r : Request) : Prop :=
  ∃ original current, Original ext contents r original current ∧ Stored s r current ∧
    ∀ name, original.lookup name = s.contents name

/-- A late reading of the set agrees with the files as far as it has come. -/
def Reads (contents : Set ByteArray) (s : State ι) (r : Request) (use : Use) (todo : List String)
    (got : ConfigSet) : Prop :=
  (∀ name bytes, got.lookup name = some bytes → bytes ∈ contents) ∧
    (Phase.late r (.list use) = true → ∀ name, name ∉ todo → got.lookup name = s.contents name)

def PhaseOk (ext : Externals) (contents : Set ByteArray) (s : State ι) (i : ι) (r : Request) :
    Phase → Prop
  | .lock | .done (.error _) => ¬ Committed s i
  | .list use => UseOk ext contents s r use ∧ ¬ Committed s i
  | .read use todo got =>
    (UseOk ext contents s r use ∧ Reads contents s r use todo got) ∧ ¬ Committed s i
  | .backup original current => Original ext contents r original current ∧ ¬ Committed s i
  | .syncBackup original =>
    (∃ current, Original ext contents r original current ∧ Stored s r current) ∧ ¬ Committed s i
  | .prepare | .rename _ => Ready ext contents s r ∧ ¬ Committed s i
  | .syncDirectory | .answer => ∃ before, Written ext s i r before
  | .done (.ok _) => True

def Phase.holds : Phase → Bool
  | .lock | .done _ => false
  | _ => true

def Phase.returned : Phase → Bool
  | .done _ => true
  | _ => false

/-! ## Histories -/

def contentsAfter (start : String → Option ByteArray) (history : List (Change ι)) :
    String → Option ByteArray :=
  history.foldl (fun contents change => Function.update contents change.name change.after) start

/-- The call has replaced what its caller named. -/
def Change.Named (ext : Externals) (change : Change ι) (r : Request) : Prop :=
  change.name = r.target ∧ change.before.map ext.digest = some r.expected ∧
    change.after = some r.bytes

/-- Every change starts from what the last one has left, and calls change only what they name. -/
structure Chained (ext : Externals) (start : String → Option ByteArray) (s : State ι) : Prop where
  replay : s.contents = contentsAfter start s.history
  before : ∀ h₁ change h₂, s.history = h₁ ++ change :: h₂ →
    change.before = contentsAfter start h₁ change.name
  named : ∀ change ∈ s.history, ∀ i, change.writer = some i →
    ∃ c, s.calls i = some c ∧ change.Named ext c.request

theorem contentsAfter_snoc (start : String → Option ByteArray) (history : List (Change ι))
    (change : Change ι) : contentsAfter start (history ++ [change]) =
      Function.update (contentsAfter start history) change.name change.after := by
  simp [contentsAfter]

theorem eq_snoc_cases {α : Type} {l h₁ h₂ : List α} {a b : α} (h : l ++ [a] = h₁ ++ b :: h₂) :
    (h₁ = l ∧ b = a) ∨ ∃ h₃, l = h₁ ++ b :: h₃ := by
  rcases List.eq_nil_or_concat h₂ with rfl | ⟨h₃, last, rfl⟩
  · obtain ⟨rfl, hlast⟩ := List.append_inj' h rfl
    left
    refine ⟨rfl, ?_⟩
    simpa using hlast.symm
  · have h' : l ++ [a] = (h₁ ++ b :: h₃) ++ [last] := by simpa using h
    obtain ⟨rfl, -⟩ := List.append_inj' h' rfl
    exact .inr ⟨h₃, rfl⟩

theorem Chained.congr {ext : Externals} {start : String → Option ByteArray} {s t : State ι}
    (h : Chained ext start s) (hhistory : t.history = s.history) (hcontents : t.contents = s.contents)
    (hcalls : ∀ i c, s.calls i = some c → ∃ c', t.calls i = some c' ∧ c'.request = c.request) :
    Chained ext start t where
  replay := by rw [hcontents, h.replay, hhistory]
  before := by
    rw [hhistory]
    exact h.before
  named := by
    rw [hhistory]
    intro d hd i hi
    obtain ⟨c, hc, hn⟩ := h.named d hd i hi
    obtain ⟨c', hc', hr⟩ := hcalls i c hc
    exact ⟨c', hc', hr ▸ hn⟩

/-! ## The invariant -/

structure Inv (ext : Externals) (contents : Set ByteArray) (start : String → Option ByteArray)
    (s : State ι) : Prop where
  lock : ∀ i, s.holder = some i ↔ ∃ c, s.calls i = some c ∧ c.phase.holds = true
  phases : ∀ i c, s.calls i = some c → PhaseOk ext contents s i c.request c.phase
  fits : ∀ i c, s.calls i = some c → c.phase.returned = false →
    c.request.bytes ∈ contents ∧ c.request.bytes.size ≤ maxConfigBytes
  known : ∀ name bytes, s.contents name = some bytes → bytes ∈ contents
  chained : Chained ext start s

/-- What the phase of a call says stays true as long as the late phases see no change. -/
theorem PhaseOk.frame {ext : Externals} {contents : Set ByteArray} {s t : State ι} {i : ι}
    {r : Request} {p : Phase} (h : PhaseOk ext contents s i r p)
    (hfiles : p.late r = true → t.contents = s.contents)
    (hbackups : p.holds = true → t.backups = s.backups)
    (hcommitted : Committed t i ↔ Committed s i) (hhistory : s.history ⊆ t.history) :
    PhaseOk ext contents t i r p := by
  have hstored : p.holds = true → ∀ bytes, Stored s r bytes → Stored t r bytes := by
    rintro hp bytes ⟨id, hid⟩
    exact ⟨id, by rw [hbackups hp, hid]⟩
  have huse : p.holds = true → ∀ use, UseOk ext contents s r use → UseOk ext contents t r use := by
    intro hp use huse
    cases use with
    | snapshot => trivial
    | validated original current => exact huse
    | backedUp original =>
      obtain ⟨current, horiginal, hs⟩ := huse
      exact ⟨current, horiginal, hstored hp _ hs⟩
  have hwritten : p.late r = true → p.holds = true → ∀ before, Written ext s i r before →
      Written ext t i r before := by
    intro hlate hp before hw
    refine ⟨hw.named, by rw [hfiles hlate, hw.content], fun hk => by rw [hfiles hlate, hw.valid hk], ?_⟩
    rcases hw.replaced with ⟨hsame, hno⟩ | ⟨hs, hchange⟩
    · exact .inl ⟨hsame, fun hc => hno (hcommitted.mp hc)⟩
    · exact .inr ⟨hstored hp _ hs, hhistory hchange⟩
  have hready : p.late r = true → p.holds = true → Ready ext contents s r →
      Ready ext contents t r := by
    rintro hlate hp ⟨original, current, horiginal, hs, hsame⟩
    exact ⟨original, current, horiginal, hstored hp _ hs, fun name => by rw [hfiles hlate, hsame]⟩
  cases p with
  | lock => exact fun hc => h (hcommitted.mp hc)
  | list use => exact ⟨huse rfl use h.1, fun hc => h.2 (hcommitted.mp hc)⟩
  | read use todo got =>
    obtain ⟨⟨hu, hbytes, hlate⟩, hno⟩ := h
    refine ⟨⟨huse rfl use hu, hbytes, fun hl name hname => ?_⟩, fun hc => hno (hcommitted.mp hc)⟩
    have hlater : Phase.late r (.read use todo got) = true := by
      cases use <;> exact hl
    rw [hfiles hlater]
    exact hlate hl name hname
  | backup original current => exact ⟨h.1, fun hc => h.2 (hcommitted.mp hc)⟩
  | syncBackup original =>
    obtain ⟨⟨current, horiginal, hs⟩, hno⟩ := h
    exact ⟨⟨current, horiginal, hstored rfl _ hs⟩, fun hc => hno (hcommitted.mp hc)⟩
  | prepare => exact ⟨hready rfl rfl h.1, fun hc => h.2 (hcommitted.mp hc)⟩
  | rename stamp => exact ⟨hready rfl rfl h.1, fun hc => h.2 (hcommitted.mp hc)⟩
  | syncDirectory =>
    obtain ⟨before, hw⟩ := h
    exact ⟨before, hwritten rfl rfl before hw⟩
  | answer =>
    obtain ⟨before, hw⟩ := h
    exact ⟨before, hwritten rfl rfl before hw⟩
  | done result =>
    cases result with
    | ok doc => trivial
    | error e => exact fun hc => h (hcommitted.mp hc)

/-- Only one call has the lock. -/
theorem Inv.alone {ext : Externals} {contents : Set ByteArray}
    {start : String → Option ByteArray} {s : State ι} {i : ι} (h : Inv ext contents start s) (hi : s.holder = some i) {j : ι} {d : Call}
    (hd : s.calls j = some d) (hne : j ≠ i) : d.phase.holds = false := by
  by_contra hholds
  rw [Bool.not_eq_false] at hholds
  have hj := (h.lock j).mpr ⟨d, hd, hholds⟩
  rw [hi] at hj
  exact hne (Option.some.inj hj).symm

/-! ## Readings of the set -/

section

variable {ext : Externals} {contents : Set ByteArray} {start : String → Option ByteArray}
  {s : State ι} {i : ι}

/-- A call whose last reading has come to its end. -/
theorem afterSet_ok (hsha : Set.InjOn ext.digest contents) {r : Request} {use : Use}
    {got : ConfigSet} (huse : UseOk ext contents s r use) (hreads : Reads contents s r use [] got)
    (hno : ¬ Committed s i) : PhaseOk ext contents s i r (afterSet ext r use got) := by
  obtain ⟨hbytes, hlate⟩ := hreads
  have hsame : ∀ original current, Original ext contents r original current →
      setChanged ext original got = none → Phase.late r (.list use) = true →
      ∀ name, original.lookup name = s.contents name := by
    intro original current horiginal hunchanged hl name
    have hgot := hlate hl
    rw [← hgot name (by simp)]
    exact same_of_digest hsha (horiginal.known name) (fun bytes => hbytes name bytes)
      (setChanged_none hunchanged name)
  cases use with
  | snapshot =>
    unfold afterSet
    dsimp only
    cases hfound : got.lookup r.target with
    | none => exact hno
    | some current =>
      dsimp only
      split_ifs with hrevision
      · exact hno
      · rw [ne_eq, not_not] at hrevision
        cases hvalid : validate ext r (candidate r got) with
        | some error => exact hno
        | none => exact ⟨⟨hfound, hrevision, hvalid, hbytes⟩, hno⟩
  | validated original current =>
    unfold afterSet
    dsimp only
    cases hchanged : setChanged ext original got with
    | some error => exact hno
    | none =>
      dsimp only
      split_ifs with heq
      · have hkept := hsame original current huse hchanged (by simp [Phase.late, heq])
        have hfound : s.contents r.target = some current := by rw [← hkept, huse.found]
        refine ⟨current, huse.named, by rw [hfound, heq], ?_, .inl ⟨heq.symm, hno⟩⟩
        intro hkind
        have hset : (fun name => (candidate r original).lookup name) = s.contents := by
          funext name
          rw [lookup_candidate, ← hkept]
          by_cases hname : name = r.target
          · subst hname
            simp [huse.found, heq]
          · simp [hname]
        have hvalid := huse.valid
        unfold validate at hvalid
        rw [hkind] at hvalid
        dsimp only at hvalid
        rw [hset] at hvalid
        simpa using hvalid
      · exact ⟨huse, hno⟩
  | backedUp original =>
    obtain ⟨current, horiginal, hs⟩ := huse
    unfold afterSet
    dsimp only
    cases hchanged : setChanged ext original got with
    | some error => exact hno
    | none => exact ⟨⟨original, current, horiginal, hs, hsame original current horiginal hchanged rfl⟩, hno⟩

theorem nextRead_ok (hsha : Set.InjOn ext.digest contents) {r : Request} {use : Use}
    {todo : List String} {got : ConfigSet}
    (huse : UseOk ext contents s r use) (hreads : Reads contents s r use todo got)
    (hno : ¬ Committed s i) : PhaseOk ext contents s i r (nextRead ext r use todo got) := by
  cases todo with
  | nil => exact afterSet_ok hsha huse hreads hno
  | cons name rest => exact ⟨⟨huse, hreads⟩, hno⟩

theorem nextRead_ne_lock {r : Request} {use : Use} {todo : List String} {got : ConfigSet} :
    nextRead ext r use todo got ≠ .lock := by
  unfold nextRead afterSet
  split
  · split
    · split
      · nofun
      · split
        · nofun
        · split <;> nofun
    · split
      · nofun
      · split <;> nofun
    · split <;> nofun
  · nofun

end

/-! ## Moves of one call -/

theorem contents_change (s : State ι) (writer : Option ι) (name : String) (file : Option File) :
    (s.change writer name file).contents =
      Function.update s.contents name (file.map (·.bytes)) := by
  funext other
  cases file with
  | none =>
    show ((s.files.erase name).lookup other).map _ = _
    rw [Map.lookup_erase_eq]
    by_cases hname : other = name
    · simp [hname]
    · simp [hname, State.contents]
  | some file =>
    show ((s.files.insert name file).lookup other).map _ = _
    rw [Map.lookup_insert_eq]
    by_cases hname : other = name
    · simp [hname]
    · simp [hname, State.contents]

/-- One more change, made to what is there. -/
theorem Chained.change {ext : Externals} {start : String → Option ByteArray} {s : State ι}
    (h : Chained ext start s) (writer : Option ι) (name : String) (file : Option File)
    (hnamed : ∀ i, writer = some i → ∃ c, s.calls i = some c ∧
      Change.Named ext (⟨writer, name, s.contents name, file.map (·.bytes)⟩ : Change ι) c.request) :
    Chained ext start (s.change writer name file) where
  replay := by
    rw [contents_change, h.replay]
    exact (contentsAfter_snoc start s.history
      ⟨writer, name, s.contents name, file.map (·.bytes)⟩).symm
  before := by
    intro h₁ d h₂ heq
    rcases eq_snoc_cases heq with ⟨rfl, rfl⟩ | ⟨h₃, hold⟩
    · exact congrFun h.replay name
    · exact h.before h₁ d h₃ hold
  named := by
    intro d hd i hi
    rcases List.mem_append.mp hd with hd | hd
    · exact h.named d hd i hi
    · obtain rfl := List.mem_singleton.mp hd
      exact hnamed i hi

theorem committed_change {s : State ι} {writer : Option ι} {name : String} {file : Option File}
    {i : ι} : Committed (s.change writer name file) i ↔ Committed s i ∨ writer = some i := by
  unfold Committed State.change
  simp only [List.mem_append, List.mem_singleton, or_and_right, exists_or, exists_eq_left]

variable [DecidableEq ι]

theorem goto_calls (s : State ι) (i : ι) (c : Call) (p : Phase) (j : ι) :
    (s.goto i c p).calls j = if j = i then some { c with phase := p } else s.calls j := by
  by_cases h : j = i
  · subst h
    simp [State.goto]
  · simp [State.goto, h]

theorem goto_holder (s : State ι) (i : ι) (c : Call) (p : Phase) :
    (s.goto i c p).holder =
      if p.returned = true ∧ s.holder = some i then none else s.holder := by
  cases p <;> simp [State.goto, Phase.returned]

/-- What is said of a phase does not depend on the lock and the calls. -/
theorem PhaseOk.goto {ext : Externals} {contents : Set ByteArray} {s : State ι} {i j : ι} {c : Call}
    {r : Request} {p q : Phase} (h : PhaseOk ext contents s j r p) :
    PhaseOk ext contents (s.goto i c q) j r p :=
  h.frame (fun _ => rfl) (fun _ => rfl) Iff.rfl (List.Subset.refl _)

theorem holds_or_returned (p : Phase) : p.holds = true ∨ p.returned = true ∨ p = .lock := by
  cases p <;> simp [Phase.holds, Phase.returned]

theorem not_both (p : Phase) (h : p.holds = true) : p.returned = false := by
  cases p <;> simp_all [Phase.holds, Phase.returned]

section

variable {ext : Externals} {contents : Set ByteArray} {start : String → Option ByteArray}
  {s t : State ι} {i : ι} {c : Call} {q : Phase}

/-- A call goes on from `t`, which differs from `s` in its files, its backups and the lock. -/
theorem Inv.move (h : Inv ext contents start s) (hc : s.calls i = some c)
    (hcalls : t.calls = s.calls) (hholder : t.holder = s.holder)
    (hhold : q.holds = true → c.phase.holds = true) (hq : q ≠ .lock)
    (hothers : ∀ j d, j ≠ i → s.calls j = some d → PhaseOk ext contents t j d.request d.phase)
    (hphase : PhaseOk ext contents t i c.request q)
    (hfits : c.phase.returned = false)
    (hknown : ∀ name bytes, t.contents name = some bytes → bytes ∈ contents)
    (hchained : Chained ext start t) : Inv ext contents start (t.goto i c q) where
  lock := by
    intro j
    rw [goto_holder, goto_calls, hholder, hcalls]
    by_cases hj : j = i
    · subst hj
      simp only [if_true, Option.some.injEq, exists_eq_left']
      by_cases hholds : q.holds = true
      · have hmine : s.holder = some j := (h.lock j).mpr ⟨c, hc, hhold hholds⟩
        simp [hholds, not_both q hholds, hmine]
      · have hret : q.returned = true := by
          rcases holds_or_returned q with h' | h' | h'
          · exact absurd h' hholds
          · exact h'
          · exact absurd h' hq
        by_cases hmine : s.holder = some j
        · simp [hret, hmine, hholds]
        · simp [hret, hmine, hholds]
    · rw [if_neg hj, ← h.lock j]
      by_cases hmine : s.holder = some i
      · have hother : s.holder ≠ some j := by
          rw [hmine]
          exact fun heq => hj (Option.some.inj heq).symm
        by_cases hret : q.returned = true
        · simp [hret, hmine, Ne.symm hj]
        · simp [hret, hmine]
      · simp [hmine]
  phases := by
    intro j d hd
    rw [goto_calls] at hd
    by_cases hj : j = i
    · subst hj
      rw [if_pos rfl] at hd
      obtain rfl := Option.some.inj hd
      exact hphase.goto
    · rw [if_neg hj, hcalls] at hd
      exact (hothers j d hj hd).goto
  fits := by
    intro j d hd hlive
    rw [goto_calls] at hd
    by_cases hj : j = i
    · subst hj
      rw [if_pos rfl] at hd
      obtain rfl := Option.some.inj hd
      exact h.fits j c hc hfits
    · rw [if_neg hj, hcalls] at hd
      exact h.fits j d hd hlive
  known := hknown
  chained := by
    refine hchained.congr (t := t.goto i c q) rfl rfl ?_
    intro j d hd
    rw [goto_calls]
    by_cases hj : j = i
    · subst hj
      rw [hcalls, hc] at hd
      obtain rfl := Option.some.inj hd
      exact ⟨_, if_pos rfl, rfl⟩
    · exact ⟨d, by rw [if_neg hj, hd], rfl⟩

/-- A step that changes nothing but the phase. -/
theorem Inv.pass (h : Inv ext contents start s) (hc : s.calls i = some c)
    (hhold : q.holds = true → c.phase.holds = true) (hq : q ≠ .lock)
    (hfits : c.phase.returned = false) (hphase : PhaseOk ext contents s i c.request q) :
    Inv ext contents start (s.goto i c q) :=
  h.move hc rfl rfl hhold hq (fun j d _ hd => h.phases j d hd) hphase hfits h.known h.chained

/-- The free lock is taken. -/
theorem Inv.takeLock (h : Inv ext contents start s) (hc : s.calls i = some c)
    (hp : c.phase = .lock) (hfree : s.holder = none) :
    Inv ext contents start ({ s with holder := some i }.goto i c (.list .snapshot)) where
  lock := by
    intro j
    rw [goto_holder, goto_calls]
    by_cases hj : j = i
    · subst hj
      simp [Phase.returned, Phase.holds]
    · have hnone := h.lock j
      rw [hfree] at hnone
      rw [if_neg hj, ← hnone]
      simp [Phase.returned, Ne.symm hj]
  phases := by
    intro j d hd
    rw [goto_calls] at hd
    by_cases hj : j = i
    · subst hj
      rw [if_pos rfl] at hd
      obtain rfl := Option.some.inj hd
      have hlock := h.phases j c hc
      rw [hp] at hlock
      exact ⟨trivial, hlock⟩
    · rw [if_neg hj] at hd
      exact (h.phases j d hd).frame (fun _ => rfl) (fun _ => rfl) Iff.rfl (List.Subset.refl _)
  fits := by
    intro j d hd hlive
    rw [goto_calls] at hd
    by_cases hj : j = i
    · subst hj
      rw [if_pos rfl] at hd
      obtain rfl := Option.some.inj hd
      exact h.fits j c hc (by rw [hp]; rfl)
    · rw [if_neg hj] at hd
      exact h.fits j d hd hlive
  known := h.known
  chained := by
    refine h.chained.congr (t := { s with holder := some i }.goto i c (.list .snapshot)) rfl rfl ?_
    intro j d hd
    rw [goto_calls]
    by_cases hj : j = i
    · subst hj
      rw [hc] at hd
      obtain rfl := Option.some.inj hd
      exact ⟨_, if_pos rfl, rfl⟩
    · exact ⟨d, by rw [if_neg hj, hd], rfl⟩

theorem late_holds {r : Request} {p : Phase} (h : p.late r = true) : p.holds = true := by
  cases p <;> simp_all [Phase.late, Phase.holds]

/-- The call with the lock keeps the replaced bytes; the others do not look at them. -/
theorem Inv.storeBackup (h : Inv ext contents start s) (hc : s.calls i = some c)
    {original : ConfigSet} {current : ByteArray} (hp : c.phase = .backup original current)
    (fresh : Nat) :
    Inv ext contents start
      ({ s with backups := s.backups.insert (c.request.target, ⟨fresh, ext.digest current⟩) current
        }.goto i c (.syncBackup original)) := by
  have hholds : c.phase.holds = true := by rw [hp]; rfl
  have hmine : s.holder = some i := (h.lock i).mpr ⟨c, hc, hholds⟩
  have hphase := h.phases i c hc
  rw [hp] at hphase
  obtain ⟨horiginal, hno⟩ := hphase
  refine h.move (q := .syncBackup original) (t := { s with
    backups := s.backups.insert (c.request.target, ⟨fresh, ext.digest current⟩) current }) hc rfl rfl
    (fun _ => hholds) nofun ?_ ?_ ?_ ?_ ?_
  · intro j d hj hd
    have hidle := h.alone hmine hd hj
    refine (h.phases j d hd).frame (fun _ => rfl) (fun hd' => ?_) Iff.rfl (List.Subset.refl _)
    rw [hidle] at hd'
    cases hd'
  · exact ⟨⟨current, horiginal, _, AList.lookup_insert _⟩, hno⟩
  · rw [hp]
    rfl
  · exact h.known
  · exact h.chained.congr rfl rfl fun j d hd => ⟨d, hd, rfl⟩

/-- The rename: the set becomes the validated candidate. -/
theorem Inv.commit (h : Inv ext contents start s) (hc : s.calls i = some c) {stamp : Nat}
    (hp : c.phase = .rename stamp) (fresh : Nat) :
    Inv ext contents start
      ((s.change (some i) c.request.target (some ⟨c.request.bytes, fresh⟩)).goto i c
        .syncDirectory) := by
  have hholds : c.phase.holds = true := by rw [hp]; rfl
  have hlive : c.phase.returned = false := by rw [hp]; rfl
  have hmine : s.holder = some i := (h.lock i).mpr ⟨c, hc, hholds⟩
  have hphase := h.phases i c hc
  rw [hp] at hphase
  obtain ⟨⟨original, current, horiginal, hstored, hkept⟩, -⟩ := hphase
  have hcurrent : s.contents c.request.target = some current := by rw [← hkept, horiginal.found]
  have hcontents := contents_change s (some i) c.request.target (some ⟨c.request.bytes, fresh⟩)
  have hset : (fun name => (candidate c.request original).lookup name) =
      (s.change (some i) c.request.target (some ⟨c.request.bytes, fresh⟩)).contents := by
    funext name
    rw [lookup_candidate, hcontents, hkept]
    by_cases hname : name = c.request.target
    · subst hname
      simp [hcurrent]
    · simp [hname]
  refine h.move (q := .syncDirectory)
    (t := s.change (some i) c.request.target (some ⟨c.request.bytes, fresh⟩)) hc rfl rfl
    (fun _ => hholds) nofun ?_ ?_ ?_ ?_ ?_
  · intro j d hj hd
    have hidle := h.alone hmine hd hj
    refine (h.phases j d hd).frame (fun hlate => ?_) (fun _ => rfl) ?_
      (List.subset_append_left _ _)
    · rw [late_holds hlate] at hidle
      cases hidle
    · rw [committed_change]
      simp [Ne.symm hj]
  · refine ⟨current, horiginal.named, ?_, ?_, .inr ⟨hstored, ?_⟩⟩
    · rw [hcontents]
      simp
    · intro hkind
      have hvalid := horiginal.valid
      unfold validate at hvalid
      rw [hkind] at hvalid
      dsimp only at hvalid
      rw [hset] at hvalid
      simpa using hvalid
    · show _ ∈ s.history ++ _
      rw [hcurrent]
      simp
  · exact hlive
  · intro name bytes hname
    rw [hcontents] at hname
    by_cases heq : name = c.request.target
    · subst heq
      rw [Function.update_self] at hname
      obtain rfl := Option.some.inj hname
      exact (h.fits i c hc hlive).1
    · rw [Function.update_of_ne heq] at hname
      exact h.known name bytes hname
  · apply h.chained.change
    intro j hj
    obtain rfl := Option.some.inj hj
    exact ⟨c, hc, rfl, by rw [hcurrent, Option.map_some, horiginal.named], rfl⟩

/-- The answer of a write whose file is in place. -/
theorem answer_ok {r : Request} {before : ByteArray} (hw : Written ext s i r before)
    (hsize : r.bytes.size ≤ maxConfigBytes) (fresh : Nat) (hp : c.phase = .answer)
    (hr : c.request = r) : ∃ doc, document ext c.active s.backups r.target r.bytes = .ok doc ∧
      proceed ext s i fresh c = some (s.goto i c (.done (.ok doc))) := by
  obtain ⟨file, hfile, hbytes⟩ := Option.map_eq_some_iff.mp hw.content
  obtain ⟨doc, hdoc⟩ : ∃ doc, document ext c.active s.backups r.target r.bytes = .ok doc := by
    unfold document
    rw [fromUTF8_bytes]
    exact ⟨_, rfl⟩
  refine ⟨doc, hdoc, ?_⟩
  unfold proceed
  rw [hp, hr]
  dsimp only
  rw [hfile]
  dsimp only
  rw [hbytes, if_neg (by omega), hdoc]

theorem Inv.proceed (hsha : Set.InjOn ext.digest contents) (h : Inv ext contents start s)
    (hc : s.calls i = some c) {fresh : Nat} (hstep : proceed ext s i fresh c = some t) :
    Inv ext contents start t := by
  have hphase := h.phases i c hc
  have herror : ∀ e, c.phase.returned = false → ¬ Committed s i →
      Inv ext contents start (s.goto i c (.done (.error e))) := by
    intro e hlive hno
    exact h.pass hc nofun nofun hlive hno
  cases hp : c.phase with
  | lock =>
    rw [hp] at hphase
    unfold Files.proceed at hstep
    rw [hp] at hstep
    dsimp only at hstep
    split_ifs at hstep with hheld
    · obtain rfl := Option.some.inj hstep
      exact herror _ (by rw [hp]; rfl) hphase
    · obtain rfl := Option.some.inj hstep
      exact h.takeLock hc hp (by simpa using hheld)
  | list use =>
    rw [hp] at hphase
    unfold Files.proceed at hstep
    rw [hp] at hstep
    obtain rfl := Option.some.inj hstep
    refine h.pass hc (fun _ => by rw [hp]; rfl) nextRead_ne_lock (by rw [hp]; rfl)
      (nextRead_ok hsha hphase.1 ⟨?_, ?_⟩ hphase.2)
    · intro name bytes hname
      simp at hname
    · intro _ name hname
      have hnone : s.files.lookup name = none := by
        rw [AList.lookup_eq_none, AList.mem_keys]
        exact fun hkey => hname (Text.mem_sortTexts.mpr hkey)
      rw [State.contents, hnone]
      rfl
  | read use todo got =>
    rw [hp] at hphase
    obtain ⟨⟨huse, hbytes, hlate⟩, hno⟩ := hphase
    unfold Files.proceed at hstep
    rw [hp] at hstep
    cases todo with
    | nil => cases hstep
    | cons name rest =>
      dsimp only at hstep
      cases hfile : s.files.lookup name with
      | none =>
        rw [hfile] at hstep
        obtain rfl := Option.some.inj hstep
        exact herror _ (by rw [hp]; rfl) hno
      | some file =>
        rw [hfile] at hstep
        dsimp only at hstep
        have hcontent : s.contents name = some file.bytes := by
          rw [State.contents, hfile]
          rfl
        split_ifs at hstep with hlarge
        · obtain rfl := Option.some.inj hstep
          exact herror _ (by rw [hp]; rfl) hno
        · obtain rfl := Option.some.inj hstep
          refine h.pass hc (fun _ => by rw [hp]; rfl) nextRead_ne_lock (by rw [hp]; rfl)
            (nextRead_ok hsha huse ⟨?_, ?_⟩ hno)
          · intro other bytes hother
            rw [Map.lookup_insert_eq] at hother
            split_ifs at hother with heq
            · obtain rfl := Option.some.inj hother
              exact h.known name _ hcontent
            · exact hbytes other bytes hother
          · intro hl other hother
            rw [Map.lookup_insert_eq]
            split_ifs with heq
            · rw [heq, hcontent]
            · exact hlate hl other fun hmem => by
                rcases List.mem_cons.mp hmem with hmem | hmem
                · exact heq hmem
                · exact hother hmem
  | backup original current =>
    unfold Files.proceed at hstep
    rw [hp] at hstep
    obtain rfl := Option.some.inj hstep
    exact h.storeBackup hc hp fresh
  | syncBackup original =>
    rw [hp] at hphase
    unfold Files.proceed at hstep
    rw [hp] at hstep
    obtain rfl := Option.some.inj hstep
    exact h.pass hc (fun _ => by rw [hp]; rfl) nofun (by rw [hp]; rfl) hphase
  | prepare =>
    rw [hp] at hphase
    unfold Files.proceed at hstep
    rw [hp] at hstep
    dsimp only at hstep
    cases hfile : s.files.lookup c.request.target with
    | none =>
      rw [hfile] at hstep
      obtain rfl := Option.some.inj hstep
      exact herror _ (by rw [hp]; rfl) hphase.2
    | some file =>
      rw [hfile] at hstep
      obtain rfl := Option.some.inj hstep
      exact h.pass hc (fun _ => by rw [hp]; rfl) nofun (by rw [hp]; rfl) hphase
  | rename stamp =>
    rw [hp] at hphase
    unfold Files.proceed at hstep
    rw [hp] at hstep
    dsimp only at hstep
    cases hfile : s.files.lookup c.request.target with
    | none =>
      rw [hfile] at hstep
      obtain rfl := Option.some.inj hstep
      exact herror _ (by rw [hp]; rfl) hphase.2
    | some file =>
      rw [hfile] at hstep
      dsimp only at hstep
      split_ifs at hstep with hstamp
      · obtain rfl := Option.some.inj hstep
        exact herror _ (by rw [hp]; rfl) hphase.2
      · obtain rfl := Option.some.inj hstep
        exact h.commit hc hp fresh
  | syncDirectory =>
    rw [hp] at hphase
    unfold Files.proceed at hstep
    rw [hp] at hstep
    obtain rfl := Option.some.inj hstep
    exact h.pass hc (fun _ => by rw [hp]; rfl) nofun (by rw [hp]; rfl) hphase
  | answer =>
    rw [hp] at hphase
    obtain ⟨before, hw⟩ := hphase
    have hlive : c.phase.returned = false := by rw [hp]; rfl
    obtain ⟨doc, -, hdone⟩ := answer_ok hw (h.fits i c hc hlive).2 fresh hp rfl
    obtain rfl := Option.some.inj (hstep.symm.trans hdone)
    exact h.pass hc nofun nofun hlive trivial
  | done result =>
    unfold Files.proceed at hstep
    rw [hp] at hstep
    cases hstep

/-! ## Other steps -/

/-- A call comes in: nothing has been changed in its name. -/
theorem Inv.begin (h : Inv ext contents start s) (hnew : s.calls i = none)
    {active : String → Option String} {r : Request} {p : Phase}
    (hp : p = .lock ∨ ∃ e, p = .done (.error e))
    (hfits : p = .lock → r.bytes ∈ contents ∧ r.bytes.size ≤ maxConfigBytes) :
    Inv ext contents start (s.goto i ⟨r, active, p⟩ p) := by
  have hno : ¬ Committed s i := by
    rintro ⟨change, hchange, hwriter⟩
    obtain ⟨c, hc, -⟩ := h.chained.named change hchange i hwriter
    rw [hnew] at hc
    cases hc
  have hidle : p.holds = false := by
    rcases hp with rfl | ⟨e, rfl⟩
    · rfl
    · rfl
  have hother : s.holder ≠ some i := by
    intro hmine
    obtain ⟨c, hc, -⟩ := (h.lock i).mp hmine
    rw [hnew] at hc
    cases hc
  refine ⟨?_, ?_, ?_, h.known, ?_⟩
  · intro j
    rw [goto_holder, goto_calls, if_neg fun hboth => hother hboth.2]
    by_cases hj : j = i
    · subst hj
      simp [hidle, hother]
    · rw [if_neg hj, h.lock j]
  · intro j d hd
    rw [goto_calls] at hd
    by_cases hj : j = i
    · subst hj
      rw [if_pos rfl] at hd
      obtain rfl := Option.some.inj hd
      rcases hp with rfl | ⟨e, rfl⟩
      · exact hno
      · exact hno
    · rw [if_neg hj] at hd
      exact (h.phases j d hd).goto
  · intro j d hd hlive
    rw [goto_calls] at hd
    by_cases hj : j = i
    · subst hj
      rw [if_pos rfl] at hd
      obtain rfl := Option.some.inj hd
      rcases hp with rfl | ⟨e, rfl⟩
      · exact hfits rfl
      · cases hlive
    · rw [if_neg hj] at hd
      exact h.fits j d hd hlive
  · refine h.chained.congr (t := s.goto i ⟨r, active, p⟩ p) rfl rfl ?_
    intro j d hd
    have hj : j ≠ i := by
      rintro rfl
      rw [hnew] at hd
      cases hd
    exact ⟨d, by rw [goto_calls, if_neg hj, hd], rfl⟩

theorem refused_none {r : Request} (h : r.refused ext = none) :
    r.bytes.size ≤ maxConfigBytes := by
  unfold Request.refused at h
  dsimp only at h
  split at h
  · split_ifs at h with hname hsize
    omega
  · split_ifs at h with hsize
    omega

omit [DecidableEq ι] in
/-- An editor comes in before the last reading of a write. -/
theorem Inv.edit (h : Inv ext contents start s) {name : String} {file : Option File}
    (heditable : editable s = true) (hfile : ∀ f, file = some f → f.bytes ∈ contents) :
    Inv ext contents start (s.change none name file) where
  lock := h.lock
  phases := by
    intro j d hd
    have hd' : s.calls j = some d := hd
    refine (h.phases j d hd).frame (fun hlate => ?_) (fun _ => rfl) ?_
      (List.subset_append_left _ _)
    · have hmine := (h.lock j).mpr ⟨d, hd, late_holds hlate⟩
      unfold editable at heditable
      rw [hmine, Option.bind_some, hd'] at heditable
      simp [Call.late, hlate] at heditable
    · rw [committed_change]
      simp
  fits := h.fits
  known := by
    intro other bytes hother
    rw [contents_change] at hother
    by_cases heq : other = name
    · subst heq
      rw [Function.update_self] at hother
      obtain ⟨f, hf, rfl⟩ := Option.map_eq_some_iff.mp hother
      exact hfile f hf
    · rw [Function.update_of_ne heq] at hother
      exact h.known other bytes hother
  chained := h.chained.change none name file nofun

/-! ## Runs -/

/-- The contents that come in belong to those that SHA-256 tells apart. -/
def Occurs (contents : Set ByteArray) : Action ι → Prop
  | .request _ _ r => r.bytes ∈ contents
  | .edit _ (some file) => file.bytes ∈ contents
  | _ => True

/-- No step of a call fails after its rename. -/
def Harmless (s : State ι) : Action ι → Prop
  | .fail i _ => ¬ Committed s i
  | _ => True

theorem Inv.step (hsha : Set.InjOn ext.digest contents) (h : Inv ext contents start s)
    {a : Action ι} (hoccurs : Occurs contents a) (hharmless : Harmless s a)
    (hstep : step ext s a = some t) : Inv ext contents start t := by
  cases a with
  | request i active r =>
    unfold Files.step at hstep
    dsimp only at hstep
    split_ifs at hstep with hold
    have hnew : s.calls i = none := by simpa using hold
    cases hrefused : r.refused ext with
    | some e =>
      rw [hrefused] at hstep
      obtain rfl := Option.some.inj hstep
      exact h.begin hnew (.inr ⟨e, rfl⟩) nofun
    | none =>
      rw [hrefused] at hstep
      obtain rfl := Option.some.inj hstep
      exact h.begin hnew (.inl rfl) fun _ => ⟨hoccurs, refused_none hrefused⟩
  | proceed i fresh =>
    obtain ⟨c, hc, hstep⟩ := Option.bind_eq_some_iff.mp hstep
    exact h.proceed hsha hc hstep
  | fail i e =>
    obtain ⟨c, hc, hstep⟩ := Option.bind_eq_some_iff.mp hstep
    have hlive : c.phase.returned = false ∧ s.goto i c (.done (.error e)) = t := by
      cases hp : c.phase <;> rw [hp] at hstep <;>
        first
          | exact ⟨rfl, Option.some.inj hstep⟩
          | cases hstep
    obtain ⟨hlive, rfl⟩ := hlive
    exact h.pass hc nofun nofun hlive hharmless
  | edit name file =>
    unfold Files.step at hstep
    dsimp only at hstep
    split_ifs at hstep with hopen
    obtain rfl := Option.some.inj hstep
    rw [Bool.and_eq_true] at hopen
    apply h.edit hopen.2
    rintro f rfl
    exact hoccurs

omit [DecidableEq ι] in
theorem inv_initial {files : Map String File} {backups : Backups}
    (hfiles : ∀ name file, files.lookup name = some file → file.bytes ∈ contents) :
    Inv (ι := ι) ext contents (fun name => (files.lookup name).map (·.bytes))
      (initial files backups) where
  lock := by simp [initial]
  phases := nofun
  fits := nofun
  known := by
    intro name bytes hname
    obtain ⟨file, hfile, rfl⟩ := Option.map_eq_some_iff.mp hname
    exact hfiles name file hfile
  chained := ⟨rfl, by simp [initial], nofun⟩

/-! ## Returns -/

/-- The step from `s` to `t` ends the call. -/
structure Returns (s t : State ι) (i : ι) (c : Call) (result : Except FileError Document) : Prop where
  running : s.calls i = some c
  open_ : c.phase.returned = false
  returned : t.calls i = some { c with phase := .done result }

theorem nextRead_ne_ok {r : Request} {use : Use} {todo : List String} {got : ConfigSet}
    (doc : Document) : nextRead ext r use todo got ≠ .done (.ok doc) := by
  unfold nextRead afterSet
  split
  · split
    · split
      · nofun
      · split
        · nofun
        · split <;> nofun
    · split
      · nofun
      · split <;> nofun
    · split <;> nofun
  · nofun

/-- A step of a call moves that call only, and only the answer ends it with success. -/
theorem proceed_shape {fresh : Nat} (h : Files.proceed ext s i fresh c = some t) :
    ∃ u q, t = State.goto u i c q ∧ u.calls = s.calls ∧
      ∀ doc, q = .done (.ok doc) → c.phase = .answer := by
  unfold Files.proceed at h
  dsimp only at h
  split at h
  · split_ifs at h
    · exact ⟨_, _, (Option.some.inj h).symm, rfl, nofun⟩
    · exact ⟨_, _, (Option.some.inj h).symm, rfl, nofun⟩
  · exact ⟨_, _, (Option.some.inj h).symm, rfl, fun doc heq => absurd heq (nextRead_ne_ok doc)⟩
  · split at h
    · cases h
    · split at h
      · exact ⟨_, _, (Option.some.inj h).symm, rfl, nofun⟩
      · split_ifs at h
        · exact ⟨_, _, (Option.some.inj h).symm, rfl, nofun⟩
        · exact ⟨_, _, (Option.some.inj h).symm, rfl,
            fun doc heq => absurd heq (nextRead_ne_ok doc)⟩
  · exact ⟨_, _, (Option.some.inj h).symm, rfl, nofun⟩
  · exact ⟨_, _, (Option.some.inj h).symm, rfl, nofun⟩
  · split at h
    · exact ⟨_, _, (Option.some.inj h).symm, rfl, nofun⟩
    · exact ⟨_, _, (Option.some.inj h).symm, rfl, nofun⟩
  · split at h
    · exact ⟨_, _, (Option.some.inj h).symm, rfl, nofun⟩
    · split_ifs at h
      · exact ⟨_, _, (Option.some.inj h).symm, rfl, nofun⟩
      · exact ⟨_, _, (Option.some.inj h).symm, rfl, nofun⟩
  · exact ⟨_, _, (Option.some.inj h).symm, rfl, nofun⟩
  · rename_i hanswer
    split at h
    · exact ⟨_, _, (Option.some.inj h).symm, rfl, nofun⟩
    · split_ifs at h
      · exact ⟨_, _, (Option.some.inj h).symm, rfl, nofun⟩
      · exact ⟨_, _, (Option.some.inj h).symm, rfl, fun _ _ => hanswer⟩
  · cases h

/-- A call returns success from its answer. -/
theorem Returns.answer {a : Action ι} {doc : Document} (h : Returns s t i c (.ok doc))
    (hstep : step ext s a = some t) : c.phase = .answer ∧ ∃ fresh, proceed ext s i fresh c = some t := by
  have hchanged : t.calls i ≠ s.calls i := by
    rw [h.running, h.returned]
    intro heq
    have hphase := congrArg Call.phase (Option.some.inj heq)
    have hopen := h.open_
    rw [← hphase] at hopen
    cases hopen
  cases a with
  | request j active r =>
    unfold Files.step at hstep
    dsimp only at hstep
    split_ifs at hstep with hold
    have hj : i ≠ j := by
      rintro rfl
      rw [h.running] at hold
      exact hold rfl
    obtain rfl := Option.some.inj hstep
    rw [goto_calls, if_neg hj] at hchanged
    exact absurd rfl hchanged
  | proceed j fresh =>
    obtain ⟨d, hd, hstep⟩ := Option.bind_eq_some_iff.mp hstep
    obtain ⟨u, q, rfl, hu, hq⟩ := proceed_shape hstep
    by_cases hj : i = j
    · subst hj
      obtain rfl := Option.some.inj (h.running.symm.trans hd)
      have hret := h.returned
      rw [goto_calls, if_pos rfl] at hret
      exact ⟨hq doc (congrArg Call.phase (Option.some.inj hret)), fresh, hstep⟩
    · rw [goto_calls, if_neg hj, hu] at hchanged
      exact absurd rfl hchanged
  | fail j e =>
    obtain ⟨d, hd, hstep⟩ := Option.bind_eq_some_iff.mp hstep
    have ht : s.goto j d (.done (.error e)) = t := by
      cases hp : d.phase <;> rw [hp] at hstep <;>
        first
          | exact Option.some.inj hstep
          | cases hstep
    subst ht
    by_cases hj : i = j
    · subst hj
      have hret := h.returned
      rw [goto_calls, if_pos rfl] at hret
      cases congrArg Call.phase (Option.some.inj hret)
    · rw [goto_calls, if_neg hj] at hchanged
      exact absurd rfl hchanged
  | edit name file =>
    unfold Files.step at hstep
    dsimp only at hstep
    split_ifs at hstep
    obtain rfl := Option.some.inj hstep
    exact absurd rfl hchanged

/-! ## Compare and swap -/

/-- What the writes keep to, from a state on. -/
structure Swaps (ext : Externals) (contents : Set ByteArray) (start : String → Option ByteArray)
    (s : State ι) : Prop where
  /-- Success: the named revision was replaced, or was what is written; the set is valid. -/
  replaced : ∀ a t i c doc, Occurs contents a → Harmless s a → step ext s a = some t →
    Returns s t i c (.ok doc) → (doc.content = c.request.content ∧
      doc.revision = ext.digest c.request.bytes) ∧ ∃ before, Written ext t i c.request before
  /-- Error: the call has changed nothing. -/
  unchanged : ∀ i c e, s.calls i = some c → c.phase = .done (.error e) → ¬ Committed s i
  /-- No update is lost. -/
  chained : Chained ext start s

theorem swaps_of_inv (h : Inv ext contents start s) :
    Swaps ext contents start s where
  replaced := by
    intro a t i c doc _ _ hstep hreturns
    obtain ⟨hp, fresh, hproceed⟩ := hreturns.answer hstep
    have hphase := h.phases i c hreturns.running
    rw [hp] at hphase
    obtain ⟨before, hw⟩ := hphase
    obtain ⟨doc', hdoc', hdone⟩ :=
      answer_ok hw (h.fits i c hreturns.running hreturns.open_).2 fresh hp rfl
    obtain rfl := Option.some.inj (hproceed.symm.trans hdone)
    have hret := hreturns.returned
    rw [goto_calls, if_pos rfl] at hret
    have hphases := congrArg Call.phase (Option.some.inj hret)
    obtain rfl : doc' = doc := by simpa using hphases
    refine ⟨?_, before, hw.named, hw.content, hw.valid, hw.replaced⟩
    unfold document at hdoc'
    rw [fromUTF8_bytes] at hdoc'
    cases hdoc'
    exact ⟨rfl, rfl⟩
  unchanged := by
    intro i c e hc hp
    have hphase := h.phases i c hc
    rw [hp] at hphase
    exact hphase
  chained := h.chained

end

/-- In every run in which no step of a write fails after its rename, the writes are validated
compare-and-swap; and a failure after the rename is an error although the file is replaced. -/
theorem config_writes (ext : Externals) (contents : Set ByteArray)
    (hsha : Set.InjOn ext.digest contents) (files : Map String File) (backups : Backups)
    (hfiles : ∀ name file, files.lookup name = some file → file.bytes ∈ contents)
    (actions : List (Action ι)) (s : State ι)
    (hrun : exec (step ext) (initial files backups) actions = some s)
    (hmeets : Meets (step ext) (fun s a => Occurs contents a ∧ Harmless s a)
      (initial files backups) actions) :
    Swaps ext contents (fun name => (files.lookup name).map (·.bytes)) s ∧
      ∀ i e t, step ext s (.fail i e) = some t → ¬ Harmless s (.fail i e) →
        Committed t i ∧ ∃ c, t.calls i = some c ∧ c.phase = .done (.error e) := by
  have hinv : Inv ext contents (fun name => (files.lookup name).map (·.bytes)) s :=
    meets_invariant _ _ (fun _ _ _ h hok hstep => h.step hsha hok.1 hok.2 hstep)
      (inv_initial hfiles) hmeets hrun
  refine ⟨swaps_of_inv hinv, ?_⟩
  intro i e t hstep hharm
  have hcommitted : Committed s i := not_not.mp hharm
  obtain ⟨c, hc, hstep⟩ := Option.bind_eq_some_iff.mp hstep
  have ht : s.goto i c (.done (.error e)) = t := by
    cases hp : c.phase <;> rw [hp] at hstep <;>
      first
        | exact Option.some.inj hstep
        | cases hstep
  subst ht
  exact ⟨hcommitted, { c with phase := .done (.error e) }, by rw [goto_calls, if_pos rfl], rfl⟩

/-! ## One write -/

def oldBytes : ByteArray := "old".toByteArray

/-- SHA-256 of the two contents below. -/
def oldRevision : String := "cba06b5736faf67e54b07b561eae94395e774c517a7d910a54369e1263ccfbd4"

def newRevision : String := "11507a0e2f5e69d5dfa40a62a1bd7b6ee57e6bcd85c67c9b8431b36fff21c437"

def twoRevisions : Externals where
  digest bytes := if bytes = oldBytes then oldRevision else newRevision
  validateSet _ := []
  parseApplication _ := none

def oneFile : Map String File := AList.insert "config.toml" ⟨oldBytes, 1⟩ ∅

def saveNew : Request := ⟨.config, "config.toml", "new", oldRevision⟩

/-- The write as far as its rename. -/
def renamed : List (Action Nat) :=
  .request 0 (fun _ => none) saveNew :: (List.range 11).map fun n => .proceed 0 (n + 2)

/-- A step of the write that does not fail. -/
def quiet : Action Nat → Bool
  | .request _ _ r => decide (r = saveNew)
  | .proceed _ _ => true
  | _ => false

theorem config_writes_small : ∃ s,
    exec (step twoRevisions) (initial oneFile ∅) renamed = some s ∧
      Swaps twoRevisions {oldBytes, saveNew.bytes}
        (fun name => (oneFile.lookup name).map (·.bytes)) s := by
  have hsha : Set.InjOn twoRevisions.digest {oldBytes, saveNew.bytes} := by
    have hne : saveNew.bytes ≠ oldBytes := by decide +kernel
    have hrevisions : newRevision ≠ oldRevision := by decide
    rintro a (rfl | rfl) b (rfl | rfl) h
    · rfl
    · simp [twoRevisions, hne, Ne.symm hrevisions] at h
    · simp [twoRevisions, hne, hrevisions] at h
    · rfl
  have hfiles : ∀ name file, oneFile.lookup name = some file →
      file.bytes ∈ ({oldBytes, saveNew.bytes} : Set ByteArray) := by
    intro name file hfile
    unfold oneFile at hfile
    rw [Map.lookup_insert_eq] at hfile
    split_ifs at hfile
    · obtain rfl := Option.some.inj hfile
      exact .inl rfl
    · cases hfile
  have hsome : (exec (step twoRevisions) (initial oneFile ∅) renamed).isSome := by decide +kernel
  obtain ⟨s, hs⟩ := Option.isSome_iff_exists.mp hsome
  have hquiet : meetsAll (step twoRevisions) (fun _ => quiet) (initial oneFile ∅) renamed = true := by
    decide +kernel
  have hmeets : Meets (step twoRevisions) (fun s a => Occurs {oldBytes, saveNew.bytes} a ∧
      Harmless s a) (initial oneFile ∅) renamed := by
    refine meets_of_meetsAll ?_ hquiet
    intro s a ha
    cases a with
    | request i active r =>
      obtain rfl : r = saveNew := by simpa [quiet] using ha
      exact ⟨.inr rfl, trivial⟩
    | proceed i fresh => exact ⟨trivial, trivial⟩
    | fail i e => cases ha
    | edit name file => cases ha
  exact ⟨s, hs, (config_writes twoRevisions {oldBytes, saveNew.bytes} hsha oneFile ∅ hfiles renamed
    s hs hmeets).1⟩

def Call.errorCode (c : Call) : Option String :=
  match c.phase with
  | .done (.error e) => some e.code
  | _ => none

/-- The directory cannot be synced after the rename: the write returns an error, and the file has
the new content. -/
theorem failed_write_replaces :
    (exec (step twoRevisions) (initial oneFile ∅)
        (renamed ++ [.fail 0 (.new "io_error" "Input/output error")])).map
      (fun s => ((s.calls 0).bind Call.errorCode, s.contents "config.toml")) =
      some (some "io_error", some saveNew.bytes) ∧
    (oneFile.lookup "config.toml").map (·.bytes) = some oldBytes ∧ saveNew.bytes ≠ oldBytes := by
  refine ⟨?_, ?_, ?_⟩ <;> decide +kernel

end RcdServer.Operations.Files
