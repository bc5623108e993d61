import Mathlib.Data.List.Chain
import RcdServer.LowerLogs.Protocol

/-!
# Streams of events

The events that were numbered under one boot form its stream. Queues, spool files and batches are
pieces of streams: within a boot the sequences follow one another, and every boot after the first
begins with its first event.
-/
namespace RcdServer.LowerLogs

variable {stream stream' : Nat → List Event} {events rest : List Event} {e : Event}

/-- The event stands in the stream of its boot at its sequence. -/
def InStream (stream : Nat → List Event) (e : Event) : Prop :=
  ∃ i, e.sequence = i + 1 ∧ (stream e.bootId)[i]? = some e

def Extends (stream stream' : Nat → List Event) : Prop := ∀ b, stream b <+: stream' b

def Linked (a b : Event) : Prop :=
  if b.bootId = a.bootId then b.sequence = a.sequence + 1 else b.sequence = 1

structure Backlog (stream : Nat → List Event) (events : List Event) : Prop where
  known : ∀ e ∈ events, InStream stream e
  linked : events.IsChain Linked

/-- The first event is not beyond the next one the manager expects. -/
def Reaches (cursor : Nat → Nat) (events : List Event) : Prop :=
  ∀ e ∈ events.head?, e.sequence ≤ cursor e.bootId + 1

/-- The first `n` events of the boot are in the file. -/
def Covered (stream : Nat → List Event) (appended : List Event) (b n : Nat) : Prop :=
  n ≤ (stream b).length ∧ ∀ e ∈ (stream b).take n, e ∈ appended

/-- The sequences count up from `n`. -/
def Consecutive : Nat → List Event → Prop
  | _, [] => True
  | n, e :: rest => e.sequence = n ∧ Consecutive (n + 1) rest

/-! ## Growing streams -/

theorem InStream.mono (h : InStream stream e) (hext : Extends stream stream') :
    InStream stream' e := by
  obtain ⟨i, hi, he⟩ := h
  obtain ⟨added, hadded⟩ := hext e.bootId
  refine ⟨i, hi, ?_⟩
  rw [← hadded, List.getElem?_append_left (List.getElem?_eq_some_iff.mp he).1, he]

theorem InStream.le_length (h : InStream stream e) : e.sequence ≤ (stream e.bootId).length := by
  obtain ⟨i, hi, he⟩ := h
  have := (List.getElem?_eq_some_iff.mp he).1
  omega

theorem InStream.mem_take (h : InStream stream e) {n : Nat} (hn : e.sequence ≤ n) :
    e ∈ (stream e.bootId).take n := by
  obtain ⟨i, hi, he⟩ := h
  refine List.mem_iff_getElem?.mpr ⟨i, ?_⟩
  rw [List.getElem?_take_of_lt (by omega), he]

theorem Backlog.mono (h : Backlog stream events) (hext : Extends stream stream') :
    Backlog stream' events :=
  ⟨fun e he => (h.known e he).mono hext, h.linked⟩

theorem take_of_extends (hext : Extends stream stream') {b n : Nat}
    (hn : n ≤ (stream b).length) : (stream' b).take n = (stream b).take n := by
  obtain ⟨added, hadded⟩ := hext b
  rw [← hadded, List.take_append_of_le_length hn]

theorem Covered.mono {appended appended' : List Event} {b n : Nat}
    (h : Covered stream appended b n) (hext : Extends stream stream')
    (hsub : ∀ e ∈ appended, e ∈ appended') : Covered stream' appended' b n := by
  refine ⟨Nat.le_trans h.1 (hext b).length_le, ?_⟩
  rw [take_of_extends hext h.1]
  exact fun e he => hsub e (h.2 e he)

theorem Covered.mem {appended : List Event} {n : Nat} (h : Covered stream appended e.bootId n)
    (he : InStream stream e) (hn : e.sequence ≤ n) : e ∈ appended :=
  h.2 e (he.mem_take hn)

theorem extends_refl : Extends stream stream := fun _ => List.prefix_refl _

theorem extends_update {b : Nat} {events : List Event} (h : stream b <+: events) :
    Extends stream (Function.update stream b events) := by
  intro b'
  rcases eq_or_ne b' b with rfl | hne
  · simpa using h
  · have hsame := Function.update_of_ne hne events stream
    exact hsame.symm ▸ List.prefix_refl _

/-! ## Pieces of a backlog -/

theorem Backlog.nil : Backlog stream [] := ⟨by simp, by simp⟩

theorem Backlog.of_front (h : Backlog stream events) (hpre : rest <+: events) :
    Backlog stream rest :=
  ⟨fun e he => h.known e (hpre.subset he), h.linked.prefix hpre⟩

theorem Backlog.of_rest (h : Backlog stream events) (hsuf : rest <:+ events) :
    Backlog stream rest :=
  ⟨fun e he => h.known e (hsuf.subset he), h.linked.suffix hsuf⟩

theorem Reaches.of_front {cursor : Nat → Nat} (h : Reaches cursor events)
    (hpre : rest <+: events) : Reaches cursor rest := by
  intro e he
  obtain ⟨added, rfl⟩ := hpre
  refine h e ?_
  rw [List.head?_append, he]
  rfl

theorem Reaches.mono {cursor cursor' : Nat → Nat} (h : Reaches cursor events)
    (hle : ∀ b, cursor b ≤ cursor' b) : Reaches cursor' events := by
  intro e he
  have := h e he
  have := hle e.bootId
  omega

theorem Backlog.concat (h : Backlog stream events) (he : InStream stream e)
    (hlink : ∀ last ∈ events.getLast?, Linked last e) : Backlog stream (events ++ [e]) where
  known x hx := by
    rcases List.mem_append.mp hx with hx | hx
    · exact h.known x hx
    · rw [List.mem_singleton.mp hx]
      exact he
  linked := by
    refine List.isChain_append.mpr ⟨h.linked, by simp, ?_⟩
    intro last hlast y hy
    obtain rfl : e = y := by simpa using hy
    exact hlink last hlast

/-- The events of every stream are numbered from one. -/
def Numbered (stream : Nat → List Event) : Prop :=
  ∀ b i e, (stream b)[i]? = some e → e.bootId = b ∧ e.sequence = i + 1

theorem Numbered.concat (h : Numbered stream)
    (hseq : e.sequence = (stream e.bootId).length + 1) :
    Numbered (Function.update stream e.bootId (stream e.bootId ++ [e])) := by
  intro b i x hx
  rcases eq_or_ne b e.bootId with rfl | hne
  · rw [Function.update_self, List.getElem?_append] at hx
    split at hx
    · exact h _ i x hx
    · next hge =>
      obtain ⟨hi, rfl⟩ := List.getElem?_eq_some_iff.mp hx
      have hlast : i - (stream e.bootId).length = 0 := by simpa using hi
      simp only [hlast, List.getElem_cons_zero, true_and]
      omega
  · rw [Function.update_of_ne hne] at hx
    exact h b i x hx

theorem Numbered.rebase (h : Numbered stream) (boot : Nat) (events : List Event) :
    Numbered (Function.update stream boot (rebase boot events)) := by
  intro b i x hx
  rcases eq_or_ne b boot with rfl | hne
  · rw [Function.update_self, LowerLogs.rebase, List.getElem?_mapIdx] at hx
    obtain ⟨y, -, rfl⟩ := Option.map_eq_some_iff.mp hx
    exact ⟨rfl, rfl⟩
  · rw [Function.update_of_ne hne] at hx
    exact h b i x hx

@[simp] theorem length_rebase (boot : Nat) (events : List Event) :
    (rebase boot events).length = events.length := by
  simp [rebase]

theorem getElem_rebase {boot i : Nat} (hi : i < (rebase boot events).length) :
    (rebase boot events)[i].bootId = boot ∧ (rebase boot events)[i].sequence = i + 1 := by
  simp [rebase]

theorem head?_rebase {boot : Nat} (h : e ∈ (rebase boot events).head?) : e.sequence = 1 := by
  rw [List.head?_eq_getElem?] at h
  obtain ⟨hi, rfl⟩ := List.getElem?_eq_some_iff.mp h
  exact (getElem_rebase hi).2

theorem getLast?_rebase {boot : Nat} (h : e ∈ (rebase boot events).getLast?) :
    e.bootId = boot ∧ e.sequence = events.length := by
  rw [List.getLast?_eq_getElem?] at h
  obtain ⟨hi, rfl⟩ := List.getElem?_eq_some_iff.mp h
  obtain ⟨hboot, hseq⟩ := getElem_rebase hi
  have hlen := length_rebase boot events
  exact ⟨hboot, by omega⟩

/-- A rebased backlog is its own stream. -/
theorem backlog_rebase {boot : Nat} (hstream : stream boot = rebase boot events) :
    Backlog stream (rebase boot events) where
  known x hx := by
    obtain ⟨i, hi, rfl⟩ := List.mem_iff_getElem.mp hx
    obtain ⟨hboot, hseq⟩ := getElem_rebase hi
    refine ⟨i, hseq, ?_⟩
    rw [hboot, hstream, List.getElem?_eq_getElem hi]
  linked := by
    refine List.isChain_iff_getElem.mpr fun i hi => ?_
    simp [rebase, Linked]

/-- Behind the events that an accepted sequence covers, the next one is still expected. -/
theorem Reaches.dropWhile_covered {cursor : Nat → Nat} {boot through : Nat}
    (h : Reaches cursor events) (hlinked : events.IsChain Linked)
    (hthrough : through ≤ cursor boot) :
    Reaches cursor (events.dropWhile (Sender.covered boot through)) := by
  induction events with
  | nil => exact h
  | cons e rest ih =>
    rw [List.dropWhile_cons]
    split
    · next hcovered =>
      obtain ⟨hlink, hrest⟩ := List.isChain_cons.mp hlinked
      refine ih ?_ hrest
      intro next hnext
      have hle := hlink next hnext
      simp only [Sender.covered, Bool.and_eq_true, beq_iff_eq, decide_eq_true_eq] at hcovered
      unfold Linked at hle
      split at hle
      · next hboot =>
        rw [hboot, hcovered.1]
        omega
      · omega
    · exact h

/-- Within one boot linked events count up. -/
theorem consecutive_of_linked {boot n : Nat} (hlinked : events.IsChain Linked)
    (hboot : ∀ e ∈ events, e.bootId = boot) (hfirst : ∀ e ∈ events.head?, e.sequence = n) :
    Consecutive n events := by
  induction events generalizing n with
  | nil => trivial
  | cons e rest ih =>
    obtain ⟨hlink, hrest⟩ := List.isChain_cons.mp hlinked
    have he : e.sequence = n := hfirst e rfl
    refine ⟨he, ih hrest (fun x hx => hboot x (List.mem_cons_of_mem _ hx)) ?_⟩
    intro next hnext
    have hsame : next.bootId = e.bootId := by
      rw [hboot next (List.mem_cons_of_mem _ (List.mem_of_mem_head? hnext)),
        hboot e List.mem_cons_self]
    have := hlink next hnext
    rw [Linked, if_pos hsame] at this
    omega

theorem Consecutive.getLast {n : Nat} (h : Consecutive n events) (hne : events ≠ []) :
    (events.getLast hne).sequence + 1 = n + events.length := by
  induction events generalizing n with
  | nil => exact absurd rfl hne
  | cons e rest ih =>
    cases rest with
    | nil =>
      have := h.1
      simp only [List.getLast_singleton, List.length_singleton]
      omega
    | cons e' rest =>
      rw [List.getLast_cons (by simp)]
      have := ih h.2 (by simp)
      simp only [List.length_cons] at *
      omega

theorem Consecutive.dropWhile {n : Nat} (h : Consecutive n events) (p : Event → Bool) :
    ∃ m, Consecutive m (events.dropWhile p) := by
  induction events generalizing n with
  | nil => exact ⟨n, h⟩
  | cons e rest ih =>
    rw [List.dropWhile_cons]
    split
    · exact ih h.2
    · exact ⟨n, h⟩

theorem consecutive_iff_zipIdx {n k : Nat} :
    Consecutive (n + k) events ↔ ∀ p ∈ events.zipIdx k, p.1.sequence = n + p.2 := by
  induction events generalizing k with
  | nil => simp [Consecutive]
  | cons e rest ih =>
    rw [Consecutive, List.zipIdx_cons, List.forall_mem_cons, Nat.add_assoc, ih]

theorem Consecutive.le_of_mem {n : Nat} (h : Consecutive n events) (he : e ∈ events) :
    n ≤ e.sequence := by
  induction events generalizing n with
  | nil => cases he
  | cons x rest ih =>
    obtain ⟨hx, hrest⟩ := h
    rcases List.mem_cons.mp he with rfl | he
    · omega
    · have := ih hrest he
      omega

theorem Consecutive.lt_of_mem {n : Nat} (h : Consecutive n events) (he : e ∈ events) :
    e.sequence < n + events.length := by
  induction events generalizing n with
  | nil => cases he
  | cons x rest ih =>
    obtain ⟨hx, hrest⟩ := h
    rw [List.length_cons]
    rcases List.mem_cons.mp he with rfl | he
    · omega
    · have := ih hrest he
      omega

theorem Consecutive.mem_dropWhile_le {n c : Nat} (h : Consecutive n events) :
    e ∈ events.dropWhile (fun e => e.sequence ≤ c) ↔ e ∈ events ∧ c < e.sequence := by
  induction events generalizing n with
  | nil => simp
  | cons x rest ih =>
    rw [List.dropWhile_cons]
    split
    · next hle =>
      have hx := of_decide_eq_true hle
      rw [ih h.2, List.mem_cons]
      constructor
      · exact fun he => ⟨.inr he.1, he.2⟩
      · rintro ⟨rfl | he, hlt⟩
        · omega
        · exact ⟨he, hlt⟩
    · next hle =>
      have hx : ¬ x.sequence ≤ c := by simpa using hle
      refine ⟨fun he => ⟨he, ?_⟩, fun he => he.1⟩
      have := h.le_of_mem he
      have := h.1
      omega

/-- What is left behind an accepted sequence goes on with the next one. -/
theorem Consecutive.dropWhile_le {n c : Nat} (h : Consecutive n events) (hn : n ≤ c + 1) :
    Consecutive (c + 1) (events.dropWhile fun e => e.sequence ≤ c) := by
  induction events generalizing n with
  | nil => trivial
  | cons e rest ih =>
    obtain ⟨he, hrest⟩ := h
    rw [List.dropWhile_cons]
    split
    · next hle =>
      have := of_decide_eq_true hle
      exact ih hrest (by omega)
    · next hle =>
      have : ¬ e.sequence ≤ c := by simpa using hle
      have hc : n = c + 1 := by omega
      rw [hc] at he hrest
      exact ⟨he, hrest⟩

/-- Consecutive events behind the first `c` ones extend the accepted part of their stream. -/
theorem take_append_consecutive {b c : Nat} {values : List Event}
    (hc : c ≤ (stream b).length) (hcons : Consecutive (c + 1) values)
    (hknown : ∀ e ∈ values, InStream stream e ∧ e.bootId = b) :
    (stream b).take c ++ values = (stream b).take (c + values.length) ∧
      c + values.length ≤ (stream b).length := by
  induction values generalizing c with
  | nil => simpa using hc
  | cons e rest ih =>
    obtain ⟨he, hrest⟩ := hcons
    obtain ⟨⟨i, hi, hget⟩, hboot⟩ := hknown e List.mem_cons_self
    obtain rfl : i = c := by omega
    rw [hboot] at hget
    have hlt := (List.getElem?_eq_some_iff.mp hget).1
    obtain ⟨htake, hlen⟩ := ih (c := i + 1) (by omega) hrest
      (fun x hx => hknown x (List.mem_cons_of_mem _ hx))
    have hsplit : (stream b).take (i + 1) = (stream b).take i ++ [e] := by
      rw [List.take_add_one, hget]
      rfl
    rw [hsplit, List.append_assoc, List.singleton_append] at htake
    rw [List.length_cons]
    refine ⟨htake.trans ?_, ?_⟩
    · congr 1
      omega
    · omega

/-- The first `n` events of a stream carry the sequences `1..n`. -/
theorem sequences_take {b n : Nat} (hnumbered : Numbered stream)
    (hn : n ≤ (stream b).length) :
    ((stream b).take n).map (·.sequence) = List.range' 1 n := by
  refine List.ext_getElem? fun i => ?_
  rcases Nat.lt_or_ge i n with hi | hi
  · have hlt : i < (stream b).length := by omega
    have hget := hnumbered b i _ (List.getElem?_eq_getElem hlt)
    rw [List.getElem?_map, List.getElem?_take_of_lt hi, List.getElem?_eq_getElem hlt,
      List.getElem?_range' hi]
    simp only [Option.map_some, Option.some.injEq]
    omega
  · rw [List.getElem?_eq_none (by simp; omega), List.getElem?_eq_none (by simp; omega)]

end RcdServer.LowerLogs
