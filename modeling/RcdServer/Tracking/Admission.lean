import RcdServer.Tracking.Tracker

/-!
# At most one admission of an identity

A `begin` call that got past the reservation has raised all tombstone bits of its
identity. Bits are never lowered, and the reservation refuses an identity whose bits
are all raised, whatever the cache, the journal and the startup inventory have lost.
-/
namespace RcdServer.Tracking

/-- The call returned `(_, true)`. -/
def Call.newlyReserved (c : Call) : Prop := ∃ v, c.pc = .done (.ok (v, true))

theorem WriterStep.calls {env : Env} {s s' : Sys} (h : WriterStep env s s') : s'.calls = s.calls := by
  cases h <;> rfl

/-- The writer lowers no tombstone. -/
theorem WriterStep.seen {env : Env} {s s' : Sys} (h : WriterStep env s s') :
    s'.state.seen = s.state.seen := by
  cases h with
  | opened => exact State.rebase_seen _ _
  | note => exact State.saved_seen _ _
  | saveFailed => exact State.saveFailed_seen _ _
  | _ => rfl

/-! ## The invariant -/

/-- Reserved calls have their tombstones raised, and no two of them share a key. -/
structure Admitted (env : Env) (s : Sys) : Prop where
  raised : ∀ (i : Nat) (c : Call), s.calls[i]? = some c → c.pc.reserved = true →
    ∀ b ∈ tombstones (env.sha256 c.order.key), b ∈ s.state.seen
  unique : ∀ (i j : Nat) (c d : Call), s.calls[i]? = some c → s.calls[j]? = some d → c.pc.reserved = true →
    d.pc.reserved = true → c.order.key = d.order.key → i = j

/-- A call of the new list is an old one, possibly at another place of `begin`. -/
theorem getElem_set_cases {calls : List Call} {i k : Nat} {c x : Call} {pc : BeginPc}
    (hget : calls[i]? = some c) (h : (calls.set i { c with pc := pc })[k]? = some x) :
    (k = i ∧ x = { c with pc := pc }) ∨ (k ≠ i ∧ calls[k]? = some x) := by
  by_cases hk : k = i
  · subst hk
    rw [List.getElem?_set_self (List.getElem?_eq_some_iff.mp hget).1] at h
    exact .inl ⟨rfl, (Option.some.inj h).symm⟩
  · rw [List.getElem?_set_ne (Ne.symm hk)] at h
    exact .inr ⟨hk, h⟩

theorem getElem_append_cases {calls : List Call} {k : Nat} {c x : Call}
    (h : (calls ++ [c])[k]? = some x) : calls[k]? = some x ∨ x = c := by
  rw [List.getElem?_append] at h
  split at h
  · exact .inl h
  · exact .inr (List.mem_singleton.mp (List.mem_of_getElem? h))

/-- A step after which every reserved call was reserved before, at the same place and with the
same order, keeps the invariant. -/
theorem Admitted.of_old {env : Env} {s s' : Sys} (hinv : Admitted env s)
    (hseen : s.state.seen ⊆ s'.state.seen)
    (hold : ∀ (k : Nat) (x : Call), s'.calls[k]? = some x → x.pc.reserved = true →
      ∃ y, s.calls[k]? = some y ∧ y.pc.reserved = true ∧ y.order = x.order) : Admitted env s' := by
  constructor
  · intro k x hk hr b hb
    obtain ⟨y, hy, hyr, heq⟩ := hold k x hk hr
    exact hseen (hinv.raised k y hy hyr b (heq ▸ hb))
  · intro k l x y hx hy hxr hyr hkey
    obtain ⟨x', hx', hxr', hxo⟩ := hold k x hx hxr
    obtain ⟨y', hy', hyr', hyo⟩ := hold l y hy hyr
    exact hinv.unique k l x' y' hx' hy' hxr' hyr' (by rw [hxo, hyo, hkey])

theorem admitted_callStep {env : Env} {s s' : Sys} (hinv : Admitted env s)
    (h : CallStep env s s') : Admitted env s' := by
  cases h with
  | arrive c hpc =>
    refine hinv.of_old (Finset.Subset.refl _) fun k x hk hr => ?_
    rcases getElem_append_cases hk with hk | rfl
    · exact ⟨x, hk, hr, rfl⟩
    · rw [hpc] at hr
      cases hr
  | move i c pc state hget hlive hpc hseen =>
    refine hinv.of_old (fun b hb => hseen.symm ▸ hb) fun k x hk hr => ?_
    rcases getElem_set_cases hget hk with ⟨rfl, rfl⟩ | ⟨-, hk⟩
    · exact ⟨c, hget, hpc hr, rfl⟩
    · exact ⟨x, hk, hr, rfl⟩
  | reserve i c v state hget hlive hfresh hseen =>
    obtain ⟨b₀, hb₀, hlow⟩ := hfresh
    -- the lowered bit shows that no reserved call has this key
    have hfirst : ∀ (k : Nat) (x : Call), s.calls[k]? = some x → x.pc.reserved = true →
        x.order.key ≠ c.order.key := by
      intro k x hx hxr hkey
      exact hlow (hinv.raised k x hx hxr b₀ (by rw [hkey]; exact hb₀))
    constructor
    · intro k x hk hr b hb
      change b ∈ state.seen
      rw [hseen, Finset.mem_union, List.mem_toFinset]
      rcases getElem_set_cases hget hk with ⟨rfl, rfl⟩ | ⟨-, hk⟩
      · exact .inr hb
      · exact .inl (hinv.raised k x hk hr b hb)
    · intro k l x y hx hy hxr hyr hkey
      rcases getElem_set_cases hget hx with ⟨rfl, rfl⟩ | ⟨-, hold⟩
      · rcases getElem_set_cases hget hy with ⟨rfl, rfl⟩ | ⟨-, hy⟩
        · rfl
        · exact absurd hkey.symm (hfirst l y hy hyr)
      · rcases getElem_set_cases hget hy with ⟨rfl, rfl⟩ | ⟨-, hy⟩
        · exact absurd hkey (hfirst k x hold hxr)
        · exact hinv.unique k l x y hold hy hxr hyr hkey

theorem admitted_step {env : Env} {s s' : Sys} {a : Action} (hinv : Admitted env s)
    (h : step env s a = some s') : Admitted env s' := by
  rcases step_cases h with hcall | hwriter | ⟨port, ack, change, now, rfl⟩
  · exact admitted_callStep hinv hcall
  · exact hinv.of_old (by rw [hwriter.seen]) fun k x hk hr => ⟨x, hwriter.calls ▸ hk, hr, rfl⟩
  · exact hinv.of_old (by rw [State.update_seen]) fun k x hk hr => ⟨x, hk, hr, rfl⟩

/-- A call that returned keeps its result. -/
theorem returned_step {env : Env} {s s' : Sys} {a : Action} {i : Nat} {c : Call}
    (hc : s.calls[i]? = some c) (hfin : c.pc.finished = true) (h : step env s a = some s') :
    s'.calls[i]? = some c := by
  have hother : ∀ (k : Nat) (d : Call), s.calls[k]? = some d → d.pc.finished = false → k ≠ i := by
    rintro k d hd hlive rfl
    rw [Option.some.inj (hd.symm.trans hc), hfin] at hlive
    cases hlive
  rcases step_cases h with hcall | hwriter | ⟨port, ack, change, now, rfl⟩
  · cases hcall with
    | arrive d =>
      exact (List.getElem?_append_left (List.getElem?_eq_some_iff.mp hc).1).trans hc
    | move k d pc state hget hlive => exact (List.getElem?_set_ne (hother k d hget hlive)).trans hc
    | reserve k d v state hget hlive => exact (List.getElem?_set_ne (hother k d hget hlive)).trans hc
  · rw [hwriter.calls, hc]
  · exact hc

open Lib.Run in
/-- However the calls, the updates, the writer, evictions, retention and failing lookups of one
boot interleave: once a `begin` call has returned `(_, true)`, every other call for the same
identity, earlier or later, returns `(_, false)` or an error. -/
theorem begin_admits_at_most_once (env : Env) (boot : String) (file : Journal)
    (as bs : List Action) (s t : Sys)
    (hs : exec (step env) (Sys.initial boot file) as = some s) (ht : exec (step env) s bs = some t)
    (i k : Nat) (c d : Call) (hc : s.calls[i]? = some c) (hd : t.calls[k]? = some d)
    (hmanager : c.order.manager = d.order.manager) (hcommand : c.order.command = d.order.command)
    (hnew : c.newlyReserved) (hik : i ≠ k) (r : Except String (Snapshot × Bool))
    (hr : d.pc = .done r) : (∃ v, r = .ok (v, false)) ∨ ∃ e, r = .error e := by
  obtain ⟨v, hv⟩ := hnew
  have hinit : Admitted env (Sys.initial boot file) := by
    constructor <;> simp [Sys.initial]
  have hinv : Admitted env t :=
    exec_invariant (Admitted env) (fun _ _ _ => admitted_step)
      (exec_invariant (Admitted env) (fun _ _ _ => admitted_step) hinit hs) ht
  have hct : t.calls[i]? = some c :=
    exec_invariant (fun u : Sys => u.calls[i]? = some c)
      (fun _ _ _ hu => returned_step hu (by rw [hv]; rfl)) hc ht
  match r with
  | .error e => exact .inr ⟨e, rfl⟩
  | .ok (w, false) => exact .inl ⟨w, rfl⟩
  | .ok (w, true) =>
    have hkey : c.order.key = d.order.key := by
      rw [Order.key, Order.key, hmanager, hcommand]
    exact absurd (hinv.unique i k c d hct hd (by rw [hv]; rfl) (by rw [hr]; rfl) hkey) hik

/-- SHA-256 at the two texts that identity `("m", "c")` with payload `1108` on `COM1` digests, and the
length of its first snapshot. -/
def sampleEnv : Env where
  sha256 text :=
    if text = "m\x00c" then
      #v[7, 65, 140, 96, 221, 100, 231, 82, 229, 137, 116, 149, 213, 159, 228, 47,
        253, 229, 217, 154, 232, 147, 131, 27, 134, 84, 133, 80, 168, 110, 234, 148]
    else if text = "COM1\x001108" then
      #v[209, 41, 155, 28, 9, 253, 209, 130, 182, 213, 14, 127, 112, 99, 184, 67,
        109, 126, 170, 110, 248, 75, 42, 160, 20, 226, 31, 157, 153, 68, 181, 154]
    else Vector.replicate 32 0
  rawLen _ := 498
  toUppercase c := [c.toUpper]

def sampleTime : String := "2024-01-01T00:00:00.000Z"

/-- Two `begin` calls for one identity; the second arrives before the first has returned. -/
def beginTwice : List Action :=
  [.openStart "x", .opened, .history .readable,
   .beginCall "m" "c" "COM1" 7 "1108", .beginCall "m" "c" "COM1" 8 "11 08",
   .acquire 0, .read 0 none, .receive 0 none, .reserve 0 sampleTime, .recv none, .collect, .syncGap true,
   .save, .note, .confirm 0, .acquire 1]

def admittedOnce : Snapshot :=
  { newlyReserved (newCall sampleEnv "m" "c" "COM1" 7 "1108").order "gateway-x" "boot-1" sampleTime false with
    revision := 1 }

def firstCall : Call :=
  ⟨(newCall sampleEnv "m" "c" "COM1" 7 "1108").order, .done (.ok (admittedOnce, true))⟩

def secondCall : Call :=
  ⟨(newCall sampleEnv "m" "c" "COM1" 8 "11 08").order, .done (.ok (admittedOnce, false))⟩

open Lib.Run in
theorem begin_twice_admits_once : ∃ s r,
    exec (step sampleEnv) (Sys.initial "boot-1" Journal.empty) beginTwice = some s ∧
      s.calls = [firstCall, secondCall] ∧ secondCall.pc = .done r ∧
      ((∃ v, r = .ok (v, false)) ∨ ∃ e, r = .error e) := by
  have hcalls : (exec (step sampleEnv) (Sys.initial "boot-1" Journal.empty) beginTwice).map Sys.calls =
      some [firstCall, secondCall] := by decide +kernel
  obtain ⟨s, hs, hc⟩ := Option.map_eq_some_iff.mp hcalls
  refine ⟨s, _, hs, hc, rfl, ?_⟩
  exact begin_admits_at_most_once sampleEnv "boot-1" Journal.empty beginTwice [] s s hs rfl 0 1
    firstCall secondCall (by rw [hc]; rfl) (by rw [hc]; rfl) rfl rfl ⟨admittedOnce, rfl⟩ (by decide) _ rfl

end RcdServer.Tracking
