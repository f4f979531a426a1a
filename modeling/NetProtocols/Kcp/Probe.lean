import NetProtocols.Lib.Backoff
import NetProtocols.Lib.Elapsed
import NetProtocols.Kcp.Outbound

/-!
# NetProtocols.Kcp.Probe — asking a closed window to open

While the peer tells a window of zero, `flush` keeps a timer in `ts_probe` and `probe_wait` and sends a WASK segment
each time that it has run out.  The timer is a `Backoff` on the clock as it is read from a fixed origin.

* `Kcb.Tells`: what the calls between two flushes do to the flags and to the timer.
* `probeRule`, `Kcb.alarm`, `probeWindow_look`: the window probe is one look at the alarm.
* `Probed`, `probeLog`: what each flush of a run did.
* `Probed.After`, `Schedule`: what a flush does, by the flush before it.
* `probing_schedule`: every run of completed flushes keeps the schedule; `probeLog_written`: the bytes of a run hold its
  WASK segments.
-/

namespace NetProtocols.Kcp

open Kcb Flushing

/-! ### Between two flushes -/

/-- The clock and the probe timer of a control block. -/
structure Timing where
  current : UInt32
  updated : Bool
  tsProbe : UInt32
  probeWait : UInt32

def Kcb.timing (k : Kcb) : Timing := ⟨k.current, k.updated, k.tsProbe, k.probeWait⟩

/-- From `k` to `k'` the timer stays, and a window announcement may have been asked for. -/
structure Kcb.Tells (k k' : Kcb) : Prop where
  timing : k'.timing = k.timing
  probe : k'.probe = k.probe ∨ k'.probe = k.probe ||| kcpAskTell

namespace Kcb.Tells

variable {p : Profile} {k k' k'' : Kcb}

theorem refl (k : Kcb) : k.Tells k := ⟨rfl, Or.inl rfl⟩

theorem of_eq (ht : k'.timing = k.timing) (hp : k'.probe = k.probe) : k.Tells k' := ⟨ht, Or.inl hp⟩

theorem trans (h : k.Tells k') (h' : k'.Tells k'') : k.Tells k'' := by
  constructor
  · exact h'.timing.trans h.timing
  · rcases h.probe with e | e <;> rcases h'.probe with e' | e' <;> rw [e', e]
    · exact Or.inl rfl
    · exact Or.inr rfl
    · exact Or.inr rfl
    · rw [UInt32.or_assoc, UInt32.or_self]
      exact Or.inr rfl

theorem asks (h : k.Tells k') : k'.probe &&& kcpAskSend = k.probe &&& kcpAskSend := by
  rcases h.probe with e | e <;> rw [e]
  exact raised_and _ (by decide)

theorem told (h : k.Tells k') (hk : k.probe &&& kcpAskTell ≠ 0) : k'.probe &&& kcpAskTell ≠ 0 := by
  rcases h.probe with e | e <;> rw [e]
  · exact hk
  · exact raised_ne_zero _ (by decide)

theorem onHeader (k : Kcb) (h : Header) : k.Tells (k.onHeader h) := of_eq rfl rfl

theorem parseAck (k : Kcb) (sn : UInt32) : k.Tells (k.parseAck sn).shrinkBuf := by
  unfold Kcb.parseAck
  split_ifs <;> exact of_eq rfl rfl

theorem takeSegment {s s' : Scan} {h : Header} (hs : s.takeSegment p h = some s') : s.kcb.Tells s'.kcb := by
  have hhead : s.kcb.Tells (s.kcb.onHeader h) := .onHeader _ _
  by_cases hw : h.cmd = kcpCmdWask
  · have hack : h.cmd ≠ kcpCmdAck := by rw [hw]; decide
    have hpush : h.cmd ≠ kcpCmdPush := by rw [hw]; decide
    unfold Scan.takeSegment at hs
    dsimp only at hs
    rw [if_neg hack, if_neg hpush, if_pos hw] at hs
    obtain rfl := Option.some.inj hs
    exact ⟨rfl, Or.inr rfl⟩
  · cases Scan.taken_of_takeSegment hs with
    | ack hc hk =>
      refine trans ?_ (.parseAck _ _)
      rcases hk with rfl | ⟨rtt, hk⟩
      · exact hhead
      · obtain ⟨srtt, rttval, rto, rfl⟩ := updateAck_eq hk
        exact of_eq rfl rfl
    | inside hc hsn hle hk =>
      rcases parseData_eq_moved hk with rfl | ⟨l, n, nxt, rfl⟩
      · exact of_eq rfl rfl
      · exact of_eq rfl rfl
    | wask hc => exact absurd hc hw
    | above | below | other => exact of_eq rfl rfl

theorem input {d : List UInt8} {r : Except IoError ℕ} (h : k.input p d = some (r, k')) : k.Tells k' := by
  refine input_rule (I := fun s => k.Tells s.kcb) (J := fun k' => k.Tells k') h (refl k) (fun _ hs => hs) ?_ ?_
  · intro s s' hs hst
    obtain ⟨hd, rest, -, -, ht⟩ := Scan.inputStep_ok hst
    have h1 := takeSegment ht
    exact hs.trans h1
  · intro s k' hs hf
    obtain ⟨l, c, i, -, rfl⟩ := finishInput_eq hf
    exact hs.trans (of_eq rfl rfl)

theorem recv {cap : ℕ} {r : Except IoError (List UInt8)} (h : k.recv p cap = some (r, k')) : k.Tells k' := by
  rcases recv_recovers h with ⟨e, -, rfl⟩ | ⟨-, -, k₁, h1, rfl⟩
  · exact refl _
  · obtain ⟨n, nxt, rfl⟩ := moveData_eq_moved h1
    refine ⟨rfl, ?_⟩
    show recovered _ _ = _ ∨ recovered _ _ = _
    unfold recovered
    split_ifs
    · exact Or.inr rfl
    · exact Or.inl rfl

theorem send {buf : List UInt8} {r : Except IoError ℕ} (h : k.send p buf = some (r, k')) : k.Tells k' := by
  obtain ⟨queue, rfl⟩ := send_eq h
  exact of_eq rfl rfl

end Kcb.Tells

/-! ### One look at the timer -/

/-- How `flush` probes: after 7 s at first, then after half as long again each time, up to 120 s. -/
def probeRule : Backoff where
  init := kcpProbeInit.toNat
  cap := kcpProbeLimit.toNat
  grow w := w + w / 2
  init_pos := by decide
  init_le_cap := by decide
  le_grow w := Nat.le_add_right _ _

/-- The probe timer, read from `origin`. -/
def Kcb.alarm (origin : UInt32) (k : Kcb) : Option Alarm :=
  if k.probeWait = 0 then none else some ⟨elapsed origin k.tsProbe, k.probeWait.toNat⟩

section Look

variable {p : Profile} {origin : UInt32} {k k' : Kcb}

@[simp] theorem probe_setProbes (t w pr : UInt32) : (k.setProbes t w pr).probe = pr := rfl

theorem alarm_setProbes {t w pr : UInt32} (hw : w ≠ 0) :
    (k.setProbes t w pr).alarm origin = some ⟨elapsed origin t, w.toNat⟩ := if_neg hw

/-- The wait after a wait of `w`, whatever `w` is. -/
def grownWait (w : ℕ) : ℕ := min (max 7000 w + max 7000 w / 2) 120000

theorem backoff_eq {w : UInt32} (hle : w ≤ kcpProbeLimit) :
    ∃ w', backoff p w = some w' ∧ w'.toNat = grownWait w.toNat := by
  have hlim : kcpProbeLimit.toNat = 120000 := rfl
  have hinit : kcpProbeInit.toNat = 7000 := rfl
  have hle' := UInt32.le_iff_toNat_le.mp hle
  have hstart : (if w < kcpProbeInit then kcpProbeInit else w).toNat = max 7000 w.toNat := by
    split_ifs with hlt
    · rw [UInt32.lt_iff_toNat_lt] at hlt
      omega
    · rw [UInt32.lt_iff_toNat_lt] at hlt
      omega
  unfold backoff
  generalize (if w < kcpProbeInit then kcpProbeInit else w) = x at hstart
  have hhalf : (x / 2).toNat = x.toNat / 2 := UInt32.toNat_div _ _
  have hfit : x.toNat + (x / 2).toNat < 2 ^ 32 := by omega
  have hsum : (x + x / 2).toNat = x.toNat + x.toNat / 2 := by
    rw [toNat_add_of_lt hfit, hhalf]
  dsimp only
  rw [Profile.add_of_lt hfit, Option.bind_eq_bind, Option.bind_some]
  refine ⟨_, rfl, ?_⟩
  unfold grownWait
  split_ifs with hlt
  · rw [UInt32.lt_iff_toNat_lt] at hlt
    omega
  · rw [UInt32.lt_iff_toNat_lt] at hlt
    omega

theorem toNat_backoff {w w' : UInt32} (h : backoff p w = some w') (h1 : kcpProbeInit.toNat ≤ w.toNat)
    (h2 : w.toNat ≤ kcpProbeLimit.toNat) : w'.toNat = probeRule.next w.toNat := by
  have hinit : kcpProbeInit.toNat = 7000 := rfl
  obtain ⟨x, hx, hw⟩ := backoff_eq (p := p) (UInt32.le_iff_toNat_le.mpr h2)
  obtain rfl := Option.some.inj (hx.symm.trans h)
  rw [hw, grownWait, max_eq_right (by omega)]
  rfl

theorem late_iff {a : Alarm} {late : Int32} (hnow : elapsed origin k.current < 2 ^ 31)
    (ha : k.alarm origin = some a) (hs : probeRule.Sound (elapsed origin k.current) a)
    (h : timediff p k.current k.tsProbe = some late) : 0 ≤ late ↔ a.deadline ≤ elapsed origin k.current := by
  have hcap : probeRule.cap = 120000 := rfl
  have h1 := hs.le_cap
  have h2 := hs.deadline_le
  obtain rfl := Profile.subI32_eq_some h
  have hdead : a.deadline = elapsed origin k.tsProbe := by
    unfold alarm at ha
    split_ifs at ha
    exact congrArg Alarm.deadline (Option.some.inj ha).symm
  rw [hdead] at h2 ⊢
  have hdiff : (k.current.toInt32 - k.tsProbe.toInt32).toInt =
      (elapsed origin k.current : ℤ) - elapsed origin k.tsProbe := toInt_diff (by omega) (by omega)
  rw [Int32.le_iff_toInt_le, hdiff]
  show 0 ≤ _ ↔ _
  omega

/-- The alarm that `ts_probe` and `probe_wait` are when they are set from `current`. -/
theorem alarm_set {w : UInt32} (pr : UInt32) (hnow : elapsed origin k.current < 2 ^ 31)
    (h1 : probeRule.init ≤ w.toNat) (h2 : w.toNat ≤ probeRule.cap) :
    (k.setProbes (k.current + w) w pr).alarm origin = some (Backoff.set (elapsed origin k.current) w.toNat) := by
  have hinit : probeRule.init = 7000 := rfl
  have hcap : probeRule.cap = 120000 := rfl
  have hw : w ≠ 0 := by
    rintro rfl
    have hzero : (0 : UInt32).toNat = 0 := rfl
    omega
  rw [alarm_setProbes hw, elapsed_add (by omega)]
  rfl

/-- **The window probe is one look at the alarm**, and a WASK segment is asked for when it rings. -/
theorem probeWindow_look (hr : k.rmtWnd = 0) (hnow : elapsed origin k.current < 2 ^ 31)
    (hs : ∀ a ∈ k.alarm origin, probeRule.Sound (elapsed origin k.current) a) (h : probeWindow p k = some k') :
    k'.alarm origin = some (probeRule.look (elapsed origin k.current) (k.alarm origin)).1 ∧
      k'.probe = if (probeRule.look (elapsed origin k.current) (k.alarm origin)).2 then k.probe ||| kcpAskSend
        else k.probe := by
  unfold probeWindow at h
  rw [if_neg (by simp [hr])] at h
  by_cases hw : k.probeWait = 0
  · -- no wait yet: the timer is set, and no probe is asked for
    have hnone : k.alarm origin = none := if_pos hw
    rw [if_pos hw] at h
    simp only [Option.bind_eq_bind, Option.bind_eq_some_iff, Option.some.injEq] at h
    obtain ⟨t, ht, rfl⟩ := h
    obtain rfl := Profile.add_eq_some ht
    have hfirst : probeRule.look (elapsed origin k.current) none =
        (Backoff.set (elapsed origin k.current) kcpProbeInit.toNat, false) := rfl
    have hinit : kcpProbeInit.toNat = 7000 := rfl
    have hrule : probeRule.init = 7000 := rfl
    have hcap : probeRule.cap = 120000 := rfl
    rw [hnone, hfirst]
    refine ⟨alarm_set k.probe hnow (by omega) (by omega), ?_⟩
    rw [if_neg Bool.false_ne_true, probe_setProbes]
  · have hsome : k.alarm origin = some ⟨elapsed origin k.tsProbe, k.probeWait.toNat⟩ := if_neg hw
    have hsound := hs _ hsome
    rw [if_neg hw] at h
    simp only [Option.bind_eq_bind, Option.bind_eq_some_iff] at h
    obtain ⟨late, hlate, h⟩ := h
    -- a wait is set: it rings exactly when `timediff` finds `ts_probe` late
    have hiff := late_iff hnow hsome hsound hlate
    rw [hsome]
    by_cases hl : 0 ≤ late
    · rw [if_pos hl] at h
      simp only [Option.bind_eq_some_iff, Option.some.injEq] at h
      obtain ⟨w, hb, t, ht, rfl⟩ := h
      obtain rfl := Profile.add_eq_some ht
      have hnext := toNat_backoff hb hsound.init_le hsound.le_cap
      rw [Backoff.look_late (hiff.mp hl)]
      refine ⟨?_, rfl⟩
      rw [← hnext]
      refine alarm_set _ hnow ?_ ?_
      · rw [hnext]
        exact hsound.init_le.trans (Backoff.le_next hsound.le_cap)
      · rw [hnext]
        exact Backoff.next_le _
    · rw [if_neg hl] at h
      obtain rfl := Option.some.inj h
      rw [Backoff.look_early fun hd => hl (hiff.mpr hd)]
      exact ⟨hsome, rfl⟩

theorem probeWindow_open (hr : k.rmtWnd ≠ 0) : probeWindow p k = some (k.setProbes 0 0 k.probe) := if_pos hr

end Look

/-! ### The WASK segments of a flush -/

theorem countP_probeSegment (cmd : UInt8) (ask pr : UInt32) (seg : Segment) :
    (probeSegment ask cmd pr seg).countP (fun s => s.cmd == cmd) = if pr &&& ask ≠ 0 then 1 else 0 := by
  unfold probeSegment
  split_ifs
  · simp
  · rfl

/-- A flush sends a WASK segment when the window probe has left its flag up, and not more than one. -/
theorem countP_wask {p : Profile} {k : Kcb} {segs : List Segment} (hu : k.updated = true) (ho : Outbound k)
    (h : k.outgoing p = some segs) :
    ∃ t w pr, probeWindow p (k.setAcklist []) = some ((k.setAcklist []).setProbes t w pr) ∧
      segs.countP (fun s => s.cmd == kcpCmdWask) = if pr &&& kcpAskSend ≠ 0 then 1 else 0 := by
  obtain ⟨t, w, pr, data, hp, rfl, hdata⟩ := outgoing_cases hu h
  have hacks : (k.acklist.map (ackSegment k.scratch)).countP (fun s => s.cmd == kcpCmdWask) = 0 := by
    rw [List.countP_eq_zero]
    intro s hs
    obtain ⟨a, -, rfl⟩ := List.mem_map.mp hs
    show ¬ (kcpCmdAck == kcpCmdWask) = true
    decide
  have htell : (probeSegment kcpAskTell kcpCmdWins pr (k.acklist.foldl ackSegment k.scratch)).countP
      (fun s => s.cmd == kcpCmdWask) = 0 := by
    rw [List.countP_eq_zero]
    intro s hs
    unfold probeSegment at hs
    split_ifs at hs
    · obtain rfl := List.mem_singleton.mp hs
      show ¬ (kcpCmdWins == kcpCmdWask) = true
      decide
    · exact absurd hs List.not_mem_nil
  have hpush : data.countP (fun s => s.cmd == kcpCmdWask) = 0 := by
    rw [List.countP_eq_zero]
    intro s hs
    have hcmd : s.cmd = kcpCmdPush := ((hdata s hs).isData ho).cmd
    rw [hcmd]
    decide
  refine ⟨t, w, pr, hp, ?_⟩
  rw [List.countP_append, List.countP_append, List.countP_append, hacks, htell, hpush, countP_probeSegment]
  omega

/-! ### The schedule -/

/-- What a flush did about the window probe: the window and the clock it saw, the timer it left, and the number of WASK
segments it sent. -/
structure Probed where
  rmtWnd : UInt32
  current : UInt32
  tsProbe : UInt32
  probeWait : UInt32
  asks : ℕ
  deriving DecidableEq, Repr

/-- What the flush of a call did, if the call came to a flush. -/
def probed (p : Profile) (e e' : Endpoint) (op : Op) : Option Probed :=
  (op.flushes p e.kcb).map fun k => {
    rmtWnd := k.rmtWnd
    current := k.current
    tsProbe := e'.kcb.tsProbe
    probeWait := e'.kcb.probeWait
    asks := (op.outgoing p e.kcb).countP fun s => s.cmd == kcpCmdWask }

/-- What the flushes of a run did, one after the other. -/
def probeLog (b : Build) : Endpoint → List Op → List Probed
  | _, [] => []
  | e, op :: ops =>
    match e.exec b op with
    | none => []
    | some e' => (probed b.profile e e' op).toList ++ probeLog b e' ops

/-- What a flush does about the window probe, when `prev` is what the flush before it did. -/
structure Probed.After (origin : UInt32) (prev : Option Probed) (r : Probed) : Prop where
  stops : r.rmtWnd ≠ 0 → r.probeWait = 0 ∧ r.tsProbe = 0 ∧ r.asks = 0
  waits : r.rmtWnd = 0 → 7000 ≤ r.probeWait.toNat ∧ r.probeWait.toNat ≤ 120000
  ahead : r.rmtWnd = 0 → 0 < elapsed r.current r.tsProbe ∧ elapsed r.current r.tsProbe ≤ 120000
  starts : r.rmtWnd = 0 → (∀ q ∈ prev, q.rmtWnd ≠ 0) →
    r.probeWait.toNat = 7000 ∧ elapsed r.current r.tsProbe = 7000 ∧ r.asks = 0
  grows : r.rmtWnd = 0 → ∀ q ∈ prev, q.rmtWnd = 0 → q.probeWait ≤ r.probeWait
  asks : r.rmtWnd = 0 → ∀ q ∈ prev, q.rmtWnd = 0 →
    r.asks = if elapsed origin q.tsProbe ≤ elapsed origin r.current then 1 else 0

/-- Every flush of the list does what it has to do after the one before it. -/
def Schedule (origin : UInt32) : Option Probed → List Probed → Prop
  | _, [] => True
  | prev, r :: rs => r.After origin prev ∧ Schedule origin (some r) rs

/-- A call of a run at clock readings that do not go back, less than `2 ^ 31` ms after `origin`, and whose flush is
completed. -/
def Forward (origin : UInt32) (e : Endpoint) : Op → Prop
  | .update now cut => cut = none ∧ elapsed origin now < 2 ^ 31 ∧
      (e.kcb.updated = true → elapsed origin e.kcb.current ≤ elapsed origin now)
  | op => op.Completed

instance Forward.decidable (origin : UInt32) (e : Endpoint) : ∀ op, Decidable (Forward origin e op)
  | .update now cut =>
    decidable_of_iff (cut = none ∧ elapsed origin now < 2 ^ 31 ∧
      (e.kcb.updated = false ∨ elapsed origin e.kcb.current ≤ elapsed origin now))
      (by unfold Forward; cases e.kcb.updated <;> simp)
  | .flush cut => inferInstanceAs (Decidable (cut = none))
  | .send _ | .recv _ | .input _ => isTrue trivial

theorem Forward.completed {origin : UInt32} {e : Endpoint} {op : Op} (h : Forward origin e op) : op.Completed := by
  cases op with
  | update => exact h.1
  | send | recv | input | flush => exact h

/-- The alarm that a flush has left. -/
def Probed.alarm (origin : UInt32) (q : Probed) : Option Alarm :=
  if q.rmtWnd = 0 then some ⟨elapsed origin q.tsProbe, q.probeWait.toNat⟩ else none

/-- What holds between two calls; `prev` is what the last flush did. -/
structure ProbeInv (origin : UInt32) (prev : Option Probed) (k : Kcb) : Prop where
  now : k.updated = true → elapsed origin k.current < 2 ^ 31
  sound : k.updated = true → ∀ a ∈ k.alarm origin, probeRule.Sound (elapsed origin k.current) a
  fresh : k.updated = false → k.alarm origin = none
  unasked : k.probe &&& kcpAskSend = 0
  last : k.alarm origin = prev.bind (Probed.alarm origin)

section Schedule

variable {b : Build} {origin : UInt32} {prev : Option Probed} {e e' : Endpoint} {k k' : Kcb} {op : Op}

theorem probeInv_start (conv : UInt32) (c : Config) : ProbeInv origin none (Endpoint.start conv c).kcb := by
  obtain ⟨sndWnd, rcvWnd, nodelay, rxMinrto, interval, fastresend, h⟩ := configured_eq conv c
  rw [Endpoint.start, h]
  constructor
  · intro hu
    cases hu
  · intro hu
    cases hu
  · exact fun _ => rfl
  · exact UInt32.zero_and
  · rfl

theorem ProbeInv.tells (hi : ProbeInv origin prev k) (h : k.Tells k') : ProbeInv origin prev k' := by
  have hc : k'.current = k.current := congrArg Timing.current h.timing
  have hu : k'.updated = k.updated := congrArg Timing.updated h.timing
  have ht : k'.tsProbe = k.tsProbe := congrArg Timing.tsProbe h.timing
  have hw : k'.probeWait = k.probeWait := congrArg Timing.probeWait h.timing
  have halarm : k'.alarm origin = k.alarm origin := by
    unfold alarm
    rw [ht, hw]
  constructor
  · rw [hu, hc]
    exact hi.now
  · rw [hu, hc, halarm]
    exact hi.sound
  · rw [hu, halarm]
    exact hi.fresh
  · rw [h.asks]
    exact hi.unasked
  · rw [halarm]
    exact hi.last

theorem ProbeInv.clocked (hi : ProbeInv origin prev k) {now ts : UInt32} (hnow : elapsed origin now < 2 ^ 31)
    (hle : k.updated = true → elapsed origin k.current ≤ elapsed origin now) :
    ProbeInv origin prev (k.clocked now ts) := by
  have halarm : (k.clocked now ts).alarm origin = k.alarm origin := rfl
  constructor
  · exact fun _ => hnow
  · intro _ a ha
    rw [halarm] at ha
    cases hu : k.updated with
    | true => exact (hi.sound hu a ha).mono (hle hu)
    | false =>
      rw [hi.fresh hu] at ha
      cases ha
  · intro hu
    cases hu
  · exact hi.unasked
  · exact hi.last

/-- A flush that takes one look at the alarm of the flush before it does what it has to do. -/
theorem Probed.after_of_look {r : Probed} (hr : r.rmtWnd = 0)
    (hs : ∀ a ∈ prev.bind (Probed.alarm origin), probeRule.Sound (elapsed origin r.current) a)
    (ha : r.alarm origin = some (probeRule.look (elapsed origin r.current) (prev.bind (Probed.alarm origin))).1)
    (hasks : r.asks =
      if (probeRule.look (elapsed origin r.current) (prev.bind (Probed.alarm origin))).2 then 1 else 0) :
    r.After origin prev := by
  have hinit : probeRule.init = 7000 := rfl
  have hcap : probeRule.cap = 120000 := rfl
  have hsound := Backoff.sound_look hs
  have hahead := Backoff.lt_deadline_look hs
  rw [Probed.alarm, if_pos hr] at ha
  rw [← Option.some.inj ha] at hsound hahead
  dsimp only at hahead
  have h1 := hsound.init_le
  have h2 := hsound.le_cap
  have h3 := hsound.deadline_le
  dsimp only at h1 h2 h3
  have hdist : elapsed r.current r.tsProbe = elapsed origin r.tsProbe - elapsed origin r.current :=
    toNat_sub_of_le hahead.le
  -- the alarm looked at is the one that the flush before has left
  have hprev : ∀ q ∈ prev, q.rmtWnd = 0 →
      prev.bind (Probed.alarm origin) = some ⟨elapsed origin q.tsProbe, q.probeWait.toNat⟩ := by
    intro q hq hz
    rw [Option.mem_def.mp hq, Option.bind_some, Probed.alarm, if_pos hz]
  constructor
  · intro hn
    exact absurd hr hn
  · intro _
    exact ⟨by omega, by omega⟩
  · intro _
    exact ⟨by omega, by omega⟩
  · intro _ hfirst
    -- the window was open before: the first look sets the alarm and does not ring
    have hnone : prev.bind (Probed.alarm origin) = none := by
      cases hp : prev with
      | none => rfl
      | some q => exact if_neg (hfirst q hp)
    rw [hnone] at ha hasks
    have halarm : (⟨elapsed origin r.tsProbe, r.probeWait.toNat⟩ : Alarm) =
        ⟨elapsed origin r.current + probeRule.init, probeRule.init⟩ := Option.some.inj ha
    have hd : elapsed origin r.tsProbe = elapsed origin r.current + probeRule.init := congrArg Alarm.deadline halarm
    have hw : r.probeWait.toNat = probeRule.init := congrArg Alarm.wait halarm
    exact ⟨by omega, by omega, hasks⟩
  · intro _ q hq hz
    have hsome := hprev q hq hz
    have hle := Backoff.wait_le_look (hs _ hsome)
    rw [hsome] at ha
    rw [← Option.some.inj ha] at hle
    exact UInt32.le_iff_toNat_le.mpr hle
  · intro _ q hq hz
    rw [hprev q hq hz] at hasks
    rw [hasks]
    by_cases hd : elapsed origin q.tsProbe ≤ elapsed origin r.current
    · rw [if_pos hd, if_pos (Backoff.rings_iff.mpr hd)]
    · rw [if_neg hd, if_neg fun hrings => hd (Backoff.rings_iff.mp hrings)]

/-- What a flush leaves of the timer, and how many WASK segments it sends. -/
theorem flush_timer (ho : Outbound k) (hu : k.updated = true) {f : Flushing} (hf : k.flush b = some f) :
    ∃ t w pr, probeWindow b.profile (k.setAcklist []) = some ((k.setAcklist []).setProbes t w pr) ∧
      f.kcb.timing = ⟨k.current, true, t, w⟩ ∧ f.kcb.probe = 0 ∧
      ((k.outgoing b.profile).getD []).countP (fun s => s.cmd == kcpCmdWask) =
        if pr &&& kcpAskSend ≠ 0 then 1 else 0 := by
  obtain ⟨segs, hs, -⟩ := flush_outgoing hf
  obtain ⟨t, w, pr, hp, hcount⟩ := countP_wask hu ho hs
  obtain ⟨t', w', pr', hp', nxt, buf, queue, xmit, buffer, s, c, i, e⟩ := flush_eq hu hf
  have hsame : (k.setAcklist []).setProbes t' w' pr' = (k.setAcklist []).setProbes t w pr :=
    Option.some.inj (hp'.symm.trans hp)
  obtain rfl : t' = t := congrArg Kcb.tsProbe hsame
  obtain rfl : w' = w := congrArg Kcb.probeWait hsame
  refine ⟨t', w', pr, hp, ?_, ?_, ?_⟩
  · simp only [Kcb.timing, e, setCwnd, setBuffer, setSndBuf, setSend, setProbes, setAcklist, hu]
  · rw [e]
    rfl
  · rw [hs]
    exact hcount

theorem ProbeInv.flush_open (hi : ProbeInv origin prev k) (ho : Outbound k) (hu : k.updated = true)
    (hopen : k.rmtWnd ≠ 0) {f : Flushing} (hf : k.flush b = some f) {r : Probed}
    (hr : r = ⟨k.rmtWnd, k.current, f.kcb.tsProbe, f.kcb.probeWait,
      ((k.outgoing b.profile).getD []).countP fun s => s.cmd == kcpCmdWask⟩) :
    r.After origin prev ∧ ProbeInv origin (some r) f.kcb := by
  obtain ⟨t, w, pr, hp, htime, hprobe, hcount⟩ := flush_timer ho hu hf
  -- an open window clears the timer and asks for nothing
  have hset : (k.setAcklist []).setProbes t w pr = (k.setAcklist []).setProbes 0 0 k.probe :=
    Option.some.inj (hp.symm.trans (probeWindow_open hopen))
  obtain rfl : t = 0 := congrArg Kcb.tsProbe hset
  obtain rfl : w = 0 := congrArg Kcb.probeWait hset
  obtain rfl : pr = k.probe := congrArg Kcb.probe hset
  rw [if_neg (by simp [hi.unasked])] at hcount
  have hcur : f.kcb.current = k.current := congrArg Timing.current htime
  have htp : f.kcb.tsProbe = 0 := congrArg Timing.tsProbe htime
  have hw : f.kcb.probeWait = 0 := congrArg Timing.probeWait htime
  have hnone : f.kcb.alarm origin = none := if_pos hw
  subst hr
  constructor
  · constructor
    · intro _
      exact ⟨hw, htp, hcount⟩
    all_goals
      intro hz
      exact absurd hz hopen
  · constructor
    · intro _
      rw [hcur]
      exact hi.now hu
    · intro _ a ha
      rw [hnone] at ha
      cases ha
    · exact fun _ => hnone
    · rw [hprobe]
      exact UInt32.zero_and
    · rw [hnone]
      exact (if_neg hopen).symm

theorem ProbeInv.flush_closed (hi : ProbeInv origin prev k) (ho : Outbound k) (hu : k.updated = true)
    (hclosed : k.rmtWnd = 0) {f : Flushing} (hf : k.flush b = some f) {r : Probed}
    (hr : r = ⟨k.rmtWnd, k.current, f.kcb.tsProbe, f.kcb.probeWait,
      ((k.outgoing b.profile).getD []).countP fun s => s.cmd == kcpCmdWask⟩) :
    r.After origin prev ∧ ProbeInv origin (some r) f.kcb := by
  obtain ⟨t, w, pr, hp, htime, hprobe, hcount⟩ := flush_timer ho hu hf
  have hnow := hi.now hu
  have hsound := hi.sound hu
  obtain ⟨halarm, hpr⟩ := probeWindow_look (k := k.setAcklist []) hclosed hnow hsound hp
  have hcur : f.kcb.current = k.current := congrArg Timing.current htime
  have htp : f.kcb.tsProbe = t := congrArg Timing.tsProbe htime
  have hw : f.kcb.probeWait = w := congrArg Timing.probeWait htime
  -- the alarm that is left is the one after the look, and it is set
  have hleft : f.kcb.alarm origin = some (probeRule.look (elapsed origin k.current) (k.alarm origin)).1 := by
    refine Eq.trans ?_ halarm
    unfold alarm
    rw [htp, hw]
    rfl
  have hr' : r.alarm origin = f.kcb.alarm origin := by
    have hne : f.kcb.probeWait ≠ 0 := by
      intro hz
      unfold alarm at hleft
      rw [if_pos hz] at hleft
      cases hleft
    rw [hr, Probed.alarm, if_pos hclosed]
    exact (if_neg hne).symm
  -- the flag was down before, so it tells whether the alarm rang
  have hflag : (if pr &&& kcpAskSend ≠ 0 then 1 else 0) =
      if (probeRule.look (elapsed origin k.current) (k.alarm origin)).2 then 1 else 0 := by
    have hpr' : pr = if (probeRule.look (elapsed origin k.current) (k.alarm origin)).2 then k.probe ||| kcpAskSend
        else k.probe := hpr
    rw [hpr']
    cases (probeRule.look (elapsed origin k.current) (k.alarm origin)).2 with
    | true => exact if_pos (raised_ne_zero _ (by decide))
    | false => exact if_neg (by simp [hi.unasked])
  have hlast := hi.last
  constructor
  · refine Probed.after_of_look ?_ ?_ ?_ ?_
    · rw [hr]
      exact hclosed
    · rw [hr, ← hlast]
      exact hsound
    · rw [hr', hleft, hr, ← hlast]
    · rw [hr, ← hlast]
      exact hcount.trans hflag
  · constructor
    · intro _
      rw [hcur]
      exact hnow
    · intro _ a ha
      rw [hleft] at ha
      rw [hcur, ← Option.some.inj ha]
      exact Backoff.sound_look hsound
    · intro hn
      have hup : f.kcb.updated = true := congrArg Timing.updated htime
      rw [hup] at hn
      cases hn
    · rw [hprobe]
      exact UInt32.zero_and
    · exact hr'.symm

/-- One call of a run: it leaves the schedule alone, or it flushes and keeps to it. -/
theorem ProbeInv.step (hi : ProbeInv origin prev e.kcb) (ho : Outbound e.kcb) (hf : Forward origin e op)
    (h : e.exec b op = some e') :
    probed b.profile e e' op = none ∧ ProbeInv origin prev e'.kcb ∨
      ∃ r, probed b.profile e e' op = some r ∧ r.After origin prev ∧ ProbeInv origin (some r) e'.kcb := by
  have hflush : ∀ {k : Kcb} {f : Flushing}, ProbeInv origin prev k → Outbound k → k.updated = true →
      k.flush b = some f → op.flushes b.profile e.kcb = some k → e'.kcb = f.kcb →
      ∃ r, probed b.profile e e' op = some r ∧ r.After origin prev ∧ ProbeInv origin (some r) e'.kcb := by
    intro k f hi ho hu hf hs he
    refine ⟨_, congrArg (Option.map _) hs, ?_⟩
    rw [Op.outgoing, hs, Option.bind_some, he]
    by_cases hr : k.rmtWnd = 0
    · exact hi.flush_closed ho hu hr hf rfl
    · exact hi.flush_open ho hu hr hf rfl
  cases called_of_exec hf.completed h with
  | send buf r hk => exact Or.inl ⟨rfl, hi.tells (.send hk)⟩
  | recv cap r hk => exact Or.inl ⟨rfl, hi.tells (.recv hk)⟩
  | input d r hk => exact Or.inl ⟨rfl, hi.tells (.input hk)⟩
  | idle hu hk =>
    left
    have hnone : (Op.flush none).flushes b.profile e.kcb = none := if_neg (by simp [hu])
    rw [hk, probed, hnone]
    exact ⟨rfl, hi⟩
  | clock now ts hs hk =>
    left
    rw [hk]
    exact ⟨congrArg (Option.map _) hs, hi.clocked hf.2.1 hf.2.2⟩
  | update now ts f hs hfl hk =>
    exact Or.inr (hflush (hi.clocked hf.2.1 hf.2.2) ⟨ho.sndBuf, ho.sndQueue, ho.mss, ho.stream⟩ rfl hfl hs hk)
  | flush f hu hfl hk => exact Or.inr (hflush hi ho hu hfl (if_pos hu) hk)

end Schedule

/-- **Zero-window probing keeps its schedule** over every run of completed flushes at clock readings that do not go
back: 7 s at first, half as long again each time, 120 s at most, one WASK segment when the timer has run out and none
before, and from the start again once the window was open. -/
theorem probing_schedule (b : Build) (origin conv : UInt32) (c : Config) (ops : List Op)
    (h : Meets (Endpoint.exec b) (Forward origin) (Endpoint.start conv c) ops) :
    Schedule origin none (probeLog b (Endpoint.start conv c) ops) := by
  have key : ∀ (ops : List Op) (e : Endpoint) (prev : Option Probed), ProbeInv origin prev e.kcb → Outbound e.kcb →
      Meets (Endpoint.exec b) (Forward origin) e ops → Schedule origin prev (probeLog b e ops) := by
    intro ops
    induction ops with
    | nil => exact fun _ _ _ _ _ => trivial
    | cons op ops ih =>
      intro e prev hi ho hm
      unfold probeLog
      cases he : e.exec b op with
      | none => exact trivial
      | some e' =>
        have ho' := ho.exec he
        have hm' := hm.2 e' he
        rcases hi.step ho hm.1 he with ⟨hr, hi'⟩ | ⟨r, hr, hafter, hi'⟩
        · simp only [hr, Option.toList_none, List.nil_append]
          exact ih e' prev hi' ho' hm'
        · simp only [hr, Option.toList_some, List.singleton_append]
          exact ⟨hafter, ih e' (some r) hi' ho' hm'⟩
  exact key ops _ none (probeInv_start conv c) (outbound_start conv c) h

/-- A window that closes after the first flush, opens at 20 s and closes again. -/
def closingWindow : List Op :=
  [.update 0 none, .input (encodes [{ conv := 7, cmd := kcpCmdWins, wnd := 0 }]), .update 100 none, .update 7099 none,
    .update 7100 none, .flush none, .update 17600 none,
    .input (encodes [{ conv := 7, cmd := kcpCmdWins, wnd := 8 }]), .update 20000 none,
    .input (encodes [{ conv := 7, cmd := kcpCmdWins, wnd := 0 }]), .update 20100 none]

theorem probing_schedule_closingWindow :
    Schedule 0 none (probeLog ⟨.release, bytesMut⟩ (Endpoint.start 7 {}) closingWindow) ∧
      (probeLog ⟨.release, bytesMut⟩ (Endpoint.start 7 {}) closingWindow).map (fun r => (r.probeWait, r.asks)) =
        [(0, 0), (7000, 0), (7000, 0), (10500, 1), (15750, 1), (0, 0), (7000, 0)] :=
  ⟨probing_schedule _ 0 7 {} _ (by decide +kernel), by decide +kernel⟩

section Written

variable {b : Build} {e e' : Endpoint} {op : Op}

/-- What a call tells about the probe is told by its bytes: its WASK segments stand among those that it encodes. -/
theorem probed_written (hop : op.Completed) (h : e.exec b op = some e') :
    ∃ segs, e'.output = e.output ++ encodes segs ∧
      segs.countP (fun s => s.cmd == kcpCmdWask) = ((probed b.profile e e' op).toList.map Probed.asks).sum := by
  obtain ⟨segs, hout, hall⟩ := output_exec h
  refine ⟨segs, hout, ?_⟩
  rw [← hall hop, probed]
  cases hk : op.flushes b.profile e.kcb with
  | none => simp [Op.outgoing, hk]
  | some k => simp

/-- **The bytes of a run hold as many WASK segments as its log counts.** -/
theorem probeLog_written {ops : List Op} (hops : ∀ op ∈ ops, op.Completed)
    (hr : run (Endpoint.exec b) e ops = some e') :
    ∃ segs, e'.output = e.output ++ encodes segs ∧
      segs.countP (fun s => s.cmd == kcpCmdWask) = ((probeLog b e ops).map Probed.asks).sum := by
  induction ops generalizing e with
  | nil =>
    obtain rfl := Option.some.inj hr
    exact ⟨[], by rw [encodes_nil, List.append_nil], rfl⟩
  | cons op ops ih =>
    obtain ⟨e₁, h1, h2⟩ := run_cons.mp hr
    obtain ⟨segs, hout, hasks⟩ := probed_written (hops op List.mem_cons_self) h1
    obtain ⟨segs', hout', hasks'⟩ := ih (fun o ho => hops o (List.mem_cons_of_mem _ ho)) h2
    refine ⟨segs ++ segs', by rw [hout', hout, encodes_append, List.append_assoc], ?_⟩
    rw [probeLog, h1, List.countP_append, hasks, hasks', List.map_append, List.sum_append]

end Written

/-! ### The wait in every reachable state -/

namespace Flushing

/-- From `f` to `f'` the wait stays, and what was written in between was written with this wait. -/
structure Waits (f f' : Flushing) : Prop where
  wait : f'.kcb.probeWait = f.kcb.probeWait
  writes : ∀ w ∈ f'.writes, w ∈ f.writes ∨ w.probeWait = f.kcb.probeWait

variable {b : Build} {f f' f'' : Flushing} {k : Kcb}

theorem Waits.of_writes (hk : f'.kcb.probeWait = f.kcb.probeWait) (hw : f'.writes = f.writes) : f.Waits f' :=
  ⟨hk, fun _ hx => Or.inl (hw ▸ hx)⟩

theorem Waits.trans (h : f.Waits f') (h' : f'.Waits f'') : f.Waits f'' := by
  refine ⟨h'.wait.trans h.wait, ?_⟩
  intro w hw
  rcases h'.writes w hw with hw | hw
  · exact h.writes w hw
  · exact Or.inr (hw.trans h.wait)

/-- A change of other fields before. -/
theorem Waits.since {f₁ : Flushing} (h : f₁.Waits f') (hk : f₁.kcb.probeWait = f.kcb.probeWait)
    (hw : f₁.writes = f.writes) : f.Waits f' :=
  (of_writes hk hw).trans h

/-- A change of other fields after. -/
theorem Waits.until {f₁ : Flushing} (h : f.Waits f₁) (hk : f'.kcb.probeWait = f₁.kcb.probeWait)
    (hw : f'.writes = f₁.writes) : f.Waits f' :=
  h.trans (of_writes hk hw)

theorem waits_writeAll (f : Flushing) : f.Waits f.writeAll := by
  refine ⟨rfl, ?_⟩
  intro w hw
  rcases List.mem_append.mp hw with hw | hw
  · exact Or.inl hw
  · exact Or.inr (congrArg Kcb.probeWait (List.mem_singleton.mp hw))

theorem waits_sizeTest {need : ℕ} (h : f.sizeTest b need = some f') : f.Waits f' := by
  simp only [sizeTest, Option.bind_eq_bind, Option.bind_eq_some_iff] at h
  obtain ⟨total, -, h⟩ := h
  split_ifs at h
  · obtain rfl := Option.some.inj h
    exact (waits_writeAll _).since rfl rfl
  · obtain rfl := Option.some.inj h
    exact .of_writes rfl rfl

theorem waits_lasting : Lasting b Waits :=
  ⟨fun _ => .of_writes rfl rfl, Waits.trans, waits_sizeTest, fun _ _ => .of_writes rfl rfl⟩

theorem waits_flushData {resent rtomin wnd : UInt32} {done rest : List Segment}
    (h : flushData b resent rtomin wnd done rest f = some f') : f.Waits f' := by
  induction rest generalizing done f with
  | nil =>
    obtain rfl := Option.some.inj h
    exact .of_writes rfl rfl
  | cons seg rest ih =>
    simp only [flushData, Option.bind_eq_bind, Option.bind_eq_some_iff] at h
    obtain ⟨d, -, ⟨seg', k₁⟩, hs, h⟩ := h
    obtain ⟨-, xmit, rfl⟩ := stamp_eq hs
    split_ifs at h
    · exact (ih h).since rfl rfl
    · obtain ⟨f2, h2, h⟩ := Option.bind_eq_some_iff.mp h
      exact ((waits_sizeTest h2).trans ((ih h).since rfl rfl)).since rfl rfl

/-- A flush writes with the wait it found, or with the one that it leaves. -/
theorem probeWait_writes (h : k.flush b = some f) :
    ∀ w ∈ f.writes, w.probeWait = k.probeWait ∨ w.probeWait = f.kcb.probeWait := by
  unfold Kcb.flush at h
  split_ifs at h
  · obtain rfl := Option.some.inj h
    intro w hw
    exact absurd hw List.not_mem_nil
  · simp only [flushControl, Option.bind_eq_bind, Option.bind_eq_some_iff, Option.some.injEq] at h
    obtain ⟨f1, ⟨⟨s1, g1⟩, h1, k1, h2, ⟨s2, g2⟩, h3, ⟨s3, g3⟩, h4, rfl⟩, edge, -, k2, h5, f3, h6, k4, h7, rfl⟩ := h
    obtain ⟨nxt, l, rest, rfl⟩ := fillWindow_eq h5
    obtain ⟨s, c, i, rfl⟩ := settleCwnd_eq h7
    have hacks := waits_lasting.flushAcks h1
    have hrest : f3.Waits (f3.writeRest b) := by
      unfold writeRest
      split_ifs
      · exact waits_writeAll f3
      · exact .of_writes rfl rfl
    have hlate : Waits { g1 with kcb := k1 } { f3.writeRest b with kcb := (f3.writeRest b).kcb.setCwnd s c i } :=
      ((waits_lasting.flushProbe h3).trans ((waits_lasting.flushProbe h4).trans
        (((waits_flushData h6).trans hrest).since rfl rfl))).until rfl rfl
    intro w hw
    rcases hlate.writes w hw with hw | hw
    · rcases hacks.writes w hw with hw | hw
      · exact absurd hw List.not_mem_nil
      · exact Or.inl hw
    · exact Or.inr (hw.trans hlate.wait.symm)

end Flushing

theorem probeWindow_limit {p : Profile} {k : Kcb} {t w pr : UInt32} (hle : k.probeWait ≤ kcpProbeLimit)
    (h : probeWindow p k = some (k.setProbes t w pr)) : w ≤ kcpProbeLimit ∧ (w = 0 → t = 0) := by
  have hlim : kcpProbeLimit.toNat = 120000 := rfl
  have hinit : kcpProbeInit.toNat = 7000 := rfl
  have hzero : (0 : UInt32).toNat = 0 := rfl
  have hpos : ∀ {x : UInt32}, 7000 ≤ x.toNat → x ≠ 0 := by
    rintro x hx rfl
    omega
  unfold probeWindow at h
  by_cases hr : k.rmtWnd ≠ 0
  · rw [if_pos hr] at h
    have hset := Option.some.inj h
    obtain rfl : 0 = w := congrArg Kcb.probeWait hset
    obtain rfl : 0 = t := congrArg Kcb.tsProbe hset
    exact ⟨UInt32.zero_le, fun _ => rfl⟩
  rw [if_neg hr] at h
  by_cases hw : k.probeWait = 0
  · rw [if_pos hw] at h
    simp only [Option.bind_eq_bind, Option.bind_eq_some_iff, Option.some.injEq] at h
    obtain ⟨x, -, hset⟩ := h
    obtain rfl : kcpProbeInit = w := congrArg Kcb.probeWait hset
    refine ⟨?_, fun hz => absurd hz (hpos (by omega))⟩
    rw [UInt32.le_iff_toNat_le]
    omega
  rw [if_neg hw] at h
  simp only [Option.bind_eq_bind, Option.bind_eq_some_iff] at h
  obtain ⟨late, -, h⟩ := h
  split_ifs at h
  · simp only [Option.bind_eq_some_iff, Option.some.injEq] at h
    obtain ⟨v, hv, y, -, hset⟩ := h
    obtain rfl : v = w := congrArg Kcb.probeWait hset
    obtain ⟨v', hv', hgrown⟩ := backoff_eq (p := p) hle
    obtain rfl := Option.some.inj (hv'.symm.trans hv)
    unfold grownWait at hgrown
    exact ⟨UInt32.le_iff_toNat_le.mpr (by omega), fun hz => absurd hz (hpos (by omega))⟩
  · have hset := Option.some.inj h
    obtain rfl : k.probeWait = w := congrArg Kcb.probeWait hset
    exact ⟨hle, fun hz => absurd hz hw⟩

theorem probeWait_exec {b : Build} {e e' : Endpoint} {op : Op} (h : e.exec b op = some e')
    (hle : e.kcb.probeWait ≤ kcpProbeLimit) : e'.kcb.probeWait ≤ kcpProbeLimit := by
  have hflush : ∀ {k : Kcb} {f : Flushing} (cut : Option ℕ), k.probeWait ≤ kcpProbeLimit → k.flush b = some f →
      (f.stopAt cut).1.probeWait ≤ kcpProbeLimit := by
    intro k f cut hk hf
    have hend : f.kcb.probeWait ≤ kcpProbeLimit := by
      cases hu : k.updated with
      | true =>
        obtain ⟨t, w, pr, hp, nxt, buf, queue, xmit, buffer, s, c, i, e⟩ := flush_eq hu hf
        rw [e]
        exact (probeWindow_limit (k := k.setAcklist []) hk hp).1
      | false =>
        rw [Kcb.flush, hu, Bool.not_false, if_pos rfl] at hf
        obtain rfl := Option.some.inj hf
        exact hk
    refine stopAt_rule (I := fun k => k.probeWait ≤ kcpProbeLimit) hend (fun w hw => ?_) cut
    rcases probeWait_writes hf w hw with hw | hw
    · exact hw ▸ hk
    · exact hw ▸ hend
  have htells : ∀ {k : Kcb}, e.kcb.Tells k → k.probeWait ≤ kcpProbeLimit := by
    intro k ht
    rw [show k.probeWait = e.kcb.probeWait from congrArg Timing.probeWait ht.timing]
    exact hle
  cases ran_of_exec h with
  | send buf r hs => exact htells (.send hs)
  | recv cap r hs => exact htells (.recv hs)
  | input d r hs => exact htells (.input hs)
  | clock now ts cut hk => exact hk ▸ hle
  | update now ts cut f hf hk => exact hk ▸ hflush cut (k := e.kcb.clocked now ts) hle hf
  | flush cut f hf hk => exact hk ▸ hflush cut hle hf

/-- **In every reachable state the wait is within the limit.** -/
theorem probeWait_run {b : Build} {conv : UInt32} {c : Config} {ops : List Op} {e : Endpoint}
    (hr : run (Endpoint.exec b) (Endpoint.start conv c) ops = some e) : e.kcb.probeWait ≤ kcpProbeLimit := by
  refine run_invariant (I := fun e => e.kcb.probeWait ≤ kcpProbeLimit) (fun _ _ _ hle h => probeWait_exec h hle) hr ?_
  obtain ⟨sndWnd, rcvWnd, nodelay, rxMinrto, interval, fastresend, h⟩ := configured_eq conv c
  rw [Endpoint.start, h]
  exact UInt32.zero_le

end NetProtocols.Kcp
