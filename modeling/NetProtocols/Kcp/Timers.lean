import NetProtocols.Kcp.Probe
import NetProtocols.Kcp.Checked

/-!
# NetProtocols.Kcp.Timers — which clock readings stop a build with overflow checks

`timediff` subtracts two times read as `i32`, and a new deadline is a plain `u32` sum.  Both are meant modulo `2 ^ 32`;
under the `dev` profile the difference stops the thread when the times stand on different sides of `2 ^ 31` and are less
than half a lap apart, and the sum when the deadline lies behind the end of the lap.

* `Comparable`, `Forth`: the two conditions.
* `TimerCall`, `Endpoint.TimersGo`: a call or a `check`, and "none of its timestamp computations overflows".
* `UpdateTimeFits`, `FlushTimeFits`, `CheckTimeFits`: when that is so, by the reading and the stored times.
* `timers_go_iff`: no step of a run overflows exactly when every step meets its condition.
-/

namespace NetProtocols.Kcp

open Kcb Flushing

/-! ### Differences and sums of times -/

/-- Two times whose difference fits into `i32`: on the same side of `2 ^ 31`, or half a lap apart. -/
def Comparable (a b : UInt32) : Prop :=
  (a.toNat < 2 ^ 31 ↔ b.toNat < 2 ^ 31) ∨ b.toNat + 2 ^ 31 ≤ a.toNat ∨ a.toNat + 2 ^ 31 < b.toNat

instance (a b : UInt32) : Decidable (Comparable a b) := inferInstanceAs (Decidable (_ ∨ _))

/-- A deadline `wait` after `t` lies on the same lap. -/
def Forth (t : UInt32) (wait : ℕ) : Prop := t.toNat + wait < 2 ^ 32

instance (t : UInt32) (wait : ℕ) : Decidable (Forth t wait) := inferInstanceAs (Decidable (_ < _))

theorem comparable_iff {a b : UInt32} : Comparable a b ↔ -2 ^ 31 ≤ age a b ∧ age a b < 2 ^ 31 := by
  have ha := a.toNat_lt
  have hb := b.toNat_lt
  unfold Comparable age
  rw [toInt_toInt32, toInt_toInt32]
  split_ifs <;> omega

theorem Comparable.toInt_eq {a b : UInt32} (h : Comparable a b) : (a.toInt32 - b.toInt32).toInt = age a b := by
  obtain ⟨h1, h2⟩ := comparable_iff.mp h
  rw [Int32.toInt_sub]
  exact Int.bmod_eq_of_le h1 h2

theorem timediff_dev_eq_some {a b : UInt32} {d : Int32} :
    timediff .dev a b = some d ↔ Comparable a b ∧ d = a.toInt32 - b.toInt32 := by
  rw [comparable_iff]
  exact Profile.checked_dev_eq_some

theorem add_dev_eq_some {a b c : UInt32} : Profile.dev.add a b = some c ↔ Forth a b.toNat ∧ c = a + b := by
  exact Profile.checked_dev_eq_some

theorem forth_add {t a : UInt32} {w : ℕ} : Forth t a.toNat ∧ Forth (t + a) w ↔ Forth t (a.toNat + w) := by
  unfold Forth
  constructor
  · rintro ⟨h1, h2⟩
    rw [toNat_add_of_lt h1] at h2
    omega
  · intro h
    have h1 : t.toNat + a.toNat < 2 ^ 32 := by omega
    refine ⟨h1, ?_⟩
    rw [toNat_add_of_lt h1]
    omega

theorem forth_add_left {t a b : UInt32} :
    Forth a b.toNat ∧ Forth t (a + b).toNat ↔ Forth t (a.toNat + b.toNat) := by
  unfold Forth
  constructor
  · rintro ⟨h1, h2⟩
    rw [toNat_add_of_lt h1] at h2
    exact h2
  · intro h
    have h1 : a.toNat + b.toNat < 2 ^ 32 := by omega
    refine ⟨h1, ?_⟩
    rw [toNat_add_of_lt h1]
    exact h

theorem late_iff_age {a b : UInt32} (h : Comparable a b) : 0 ≤ a.toInt32 - b.toInt32 ↔ 0 ≤ age a b := by
  rw [Int32.le_iff_toInt_le, h.toInt_eq]
  exact Iff.rfl

/-! ### The probe timer -/

/-- The probe timer of a flush. -/
def ProbeTimeFits (k : Kcb) : Prop :=
  k.rmtWnd = 0 →
    if k.probeWait = 0 then Forth k.current kcpProbeInit.toNat
    else Comparable k.current k.tsProbe ∧ (0 ≤ age k.current k.tsProbe → Forth k.current (grownWait k.probeWait.toNat))

theorem isSome_probeWindow_iff {k : Kcb} (hle : k.probeWait ≤ kcpProbeLimit) :
    (probeWindow .dev k).isSome ↔ ProbeTimeFits k := by
  obtain ⟨w, hb, hw⟩ := backoff_eq (p := .dev) hle
  unfold probeWindow ProbeTimeFits
  by_cases hr : k.rmtWnd ≠ 0
  · rw [if_pos hr]
    exact iff_of_true rfl fun hz => absurd hz hr
  rw [if_neg hr]
  have hz : k.rmtWnd = 0 := not_not.mp hr
  by_cases h0 : k.probeWait = 0
  · rw [if_pos h0, if_pos h0, Option.isSome_iff_exists]
    simp only [Option.bind_eq_bind, Option.bind_eq_some_iff, add_dev_eq_some, Option.some.injEq]
    constructor
    · rintro ⟨_, t, ⟨h, -⟩, -⟩ _
      exact h
    · intro h
      exact ⟨_, _, ⟨h hz, rfl⟩, rfl⟩
  rw [if_neg h0, if_neg h0, Option.isSome_iff_exists]
  simp only [Option.bind_eq_bind, Option.bind_eq_some_iff, timediff_dev_eq_some]
  constructor
  · rintro ⟨k', late, ⟨hc, rfl⟩, h⟩ _
    refine ⟨hc, fun hlate => ?_⟩
    rw [if_pos ((late_iff_age hc).mpr hlate), hb, Option.bind_some] at h
    obtain ⟨t, ht, -⟩ := Option.bind_eq_some_iff.mp h
    rw [← hw]
    exact (add_dev_eq_some.mp ht).1
  · intro h
    obtain ⟨hc, hlate⟩ := h hz
    by_cases hl : 0 ≤ k.current.toInt32 - k.tsProbe.toInt32
    · have hf := hlate ((late_iff_age hc).mp hl)
      rw [← hw] at hf
      refine ⟨k.setProbes (k.current + w) w (k.probe ||| kcpAskSend), _, ⟨hc, rfl⟩, ?_⟩
      rw [if_pos hl, hb, Option.bind_some, add_dev_eq_some.mpr ⟨hf, rfl⟩, Option.bind_some]
    · refine ⟨k, _, ⟨hc, rfl⟩, ?_⟩
      rw [if_neg hl]

/-! ### The retransmission timers -/

/-- The new `resendts` of a segment that is sent for the reason `d`. -/
def resendAt (p : Profile) (k : Kcb) (seg : Segment) : Due → Option UInt32
  | .no => some seg.resendts
  | .first => do
    let at' ← p.add k.current k.rxRto
    p.add at' k.rtomin
  | .timeout => do
    let rto ← p.add seg.rto (if k.nodelay = 0 then k.rxRto else k.rxRto / 2)
    p.add k.current rto
  | .fast => p.add k.current seg.rto

/-- `resendAt` is what `stamp` computes beside its counters. -/
theorem resendAt_of_stamp {p : Profile} {k k' : Kcb} {seg seg' : Segment} {d : Due}
    (h : stamp p k k.rtomin seg d = some (seg', k')) : resendAt p k seg d = some seg'.resendts := by
  cases d <;>
    simp only [stamp, Option.bind_eq_bind, Option.bind_eq_some_iff, Option.some.injEq, Prod.mk.injEq] at h
  case no =>
    obtain ⟨rfl, -⟩ := h
    rfl
  case first =>
    obtain ⟨x, -, t, h1, t', h2, rfl, -⟩ := h
    simp only [resendAt, Option.bind_eq_bind, h1, Option.bind_some, h2]
  case timeout =>
    obtain ⟨x, -, n, -, r, h1, t, h2, rfl, -⟩ := h
    simp only [resendAt, Option.bind_eq_bind, h1, Option.bind_some, h2]
  case fast =>
    obtain ⟨x, -, t, h1, rfl, -⟩ := h
    exact h1

/-- The timestamp computations of a flush for one segment of `snd_buf`. -/
def resendTime (p : Profile) (k : Kcb) (seg : Segment) : Option UInt32 := do
  let d ← due p k.current k.resent seg
  resendAt p k seg d

/-- What a retransmission adds to the `rto` of a segment. -/
def Kcb.rtoStep (k : Kcb) : UInt32 := if k.nodelay = 0 then k.rxRto else k.rxRto / 2

/-- The timers of one segment of `snd_buf`. -/
def SegmentTimeFits (k : Kcb) (seg : Segment) : Prop :=
  if seg.xmit = 0 then Forth k.current (k.rxRto.toNat + k.rtomin.toNat)
  else Comparable k.current seg.resendts ∧
    if 0 ≤ age k.current seg.resendts then Forth k.current (seg.rto.toNat + k.rtoStep.toNat)
    else k.resent ≤ seg.fastack → Forth k.current seg.rto.toNat

/-- The sums of each branch. -/
def ResendFits (k : Kcb) (seg : Segment) : Due → Prop
  | .no => True
  | .first => Forth k.current (k.rxRto.toNat + k.rtomin.toNat)
  | .timeout => Forth k.current (seg.rto.toNat + k.rtoStep.toNat)
  | .fast => Forth k.current seg.rto.toNat

theorem isSome_resendAt_iff {k : Kcb} {seg : Segment} {d : Due} :
    (resendAt .dev k seg d).isSome ↔ ResendFits k seg d := by
  rw [Option.isSome_iff_exists]
  cases d
  case no => exact iff_of_true ⟨_, rfl⟩ trivial
  case first =>
    simp only [resendAt, ResendFits, Option.bind_eq_bind, Option.bind_eq_some_iff, add_dev_eq_some]
    rw [← forth_add]
    constructor
    · rintro ⟨t, u, ⟨h1, rfl⟩, h2, -⟩
      exact ⟨h1, h2⟩
    · rintro ⟨h1, h2⟩
      exact ⟨_, _, ⟨h1, rfl⟩, h2, rfl⟩
  case timeout =>
    simp only [resendAt, ResendFits, Option.bind_eq_bind, Option.bind_eq_some_iff, add_dev_eq_some]
    rw [← forth_add_left, rtoStep]
    constructor
    · rintro ⟨t, u, ⟨h1, rfl⟩, h2, -⟩
      exact ⟨h1, h2⟩
    · rintro ⟨h1, h2⟩
      exact ⟨_, _, ⟨h1, rfl⟩, h2, rfl⟩
  case fast =>
    simp only [resendAt, ResendFits, add_dev_eq_some]
    exact ⟨fun ⟨_, h, _⟩ => h, fun h => ⟨_, h, rfl⟩⟩

theorem isSome_resendTime_iff {k : Kcb} {seg : Segment} : (resendTime .dev k seg).isSome ↔ SegmentTimeFits k seg := by
  have hdue : ∀ {d : Due}, due .dev k.current k.resent seg = some d →
      ((resendTime .dev k seg).isSome ↔ ResendFits k seg d) := by
    intro d hd
    rw [← isSome_resendAt_iff, resendTime, hd]
    exact Iff.rfl
  unfold SegmentTimeFits
  by_cases hx : seg.xmit = 0
  · rw [if_pos hx]
    exact hdue (if_pos hx)
  rw [if_neg hx]
  by_cases hc : Comparable k.current seg.resendts
  · have hd : due .dev k.current k.resent seg = if 0 ≤ k.current.toInt32 - seg.resendts.toInt32 then some Due.timeout
        else if k.resent ≤ seg.fastack then some Due.fast else some Due.no := by
      unfold due
      rw [if_neg hx, timediff_dev_eq_some.mpr ⟨hc, rfl⟩]
      rfl
    rw [and_iff_right hc]
    by_cases hl : 0 ≤ age k.current seg.resendts
    · rw [if_pos hl]
      rw [if_pos ((late_iff_age hc).mpr hl)] at hd
      exact hdue hd
    rw [if_neg hl]
    rw [if_neg fun hn => hl ((late_iff_age hc).mp hn)] at hd
    by_cases hf : k.resent ≤ seg.fastack
    · rw [if_pos hf] at hd
      rw [hdue hd]
      exact ⟨fun h _ => h, fun h => h hf⟩
    · rw [if_neg hf] at hd
      rw [hdue hd]
      exact iff_of_true trivial fun hn => absurd hn hf
  · refine iff_of_false ?_ fun h => hc h.1
    have hnone : timediff .dev k.current seg.resendts = none := by
      cases ht : timediff .dev k.current seg.resendts with
      | none => rfl
      | some d => exact absurd (timediff_dev_eq_some.mp ht).1 hc
    rw [resendTime, due, if_neg hx, hnone]
    exact Bool.false_ne_true

/-! ### A flush -/

/-- The segments that the loop "flush data segments" goes through: those of `snd_buf`, and those that the window lets
in. -/
def Kcb.inFlight (k : Kcb) : List Segment :=
  ((fillWindow .release (k.sndUna + k.flushWnd) k.wndUnused k.sndQueue k).getD k).sndBuf

/-- No timestamp computation of a flush overflows. -/
structure FlushGoes (k : Kcb) : Prop where
  probe : (probeWindow .dev k).isSome
  data : ∀ seg ∈ k.inFlight, (resendTime .dev k seg).isSome

/-- The timers of a flush. -/
structure FlushTimeFits (k : Kcb) : Prop where
  probe : ProbeTimeFits k
  data : ∀ seg ∈ k.sndBuf, SegmentTimeFits k seg
  first : k.sndQueue ≠ [] → k.sndNxt < k.sndUna + k.flushWnd → Forth k.current (k.rxRto.toNat + k.rtomin.toNat)

theorem fillWindow_news {edge wnd : UInt32} {queue : List Segment} {k k' : Kcb}
    (h : fillWindow .release edge wnd queue k = some k') :
    ∃ l, k'.sndBuf = k.sndBuf ++ l ∧ (∀ seg ∈ l, seg.xmit = 0) ∧ (l = [] ↔ ¬ (queue ≠ [] ∧ k.sndNxt < edge)) := by
  induction queue generalizing k with
  | nil =>
    obtain rfl := Option.some.inj h
    exact ⟨[], (List.append_nil _).symm, fun _ hs => absurd hs List.not_mem_nil, iff_of_true rfl fun hn => hn.1 rfl⟩
  | cons seg rest ih =>
    unfold fillWindow at h
    split_ifs at h with hlt
    · obtain ⟨l, h1, h2, -⟩ := ih h
      refine ⟨assign k wnd seg :: l, ?_, ?_, ?_⟩
      · rw [h1]
        simp [moveSegment]
      · intro s hs
        rcases List.mem_cons.mp hs with rfl | hs
        · rfl
        · exact h2 s hs
      · exact iff_of_false (List.cons_ne_nil _ _) fun hn => hn ⟨List.cons_ne_nil _ _, hlt⟩
    · obtain rfl := Option.some.inj h
      exact ⟨[], (List.append_nil _).symm, fun _ hs => absurd hs List.not_mem_nil, iff_of_true rfl fun hn => hlt hn.2⟩

theorem flushGoes_iff {k : Kcb} (hle : k.probeWait ≤ kcpProbeLimit) : FlushGoes k ↔ FlushTimeFits k := by
  have hfill : ∃ l, k.inFlight = k.sndBuf ++ l ∧ (∀ seg ∈ l, seg.xmit = 0) ∧
      (l = [] ↔ ¬ (k.sndQueue ≠ [] ∧ k.sndNxt < k.sndUna + k.flushWnd)) := by
    obtain ⟨k', hk'⟩ := Option.isSome_iff_exists.mp
      (fillWindow_release (k.sndUna + k.flushWnd) k.wndUnused k.sndQueue k)
    obtain ⟨l, h⟩ := fillWindow_news hk'
    refine ⟨l, ?_⟩
    rw [inFlight, hk']
    exact h
  obtain ⟨l, hl, hnew, hnil⟩ := hfill
  have hfirst : ∀ seg ∈ l, (resendTime .dev k seg).isSome ↔ Forth k.current (k.rxRto.toNat + k.rtomin.toNat) := by
    intro seg hs
    rw [isSome_resendTime_iff, SegmentTimeFits, if_pos (hnew seg hs)]
  constructor
  · intro h
    constructor
    · exact (isSome_probeWindow_iff hle).mp h.probe
    · intro seg hs
      refine isSome_resendTime_iff.mp (h.data seg ?_)
      rw [hl]
      exact List.mem_append_left l hs
    · intro hq hlt
      obtain ⟨seg, hs⟩ := List.exists_mem_of_ne_nil l fun hn => hnil.mp hn ⟨hq, hlt⟩
      refine (hfirst seg hs).mp (h.data seg ?_)
      rw [hl]
      exact List.mem_append_right _ hs
  · intro h
    refine ⟨(isSome_probeWindow_iff hle).mpr h.probe, ?_⟩
    intro seg hs
    rw [hl] at hs
    rcases List.mem_append.mp hs with hs | hs
    · exact isSome_resendTime_iff.mpr (h.data seg hs)
    · have hmoved : k.sndQueue ≠ [] ∧ k.sndNxt < k.sndUna + k.flushWnd :=
        not_not.mp fun hn => List.ne_nil_of_mem hs (hnil.mpr hn)
      exact (hfirst seg hs).mpr (h.first hmoved.1 hmoved.2)

/-- The segments that a `dev` build goes through are those of `inFlight`. -/
theorem fillWindow_release_of_dev {edge wnd : UInt32} {queue : List Segment} {k k' : Kcb}
    (h : fillWindow .dev edge wnd queue k = some k') : fillWindow .release edge wnd queue k = some k' := by
  induction queue generalizing k with
  | nil => exact h
  | cons seg rest ih =>
    unfold fillWindow at h ⊢
    split_ifs at h ⊢
    · obtain ⟨nxt, hn, h⟩ := Option.bind_eq_some_iff.mp h
      obtain rfl := Profile.add_eq_some hn
      exact ih h
    · exact h

theorem resendTime_of_transmitted {p : Profile} {wnd : UInt32} {l segs : List Segment} {k : Kcb}
    (h : transmitted p k.resent k.rtomin wnd k l = some segs) : ∀ seg ∈ l, (resendTime p k seg).isSome := by
  -- the loop changes nothing of the control block but its own `xmit`
  have key : ∀ (l segs : List Segment) (xmit : UInt32),
      transmitted p k.resent k.rtomin wnd (k.setSndBuf k.sndBuf xmit) l = some segs →
      ∀ seg ∈ l, (resendTime p k seg).isSome := by
    intro l
    induction l with
    | nil => exact fun _ _ _ _ hs => absurd hs List.not_mem_nil
    | cons seg rest ih =>
      intro segs xmit h
      simp only [transmitted, Option.bind_eq_bind, Option.bind_eq_some_iff] at h
      obtain ⟨d, hd, ⟨seg', k₁⟩, hs, segs', ht, -⟩ := h
      obtain ⟨-, xmit', rfl⟩ := stamp_eq hs
      intro s hmem
      rcases List.mem_cons.mp hmem with rfl | hmem
      · have hat : resendAt p k s d = some seg'.resendts := resendAt_of_stamp (k := k.setSndBuf k.sndBuf xmit) hs
        have hdue : due p k.current k.resent s = some d := hd
        rw [resendTime, hdue, Option.bind_eq_bind, Option.bind_some, hat]
        rfl
      · exact ih segs' xmit' ht s hmem
  exact key l segs k.xmit h

/-- A flush that a `dev` build completes has overflown nowhere. -/
theorem flushGoes_of_flush {b : Build} {k : Kcb} {f : Flushing} (hb : b.profile = .dev) (hu : k.updated = true)
    (h : k.flush b = some f) : FlushGoes k := by
  obtain ⟨segs, ho, -⟩ := flush_outgoing h
  rw [hb] at ho
  unfold outgoing at ho
  rw [if_neg (by simp [hu])] at ho
  simp only [Option.bind_eq_bind, Option.bind_eq_some_iff, Option.some.injEq] at ho
  obtain ⟨k₁, hk₁, edge, he, k₂, hk₂, data, ht, -⟩ := ho
  obtain ⟨t, w, pr, rfl⟩ := probeWindow_eq hk₁
  obtain rfl := Profile.add_eq_some he
  have hfill := fillWindow_release_of_dev hk₂
  rw [fillWindow_frame (fun k => (k.setAcklist []).setProbes t w pr) (fun _ => rfl) (fun _ _ _ _ => rfl)
    (fun _ _ => rfl)] at hfill
  obtain ⟨k₃, hk₃, rfl⟩ := Option.map_eq_some_iff.mp hfill
  constructor
  · have hframe := probeWindow_frame (p := .dev) (fun k => k.setAcklist []) k rfl rfl rfl rfl rfl fun _ _ _ => rfl
    rw [hframe, Option.map_eq_some_iff] at hk₁
    obtain ⟨x, hx, -⟩ := hk₁
    exact Option.isSome_of_eq_some hx
  · have hsnd : k.inFlight = k₃.sndBuf := by
      rw [inFlight, hk₃]
      rfl
    rw [hsnd]
    obtain ⟨nxt, l, rest, rfl⟩ := fillWindow_eq hk₃
    have hloop := resendTime_of_transmitted
      (k := ((setSend k nxt (k.sndBuf ++ l) rest).setAcklist []).setProbes t w pr) ht
    intro seg hs
    have hseg := hloop seg hs
    exact hseg

/-! ### `update` -/

/-- The flush timer, set on from `ts` at the reading `now`. -/
def TickFits (now ts interval : UInt32) : Prop :=
  Forth ts interval.toNat ∧ Comparable now (ts + interval) ∧ (0 ≤ age now (ts + interval) → Forth now interval.toNat)

theorem ticked_dev_eq_some {k k' : Kcb} {now ts : UInt32} :
    ticked .dev (k.clocked now ts) = some k' ↔ TickFits now ts k.interval ∧
      k' = k.clocked now (if 0 ≤ age now (ts + k.interval) then now + k.interval else ts + k.interval) := by
  have hclock : (k.clocked now ts).tsFlush = ts ∧ (k.clocked now ts).interval = k.interval ∧
      (k.clocked now ts).current = now := ⟨rfl, rfl, rfl⟩
  unfold ticked TickFits
  rw [hclock.1, hclock.2.1, hclock.2.2]
  simp only [Option.bind_eq_bind, Option.bind_eq_some_iff, add_dev_eq_some, timediff_dev_eq_some, Option.some.injEq]
  constructor
  · rintro ⟨_, ⟨hf, rfl⟩, _, ⟨hc, rfl⟩, t, ht, rfl⟩
    by_cases hl : 0 ≤ age now (ts + k.interval)
    · rw [if_pos ((late_iff_age hc).mpr hl)] at ht
      obtain ⟨h, rfl⟩ := add_dev_eq_some.mp ht
      rw [if_pos hl]
      exact ⟨⟨hf, hc, fun _ => h⟩, rfl⟩
    · rw [if_neg fun hn => hl ((late_iff_age hc).mp hn)] at ht
      obtain rfl := Option.some.inj ht
      rw [if_neg hl]
      exact ⟨⟨hf, hc, fun hn => absurd hn hl⟩, rfl⟩
  · rintro ⟨⟨hf, hc, h⟩, rfl⟩
    refine ⟨_, ⟨hf, rfl⟩, _, ⟨hc, rfl⟩, _, ?_, rfl⟩
    by_cases hl : 0 ≤ age now (ts + k.interval)
    · rw [if_pos ((late_iff_age hc).mpr hl), if_pos hl]
      exact add_dev_eq_some.mpr ⟨h hl, rfl⟩
    · rw [if_neg fun hn => hl ((late_iff_age hc).mp hn), if_neg hl]

/-- `ts_flush` as `update` first compares it with the reading. -/
def Kcb.flushTime (k : Kcb) (now : UInt32) : UInt32 := if k.updated then k.tsFlush else now

theorem setClock_clocked (k : Kcb) (now : UInt32) : k.setClock now = k.clocked now (k.flushTime now) := by
  unfold setClock clocked flushTime
  cases hu : k.updated with
  | true =>
    rw [if_pos rfl, if_pos rfl]
  | false => rfl

/-- No timestamp computation of `update`, its flush included, overflows. -/
def UpdateGoes (k : Kcb) (now : UInt32) : Prop :=
  ∃ due, k.flushAt .dev now = some due ∧ ∀ k' ∈ due, FlushGoes k'

/-- The timers of `update`: the flush timer, which is set back to the reading where it is 10 s off, and those of its
flush. -/
def UpdateTimeFits (k : Kcb) (now : UInt32) : Prop :=
  Comparable now (k.flushTime now) ∧
    if 10000 ≤ age now (k.flushTime now) ∨ age now (k.flushTime now) < -10000 then
      TickFits now now k.interval ∧ FlushTimeFits (k.clocked now now)
    else 0 ≤ age now (k.flushTime now) →
      TickFits now (k.flushTime now) k.interval ∧ FlushTimeFits (k.clocked now now)

theorem resync_iff_age {a b : UInt32} (h : Comparable a b) :
    (10000 ≤ a.toInt32 - b.toInt32 ∨ a.toInt32 - b.toInt32 < -10000) ↔ (10000 ≤ age a b ∨ age a b < -10000) := by
  rw [Int32.le_iff_toInt_le, Int32.lt_iff_toInt_lt, h.toInt_eq]
  exact Iff.rfl

theorem updateGoes_iff {k : Kcb} {now : UInt32} (hle : k.probeWait ≤ kcpProbeLimit) :
    UpdateGoes k now ↔ UpdateTimeFits k now := by
  have hflush : ∀ ts, FlushGoes (k.clocked now ts) ↔ FlushTimeFits (k.clocked now now) := by
    intro ts
    rw [flushGoes_iff (k := k.clocked now ts) hle]
    exact ⟨fun h => ⟨h.probe, h.data, h.first⟩, fun h => ⟨h.probe, h.data, h.first⟩⟩
  have htick : ∀ ts, (∃ due, (ticked .dev (k.clocked now ts)).map some = some due ∧ ∀ k' ∈ due, FlushGoes k') ↔
      TickFits now ts k.interval ∧ FlushTimeFits (k.clocked now now) := by
    intro ts
    constructor
    · rintro ⟨_, h, hgo⟩
      obtain ⟨k', hk, rfl⟩ := Option.map_eq_some_iff.mp h
      obtain ⟨ht, rfl⟩ := ticked_dev_eq_some.mp hk
      exact ⟨ht, (hflush _).mp (hgo _ rfl)⟩
    · rintro ⟨ht, hf⟩
      refine ⟨_, congrArg (Option.map some) (ticked_dev_eq_some.mpr ⟨ht, rfl⟩), ?_⟩
      rintro _ ⟨⟩
      exact (hflush _).mpr hf
  unfold UpdateGoes UpdateTimeFits flushAt
  simp only [setClock_clocked, Option.bind_eq_bind]
  generalize k.flushTime now = ts
  by_cases hc : Comparable now ts
  · have hslap : timediff .dev (k.clocked now ts).current (k.clocked now ts).tsFlush =
        some (now.toInt32 - ts.toInt32) := timediff_dev_eq_some.mpr ⟨hc, rfl⟩
    rw [hslap, Option.bind_some, and_iff_right hc]
    -- the timer has lost step and is set to the reading, or it stays where it was
    by_cases hr : 10000 ≤ age now ts ∨ age now ts < -10000
    · rw [if_pos hr, if_pos ((resync_iff_age hc).mpr hr)]
      exact htick now
    rw [if_neg hr, if_neg fun hn => hr ((resync_iff_age hc).mp hn)]
    by_cases hl : 0 ≤ age now ts
    · rw [if_pos ((late_iff_age hc).mpr hl), htick ts]
      exact ⟨fun h _ => h, fun h => h hl⟩
    · rw [if_neg fun hn => hl ((late_iff_age hc).mp hn)]
      exact iff_of_true ⟨none, rfl, fun _ hk => nomatch hk⟩ fun hn => absurd hn hl
  · refine iff_of_false ?_ fun h => hc h.1
    rintro ⟨due, h, -⟩
    obtain ⟨d, hd, -⟩ := Option.bind_eq_some_iff.mp h
    exact hc (timediff_dev_eq_some.mp hd).1

/-! ### `check` -/

/-- The differences that `check` takes over `snd_buf`, up to the first segment that is due. -/
def SoonestFits (now : UInt32) : List Segment → Prop
  | [] => True
  | seg :: rest => Comparable seg.resendts now ∧ (0 < age seg.resendts now → SoonestFits now rest)

/-- The differences that `check` takes. -/
def CheckTimeFits (k : Kcb) (now : UInt32) : Prop :=
  k.updated = true → Comparable now k.tsFlush ∧
    (-10000 ≤ age now k.tsFlush → age now k.tsFlush < 0 → SoonestFits now k.sndBuf)

theorem isSome_soonest_iff {now tm : UInt32} {l : List Segment} :
    (soonest .dev now l tm).isSome ↔ SoonestFits now l := by
  induction l generalizing tm with
  | nil => exact iff_of_true rfl trivial
  | cons seg rest ih =>
    unfold soonest SoonestFits
    by_cases hc : Comparable seg.resendts now
    · rw [timediff_dev_eq_some.mpr ⟨hc, rfl⟩, Option.bind_eq_bind, Option.bind_some, and_iff_right hc]
      have hdue : seg.resendts.toInt32 - now.toInt32 ≤ 0 ↔ ¬ 0 < age seg.resendts now := by
        rw [Int32.le_iff_toInt_le, hc.toInt_eq]
        show _ ≤ (0 : ℤ) ↔ _
        omega
      by_cases hd : seg.resendts.toInt32 - now.toInt32 ≤ 0
      · rw [if_pos hd]
        exact iff_of_true rfl fun hn => absurd hn (hdue.mp hd)
      · rw [if_neg hd, ih]
        have hpos : 0 < age seg.resendts now := not_not.mp fun hn => hd (hdue.mpr hn)
        exact ⟨fun h _ => h, fun h => h hpos⟩
    · refine iff_of_false ?_ fun h => hc h.1
      intro h
      obtain ⟨d, hd, -⟩ := Profile.isSome_bind_iff.mp h
      exact hc (timediff_dev_eq_some.mp hd).1

theorem isSome_check_iff {k : Kcb} {now : UInt32} : (k.check .dev now).isSome ↔ CheckTimeFits k now := by
  unfold check CheckTimeFits
  generalize UInt32.ofNat (2 ^ 32 - 1) = top
  cases hu : k.updated with
  | false => exact iff_of_true rfl fun hn => nomatch hn
  | true =>
    refine Iff.trans ?_ ⟨fun h _ => h, fun h => h rfl⟩
    rw [Bool.not_true, if_neg Bool.false_ne_true, Option.bind_eq_bind]
    by_cases hc : Comparable now k.tsFlush
    · have hself : Comparable now now := Or.inl Iff.rfl
      have hage : age now now = 0 := Int.sub_self _
      rw [timediff_dev_eq_some.mpr ⟨hc, rfl⟩, Option.bind_some, and_iff_right hc]
      by_cases hr : 10000 ≤ age now k.tsFlush ∨ age now k.tsFlush < -10000
      · rw [if_pos ((resync_iff_age hc).mpr hr)]
        refine iff_of_true ?_ fun h1 h2 => by omega
        have hzero : 0 ≤ now.toInt32 - now.toInt32 := (late_iff_age hself).mpr (by omega)
        dsimp only
        rw [timediff_dev_eq_some.mpr ⟨hself, rfl⟩, Option.bind_some, if_pos hzero]
        rfl
      rw [if_neg fun hn => hr ((resync_iff_age hc).mp hn)]
      dsimp only
      rw [timediff_dev_eq_some.mpr ⟨hc, rfl⟩, Option.bind_some]
      by_cases hl : 0 ≤ age now k.tsFlush
      · rw [if_pos ((late_iff_age hc).mpr hl)]
        exact iff_of_true rfl fun _ hn => by omega
      · -- the difference is taken the other way round for the answer
        have hback : Comparable k.tsFlush now := by
          rw [comparable_iff]
          have hneg : age k.tsFlush now = -age now k.tsFlush := (Int.neg_sub _ _).symm
          omega
        rw [if_neg fun hn => hl ((late_iff_age hc).mp hn), timediff_dev_eq_some.mpr ⟨hback, rfl⟩,
          Option.bind_some]
        constructor
        · intro h _ _
          obtain ⟨r, hr, -⟩ := Profile.isSome_bind_iff.mp h
          exact isSome_soonest_iff.mp (Option.isSome_of_eq_some hr)
        · intro h
          obtain ⟨r, hr⟩ := Option.isSome_iff_exists.mp (isSome_soonest_iff.mpr (h (by omega) (by omega)))
          rw [hr]
          cases r <;> rfl
    · refine iff_of_false ?_ fun h => hc h.1
      intro h
      obtain ⟨d, hd, -⟩ := Profile.isSome_bind_iff.mp h
      exact hc (timediff_dev_eq_some.mp hd).1

/-! ### Runs -/

/-- A call, or a question when to call `update` next. -/
inductive TimerCall
  | call (op : Op)
  | check (now : UInt32)
  deriving DecidableEq, Repr

namespace Endpoint

/-- One step; `check` changes nothing. -/
def timerCall (b : Build) (e : Endpoint) : TimerCall → Option Endpoint
  | .call op => e.exec b op
  | .check _ => some e

/-- No timestamp computation of the step overflows under the `dev` profile. -/
def TimersGo (e : Endpoint) : TimerCall → Prop
  | .call (.update now _) => UpdateGoes e.kcb now
  | .call (.flush _) => e.kcb.updated = true → FlushGoes e.kcb
  | .call _ => True
  | .check now => (e.kcb.check .dev now).isSome

/-- The condition on the reading and the stored times. -/
def TimersFit (e : Endpoint) : TimerCall → Prop
  | .call (.update now _) => UpdateTimeFits e.kcb now
  | .call (.flush _) => e.kcb.updated = true → FlushTimeFits e.kcb
  | .call _ => True
  | .check now => CheckTimeFits e.kcb now

theorem timersGo_iff {e : Endpoint} (hle : e.kcb.probeWait ≤ kcpProbeLimit) (q : TimerCall) :
    e.TimersGo q ↔ e.TimersFit q := by
  cases q with
  | check now => exact isSome_check_iff
  | call op =>
    cases op with
    | update now cut => exact updateGoes_iff hle
    | flush cut => exact ⟨fun h hu => (flushGoes_iff hle).mp (h hu), fun h hu => (flushGoes_iff hle).mpr (h hu)⟩
    | send | recv | input => exact Iff.rfl

end Endpoint

/-- A call that a `dev` build completes has overflown nowhere. -/
theorem timersGo_of_exec {b : Build} (hb : b.profile = .dev) {e e' : Endpoint} {op : Op} (h : e.exec b op = some e') :
    e.TimersGo (.call op) := by
  cases op with
  | send | recv | input => exact trivial
  | update now cut =>
    obtain ⟨f, hf, -⟩ := Option.map_eq_some_iff.mp h
    rw [update_eq_flushAt, hb] at hf
    obtain ⟨due, hdue, hf⟩ := Option.bind_eq_some_iff.mp hf
    refine ⟨due, hdue, ?_⟩
    intro k hk
    obtain rfl := Option.mem_def.mp hk
    obtain ⟨ts, rfl⟩ := flushAt_eq hdue
    exact flushGoes_of_flush hb rfl hf
  | flush cut =>
    intro hu
    obtain ⟨f, hf, -⟩ := Option.map_eq_some_iff.mp h
    exact flushGoes_of_flush hb hu hf

/-- **When no timestamp computation of a run overflows**: exactly when every reading is comparable with the stored times
that it meets, and every deadline that is set lies on the same lap. -/
theorem timers_go_iff (b : Build) (conv : UInt32) (c : Config) (calls : List TimerCall) :
    Meets (Endpoint.timerCall b) Endpoint.TimersGo (Endpoint.start conv c) calls ↔
      Meets (Endpoint.timerCall b) Endpoint.TimersFit (Endpoint.start conv c) calls := by
  refine meets_congr (I := fun e => e.kcb.probeWait ≤ kcpProbeLimit) ?_ (fun e q hle => Endpoint.timersGo_iff hle q) ?_
  · intro e q e' hle _ h
    cases q with
    | call op => exact probeWait_exec h hle
    | check now =>
      obtain rfl := Option.some.inj h
      exact hle
  · exact probeWait_run (b := b) (run_nil (Endpoint.start conv c))

/-- A first `update` in the last 100 ms of a lap sets a deadline behind its end, and stops the thread. -/
theorem first_update_stops :
    ¬ Meets (Endpoint.timerCall ⟨.dev, bytesMut⟩) Endpoint.TimersGo (Endpoint.start 7 {})
        [.call (.update 4294967295 none)] ∧
      (Endpoint.start 7 {}).exec ⟨.dev, bytesMut⟩ (.update 4294967295 none) = none := by
  constructor
  · rintro ⟨⟨due, h, -⟩, -⟩
    have hnone : (Endpoint.start 7 {}).kcb.flushAt .dev 4294967295 = none := by decide +kernel
    rw [hnone] at h
    cases h
  · decide +kernel

end NetProtocols.Kcp
