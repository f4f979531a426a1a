import NetProtocols.Kcp.Schedule
import NetProtocols.Kcp.Stages

/-!
# NetProtocols.Kcp.Pacing — how often `update` flushes

The flush timer is set `interval` ahead of where it was, not of where the clock is, so that a late update is made up
for by an early one.  Over a run this comes out even: `update` flushes once in an interval.

* `Pace`: the clock and the flush timer; only `update` touches them.
* `Kcb.lead`: how far the flush timer is ahead of the clock; `lead_update`: one `update`.
* `update_pacing`: the flushes of a run, between two bounds that the time which has gone by gives.
-/

namespace NetProtocols.Kcp

open Kcb Flushing

/-- The clock and the flush timer. -/
structure Pace where
  current : UInt32
  updated : Bool
  tsFlush : UInt32

def Kcb.pace (k : Kcb) : Pace := ⟨k.current, k.updated, k.tsFlush⟩

variable {b : Build} {p : Profile} {k k' : Kcb}

/-! ### Only `update` moves the clock -/

theorem pace_taken {s s' : Scan} {h : Header} (ht : Scan.Taken p s h s') : s'.kcb.pace = s.kcb.pace := by
  have hack : ∀ (k : Kcb) (sn : UInt32), (k.parseAck sn).shrinkBuf.pace = k.pace := by
    intro k sn
    unfold parseAck
    split_ifs <;> rfl
  have hhead : (s.kcb.onHeader h).pace = s.kcb.pace := rfl
  cases ht with
  | ack hc hk =>
    rcases hk with rfl | ⟨rtt, hk⟩
    · exact hack _ _
    · obtain ⟨srtt, rttval, rto, rfl⟩ := updateAck_eq hk
      exact hack _ _
  | inside hc hsn hle hk =>
    rcases parseData_eq_moved hk with rfl | ⟨l, n, nxt, rfl⟩ <;> exact hhead
  | above | below | wask | other => exact hhead

theorem pace_input {d : List UInt8} {r : Except IoError ℕ} (h : k.input p d = some (r, k')) : k'.pace = k.pace := by
  refine input_rule (I := fun s => s.kcb.pace = k.pace) (J := fun k' => k'.pace = k.pace) h rfl (fun _ hs => hs) ?_ ?_
  · intro s s' hs hst
    obtain ⟨hd, rest, -, -, ht⟩ := Scan.inputStep_ok hst
    exact (pace_taken (Scan.taken_of_takeSegment ht)).trans hs
  · intro s k' hs hf
    obtain ⟨l, cwnd, incr, -, rfl⟩ := finishInput_eq hf
    exact hs

theorem pace_stopAt {f : Flushing} (h : k.flush b = some f) (cut : Option ℕ) : (f.stopAt cut).1.pace = k.pace := by
  by_cases hu : k.updated = true
  · obtain ⟨t, w, pr, -, nxt, buf, queue, xmit, buffer, s, c, i, hend⟩ := flush_eq hu h
    obtain ⟨cwnd, g, hg, -, hwrites⟩ := transmit_of_flush hu h
    obtain ⟨t', w', pr', segs, -, hm⟩ := transmit_stages hg
    refine stopAt_rule (I := fun x => x.pace = k.pace) ?_ (fun x hx => ?_) cut
    · simp only [hend, pace, setCwnd, setBuffer, setSndBuf, setSend, setProbes, setAcklist]
    · rw [hwrites] at hx
      obtain ⟨n, hn⟩ := List.getElem?_of_mem hx
      obtain ⟨s, hstage, -⟩ := hm.writes n x hn
      cases hstage with
      | acks | probes | data => rfl
  · rw [stopAt_of_idle (Bool.eq_false_iff.mpr hu) h cut]

/-! ### The flush timer and the clock -/

/-- How far the flush timer is ahead of the clock. -/
def Kcb.lead (k : Kcb) : ℕ := if k.updated then elapsed k.current k.tsFlush else 0

/-- Once it runs, the flush timer is ahead of the clock, by an interval at most. -/
structure Kcb.Ticking (k : Kcb) : Prop where
  fits : k.IntervalFits
  lead_pos : k.updated = true → 0 < k.lead
  lead_le : k.lead ≤ k.interval.toNat

/-- The ticks up to a reading of the clock, counted from the first reading. -/
def Kcb.ticksTo (k : Kcb) (now : UInt32) : ℕ := if k.updated then elapsed k.current now else 0

/-- The reading is not behind the clock. -/
def Kcb.Forward (k : Kcb) (now : UInt32) : Prop := k.ticksTo now < 2 ^ 31

theorem pace_eq (h : k'.pace = k.pace) :
    k'.current = k.current ∧ k'.updated = k.updated ∧ k'.tsFlush = k.tsFlush :=
  ⟨congrArg Pace.current h, congrArg Pace.updated h, congrArg Pace.tsFlush h⟩

theorem lead_of_pace (h : k'.pace = k.pace) : k'.lead = k.lead := by
  obtain ⟨h1, h2, h3⟩ := pace_eq h
  rw [Kcb.lead, Kcb.lead, h1, h2, h3]

/-- Going on from a reading that is a little ahead: the ticks between the two. -/
theorem elapsed_of_le {o x y : UInt32} (h : elapsed o x ≤ elapsed o y) :
    elapsed x y = elapsed o y - elapsed o x := toNat_sub_of_le h

theorem elapsed_round (x y : UInt32) : elapsed x y = 0 ∨ elapsed x y + elapsed y x = 2 ^ 32 := by
  have hx := x.toNat_lt
  have hy := y.toNat_lt
  simp only [elapsed_eq]
  omega

/-- **The timer set again**, when it was `elapsed ts now` behind: an interval ahead of where it was, or of the clock if
it would still be behind. -/
theorem lead_ticked {ts now : UInt32} (hfits : k.IntervalFits) (hbehind : elapsed ts now < 2 ^ 31)
    (h : ticked p (k.clocked now ts) = some k') :
    k'.interval = k.interval ∧ 0 < k'.lead ∧ k'.lead ≤ k.interval.toNat ∧
      k.interval.toNat ≤ k'.lead + elapsed ts now := by
  obtain ⟨hlow, hhigh⟩ := hfits
  obtain ⟨t, ht, h⟩ := Option.bind_eq_some_iff.mp h
  obtain ⟨late, hlate, h⟩ := Option.bind_eq_some_iff.mp h
  obtain ⟨t', ht', h⟩ := Option.bind_eq_some_iff.mp h
  obtain rfl := Option.some.inj h
  obtain rfl : t = ts + k.interval := Profile.add_eq_some ht
  obtain rfl : late = now.toInt32 - (ts + k.interval).toInt32 := Profile.subI32_eq_some hlate
  have hself : elapsed ts ts = 0 := elapsed_self ts
  have hset : elapsed ts (ts + k.interval) = k.interval.toNat := by
    rw [elapsed_add (by omega), hself, Nat.zero_add]
  have hdiff : (now.toInt32 - (ts + k.interval).toInt32).toInt = (elapsed ts now : ℤ) - k.interval.toNat := by
    rw [← hset]
    exact toInt_diff (by omega) (by omega)
  refine ⟨rfl, ?_⟩
  show 0 < elapsed now t' ∧ elapsed now t' ≤ k.interval.toNat ∧ k.interval.toNat ≤ elapsed now t' + elapsed ts now
  by_cases hl : 0 ≤ now.toInt32 - (ts + k.interval).toInt32
  · rw [if_pos hl] at ht'
    obtain rfl : t' = now + k.interval := Profile.add_eq_some ht'
    have hnow : elapsed now now = 0 := elapsed_self now
    rw [elapsed_add (by omega), hnow]
    omega
  · rw [if_neg hl] at ht'
    obtain rfl := Option.some.inj ht'
    have hneg : (elapsed ts now : ℤ) - k.interval.toNat < 0 := by
      rw [← hdiff]
      exact Int32.lt_iff_toInt_lt.mp (Int32.not_le.mp hl)
    have hleft : elapsed now (ts + k.interval) = k.interval.toNat - elapsed ts now := by
      rw [elapsed_of_le (o := ts) (by omega), hset]
    omega

theorem flushTime_behind {now : UInt32} (ht : k.Ticking) (hnow : k.Forward now) :
    (k.TimerDue now ∧ elapsed (k.flushTime now) now + k.lead = k.ticksTo now) ∨
      (¬ k.TimerDue now ∧ k.updated = true ∧ elapsed now k.tsFlush + k.ticksTo now = k.lead) := by
  have hlead := ht.lead_le
  have hhigh := ht.fits.2
  unfold Kcb.Forward at hnow
  cases hu : k.updated with
  | false =>
    refine Or.inl ⟨Or.inl hu, ?_⟩
    simp only [Kcb.flushTime, Kcb.lead, Kcb.ticksTo, hu, Bool.false_eq_true, if_false, elapsed_self]
  | true =>
    simp only [Kcb.lead, Kcb.ticksTo, hu, if_true] at hlead hnow ⊢
    have hflush : k.flushTime now = k.tsFlush := if_pos hu
    by_cases hle : elapsed k.current k.tsFlush ≤ elapsed k.current now
    · -- the timer is behind, or at the reading
      have hback := elapsed_of_le hle
      refine Or.inl ⟨?_, by rw [hflush]; omega⟩
      by_contra hn
      obtain ⟨-, hpos, hnear⟩ := not_timerDue_iff.mp hn
      have hround := elapsed_round now k.tsFlush
      omega
    · have hahead := elapsed_of_le (Nat.le_of_not_le hle)
      refine Or.inr ⟨?_, trivial, by omega⟩
      exact not_timerDue_iff.mpr ⟨hu, by omega, by omega⟩

/-- What `update` hands to `flush`: the timer is set again from where it was, or from the clock. -/
theorem flushAt_ticked {now : UInt32} (h : k.flushAt p now = some (some k')) :
    ∃ ts, (ts = now ∨ ts = k.flushTime now) ∧ ticked p (k.clocked now ts) = some k' := by
  rw [flushAt, setClock_clocked] at h
  obtain ⟨slap, -, h⟩ := Option.bind_eq_some_iff.mp h
  split_ifs at h
  · obtain ⟨x, hx, hx'⟩ := Option.map_eq_some_iff.mp h
    obtain rfl := Option.some.inj hx'
    exact ⟨now, Or.inl rfl, hx⟩
  · obtain ⟨x, hx, hx'⟩ := Option.map_eq_some_iff.mp h
    obtain rfl := Option.some.inj hx'
    exact ⟨_, Or.inr rfl, hx⟩
  · cases h

/-- **One `update`**: with a flush the timer goes on by an interval at least; it is never further ahead than that. -/
theorem lead_update {e e' : Endpoint} {now : UInt32} {cut : Option ℕ} (ht : e.kcb.Ticking)
    (hnow : e.kcb.Forward now) (h : e.exec b (.update now cut) = some e') :
    e'.kcb.Ticking ∧ e'.kcb.interval = e.kcb.interval ∧
      ((e.kcb.TimerDue now ∧ e.kcb.lead + e.kcb.interval.toNat ≤ e'.kcb.lead + e.kcb.ticksTo now) ∨
        (¬ e.kcb.TimerDue now ∧ e'.kcb.lead + e.kcb.ticksTo now = e.kcb.lead)) := by
  have hinterval : e'.kcb.interval = e.kcb.interval := congrArg Settings.interval (settings_exec h)
  have hfits : e'.kcb.IntervalFits := by
    unfold Kcb.IntervalFits
    rw [hinterval]
    exact ht.fits
  obtain ⟨f, hf, rfl⟩ := Option.map_eq_some_iff.mp h
  rw [update_eq_flushAt] at hf
  obtain ⟨due, hdue, hf⟩ := Option.bind_eq_some_iff.mp hf
  cases due with
  | none =>
    -- no flush: the timer stays where it was, and the clock comes nearer
    obtain rfl := Option.some.inj hf
    have hnot : ¬ e.kcb.TimerDue now := fun hd => absurd ((flushAt_due hdue).mpr hd) (by decide)
    obtain ⟨hd, -⟩ | ⟨-, hu, hlead⟩ := flushTime_behind ht hnow
    · exact absurd hd hnot
    have hset : e.kcb.setClock now = { e.kcb with current := now } := by
      rw [setClock, if_pos hu]
    have hkcb : (e.flushed cut { kcb := e.kcb.setClock now }).kcb = e.kcb.setClock now := by
      cases cut <;> rfl
    have hlead' : (e.flushed cut { kcb := e.kcb.setClock now }).kcb.lead = elapsed now e.kcb.tsFlush := by
      rw [hkcb, hset]
      exact if_pos hu
    have hpos := (not_timerDue_iff.mp hnot).2.1
    have hle := ht.lead_le
    refine ⟨⟨hfits, fun _ => ?_, ?_⟩, hinterval, Or.inr ⟨hnot, ?_⟩⟩
    · rw [hlead']
      exact hpos
    · rw [hinterval, hlead']
      omega
    · rw [hlead']
      exact hlead
  | some k =>
    have hd : e.kcb.TimerDue now := (flushAt_due hdue).mp rfl
    obtain ⟨-, hbehind⟩ | ⟨hnot, -⟩ := flushTime_behind ht hnow
    · -- a flush: the timer goes an interval further, from where it was or from the reading
      obtain ⟨ts, hts, hk⟩ := flushAt_ticked hdue
      have hle : elapsed ts now ≤ elapsed (e.kcb.flushTime now) now := by
        rcases hts with rfl | rfl
        · rw [elapsed_self]
          exact Nat.zero_le _
        · exact Nat.le_refl _
      have hsmall : elapsed ts now < 2 ^ 31 := by
        unfold Kcb.Forward at hnow
        omega
      obtain ⟨-, h1, h2, h3⟩ := lead_ticked ht.fits hsmall hk
      have hlead : (e.flushed cut f).kcb.lead = k.lead := lead_of_pace (pace_stopAt hf cut)
      refine ⟨⟨hfits, fun _ => ?_, ?_⟩, hinterval, Or.inl ⟨hd, ?_⟩⟩
      · rw [hlead]
        exact h1
      · rw [hlead, hinterval]
        exact h2
      · rw [hlead]
        omega
    · exact absurd hd hnot

/-! ### Over a run -/

/-- In an `update` the clock does not go back. -/
def Endpoint.Forward (e : Endpoint) : Op → Prop
  | .update now _ => e.kcb.Forward now
  | _ => True

/-- The ticks that go by in a call. -/
def Endpoint.ticks (e : Endpoint) : Op → ℕ
  | .update now _ => e.kcb.ticksTo now
  | _ => 0

/-- The call is an `update` that comes to a flush. -/
def Endpoint.flushes (e : Endpoint) : Op → ℕ
  | .update now _ => if e.kcb.TimerDue now then 1 else 0
  | _ => 0

instance (e : Endpoint) : (op : Op) → Decidable (e.Forward op)
  | .update now _ => inferInstanceAs (Decidable (e.kcb.ticksTo now < 2 ^ 31))
  | .send _ | .recv _ | .input _ | .flush _ => inferInstanceAs (Decidable True)

/-- The ticks that go by in a run. -/
def ticksOf (b : Build) : Endpoint → List Op → ℕ := tally (Endpoint.exec b) fun e op _ => e.ticks op

/-- The flushes that the updates of a run come to. -/
def flushesOf (b : Build) : Endpoint → List Op → ℕ := tally (Endpoint.exec b) fun e op _ => e.flushes op

theorem pace_exec {e e' : Endpoint} {op : Op} (hop : ∀ now cut, op ≠ .update now cut) (h : e.exec b op = some e') :
    e'.kcb.pace = e.kcb.pace := by
  cases op <;> simp only [Endpoint.exec, Option.map_eq_some_iff] at h
  case send buf =>
    obtain ⟨⟨r, k'⟩, hs, rfl⟩ := h
    obtain ⟨q, rfl⟩ := send_eq hs
    cases r <;> rfl
  case recv cap =>
    obtain ⟨⟨r, k'⟩, hr, rfl⟩ := h
    rcases recv_cases hr with ⟨err, rfl, rfl⟩ | ⟨rfl, -, k1, pr, h1, rfl⟩
    · rfl
    · obtain ⟨n, nxt, rfl⟩ := moveData_eq_moved h1
      rfl
  case input d =>
    obtain ⟨⟨r, k'⟩, hi, rfl⟩ := h
    exact pace_input hi
  case update now cut => exact absurd rfl (hop now cut)
  case flush cut =>
    obtain ⟨f, hf, rfl⟩ := h
    exact pace_stopAt hf cut

/-- **One call**: the flush timer and the clock go forward together. -/
theorem ticking_exec {e e' : Endpoint} {op : Op} (ht : e.kcb.Ticking) (hop : e.Forward op)
    (h : e.exec b op = some e') :
    e'.kcb.Ticking ∧ e'.kcb.interval = e.kcb.interval ∧
      e.kcb.lead + e.kcb.interval.toNat * e.flushes op ≤ e'.kcb.lead + e.ticks op ∧
      e'.kcb.lead + e.ticks op ≤ e.kcb.lead + (e.kcb.interval.toNat + e.ticks op) * e.flushes op := by
  by_cases hup : ∃ now cut, op = .update now cut
  · obtain ⟨now, cut, rfl⟩ := hup
    obtain ⟨ht', hinterval, hcases⟩ := lead_update ht hop h
    refine ⟨ht', hinterval, ?_⟩
    have hle' := ht'.lead_le
    rw [hinterval] at hle'
    simp only [Endpoint.flushes, Endpoint.ticks]
    rcases hcases with ⟨hd, hlead⟩ | ⟨hd, hlead⟩
    · rw [if_pos hd, Nat.mul_one, Nat.mul_one]
      omega
    · rw [if_neg hd, Nat.mul_zero, Nat.mul_zero]
      omega
  · have hop' : ∀ now cut, op ≠ .update now cut := fun now cut he => hup ⟨now, cut, he⟩
    have hpace := pace_exec hop' h
    have hinterval : e'.kcb.interval = e.kcb.interval := congrArg Settings.interval (settings_exec h)
    have hlead := lead_of_pace hpace
    have hzero : e.flushes op = 0 ∧ e.ticks op = 0 := by
      cases op with
      | update now cut => exact absurd rfl (hop' now cut)
      | send | recv | input | flush => exact ⟨rfl, rfl⟩
    refine ⟨⟨?_, ?_, ?_⟩, hinterval, ?_, ?_⟩
    · unfold Kcb.IntervalFits
      rw [hinterval]
      exact ht.fits
    · rw [hlead, (pace_eq hpace).2.1]
      exact ht.lead_pos
    · rw [hlead, hinterval]
      exact ht.lead_le
    · rw [hlead, hzero.1, hzero.2]
      omega
    · rw [hlead, hzero.1, hzero.2]
      omega

section Run

variable {conv : UInt32} {c : Config} {ops : List Op} {e : Endpoint}

/-- A flush timer as it is over a run. -/
def Paced (i : ℕ) (e : Endpoint) : Prop := e.kcb.Ticking ∧ e.kcb.interval.toNat = i

theorem paced_start (conv : UInt32) (c : Config) :
    Paced (configured conv c).interval.toNat (Endpoint.start conv c) ∧ (Endpoint.start conv c).kcb.lead = 0 := by
  have hidle : (configured conv c).updated = false := by
    obtain ⟨_, _, _, _, _, _, h⟩ := configured_eq conv c
    rw [h]
    rfl
  have hlead : (Endpoint.start conv c).kcb.lead = 0 := if_neg (by simp [Endpoint.start, hidle])
  refine ⟨⟨⟨intervalFits_start conv c, fun hu => ?_, ?_⟩, rfl⟩, hlead⟩
  · exact absurd (hidle.symm.trans hu) (by decide)
  · rw [hlead]
    exact Nat.zero_le _

theorem paced_exec {i : ℕ} {e e' : Endpoint} {op : Op} (hp : Paced i e) (hop : e.Forward op)
    (h : e.exec b op = some e') : Paced i e' := by
  obtain ⟨ht, hinterval, -⟩ := ticking_exec hp.1 hop h
  refine ⟨ht, ?_⟩
  rw [hinterval]
  exact hp.2

/-- Each flush takes the timer an interval further at least, so that time has to go by. -/
theorem flushes_le {i : ℕ} {e₀ : Endpoint} (h0 : Paced i e₀) (hm : Meets (Endpoint.exec b) Endpoint.Forward e₀ ops)
    (hr : run (Endpoint.exec b) e₀ ops = some e) :
    e₀.kcb.lead + i * flushesOf b e₀ ops ≤ e.kcb.lead + ticksOf b e₀ ops := by
  have hstep : ∀ (e : Endpoint) op e', Paced i e → e.Forward op → e.exec b op = some e' →
      e.kcb.lead + i * e.flushes op ≤ e'.kcb.lead + e.ticks op := by
    intro e op e' hp hop h
    have hpay := (ticking_exec hp.1 hop h).2.2.1
    rwa [hp.2] at hpay
  have hpay := run_potential (fun e => e.kcb.lead) (fun e op e' hp hop h => paced_exec hp hop h) hstep hm hr h0
  rwa [tally_mul] at hpay

/-- And no timer is further ahead than an interval, so that a flush comes when time has gone by. -/
theorem ticks_le {i gap : ℕ} {e₀ : Endpoint} (h0 : Paced i e₀)
    (hm : Meets (Endpoint.exec b) (fun e op => e.Forward op ∧ e.ticks op ≤ gap) e₀ ops)
    (hr : run (Endpoint.exec b) e₀ ops = some e) :
    i - e₀.kcb.lead + ticksOf b e₀ ops ≤ i - e.kcb.lead + (i + gap) * flushesOf b e₀ ops := by
  have hstep : ∀ (e : Endpoint) op e', Paced i e → e.Forward op ∧ e.ticks op ≤ gap → e.exec b op = some e' →
      i - e.kcb.lead + e.ticks op ≤ i - e'.kcb.lead + (i + gap) * e.flushes op := by
    rintro e op e' hp ⟨hop, hgap⟩ h
    obtain ⟨-, -, -, hpay⟩ := ticking_exec hp.1 hop h
    obtain ⟨ht', hi'⟩ := paced_exec hp hop h
    have hbound : (i + e.ticks op) * e.flushes op ≤ (i + gap) * e.flushes op :=
      Nat.mul_le_mul_right _ (Nat.add_le_add_left hgap _)
    have hle := hp.1.lead_le
    have hle' := ht'.lead_le
    rw [hp.2] at hle hpay
    rw [hi'] at hle'
    omega
  have hpay := run_potential (fun e => i - e.kcb.lead) (fun e op e' hp hop h => paced_exec hp hop.1 h) hstep hm hr h0
  rwa [tally_mul] at hpay

/-- **`update` flushes once in an interval.**  In every run in which the clock does not go back, whatever else is called
and wherever a flush is abandoned: the updates come to no more flushes than intervals have gone by since the first
reading, and one more; and if no reading is more than `gap` behind the one before, to no fewer than the times
`interval + gap` that have gone by. -/
theorem update_pacing (hm : Meets (Endpoint.exec b) Endpoint.Forward (Endpoint.start conv c) ops)
    (hr : run (Endpoint.exec b) (Endpoint.start conv c) ops = some e) :
    (configured conv c).interval.toNat * flushesOf b (Endpoint.start conv c) ops ≤
        ticksOf b (Endpoint.start conv c) ops + (configured conv c).interval.toNat ∧
      ∀ gap, Meets (Endpoint.exec b) (fun e op => e.ticks op ≤ gap) (Endpoint.start conv c) ops →
        e.kcb.updated = true → ticksOf b (Endpoint.start conv c) ops <
          ((configured conv c).interval.toNat + gap) * flushesOf b (Endpoint.start conv c) ops := by
  obtain ⟨hstart, hzero⟩ := paced_start conv c
  have hend : Paced (configured conv c).interval.toNat e :=
    run_invariant_of_meets (fun e op e' hp hop h => paced_exec hp hop h) hm hr hstart
  have hle := hend.1.lead_le
  rw [hend.2] at hle
  constructor
  · have hmost := flushes_le hstart hm hr
    omega
  · intro gap hgap hu
    have hleast := ticks_le hstart (meets_and hm hgap) hr
    have hpos := hend.1.lead_pos hu
    omega

end Run

/-- Updates at 0, 40, 130, 190 and 320 with the default interval of 100: those at 0, 130 and 320 flush. -/
def fiveUpdates : List Op :=
  [.update 0 none, .update 40 none, .send [1], .update 130 none, .update 190 none, .update 320 none]

theorem update_pacing_five :
    ∃ e, run (Endpoint.exec shipped) (Endpoint.start 7 {}) fiveUpdates = some e ∧
      ticksOf shipped (Endpoint.start 7 {}) fiveUpdates = 320 ∧
      flushesOf shipped (Endpoint.start 7 {}) fiveUpdates = 3 ∧ 100 * 3 ≤ 320 + 100 ∧ 320 < (100 + 130) * 3 := by
  have h : (run (Endpoint.exec shipped) (Endpoint.start 7 {}) fiveUpdates).map (·.kcb.updated) = some true := by
    decide +kernel
  obtain ⟨e, he, hu⟩ := Option.map_eq_some_iff.mp h
  have hforward : Meets (Endpoint.exec shipped) Endpoint.Forward (Endpoint.start 7 {}) fiveUpdates := by
    decide +kernel
  obtain ⟨hmost, hleast⟩ := update_pacing hforward he
  have hticks : ticksOf shipped (Endpoint.start 7 {}) fiveUpdates = 320 := by decide +kernel
  have hflushes : flushesOf shipped (Endpoint.start 7 {}) fiveUpdates = 3 := by decide +kernel
  have hinterval : (configured 7 {}).interval.toNat = 100 := by decide
  have hgap := hleast 130 (by decide +kernel) hu
  rw [hinterval, hticks, hflushes] at hmost hgap
  exact ⟨e, he, hticks, hflushes, hmost, hgap⟩

end NetProtocols.Kcp
