import NetProtocols.Kcp.Retransmit
import NetProtocols.Kcp.Timers

/-!
# NetProtocols.Kcp.Schedule — `check` against `update`

`check` tells the caller when to call `update` again.  `update` goes by the flush timer alone; `check` goes by the flush
timer and by the deadlines of the segments in `snd_buf`.

* `Kcb.TimerDue`, `Kcb.Ahead`: the flush timer has run out; no deadline has come.
* `Checks`, `checks_of_check`: what `check` answers.  `flushAt_due`: when `update` flushes.
* `check_never_oversleeps`: before the time that `check` gives nothing is due.
* `check_zero_iff`: an answer 0 is followed by a flush, unless a deadline has come before the flush timer.
-/

namespace NetProtocols.Kcp

open Kcb Flushing

/-- The flush timer has run out, or is so far off that it is set back; or there is none yet. -/
def Kcb.TimerDue (k : Kcb) (now : UInt32) : Prop :=
  k.updated = false ∨ ¬ (-10000 ≤ now.toInt32 - k.tsFlush.toInt32 ∧ now.toInt32 - k.tsFlush.toInt32 < 0)

/-- The deadlines of all segments in flight are ahead of the reading. -/
def Kcb.Ahead (k : Kcb) (now : UInt32) : Prop := ∀ s ∈ k.sndBuf, 0 < s.resendts.toInt32 - now.toInt32

instance (k : Kcb) (now : UInt32) : Decidable (k.TimerDue now) := inferInstanceAs (Decidable (_ ∨ _))

instance (k : Kcb) (now : UInt32) : Decidable (k.Ahead now) := inferInstanceAs (Decidable (∀ s ∈ k.sndBuf, _))

variable {p : Profile} {k : Kcb} {now d : UInt32}

theorem not_timerDue_iff :
    ¬ k.TimerDue now ↔ k.updated = true ∧ 0 < elapsed now k.tsFlush ∧ elapsed now k.tsFlush ≤ 10000 := by
  unfold Kcb.TimerDue
  rw [near_iff, not_or, not_not, Bool.not_eq_false]

/-! ### What `check` answers -/

/-- One round of the loop: it stops at a deadline that has come, or goes on with the nearer time. -/
theorem soonest_cons {seg : Segment} {rest : List Segment} {tm : UInt32} {r : Option UInt32}
    (h : soonest p now (seg :: rest) tm = some r) :
    (r = none ∧ ¬ 0 < seg.resendts.toInt32 - now.toInt32) ∨
      (0 < seg.resendts.toInt32 - now.toInt32 ∧ soonest p now rest (min (seg.resendts - now) tm) = some r) := by
  obtain ⟨diff, hd, h⟩ := Option.bind_eq_some_iff.mp h
  obtain rfl := Profile.subI32_eq_some hd
  have hcast : (seg.resendts.toInt32 - now.toInt32).toUInt32 = seg.resendts - now := by
    rw [← UInt32.toInt32_sub, UInt32.toUInt32_toInt32]
  have hmin : (if seg.resendts - now < tm then seg.resendts - now else tm) = min (seg.resendts - now) tm := by
    rw [UInt32.min_def]
    split_ifs with h1 h2 h2
    · rfl
    · exact absurd (UInt32.le_of_lt h1) h2
    · exact UInt32.le_antisymm (UInt32.not_lt.mp h1) h2
    · rfl
  rw [hcast, hmin] at h
  by_cases hle : seg.resendts.toInt32 - now.toInt32 ≤ 0
  · rw [if_pos hle] at h
    exact Or.inl ⟨(Option.some.inj h).symm, Int32.not_lt.mpr hle⟩
  · rw [if_neg hle] at h
    exact Or.inr ⟨Int32.not_le.mp hle, h⟩

theorem soonest_none {l : List Segment} {tm : UInt32} (h : soonest p now l tm = some none) :
    ∃ s ∈ l, ¬ 0 < s.resendts.toInt32 - now.toInt32 := by
  induction l generalizing tm with
  | nil => cases h
  | cons seg rest ih =>
    rcases soonest_cons h with ⟨-, hn⟩ | ⟨-, h⟩
    · exact ⟨seg, List.mem_cons_self, hn⟩
    · obtain ⟨s, hs, hn⟩ := ih h
      exact ⟨s, List.mem_cons_of_mem _ hs, hn⟩

theorem soonest_some {l : List Segment} {tm m : UInt32} (h : soonest p now l tm = some (some m)) :
    m ≤ tm ∧ (0 < tm → 0 < m) ∧ ∀ s ∈ l, 0 < s.resendts.toInt32 - now.toInt32 ∧ m ≤ s.resendts - now := by
  induction l generalizing tm with
  | nil =>
    obtain rfl := Option.some.inj (Option.some.inj h)
    exact ⟨UInt32.le_refl _, id, fun _ hs => nomatch hs⟩
  | cons seg rest ih =>
    rcases soonest_cons h with ⟨hr, -⟩ | ⟨hpos, h⟩
    · cases hr
    obtain ⟨hm, hm0, hrest⟩ := ih h
    refine ⟨UInt32.le_trans hm Std.min_le_right, fun h0 => hm0 ?_, fun s hs => ?_⟩
    · have hseg : 0 < (seg.resendts - now).toNat := (ahead_iff.mp hpos).1
      have htm : 0 < tm.toNat := UInt32.lt_iff_toNat_lt.mp h0
      rw [UInt32.lt_iff_toNat_lt, toNat_min]
      exact Nat.lt_min.mpr ⟨hseg, htm⟩
    · rcases List.mem_cons.mp hs with rfl | hs
      · exact ⟨hpos, UInt32.le_trans hm Std.min_le_left⟩
      · exact hrest s hs

/-- The answers of `check`: at once, for the flush timer or for a deadline, or the time to the first of them, but no
longer than the interval. -/
inductive Checks (k : Kcb) (now : UInt32) : UInt32 → Prop
  | timer (ht : k.TimerDue now) : Checks k now 0
  | deadline (ht : ¬ k.TimerDue now) (hs : ¬ k.Ahead now) : Checks k now 0
  | wait (ht : ¬ k.TimerDue now) (hs : k.Ahead now) (m : UInt32) (hm : 0 < m)
      (hle : ∀ s ∈ k.sndBuf, m ≤ s.resendts - now) : Checks k now (min (min m (k.tsFlush - now)) k.interval)

theorem checks_of_check (h : k.check p now = some d) : Checks k now d := by
  unfold Kcb.check at h
  cases hu : k.updated with
  | false =>
    rw [hu, Bool.not_false, if_pos rfl] at h
    exact Option.some.inj h ▸ .timer (Or.inl hu)
  | true =>
    rw [hu, Bool.not_true, if_neg Bool.false_ne_true] at h
    obtain ⟨slap, hslap, h⟩ := Option.bind_eq_some_iff.mp h
    obtain rfl := Profile.subI32_eq_some hslap
    by_cases hres : 10000 ≤ now.toInt32 - k.tsFlush.toInt32 ∨ now.toInt32 - k.tsFlush.toInt32 < -10000
    · -- the timer is set to the reading, so it is due
      have hdue : k.TimerDue now := by
        refine Or.inr fun hn => ?_
        rcases hres with hfar | hfar
        · exact absurd hn.2 (Int32.not_lt.mpr (Int32.le_trans (by decide) hfar))
        · exact absurd hn.1 (Int32.not_le.mpr hfar)
      obtain ⟨late, hlate, h⟩ := Option.bind_eq_some_iff.mp h
      rw [if_pos hres] at hlate
      obtain rfl := Profile.subI32_eq_some hlate
      rw [Int32.sub_self, if_pos (Int32.le_refl _)] at h
      exact Option.some.inj h ▸ .timer hdue
    · obtain ⟨late, hlate, h⟩ := Option.bind_eq_some_iff.mp h
      rw [if_neg hres] at hlate h
      obtain rfl := Profile.subI32_eq_some hlate
      by_cases hl : 0 ≤ now.toInt32 - k.tsFlush.toInt32
      · rw [if_pos hl] at h
        exact Option.some.inj h ▸ .timer (Or.inr fun hn => absurd hn.2 (Int32.not_lt.mpr hl))
      -- the flush timer is ahead, so the deadlines decide
      have hnear : ¬ k.TimerDue now := by
        rintro (hn | hn)
        · exact Bool.false_ne_true (hn.symm.trans hu)
        · exact hn ⟨Int32.not_lt.mp fun hfar => hres (Or.inr hfar), Int32.not_le.mp hl⟩
      rw [if_neg hl] at h
      obtain ⟨tmFlush, htm, h⟩ := Option.bind_eq_some_iff.mp h
      obtain rfl := Profile.subI32_eq_some htm
      rw [← UInt32.toInt32_sub, UInt32.toUInt32_toInt32] at h
      obtain ⟨tm, hloop, h⟩ := Option.bind_eq_some_iff.mp h
      cases tm with
      | none =>
        obtain ⟨s, hs, hn⟩ := soonest_none hloop
        exact Option.some.inj h ▸ .deadline hnear fun ha => hn (ha s hs)
      | some m =>
        obtain ⟨-, hm, hall⟩ := soonest_some hloop
        exact Option.some.inj h ▸ .wait hnear (fun s hs => (hall s hs).1) m (hm (by decide)) fun s hs => (hall s hs).2

/-! ### When `update` flushes -/

theorem timerDue_iff (k : Kcb) (now : UInt32) : k.TimerDue now ↔
    ¬ (-10000 ≤ now.toInt32 - (k.flushTime now).toInt32 ∧ now.toInt32 - (k.flushTime now).toInt32 < 0) := by
  unfold Kcb.TimerDue Kcb.flushTime
  cases hu : k.updated with
  | true => exact or_iff_right (by decide)
  | false =>
    refine iff_of_true (Or.inl rfl) fun hn => ?_
    rw [if_neg Bool.false_ne_true, Int32.sub_self] at hn
    exact Int32.lt_irrefl hn.2

/-- `update` comes to a flush, or does not; a flush timer that has run out has just passed, or is set to the reading. -/
theorem flushAt_cases {due : Option Kcb} (h : k.flushAt p now = some due) :
    (¬ k.TimerDue now ∧ due = none) ∨ (k.TimerDue now ∧ ∃ ts k',
      (elapsed now ts = 0 ∨ 2 ^ 32 - 10000 < elapsed now ts) ∧ ticked p (k.clocked now ts) = some k' ∧
        due = some k') := by
  have hdue := timerDue_iff k now
  rw [flushAt, setClock_clocked] at h
  generalize k.flushTime now = ts at h hdue
  obtain ⟨slap, hslap, h⟩ := Option.bind_eq_some_iff.mp h
  obtain rfl : slap = now.toInt32 - ts.toInt32 := Profile.subI32_eq_some hslap
  split_ifs at h with hres hl
  · obtain ⟨k', hk', rfl⟩ := Option.map_eq_some_iff.mp h
    refine Or.inr ⟨hdue.mpr fun hn => ?_, now, k', Or.inl (elapsed_self now), hk', rfl⟩
    rcases hres with hfar | hfar
    · exact absurd hn.2 (Int32.not_lt.mpr (Int32.le_trans (by decide) hfar))
    · exact absurd hn.1 (Int32.not_le.mpr hfar)
  · obtain ⟨k', hk', rfl⟩ := Option.map_eq_some_iff.mp h
    have hlt : now.toInt32 - ts.toInt32 < 10000 := Int32.not_le.mp fun hfar => hres (Or.inl hfar)
    exact Or.inr ⟨hdue.mpr fun hn => absurd hn.2 (Int32.not_lt.mpr hl), ts, k', passed_iff.mp ⟨hl, hlt⟩, hk', rfl⟩
  · refine Or.inl ⟨fun hn => hdue.mp hn ⟨?_, Int32.not_le.mp hl⟩, (Option.some.inj h).symm⟩
    exact Int32.not_lt.mp fun hfar => hres (Or.inr hfar)

theorem flushAt_due {due : Option Kcb} (h : k.flushAt p now = some due) : due.isSome ↔ k.TimerDue now := by
  rcases flushAt_cases h with ⟨hn, rfl⟩ | ⟨hd, ts, k', -, -, rfl⟩
  · exact iff_of_false (by decide) hn
  · exact iff_of_true rfl hd

theorem update_idle (room : ℕ → ℕ) (hn : ¬ k.TimerDue now) :
    k.update ⟨.release, room⟩ now = some { kcb := { k with current := now } } := by
  obtain ⟨hu, hnear⟩ := not_timerDue_iff.mp hn
  obtain ⟨hlow, hneg⟩ := near_iff.mpr hnear
  have hclock : k.setClock now = { k with current := now } := by
    rw [setClock, if_pos hu]
  have hdue : k.flushAt .release now = some none := by
    rw [flushAt, hclock]
    show (if 10000 ≤ now.toInt32 - k.tsFlush.toInt32 ∨ now.toInt32 - k.tsFlush.toInt32 < -10000 then _
      else if 0 ≤ now.toInt32 - k.tsFlush.toInt32 then _ else some none) = some none
    rw [if_neg, if_neg (Int32.not_le.mpr hneg)]
    rintro (hfar | hfar)
    · exact absurd (Int32.lt_of_le_of_lt hfar hneg) (by decide)
    · exact absurd hlow (Int32.not_le.mpr hfar)
  rw [update_eq_flushAt, hdue, hclock]
  rfl

/-- **`check` never makes the caller oversleep.**  With wrapping arithmetic and from any state: the answer is the
interval at most, and until then `update` does nothing but move the clock, and no deadline of a segment in flight
comes. -/
theorem check_never_oversleeps (room : ℕ → ℕ) {k : Kcb} (hu : k.updated = true) (c : UInt32) :
    ∃ d, k.check .release c = some d ∧ d ≤ k.interval ∧ ∀ t < d,
      k.update ⟨.release, room⟩ (c + t) = some { kcb := { k with current := c + t } } ∧
      ∀ s ∈ k.sndBuf, (c + t).toInt32 - s.resendts.toInt32 < 0 := by
  obtain ⟨d, hd⟩ := Option.isSome_iff_exists.mp (check_release k c)
  refine ⟨d, hd, ?_⟩
  cases checks_of_check hd with
  | timer | deadline => exact ⟨UInt32.le_iff_toNat_le.mpr (Nat.zero_le _), fun t ht => absurd ht (UInt32.not_lt.mpr
      (UInt32.le_iff_toNat_le.mpr (Nat.zero_le _)))⟩
  | wait hn hs m hm hle =>
    obtain ⟨-, hpos, hnear⟩ := not_timerDue_iff.mp hn
    refine ⟨Std.min_le_right, fun t ht => ?_⟩
    have htm : t.toNat < m.toNat ∧ t.toNat < elapsed c k.tsFlush := by
      have hlt := UInt32.lt_iff_toNat_lt.mp ht
      have hdef : elapsed c k.tsFlush = (k.tsFlush - c).toNat := rfl
      rw [toNat_min, toNat_min] at hlt
      omega
    have hself : elapsed c c = 0 := elapsed_self c
    have hnow : elapsed c (c + t) = t.toNat := by
      rw [elapsed_add (by omega), hself, Nat.zero_add]
    constructor
    · refine update_idle room (not_timerDue_iff.mpr ⟨hu, ?_⟩)
      have hleft : elapsed (c + t) k.tsFlush = elapsed c k.tsFlush - elapsed c (c + t) := toNat_sub_of_le (by omega)
      omega
    · intro s hmem
      obtain ⟨-, hhalf⟩ := ahead_iff.mp (hs s hmem)
      have hms : m.toNat ≤ elapsed c s.resendts := UInt32.le_iff_toNat_le.mp (hle s hmem)
      have hdiff : ((c + t).toInt32 - s.resendts.toInt32).toInt = (elapsed c (c + t) : ℤ) - elapsed c s.resendts :=
        toInt_diff (by omega) (by omega)
      rw [Int32.lt_iff_toInt_lt, hdiff]
      show _ < 0
      omega

/-- A segment is in flight until 325 and the next flush is at 200, so at 150 there are 50 ms to wait. -/
theorem check_never_oversleeps_fifty :
    ∃ e, run (Endpoint.exec shipped) (Endpoint.start 7 {}) [.send [1], .update 0 none, .update 100 none] = some e ∧
      e.kcb.sndBuf ≠ [] ∧ e.kcb.check .release 150 = some 50 ∧
      e.kcb.update shipped 199 = some { kcb := { e.kcb with current := 199 } } := by
  have hrun : ((run (Endpoint.exec shipped) (Endpoint.start 7 {})
      [.send [1], .update 0 none, .update 100 none]).map fun e =>
        (e.kcb.updated, e.kcb.sndBuf.isEmpty, e.kcb.check .release 150)) = some (true, false, some 50) := by
    decide +kernel
  obtain ⟨e, he, h⟩ := Option.map_eq_some_iff.mp hrun
  simp only [Prod.mk.injEq] at h
  obtain ⟨hu, hne, hc⟩ := h
  obtain ⟨d, hd, -, hidle⟩ := check_never_oversleeps bytesMut hu 150
  obtain rfl : d = 50 := Option.some.inj (hd.symm.trans hc)
  refine ⟨e, he, fun hnil => ?_, hd, (hidle 49 (by decide)).1⟩
  rw [hnil] at hne
  exact absurd hne (by decide)

/-! ### When an answer 0 is followed by a flush -/

section Zero

variable {b : Build} {conv : UInt32} {c : Config} {ops : List Op} {e e' : Endpoint}

/-- The flush intervals that a configuration can set. -/
def Kcb.IntervalFits (k : Kcb) : Prop := 10 ≤ k.interval.toNat ∧ k.interval.toNat ≤ 5000

theorem intervalFits_start (conv : UInt32) (c : Config) : (Endpoint.start conv c).kcb.IntervalFits := by
  have hset : ∀ k : Kcb, k.IntervalFits → (k.setNodelay c.nodelay c.interval c.resend c.nc).IntervalFits := by
    intro k hk
    have hclamp : ∀ i : UInt32, 10 ≤ (if 5000 < i then 5000 else if i < 10 then 10 else i).toNat ∧
        (if 5000 < i then 5000 else if i < 10 then 10 else i).toNat ≤ 5000 := by
      intro i
      split_ifs with h1 h2
      · decide
      · decide
      · exact ⟨UInt32.le_iff_toNat_le.mp (UInt32.not_lt.mp h2), UInt32.le_iff_toNat_le.mp (UInt32.not_lt.mp h1)⟩
    unfold setNodelay Kcb.IntervalFits
    split_ifs <;> first | exact hk | exact hclamp _
  refine hset _ ?_
  have hnew : 10 ≤ kcpInterval.toNat ∧ kcpInterval.toNat ≤ 5000 := by decide
  unfold wndsize
  split_ifs <;> exact hnew

theorem intervalFits_run (hr : run (Endpoint.exec b) (Endpoint.start conv c) ops = some e) : e.kcb.IntervalFits := by
  refine run_invariant (I := fun e => e.kcb.IntervalFits) (fun e op e' h hex => ?_) hr (intervalFits_start conv c)
  have hsame : e'.kcb.interval = e.kcb.interval := congrArg Settings.interval (settings_exec hex)
  unfold Kcb.IntervalFits
  rw [hsame]
  exact h

theorem checks_pos_iff (hi : k.IntervalFits) (h : Checks k now d) : 1 ≤ d ↔ ¬ k.TimerDue now ∧ k.Ahead now := by
  cases h with
  | timer ht => exact iff_of_false (by decide) fun hn => hn.1 ht
  | deadline ht hs => exact iff_of_false (by decide) fun hn => hs hn.2
  | wait ht hs m hm hle =>
    refine iff_of_true ?_ ⟨ht, hs⟩
    obtain ⟨-, hpos, -⟩ := not_timerDue_iff.mp ht
    obtain ⟨hlow, -⟩ := hi
    have hm0 : 0 < m.toNat := UInt32.lt_iff_toNat_lt.mp hm
    have hdef : elapsed now k.tsFlush = (k.tsFlush - now).toNat := rfl
    rw [UInt32.le_iff_toNat_le, toNat_min, toNat_min]
    show 1 ≤ _
    omega

theorem ticked_ahead {ts : UInt32} {k' : Kcb} (hi : k.IntervalFits)
    (hts : elapsed now ts = 0 ∨ 2 ^ 32 - 10000 < elapsed now ts) (h : ticked p (k.clocked now ts) = some k') :
    ¬ k'.TimerDue now := by
  obtain ⟨hlow, hhigh⟩ := hi
  obtain ⟨t, ht, h⟩ := Option.bind_eq_some_iff.mp h
  obtain ⟨late, hlate, h⟩ := Option.bind_eq_some_iff.mp h
  obtain ⟨t', ht', h⟩ := Option.bind_eq_some_iff.mp h
  obtain rfl := Option.some.inj h
  obtain rfl : t = ts + k.interval := Profile.add_eq_some ht
  obtain rfl : late = now.toInt32 - (ts + k.interval).toInt32 := Profile.subI32_eq_some hlate
  refine not_timerDue_iff.mpr ⟨rfl, ?_⟩
  show 0 < elapsed now t' ∧ elapsed now t' ≤ 10000
  by_cases hl : 0 ≤ now.toInt32 - (ts + k.interval).toInt32
  · rw [if_pos hl] at ht'
    obtain rfl : t' = now + k.interval := Profile.add_eq_some ht'
    have hself : elapsed now now = 0 := elapsed_self now
    rw [elapsed_add (by omega)]
    omega
  · rw [if_neg hl] at ht'
    obtain rfl := Option.some.inj ht'
    -- the timer is ahead now, or it would be only just behind
    have hbehind : ¬ (elapsed now (ts + k.interval) = 0 ∨ 2 ^ 32 - 10000 < elapsed now (ts + k.interval)) :=
      fun hn => hl (passed_iff.mpr hn).1
    have hsum : elapsed now (ts + k.interval) = (elapsed now ts + k.interval.toNat) % 2 ^ 32 := by
      simp only [elapsed_eq, UInt32.toNat_add]
      omega
    have hlt : elapsed now ts < 2 ^ 32 := (ts - now).toNat_lt
    omega

theorem timer_flush {f : Flushing} (hu : k.updated = true) (h : k.flush b = some f) :
    f.kcb.updated = true ∧ f.kcb.tsFlush = k.tsFlush := by
  obtain ⟨t, w, pr, -, nxt, buf, queue, xmit, buffer, s, c, i, hend⟩ := flush_eq hu h
  simp only [hend, setCwnd, setBuffer, setSndBuf, setSend, setProbes, setAcklist, hu, and_self]

theorem exec_update_timer (hi : e.kcb.IntervalFits) (h : e.exec b (.update now none) = some e') :
    ¬ e'.kcb.TimerDue now := by
  obtain ⟨f, hf, rfl⟩ := Option.map_eq_some_iff.mp h
  rw [update_eq_flushAt] at hf
  obtain ⟨due, hdue, hf⟩ := Option.bind_eq_some_iff.mp hf
  rcases flushAt_cases hdue with ⟨hn, rfl⟩ | ⟨-, ts, k, hts, hk, rfl⟩
  · obtain rfl := Option.some.inj hf
    obtain ⟨hu, hnear⟩ := not_timerDue_iff.mp hn
    have hset : e.kcb.setClock now = { e.kcb with current := now } := by
      rw [setClock, if_pos hu]
    show ¬ (e.kcb.setClock now).TimerDue now
    rw [hset]
    exact not_timerDue_iff.mpr ⟨hu, hnear⟩
  · obtain ⟨hu, hnear⟩ := not_timerDue_iff.mp (ticked_ahead hi hts hk)
    obtain ⟨hu', hts'⟩ := timer_flush hu hf
    show ¬ f.kcb.TimerDue now
    rw [not_timerDue_iff, hts']
    exact ⟨hu', hnear⟩

theorem current_flushes {k₁ : Kcb} {cut : Option ℕ} (h : (Op.update now cut).flushes p k = some k₁) :
    k₁.current = now := by
  simp only [Op.flushes] at h
  cases hdue : k.flushAt p now with
  | none =>
    rw [hdue] at h
    cases h
  | some due =>
    rw [hdue, Option.getD_some] at h
    subst h
    obtain ⟨ts, rfl⟩ := flushAt_eq hdue
    rfl

theorem flushes_update (h : e.exec b (.update now none) = some e') :
    ((Op.update now none).flushes b.profile e.kcb).isSome ↔ e.kcb.TimerDue now := by
  obtain ⟨f, hf, -⟩ := Option.map_eq_some_iff.mp h
  rw [update_eq_flushAt] at hf
  obtain ⟨due, hdue, -⟩ := Option.bind_eq_some_iff.mp hf
  rw [Op.flushes, hdue, Option.getD_some]
  exact flushAt_due hdue

theorem sndBuf_update (h : e.exec b (.update now none) = some e') (hn : ¬ e.kcb.TimerDue now) :
    e'.kcb.sndBuf = e.kcb.sndBuf := by
  have hnone : (Op.update now none).flushes b.profile e.kcb = none :=
    Option.not_isSome_iff_eq_none.mp fun hs => hn ((flushes_update h).mp hs)
  have hcalled : Called b e e' (.update now none) := called_of_exec rfl h
  cases hcalled with
  | clock now ts hs e1 =>
    rw [e1]
    rfl
  | update now ts f hs hf e1 => exact absurd (hs.symm.trans hnone) (by simp)

/-- A deadline that has not come is ahead, or half a lap away. -/
theorem ahead_of_not_late {t : UInt32} (h : now.toInt32 - t.toInt32 < 0) (hhalf : t - now ≠ UInt32.ofNat (2 ^ 31)) :
    0 < t.toInt32 - now.toInt32 := by
  have hne : elapsed now t ≠ 2 ^ 31 := fun hn => hhalf (UInt32.toNat_inj.mp hn)
  have hsigned := toInt_toInt32 (now - t)
  have ht := t.toNat_lt
  have ho := now.toNat_lt
  rw [Int32.lt_iff_toInt_lt, ← UInt32.toInt32_sub, hsigned, UInt32.toNat_sub] at h
  have h0 : (0 : Int32).toInt = 0 := rfl
  rw [h0] at h
  refine ahead_iff.mpr ?_
  rw [elapsed_eq] at *
  split_ifs at h <;> omega

/-- **When an answer 0 is followed by a flush.**  In every reachable state: if `check` answers 0, an `update` at that
reading comes to a flush if and only if the flush timer is due or no deadline has come.  And after `update` the answer
of `check` is not 0 if and only if no deadline of `snd_buf` has come; without a flush these are the deadlines from
before, and a flush leaves them ahead, but for segments that timed out `2 ^ 15` times or have half a lap to wait. -/
theorem check_zero_iff {b : Build} {conv : UInt32} {c : Config} {ops : List Op} {e : Endpoint}
    (hr : run (Endpoint.exec b) (Endpoint.start conv c) ops = some e) (now : UInt32) :
    (∀ d e', e.kcb.updated = true → e.kcb.check b.profile now = some d → e.exec b (.update now none) = some e' →
      ((d = 0 → ((Op.update now none).flushes b.profile e.kcb).isSome) ↔ e.kcb.TimerDue now ∨ e.kcb.Ahead now)) ∧
    ∀ d e', e.exec b (.update now none) = some e' → e'.kcb.check b.profile now = some d →
      (1 ≤ d ↔ e'.kcb.Ahead now) ∧
      (¬ e.kcb.TimerDue now → e'.kcb.sndBuf = e.kcb.sndBuf) ∧
      (e.kcb.TimerDue now → ∀ s ∈ e'.kcb.sndBuf,
        timeouts b s.sn (Endpoint.start conv c) (ops ++ [.update now none]) < 2 ^ 15 →
        s.resendts - now ≠ UInt32.ofNat (2 ^ 31) → 0 < s.resendts.toInt32 - now.toInt32) := by
  have hi := intervalFits_run hr
  constructor
  · intro d e' hu hd hex
    rw [flushes_update hex]
    have hpos := checks_pos_iff hi (checks_of_check hd)
    have hzero : d = 0 ↔ ¬ 1 ≤ d := by
      rw [UInt32.le_iff_toNat_le, ← UInt32.toNat_inj]
      show d.toNat = 0 ↔ ¬ 1 ≤ d.toNat
      omega
    rw [hzero, hpos]
    by_cases ht : e.kcb.TimerDue now
    · exact iff_of_true (fun _ => ht) (Or.inl ht)
    · simp only [ht, not_false_eq_true, true_and, false_or, imp_false, not_not]
  · intro d e' hex hd
    have htimer := exec_update_timer hi hex
    have hi' : e'.kcb.IntervalFits := intervalFits_run (run_append.mpr ⟨e, hr, run_cons.mpr ⟨e', hex, run_nil e'⟩⟩)
    refine ⟨?_, sndBuf_update hex, fun hdue s hs hn hhalf => ?_⟩
    · rw [checks_pos_iff hi' (checks_of_check hd)]
      exact and_iff_right htimer
    · -- the flush inside the update has put the deadlines ahead
      obtain ⟨k, hk⟩ := Option.isSome_iff_exists.mp ((flushes_update hex).mpr hdue)
      have hop : (Op.update now none).Completed := rfl
      obtain ⟨-, hlate⟩ := ahead_of_flushed hr hop hk hex hs hn
      rw [(restamped_of_flushed hop hk hex hs).1, current_flushes hk] at hlate
      exact ahead_of_not_late hlate hhalf

end Zero

/-- A segment whose deadline, 325, comes between the flushes at 300 and at 400. -/
def overdue : List Op := [.send [1], .update 0 none, .update 100 none, .update 200 none, .update 300 none]

/-- At 350 `check` answers 0, and an update then does nothing. -/
theorem check_zero_spins :
    ¬ ∀ (b : Build) (conv : UInt32) (c : Config) (ops : List Op) (e : Endpoint),
      run (Endpoint.exec b) (Endpoint.start conv c) ops = some e → ∀ now, e.kcb.updated = true →
        e.kcb.check b.profile now = some 0 → ((Op.update now none).flushes b.profile e.kcb).isSome := by
  intro hall
  have hrun : ((run (Endpoint.exec shipped) (Endpoint.start 7 {}) overdue).map fun e =>
      (e.kcb.updated, e.kcb.check .release 350, ((Op.update 350 none).flushes .release e.kcb).isSome)) =
        some (true, some 0, false) := by
    decide +kernel
  obtain ⟨e, he, h⟩ := Option.map_eq_some_iff.mp hrun
  simp only [Prod.mk.injEq] at h
  obtain ⟨hu, hc, hf⟩ := h
  have hflush := hall shipped 7 {} overdue e he 350 hu hc
  exact Bool.false_ne_true (hf.symm.trans hflush)

/-- At 350 the deadline has come and the flush timer is not due; at 400 it is. -/
theorem check_zero_iff_overdue :
    ∃ e e', run (Endpoint.exec shipped) (Endpoint.start 7 {}) overdue = some e ∧
      e.exec shipped (.update 350 none) = some e' ∧ e'.kcb.check .release 350 = some 0 ∧ ¬ e'.kcb.Ahead 350 ∧
      ((Op.update 400 none).flushes .release e.kcb).isSome := by
  have hrun : ((run (Endpoint.exec shipped) (Endpoint.start 7 {}) overdue).bind fun e =>
      ((e.exec shipped (.update 350 none)).bind fun e' => e'.kcb.check .release 350).bind fun d =>
        (e.exec shipped (.update 400 none)).map fun _ =>
          (d, e.kcb.updated, e.kcb.check .release 400, decide (e.kcb.TimerDue 400))) =
        some (0, true, some 0, true) := by
    decide +kernel
  obtain ⟨e, he, h⟩ := Option.bind_eq_some_iff.mp hrun
  obtain ⟨d, hd, h⟩ := Option.bind_eq_some_iff.mp h
  obtain ⟨e', hex, hd⟩ := Option.bind_eq_some_iff.mp hd
  obtain ⟨e₄, hex₄, h⟩ := Option.map_eq_some_iff.mp h
  simp only [Prod.mk.injEq, decide_eq_true_eq] at h
  obtain ⟨rfl, hu, hc, hdue⟩ := h
  have hpos := ((check_zero_iff he 350).2 0 e' hex hd).1
  have hflush := ((check_zero_iff he 400).1 0 e₄ hu hc hex₄).mpr (Or.inl hdue) rfl
  exact ⟨e, e', he, hex, hd, fun ha => absurd (hpos.mpr ha) (by decide), hflush⟩

end NetProtocols.Kcp
