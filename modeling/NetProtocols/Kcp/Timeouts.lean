import NetProtocols.Lib.Spacing
import NetProtocols.Kcp.Pacing
import NetProtocols.Kcp.Retransmit

/-!
# NetProtocols.Kcp.Timeouts — how often a segment can time out in a given time

The `rto` of a segment grows by `rx_rto`, or by half of it, at every timeout, and `rx_rto` is never below `rx_minrto`.
So the timeouts of a segment come further and further apart, and in the half lap of the clock in which its readings can
be told apart there are far fewer than the 2^15 at which the deadlines would come out wrong.

* `leastRto`, `leastStep`: what the first wait is at least, and what a timeout adds to it at least.
* `Armed`, `Timed.restamped`: the timer of a segment, and what the data loop makes of it.
* `passed_flush`: where the segments of a flush come from.
* `Spread`, `spread_exec`, `spread_run`: the timers of a segment over a run.
* `timeouts_spaced`: the timeouts of a run against the time that has gone by.
-/

namespace NetProtocols.Kcp

open Kcb Flushing

variable {b : Build} {p : Profile} {k k' : Kcb} {s s' : Segment} {e e' : Endpoint}

/-! ### The least waits -/

/-- The wait after the first transmission, at least. -/
def Kcb.leastRto (k : Kcb) : ℕ := k.rxMinrto.toNat

/-- What a timeout adds to the wait, at least. -/
def Kcb.leastStep (k : Kcb) : ℕ := if k.nodelay = 0 then k.rxMinrto.toNat else k.rxMinrto.toNat / 2

theorem leastStep_le (hk : RtoFits k) : k.leastStep ≤ (if k.nodelay = 0 then k.rxRto else k.rxRto / 2).toNat := by
  have hleast := hk.least
  unfold leastStep
  split_ifs
  · exact hleast
  · have hhalf : (k.rxRto / 2).toNat = k.rxRto.toNat / 2 := UInt32.toNat_div _ _
    omega

theorem leastStep_ge (hk : RtoFits k) : 15 ≤ k.leastStep := by
  have hmin := hk.minrto
  unfold leastStep
  split_ifs <;> omega

/-! ### The timer of a segment -/

/-- The timer of a segment in flight, after `n` timeouts and `now` ticks since the reading `o` of the clock. -/
structure Armed (o : UInt32) (first inc n now : ℕ) (s : Segment) : Prop where
  spaced : Spaced first inc n now (elapsed o s.resendts) s.rto.toNat
  rto_le : s.rto.toNat ≤ 60000 * (n + 1)
  near : elapsed o s.resendts ≤ now + 60000 * (n + 2)

/-- A segment that waits for its first transmission, or one in flight. -/
def Timed (o : UInt32) (first inc n now : ℕ) (s : Segment) : Prop :=
  (s.xmit = 0 ∧ n = 0) ∨ (s.xmit ≠ 0 ∧ Armed o first inc n now s)

/-- The data loop counts a transmission of the segment whose time had come. -/
def TimedOut (k : Kcb) (s s' : Segment) : Prop := s.xmit ≠ 0 ∧ 0 ≤ k.lateness s ∧ s'.xmit = s.xmit + 1

section Segments

variable {o : UInt32} {first inc n now now' : ℕ}

theorem Timed.later (h : Timed o first inc n now s) (hle : now ≤ now') : Timed o first inc n now' s := by
  rcases h with h | ⟨hx, ha⟩
  · exact Or.inl h
  · exact Or.inr ⟨hx, ha.spaced.later hle, ha.rto_le, ha.near.trans (Nat.add_le_add_right hle _)⟩

theorem Timed.of_eq (h : Timed o first inc n now s) (hx : s'.xmit = s.xmit) (hrto : s'.rto = s.rto)
    (hd : s'.resendts = s.resendts) : Timed o first inc n now s' := by
  rcases h with ⟨h0, hn⟩ | ⟨h0, ha⟩
  · exact Or.inl ⟨hx.trans h0, hn⟩
  · refine Or.inr ⟨hx ▸ h0, ?_, hrto ▸ ha.rto_le, hd ▸ ha.near⟩
    rw [hd, hrto]
    exact ha.spaced

/-- Timeouts that fit half a lap of the clock are few. -/
theorem timeouts_few (hfirst : 30 ≤ first) (hinc : 15 ≤ inc) (h : spell first inc n ≤ now) (hnow : now < 2 ^ 31) :
    n < 2 ^ 15 := by
  by_contra hn
  have hleast : spell 30 15 n ≤ now := (spell_mono hfirst hinc n).trans h
  have hclosed := two_mul_spell 30 15 n
  have hsquare : 2 ^ 15 * 2 ^ 15 ≤ n * n := Nat.mul_le_mul (Nat.le_of_not_lt hn) (Nat.le_of_not_lt hn)
  have hsum : n * (2 * 30 + n * 15) = 60 * n + 15 * (n * n) := by ring
  omega

/-- **A segment is late** when its deadline is not ahead of the clock. -/
theorem overdue_iff (hc : elapsed o k.current = now) (hnow : now < 2 ^ 31) (hn : n < 2 ^ 15)
    (ha : Armed o first inc n now s) : 0 ≤ k.lateness s ↔ elapsed o s.resendts ≤ now := by
  have hnear := ha.near
  have hdiff : (k.current.toInt32 - s.resendts.toInt32).toInt =
      (elapsed o k.current : ℤ) - elapsed o s.resendts := toInt_diff (by omega) (by omega)
  rw [lateness, Int32.le_iff_toInt_le, hdiff, hc]
  show (0 : ℤ) ≤ _ ↔ _
  omega

/-- A timer that the data loop sets: to `wait`, or a little more. -/
theorem armed_set {wait extra : UInt32} {x : Segment} (hc : elapsed o k.current = now) (hnow : now < 2 ^ 31)
    (hn : n < 2 ^ 15) (hspent : spell first inc n ≤ now) (hwait : first + n * inc ≤ wait.toNat)
    (hhigh : wait.toNat ≤ 60000 * (n + 1)) (hextra : extra.toNat ≤ 60000) (hrto : x.rto = wait)
    (hd : x.resendts = k.current + wait + extra) : Armed o first inc n now x := by
  have h1 : elapsed o (k.current + wait) = now + wait.toNat := by
    rw [← hc]
    exact elapsed_add (by omega)
  have h2 : elapsed o (k.current + wait + extra) = now + wait.toNat + extra.toNat := by
    rw [← h1]
    exact elapsed_add (by omega)
  refine ⟨?_, by rw [hrto]; exact hhigh, ?_⟩
  · rw [hrto, hd, h2]
    exact Spaced.reset hspent hwait (Nat.le_add_right _ _)
  · rw [hd, h2]
    omega

theorem armed_set_plain {wait : UInt32} {x : Segment} (hc : elapsed o k.current = now) (hnow : now < 2 ^ 31)
    (hn : n < 2 ^ 15) (hspent : spell first inc n ≤ now) (hwait : first + n * inc ≤ wait.toNat)
    (hhigh : wait.toNat ≤ 60000 * (n + 1)) (hrto : x.rto = wait) (hd : x.resendts = k.current + wait) :
    Armed o first inc n now x := by
  have hplain : x.resendts = k.current + wait + 0 := hd.trans (UInt32.add_zero _).symm
  exact armed_set hc hnow hn hspent hwait hhigh (Nat.zero_le _) hrto hplain

/-- **The data loop and the timer of a segment**: it is left alone or set again, and a timeout took one wait more. -/
theorem Timed.restamped (h : Timed o k.leastRto k.leastStep n now s) (hk : RtoFits k)
    (hc : elapsed o k.current = now) (hnow : now < 2 ^ 31) (hspent : spell k.leastRto k.leastStep n ≤ now)
    (hx : s.xmit.toNat + 1 < 2 ^ 32) (hr : Restamped k s s') :
    (¬ TimedOut k s s' ∧ Timed o k.leastRto k.leastStep n now s') ∨
      (TimedOut k s s' ∧ spell k.leastRto k.leastStep (n + 1) ≤ now ∧
        Timed o k.leastRto k.leastStep (n + 1) now s') := by
  have hn : n < 2 ^ 15 := timeouts_few hk.minrto (leastStep_ge hk) hspent hnow
  have hnext : s.xmit + 1 ≠ 0 := by
    intro h0
    have hcount : (s.xmit + 1).toNat = s.xmit.toNat + 1 := toNat_add_of_lt hx
    rw [h0] at hcount
    exact absurd hcount (Nat.succ_ne_zero _).symm
  cases hr with
  | first hx0 =>
    -- a first transmission: no timeout has been counted
    obtain rfl : n = 0 := by
      rcases h with ⟨-, hn0⟩ | ⟨h0, -⟩
      · exact hn0
      · exact absurd hx0 h0
    have hlow : k.leastRto + 0 * k.leastStep ≤ k.rxRto.toNat := by
      rw [Nat.zero_mul]
      exact hk.least
    have hhigh : k.rxRto.toNat ≤ 60000 * (0 + 1) := hk.high
    exact Or.inl ⟨fun ht => ht.1 hx0, Or.inr ⟨hnext,
      armed_set hc hnow hn hspent hlow hhigh hk.rtomin_le rfl rfl⟩⟩
  | timeout hx0 hl rto hrto =>
    obtain ⟨h0, -⟩ | ⟨-, ha⟩ := h
    · exact absurd h0 hx0
    -- the deadline has passed, so one wait more has been spent
    have hrung := ha.spaced.rung ((overdue_iff hc hnow hn ha).mp hl)
    have hn' : n + 1 < 2 ^ 15 := timeouts_few hk.minrto (leastStep_ge hk) hrung hnow
    have hstep := leastStep_le hk
    have hstep' := hk.increment
    have hwait := ha.spaced.wait_ge
    have hle := ha.rto_le
    have hsum : rto.toNat = s.rto.toNat + (if k.nodelay = 0 then k.rxRto else k.rxRto / 2).toNat := by
      rw [hrto]
      exact toNat_add_of_lt (by omega)
    have hmul : (n + 1) * k.leastStep = n * k.leastStep + k.leastStep := Nat.succ_mul _ _
    have hlow : k.leastRto + (n + 1) * k.leastStep ≤ rto.toNat := by omega
    have hhigh : rto.toNat ≤ 60000 * (n + 1 + 1) := by omega
    exact Or.inr ⟨⟨hx0, hl, rfl⟩, hrung, Or.inr ⟨hnext, armed_set_plain hc hnow hn' hrung hlow hhigh rfl rfl⟩⟩
  | fast hx0 hl hf =>
    obtain ⟨h0, -⟩ | ⟨-, ha⟩ := h
    · exact absurd h0 hx0
    exact Or.inl ⟨fun ht => hl ht.2.1, Or.inr ⟨hnext,
      armed_set_plain hc hnow hn hspent ha.spaced.wait_ge ha.rto_le rfl rfl⟩⟩
  | idle hx0 hl hf => exact Or.inl ⟨fun ht => hl ht.2.1, h⟩

end Segments

/-! ### The segments of a flush -/

theorem le_of_mem_numbered {conv nxt : UInt32} {l : List Segment} {x : Fixed} (h : x ∈ numbered conv nxt l)
    (hlen : nxt.toNat + l.length < 2 ^ 32) : nxt ≤ x.sn := by
  induction l generalizing nxt with
  | nil => exact absurd h List.not_mem_nil
  | cons a l ih =>
    rw [List.length_cons] at hlen
    rcases List.mem_cons.mp h with rfl | h
    · exact UInt32.le_refl _
    · have hone : (1 : UInt32).toNat = 1 := rfl
      have hsucc : (nxt + 1).toNat = nxt.toNat + 1 := toNat_add_of_lt (by omega)
      have hle := UInt32.le_iff_toNat_le.mp (ih h (by omega))
      rw [UInt32.le_iff_toNat_le]
      omega

/-- A flush, complete or abandoned, with the segments of its window in order. -/
structure Passed (k k' : Kcb) (moved : List Segment) : Prop where
  sorted : Increasing Segment.num (k.window moved)
  sorted' : Increasing Segment.num k'.sndBuf
  back : ∀ s' ∈ k'.sndBuf, ∃ x ∈ k.window moved, s'.sn = x.sn ∧ (s' = x ∨ Restamped k x s')
  fresh : ∀ x ∈ k.entered k.sndNxt moved, x.xmit = 0 ∧ k.sndNxt ≤ x.sn
  nxt : k.sndNxt ≤ k'.sndNxt

theorem passed_flush {f : Flushing} (hi : SendInv k.sendSide) (hf : k.flush b = some f) (cut : Option ℕ) :
    ∃ moved, Passed k (f.stopAt cut).1 moved := by
  obtain ⟨moved, done, rest, hwin, hbuf⟩ := stopAt_sndBuf hf cut
  obtain ⟨hi', n, ha⟩ := sendInv_flushed (flush_follows hf rfl) cut hi
  have hfixed : (f.stopAt cut).1.sndBuf.map Segment.fixed = (k.window moved).map Segment.fixed := by
    rw [hbuf, hwin, List.map_append, List.map_append, List.map_map]
    congr 1
    exact List.map_congr_left fun x _ => (restamped k x).fixed
  have hentered : (k.entered k.sndNxt moved).map Segment.fixed = numbered k.conv k.sndNxt (k.sndQueue.take n) := by
    have hsplit := hfixed.symm.trans ha.buf
    rw [window, List.map_append] at hsplit
    exact List.append_cancel_left hsplit
  have hnxt := ha.nxt
  have hlt := (f.stopAt cut).1.sndNxt.toNat_lt
  refine ⟨moved, ?_, sorted_segments hi', fun s' hs' => ?_, fun x hx => ⟨?_, ?_⟩, ?_⟩
  · have hsorted : Increasing Fixed.num ((k.window moved).map Segment.fixed) := hfixed ▸ hi'.sorted
    exact hsorted.of_map Segment.fixed fun _ _ h => h
  · rw [hbuf] at hs'
    rcases List.mem_append.mp hs' with hs' | hs'
    · obtain ⟨x, hx, rfl⟩ := List.mem_map.mp hs'
      exact ⟨x, hwin ▸ List.mem_append_left _ hx, (restamped k x).sn_eq, Or.inr (restamped k x)⟩
    · exact ⟨s', hwin ▸ List.mem_append_right _ hs', rfl, Or.inl rfl⟩
  · obtain ⟨sn', y, rfl⟩ := mem_entered hx
    rfl
  · have hmem : x.fixed ∈ numbered k.conv k.sndNxt (k.sndQueue.take n) := hentered ▸ List.mem_map_of_mem hx
    refine le_of_mem_numbered hmem ?_
    rw [List.length_take]
    omega
  · rw [UInt32.le_iff_toNat_le]
    omega

/-! ### Over a run -/

/-- The timers of the segment `sn` after `calls` calls, `n` timeouts and `now` ticks. -/
structure Spread (o sn : UInt32) (calls n now : ℕ) (k : Kcb) : Prop where
  fits : RtoFits k
  clock : elapsed o k.current = now
  spent : spell k.leastRto k.leastStep n ≤ now
  below : 0 < n → sn < k.sndNxt
  xmits : ∀ s ∈ k.sndBuf, s.xmit.toNat ≤ calls
  segs : ∀ s ∈ k.sndBuf, s.sn = sn → Timed o k.leastRto k.leastStep n now s
  idle : k.updated = false → k.sndBuf = [] ∧ now = 0

section Spread

variable {o sn now' : UInt32} {calls n now : ℕ} {op : Op}

theorem leasts_of_settings (h : k'.settings = k.settings) :
    k'.leastRto = k.leastRto ∧ k'.leastStep = k.leastStep := by
  have hmin : k'.rxMinrto = k.rxMinrto := congrArg Settings.rxMinrto h
  have hmode : k'.nodelay = k.nodelay := congrArg Settings.nodelay h
  rw [leastRto, leastStep, leastRto, leastStep, hmin, hmode]
  exact ⟨rfl, rfl⟩

/-- What leaves the clock and the timers alone. -/
theorem Spread.same (h : Spread o sn calls n now k) (hk : RtoFits k') (hset : k'.settings = k.settings)
    (hpace : k'.pace = k.pace) (hnxt : k'.sndNxt = k.sndNxt)
    (hbuf : ∀ s' ∈ k'.sndBuf, ∃ s ∈ k.sndBuf, Segment.Bumped s s') : Spread o sn calls n now k' := by
  obtain ⟨hfirst, hstep⟩ := leasts_of_settings hset
  obtain ⟨hcurrent, hu, -⟩ := pace_eq hpace
  refine ⟨hk, by rw [hcurrent]; exact h.clock, by rw [hfirst, hstep]; exact h.spent, by rw [hnxt]; exact h.below,
    fun s' hs' => ?_, fun s' hs' he => ?_, fun hu' => ?_⟩
  · obtain ⟨s, hs, fastack, rfl, -⟩ := hbuf s' hs'
    exact h.xmits s hs
  · obtain ⟨s, hs, fastack, rfl, -⟩ := hbuf s' hs'
    rw [hfirst, hstep]
    exact (h.segs s hs he).of_eq rfl rfl rfl
  · obtain ⟨hnil, hzero⟩ := h.idle (hu ▸ hu')
    refine ⟨List.eq_nil_iff_forall_not_mem.mpr fun s' hs' => ?_, hzero⟩
    obtain ⟨s, hs, -⟩ := hbuf s' hs'
    rw [hnil] at hs
    exact List.not_mem_nil hs

theorem Spread.mono (h : Spread o sn calls n now k) {calls' : ℕ} (hle : calls ≤ calls') :
    Spread o sn calls' n now k :=
  { h with xmits := fun s hs => (h.xmits s hs).trans hle }

/-- **The clock goes on**; with the first reading the ticks begin. -/
theorem Spread.tick (h : Spread o sn calls n now k) (hsum : now + k.ticksTo now' < 2 ^ 31) (ts : UInt32) :
    ∃ o, Spread o sn calls n (now + k.ticksTo now') (k.clocked now' ts) := by
  cases hu : k.updated with
  | false =>
    obtain ⟨hnil, rfl⟩ := h.idle hu
    have hzero : k.ticksTo now' = 0 := if_neg (by simp [hu])
    rw [hzero]
    refine ⟨now', h.fits.of_eq rfl rfl, elapsed_self now', h.spent, h.below, h.xmits, fun s hs => ?_,
      fun hu' => (Bool.false_ne_true hu'.symm).elim⟩
    have hs' : s ∈ k.sndBuf := hs
    rw [hnil] at hs'
    exact absurd hs' List.not_mem_nil
  | true =>
    have hticks : k.ticksTo now' = elapsed k.current now' := if_pos hu
    rw [hticks] at hsum ⊢
    have hclock : elapsed o now' = now + elapsed k.current now' := by
      have hback : k.current + (now' - k.current) = now' := by
        rw [UInt32.add_comm, UInt32.sub_add_cancel]
      have hadd : elapsed o (k.current + (now' - k.current)) = elapsed o k.current + (now' - k.current).toNat := by
        refine elapsed_add ?_
        rw [h.clock]
        exact hsum.trans (by decide)
      rw [hback, h.clock] at hadd
      exact hadd
    exact ⟨o, h.fits.of_eq rfl rfl, hclock, h.spent.trans (Nat.le_add_right _ _), h.below, h.xmits,
      fun s hs he => (h.segs s hs he).later (Nat.le_add_right _ _), fun hu' => (Bool.false_ne_true hu'.symm).elim⟩

theorem timesOut_same (hi : SendInv e.kcb.sendSide)
    (h : ∀ s' ∈ e'.kcb.sndBuf, ∃ s ∈ e.kcb.sndBuf, Segment.Bumped s s') : e.timesOut sn op e' = false := by
  rw [Bool.eq_false_iff]
  intro ht
  obtain ⟨s, hs, hsn, -, -, s', hs', hsn', hcount⟩ := timesOut_iff.mp ht
  obtain ⟨x, hx, fastack, rfl, -⟩ := h s' hs'
  have hkey : Segment.num x = Segment.num s := congrArg UInt32.toNat (hsn'.trans hsn.symm)
  obtain rfl := (sorted_segments hi).eq_of_key_eq hx hs hkey
  have hmore : x.xmit + 0 = x.xmit + 1 := (UInt32.add_zero _).trans hcount
  exact absurd (UInt32.add_right_inj x.xmit |>.mp hmore) (by decide)

/-- **A flush**, complete or abandoned, that counts `w` timeouts of the segment. -/
theorem Spread.flush {f : Flushing} {cut : Option ℕ} {w : ℕ} (h : Spread o sn calls n now k)
    (hi : SendInv k.sendSide) (hnow : now < 2 ^ 31) (hcalls : calls + 1 < 2 ^ 32) (hf : k.flush b = some f)
    (hw : (w = 1 ∧ ∃ s ∈ k.sndBuf, s.sn = sn ∧ ∃ s' ∈ (f.stopAt cut).1.sndBuf, s'.sn = sn ∧ TimedOut k s s') ∨
      (w = 0 ∧ ∀ s ∈ k.sndBuf, s.sn = sn → ∀ s' ∈ (f.stopAt cut).1.sndBuf, s'.sn = sn → ¬ TimedOut k s s')) :
    Spread o sn (calls + 1) (n + w) now (f.stopAt cut).1 := by
  obtain ⟨moved, hp⟩ := passed_flush hi hf cut
  have hset : (f.stopAt cut).1.settings = k.settings := settings_flushed (flush_follows hf rfl) cut
  obtain ⟨hfirst, hstep⟩ := leasts_of_settings hset
  obtain ⟨hcurrent, hu, -⟩ := pace_eq (pace_stopAt hf cut)
  have hone : (1 : UInt32).toNat = 1 := rfl
  -- the segments of the window are timed, those that come in with a count of zero
  have hwindow : ∀ x ∈ k.window moved, x.xmit.toNat ≤ calls ∧
      (x.sn = sn → Timed o k.leastRto k.leastStep n now x) := by
    intro x hx
    rcases List.mem_append.mp hx with hx | hx
    · exact ⟨h.xmits x hx, h.segs x hx⟩
    · obtain ⟨hzero, hle⟩ := hp.fresh x hx
      refine ⟨by rw [hzero]; exact Nat.zero_le _, fun he => Or.inl ⟨hzero, ?_⟩⟩
      by_contra hn
      have hlt := h.below (Nat.pos_of_ne_zero hn)
      rw [he] at hle
      exact absurd hlt (UInt32.not_lt.mpr hle)
  -- what the flush leaves of the segment, and what the count says
  have hseg : ∀ s' ∈ (f.stopAt cut).1.sndBuf, s'.sn = sn →
      spell k.leastRto k.leastStep (n + w) ≤ now ∧ Timed o k.leastRto k.leastStep (n + w) now s' := by
    intro s' hs' he
    obtain ⟨x, hx, hsn, hx'⟩ := hp.back s' hs'
    obtain ⟨hcount, htimed⟩ := hwindow x hx
    have htimed := htimed (hsn.symm.trans he)
    rcases hw with ⟨rfl, s, hs, hssn, s'', hs'', hsn'', hout⟩ | ⟨rfl, hnone⟩
    · -- the segment that timed out is this one
      obtain rfl : s'' = s' := hp.sorted'.eq_of_key_eq hs'' hs' (congrArg UInt32.toNat (hsn''.trans he.symm))
      obtain rfl : s = x := hp.sorted.eq_of_key_eq (List.mem_append_left _ hs) hx
        (congrArg UInt32.toNat (hssn.trans (he.symm.trans hsn)))
      rcases hx' with rfl | hr
      · have hmore : s''.xmit + 0 = s''.xmit + 1 := (UInt32.add_zero _).trans hout.2.2
        exact absurd (UInt32.add_right_inj s''.xmit |>.mp hmore) (by decide)
      · rcases htimed.restamped h.fits h.clock hnow h.spent (by omega) hr with ⟨hno, -⟩ | ⟨-, hres⟩
        · exact absurd hout hno
        · exact hres
    · rcases hx' with rfl | hr
      · exact ⟨h.spent, htimed⟩
      · rcases htimed.restamped h.fits h.clock hnow h.spent (by omega) hr with ⟨-, hres⟩ | ⟨hout, -⟩
        · exact ⟨h.spent, hres⟩
        · have hin := mem_window_of_xmit hx hout.1
          exact absurd hout (hnone x hin (hsn.symm.trans he) s' hs' he)
  refine ⟨h.fits.flush hf cut, by rw [hcurrent]; exact h.clock, ?_, fun hn => ?_, fun s' hs' => ?_,
    fun s' hs' he => ?_, fun hu' => ?_⟩
  · rw [hfirst, hstep]
    rcases hw with ⟨-, s, hs, hssn, s'', hs'', hsn'', -⟩ | ⟨rfl, -⟩
    · exact (hseg s'' hs'' hsn'').1
    · exact h.spent
  · rcases hw with ⟨-, s, hs, hssn, -⟩ | ⟨rfl, -⟩
    · have hlt := (hi.window s.fixed (List.mem_map_of_mem hs)).2
      rw [← hssn]
      exact UInt32.lt_of_lt_of_le hlt hp.nxt
    · exact UInt32.lt_of_lt_of_le (h.below hn) hp.nxt
  · obtain ⟨x, hx, -, hx'⟩ := hp.back s' hs'
    have hcount := (hwindow x hx).1
    rcases hx' with rfl | hr
    · omega
    · have hsucc : (x.xmit + 1).toNat = x.xmit.toNat + 1 := toNat_add_of_lt (by omega)
      cases hr with
      | first | timeout | fast =>
        show (x.xmit + 1).toNat ≤ calls + 1
        omega
      | idle => omega
  · rw [hfirst, hstep]
    exact (hseg s' hs' he).2
  · have hidle : k.updated = false := hu ▸ hu'
    rw [stopAt_of_idle hidle hf cut]
    exact h.idle hidle

theorem counted_iff (hbuf : k.sndBuf = e.kcb.sndBuf) (hclock : k.current = op.clock e.kcb) :
    e.timesOut sn op e' = true ↔
      ∃ s ∈ k.sndBuf, s.sn = sn ∧ ∃ s' ∈ e'.kcb.sndBuf, s'.sn = sn ∧ TimedOut k s s' := by
  rw [timesOut_iff, ← hbuf, ← hclock]
  constructor
  · rintro ⟨s, hs, hsn, hx, hl, s', hs', hsn', hcount⟩
    exact ⟨s, hs, hsn, s', hs', hsn', hx, hl, hcount⟩
  · rintro ⟨s, hs, hsn, s', hs', hsn', hx, hl, hcount⟩
    exact ⟨s, hs, hsn, hx, hl, s', hs', hsn', hcount⟩

/-- **One call.** -/
theorem spread_exec (h : Spread o sn calls n now e.kcb) (hi : SendInv e.kcb.sendSide)
    (hsum : now + e.ticks op < 2 ^ 31) (hcalls : calls + 1 < 2 ^ 32) (hex : e.exec b op = some e') :
    ∃ o, Spread o sn (calls + 1) (n + if e.timesOut sn op e' then 1 else 0) (now + e.ticks op) e'.kcb := by
  have hset := settings_exec hex
  have hone := h.mono (Nat.le_succ calls)
  -- a flush counts what `timesOut` says
  have hflush : ∀ {k : Kcb} {f : Flushing} {cut : Option ℕ} {o : UInt32},
      Spread o sn calls n (now + e.ticks op) k → k.sendSide = e.kcb.sendSide → k.sndBuf = e.kcb.sndBuf →
      k.current = op.clock e.kcb → k.flush b = some f → e'.kcb = (f.stopAt cut).1 →
      ∃ o, Spread o sn (calls + 1) (n + if e.timesOut sn op e' then 1 else 0) (now + e.ticks op) e'.kcb := by
    intro k f cut o hk hside hbuf hclock hf he
    have hcount : e.timesOut sn op e' = true ↔
        ∃ s ∈ k.sndBuf, s.sn = sn ∧ ∃ s' ∈ e'.kcb.sndBuf, s'.sn = sn ∧ TimedOut k s s' := counted_iff hbuf hclock
    rw [he] at hcount ⊢
    refine ⟨o, hk.flush (hside ▸ hi) hsum hcalls hf ?_⟩
    by_cases ht : e.timesOut sn op e' = true
    · rw [if_pos ht]
      exact Or.inl ⟨rfl, hcount.mp ht⟩
    · rw [if_neg ht]
      exact Or.inr ⟨rfl, fun s hs hsn s' hs' hsn' hout => ht (hcount.mpr ⟨s, hs, hsn, s', hs', hsn', hout⟩)⟩
  -- the other calls count nothing
  have hquiet : ∀ {now₁ : ℕ} {o : UInt32}, Spread o sn (calls + 1) n now₁ e'.kcb → now₁ = now + e.ticks op →
      (∀ s' ∈ e'.kcb.sndBuf, ∃ s ∈ e.kcb.sndBuf, Segment.Bumped s s') →
      ∃ o, Spread o sn (calls + 1) (n + if e.timesOut sn op e' then 1 else 0) (now + e.ticks op) e'.kcb := by
    rintro now₁ o hk rfl hbuf
    rw [timesOut_same hi hbuf]
    exact ⟨o, hk⟩
  have hkept : e'.kcb.sndBuf = e.kcb.sndBuf → ∀ s' ∈ e'.kcb.sndBuf, ∃ s ∈ e.kcb.sndBuf, Segment.Bumped s s' :=
    fun hbuf s' hs' => ⟨s', hbuf ▸ hs', .refl s'⟩
  cases ran_of_exec hex with
  | send buf r hs _ =>
    have hpace := pace_exec (fun _ _ => Op.noConfusion) hex
    obtain ⟨queue, e1⟩ := send_eq hs
    have hbuf := hkept ((congrArg Kcb.sndBuf e1).trans rfl)
    have hnxt : e'.kcb.sndNxt = e.kcb.sndNxt := (congrArg Kcb.sndNxt e1).trans rfl
    exact hquiet (hone.same (e1 ▸ hone.fits.of_eq rfl rfl) hset hpace hnxt hbuf) rfl hbuf
  | recv cap r hs _ =>
    have hpace := pace_exec (fun _ _ => Op.noConfusion) hex
    obtain ⟨hnxt, hsnd, hfits⟩ : e'.kcb.sndNxt = e.kcb.sndNxt ∧ e'.kcb.sndBuf = e.kcb.sndBuf ∧ RtoFits e'.kcb := by
      rcases recv_recovers hs with ⟨err, -, e1⟩ | ⟨-, -, k₁, h1, e1⟩ <;> rw [e1]
      · exact ⟨rfl, rfl, h.fits⟩
      · obtain ⟨m, nxt, rfl⟩ := moveData_eq_moved h1
        exact ⟨rfl, rfl, h.fits.of_eq rfl rfl⟩
    exact hquiet (hone.same hfits hset hpace hnxt (hkept hsnd)) rfl (hkept hsnd)
  | input d r hs _ =>
    have hbuf := bumped_input hs
    exact hquiet (hone.same (h.fits.input hs) hset (pace_input hs) (shrinks_input hs).nxt hbuf) rfl hbuf
  | clock now' ts cut e1 _ =>
    obtain ⟨o', ht⟩ := h.tick hsum ts
    exact hquiet (e1 ▸ ht.mono (Nat.le_succ calls)) rfl (hkept ((congrArg Kcb.sndBuf e1).trans rfl))
  | update now' ts cut f hf e1 _ =>
    obtain ⟨o', ht⟩ := h.tick hsum ts
    exact hflush ht rfl rfl rfl hf e1
  | flush cut f hf e1 _ => exact hflush h rfl rfl rfl hf e1

theorem spread_start (sn conv : UInt32) (c : Config) : Spread 0 sn 0 0 0 (Endpoint.start conv c).kcb := by
  obtain ⟨hnow, hbuf⟩ : (Endpoint.start conv c).kcb.current = 0 ∧ (Endpoint.start conv c).kcb.sndBuf = [] := by
    obtain ⟨sndWnd, rcvWnd, nodelay, rxMinrto, interval, fastresend, h⟩ := configured_eq conv c
    rw [Endpoint.start, h]
    exact ⟨rfl, rfl⟩
  refine ⟨rtoFits_start conv c, by rw [hnow, elapsed_self], Nat.le_refl 0,
    fun hn => absurd hn (Nat.lt_irrefl 0), ?_, ?_, fun _ => ⟨hbuf, rfl⟩⟩
  · rw [hbuf]
    exact fun s hs => absurd hs List.not_mem_nil
  · rw [hbuf]
    exact fun s hs => absurd hs List.not_mem_nil

/-- **The timers of a segment over a run.** -/
theorem spread_run {conv : UInt32} {c : Config} {ops : List Op}
    (hr : run (Endpoint.exec b) (Endpoint.start conv c) ops = some e)
    (hticks : ticksOf b (Endpoint.start conv c) ops < 2 ^ 31) (hops : ops.length < 2 ^ 32) (sn : UInt32) :
    ∃ o, Spread o sn ops.length (timeouts b sn (Endpoint.start conv c) ops) (ticksOf b (Endpoint.start conv c) ops)
      e.kcb := by
  refine run_history (s := Endpoint.start conv c) (I := fun ops e =>
    ticksOf b (Endpoint.start conv c) ops < 2 ^ 31 → ops.length < 2 ^ 32 →
      ∃ o, Spread o sn ops.length (timeouts b sn (Endpoint.start conv c) ops)
        (ticksOf b (Endpoint.start conv c) ops) e.kcb) (fun _ _ => ⟨0, spread_start sn conv c⟩) ?_ hr hticks hops
  intro as e op e' hrun ih hex hticks' hlen'
  have ht : ticksOf b (Endpoint.start conv c) (as ++ [op]) = ticksOf b (Endpoint.start conv c) as + e.ticks op :=
    tally_concat hrun hex
  have hn : timeouts b sn (Endpoint.start conv c) (as ++ [op]) =
      timeouts b sn (Endpoint.start conv c) as + if e.timesOut sn op e' then 1 else 0 := tally_concat hrun hex
  rw [List.length_append, List.length_singleton] at hlen' ⊢
  rw [ht] at hticks' ⊢
  rw [hn]
  obtain ⟨o, h⟩ := ih (by omega) (by omega)
  exact spread_exec h (sendInv_run hrun).1 hticks' hlen' hex

/-- **The timeouts of a segment come further and further apart.**  In every run of less than half a lap of the clock,
whatever is received and wherever a flush is abandoned: the `n` timeouts of a segment have taken `n` waits, the first
of `rx_minrto` at least and each longer than the one before, by `rx_minrto`, or by half of it where `nodelay` is on.  So
they are fewer than the `2 ^ 15` for which the deadlines are proved right. -/
theorem timeouts_spaced {conv : UInt32} {c : Config} {ops : List Op}
    (hr : run (Endpoint.exec b) (Endpoint.start conv c) ops = some e)
    (hticks : ticksOf b (Endpoint.start conv c) ops < 2 ^ 31) (hops : ops.length < 2 ^ 32) (sn : UInt32) :
    spell (configured conv c).leastRto (configured conv c).leastStep (timeouts b sn (Endpoint.start conv c) ops) ≤
        ticksOf b (Endpoint.start conv c) ops ∧
      timeouts b sn (Endpoint.start conv c) ops < 2 ^ 15 := by
  obtain ⟨o, h⟩ := spread_run hr hticks hops sn
  have hset : e.kcb.settings = (configured conv c).settings := settings_run hr
  have hfew := timeouts_few h.fits.minrto (leastStep_ge h.fits) h.spent hticks
  have hspent := h.spent
  obtain ⟨hfirst, hstep⟩ := leasts_of_settings hset
  rw [hfirst, hstep] at hspent
  exact ⟨hspent, hfew⟩

end Spread

/-- A segment sent at 100 that nobody answers: it times out at 400 and again at 900, when the first two waits, of 100
and 200 at least, have long gone by. -/
def unheard : List Op := [.send [1], .update 0 none, .update 100 none, .update 400 none, .update 900 none]

theorem timeouts_spaced_unheard :
    ∃ e, run (Endpoint.exec shipped) (Endpoint.start 7 {}) unheard = some e ∧
      timeouts shipped 0 (Endpoint.start 7 {}) unheard = 2 ∧ ticksOf shipped (Endpoint.start 7 {}) unheard = 900 ∧
      spell 100 100 2 ≤ 900 := by
  have h : (run (Endpoint.exec shipped) (Endpoint.start 7 {}) unheard).isSome = true := by decide +kernel
  obtain ⟨e, he⟩ := Option.isSome_iff_exists.mp h
  have hticks : ticksOf shipped (Endpoint.start 7 {}) unheard = 900 := by decide +kernel
  have hn : timeouts shipped 0 (Endpoint.start 7 {}) unheard = 2 := by decide +kernel
  have hleast : (configured 7 {}).leastRto = 100 ∧ (configured 7 {}).leastStep = 100 := by decide +kernel
  obtain ⟨hspent, -⟩ := timeouts_spaced he (by rw [hticks]; decide) (by decide) 0
  rw [hn, hticks, hleast.1, hleast.2] at hspent
  exact ⟨e, he, hn, hticks, hspent⟩

end NetProtocols.Kcp
