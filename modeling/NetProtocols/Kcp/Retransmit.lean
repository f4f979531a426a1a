import NetProtocols.Lib.Elapsed
import NetProtocols.Kcp.Acks
import NetProtocols.Kcp.Emission
import NetProtocols.Kcp.Outbound

/-!
# NetProtocols.Kcp.Retransmit — the timers of the segments in flight

Every segment of `snd_buf` has its own `rto`, which each timeout makes longer, and its own deadline `resendts`.

* `RtoFits`: `rx_rto` stays between `rx_minrto`, which is at least 30 ms, and a minute.
* `Endpoint.timesOut`, `timeouts`: how often a segment timed out in a run.
* `Backed`, `backed_run`: the `rto` of a segment is at least 30 ms, and at most a minute for each of its timeouts and
  one for its first transmission.
* `Restamped.ahead`: after the data loop has passed a segment its deadline is ahead of the clock.
* `Endpoint.HasSent`, `FirstAbandoned`: a segment has been emitted, or the flush that first transmitted it was
  abandoned; `emissions_run`: there is no third.
* `ahead_of_flushed`, `late_of_flushed`, `kept_or_acknowledged`: the parts of `timers_kept`, that no segment in flight
  is left without a timer; `timers_lapse`: what the count of transmissions does not tell.
-/

namespace NetProtocols.Kcp

open Kcb Flushing

/-! ### `rx_rto` -/

/-- `rx_rto` is within the bounds that `update_ack` gives it. -/
structure RtoFits (k : Kcb) : Prop where
  minrto : 30 ≤ k.rxMinrto.toNat
  least : k.rxMinrto.toNat ≤ k.rxRto.toNat
  high : k.rxRto.toNat ≤ 60000

section RtoFits

variable {p : Profile} {b : Build} {k k' : Kcb}

theorem RtoFits.low (hk : RtoFits k) : 30 ≤ k.rxRto.toNat := hk.minrto.trans hk.least

theorem toNat_bound_rto {lower v : UInt32} (h : lower.toNat ≤ 60000) :
    lower.toNat ≤ (bound lower v kcpRtoMax).toNat ∧ (bound lower v kcpRtoMax).toNat ≤ 60000 := by
  have hmax : kcpRtoMax.toNat = 60000 := rfl
  have hle : (max lower v).toNat = max lower.toNat v.toNat := toNat_max lower v
  unfold bound
  rw [UInt32.min_def]
  split_ifs with hc
  · rw [UInt32.le_iff_toNat_le] at hc
    omega
  · omega

theorem RtoFits.updateAck {rtt : UInt32} (hk : RtoFits k) (h : k.updateAck p rtt = some k') : RtoFits k' := by
  have hmin : ∃ (k₁ : Kcb) (rto : UInt32), k₁.rxMinrto = k.rxMinrto ∧
      k' = { k₁ with rxRto := bound k₁.rxMinrto rto kcpRtoMax } := by
    simp only [Kcb.updateAck, Option.bind_eq_bind, Option.bind_eq_some_iff, Option.some.injEq] at h
    obtain ⟨k₁, h1, z, -, rto, -, rfl⟩ := h
    refine ⟨k₁, rto, ?_, rfl⟩
    by_cases h0 : k.rxSrtt = 0
    · rw [if_pos h0] at h1
      obtain rfl := Option.some.inj h1
      rfl
    · rw [if_neg h0] at h1
      simp only [Option.bind_eq_some_iff, Option.some.injEq] at h1
      obtain ⟨delta, -, x, -, x', -, y, -, y', -, rfl⟩ := h1
      rfl
  obtain ⟨k₁, rto, hsame, rfl⟩ := hmin
  have hmax : k₁.rxMinrto.toNat ≤ 60000 := hsame ▸ hk.least.trans hk.high
  obtain ⟨hleast, hhigh⟩ := toNat_bound_rto (v := rto) hmax
  exact ⟨hsame ▸ hk.minrto, hleast, hhigh⟩

theorem RtoFits.of_eq (hk : RtoFits k) (hmin : k'.rxMinrto = k.rxMinrto) (hrto : k'.rxRto = k.rxRto) : RtoFits k' :=
  ⟨hmin ▸ hk.minrto, hmin ▸ hrto ▸ hk.least, hrto ▸ hk.high⟩

theorem RtoFits.taken {s s' : Scan} {h : Header} (ht : Scan.Taken p s h s') (hk : RtoFits s.kcb) : RtoFits s'.kcb := by
  have hhead : RtoFits (s.kcb.onHeader h) := hk.of_eq rfl rfl
  cases ht with
  | @ack k m hc hack =>
    have hmid : RtoFits k := by
      rcases hack with rfl | ⟨rtt, hack⟩
      · exact hhead
      · exact hhead.updateAck hack
    refine hmid.of_eq ?_ ?_
    · unfold Kcb.parseAck
      split_ifs <;> rfl
    · unfold Kcb.parseAck
      split_ifs <;> rfl
  | inside hc hsn hle hdata =>
    rcases parseData_eq_moved hdata with rfl | ⟨l, n, nxt, rfl⟩
    · exact hk.of_eq rfl rfl
    · exact hk.of_eq rfl rfl
  | above | below | wask | other => exact hk.of_eq rfl rfl

theorem RtoFits.input {d : List UInt8} {r : Except IoError ℕ} (hk : RtoFits k) (h : k.input p d = some (r, k')) :
    RtoFits k' := by
  refine input_rule (I := fun s => RtoFits s.kcb) (J := RtoFits) h hk (fun _ hs => hs) ?_ ?_
  · intro s s' hs hst
    obtain ⟨hd, rest, -, -, ht⟩ := Scan.inputStep_ok hst
    exact RtoFits.taken (s := { s with buf := rest }) (Scan.taken_of_takeSegment ht) hs
  · intro s k' hs hf
    obtain ⟨l, c, i, -, rfl⟩ := finishInput_eq hf
    exact hs.of_eq rfl rfl

theorem RtoFits.flush {f : Flushing} (hk : RtoFits k) (hf : k.flush b = some f) (cut : Option ℕ) :
    RtoFits (f.stopAt cut).1 := by
  cases hu : k.updated with
  | false => exact (stopAt_of_idle hu hf cut).symm ▸ hk
  | true =>
    obtain ⟨pr, moved, ht⟩ := flush_trace hu hf
    obtain ⟨hend, hwrites⟩ := ht.trace.invariant (I := RtoFits) hk (fun _ _ hx => hx.of_eq rfl rfl) fun x x' hx hc => by
      cases hc <;> exact hx.of_eq rfl rfl
    exact stopAt_rule hend hwrites cut

theorem minrto_configured (conv : UInt32) (c : Config) :
    (configured conv c).rxMinrto = kcpRtoMin ∨ (configured conv c).rxMinrto = kcpRtoNdl := by
  unfold configured setNodelay wndsize
  split_ifs <;> first | exact Or.inl rfl | exact Or.inr rfl

theorem rtoFits_start (conv : UInt32) (c : Config) : RtoFits (Endpoint.start conv c).kcb := by
  have hset := minrto_configured conv c
  obtain ⟨sndWnd, rcvWnd, nodelay, rxMinrto, interval, fastresend, h⟩ := configured_eq conv c
  rw [h] at hset
  rw [Endpoint.start, h]
  have hmin : rxMinrto = kcpRtoMin ∨ rxMinrto = kcpRtoNdl := hset
  constructor
  · show 30 ≤ rxMinrto.toNat
    rcases hmin with rfl | rfl <;> decide
  · show rxMinrto.toNat ≤ kcpRtoDef.toNat
    rcases hmin with rfl | rfl <;> decide
  · show kcpRtoDef.toNat ≤ 60000
    decide

end RtoFits

/-! ### The timeouts of a segment -/

/-- The clock reading that a call works with. -/
def Op.clock (k : Kcb) : Op → UInt32
  | .update now _ => now
  | _ => k.current

/-- The call counts a transmission of the segment `sn` whose time had come. -/
def Endpoint.timesOut (sn : UInt32) (e : Endpoint) (op : Op) (e' : Endpoint) : Bool :=
  e.kcb.sndBuf.any fun s =>
    decide (s.sn = sn ∧ s.xmit ≠ 0 ∧ 0 ≤ (op.clock e.kcb).toInt32 - s.resendts.toInt32) &&
      e'.kcb.sndBuf.any fun s' => decide (s'.sn = sn ∧ s'.xmit = s.xmit + 1)

/-- The number of timeouts of the segment `sn` in a run. -/
def timeouts (b : Build) (sn : UInt32) (e : Endpoint) (ops : List Op) : ℕ :=
  tally (Endpoint.exec b) (fun e op e' => if e.timesOut sn op e' then 1 else 0) e ops

theorem timeouts_le (b : Build) (sn : UInt32) (e : Endpoint) (ops : List Op) : timeouts b sn e ops ≤ ops.length :=
  tally_le_length (fun e op e' => by split_ifs <;> decide) e ops

theorem timeouts_append {b : Build} {sn : UInt32} {e e' : Endpoint} {ops ops' : List Op}
    (hr : run (Endpoint.exec b) e ops = some e') :
    timeouts b sn e (ops ++ ops') = timeouts b sn e ops + timeouts b sn e' ops' := tally_append hr

/-- The segment `sn`, if it is in `snd_buf`, was given its `rto` by its first transmission and `n` timeouts. -/
structure Backed (sn : UInt32) (n : ℕ) (k : Kcb) : Prop extends RtoFits k where
  segs : ∀ s ∈ k.sndBuf, s.sn = sn → 30 ≤ s.rto.toNat ∧ s.rto.toNat ≤ 60000 * (n + 1)

section Backed

variable {b : Build} {k k' : Kcb} {s s' : Segment} {sn : UInt32} {n : ℕ} {e e' : Endpoint} {op : Op}

theorem Backed.mono (h : Backed sn n k) {m : ℕ} (hm : n ≤ m) : Backed sn m k :=
  ⟨h.toRtoFits, fun s hs he => ⟨(h.segs s hs he).1, (h.segs s hs he).2.trans (by omega)⟩⟩

theorem Backed.of_eq (h : Backed sn n k) (hmin : k'.rxMinrto = k.rxMinrto) (hrto : k'.rxRto = k.rxRto)
    (hbuf : k'.sndBuf = k.sndBuf) : Backed sn n k' :=
  ⟨h.toRtoFits.of_eq hmin hrto, hbuf ▸ h.segs⟩

/-- Segments that come in while the window is filled start from `rx_rto`. -/
theorem Backed.window (h : Backed sn n k) (moved : List Segment) :
    ∀ s ∈ k.window moved, s.sn = sn → 30 ≤ s.rto.toNat ∧ s.rto.toNat ≤ 60000 * (n + 1) := by
  intro s hs he
  rcases List.mem_append.mp hs with hs | hs
  · exact h.segs s hs he
  · obtain ⟨sn', x, rfl⟩ := mem_entered hs
    have hhigh := h.high
    show 30 ≤ k.rxRto.toNat ∧ k.rxRto.toNat ≤ _
    exact ⟨h.low, by omega⟩

/-- A segment that has been transmitted before is not one of those that come in. -/
theorem mem_window_of_xmit {moved : List Segment} (hs : s ∈ k.window moved) (hx : s.xmit ≠ 0) : s ∈ k.sndBuf := by
  rcases List.mem_append.mp hs with hs | hs
  · exact hs
  · obtain ⟨sn', x, rfl⟩ := mem_entered hs
    exact absurd rfl hx

theorem Kcb.Restamped.fixed (h : Restamped k s s') : s'.fixed = s.fixed := by
  cases h <;> rfl

theorem Kcb.Restamped.sn_eq (h : Restamped k s s') : s'.sn = s.sn := congrArg Fixed.sn h.fixed

/-- What a timeout adds to `rto`. -/
theorem RtoFits.increment (h : RtoFits k) : (if k.nodelay = 0 then k.rxRto else k.rxRto / 2).toNat ≤ 60000 := by
  have hhigh := h.high
  split_ifs
  · exact hhigh
  · have hhalf : (k.rxRto / 2).toNat = k.rxRto.toNat / 2 := UInt32.toNat_div _ _
    omega

/-- What a first transmission adds to `rx_rto`. -/
theorem RtoFits.rtomin_le (h : RtoFits k) : k.rtomin.toNat ≤ 60000 := by
  have hhigh := h.high
  unfold rtomin
  split_ifs
  · have hshift : (k.rxRto >>> 3).toNat = k.rxRto.toNat / 8 := by
      rw [UInt32.toNat_shiftRight, Nat.shiftRight_eq_div_pow]
      rfl
    omega
  · exact Nat.zero_le _

/-- The data loop makes the `rto` of a segment longer by a minute at most, and only at a timeout. -/
theorem Kcb.Restamped.rto_le (hk : RtoFits k) (hr : Restamped k s s') (hlow : 30 ≤ s.rto.toNat)
    (hhigh : s.rto.toNat ≤ 60000 * (n + 1)) (hn : n < 2 ^ 15) :
    30 ≤ s'.rto.toNat ∧ s'.rto.toNat ≤ 60000 * (n + 2) ∧
      (s'.rto.toNat ≤ 60000 * (n + 1) ∨ s.xmit ≠ 0 ∧ 0 ≤ k.lateness s ∧ s'.xmit = s.xmit + 1) := by
  have h1 := hk.low
  have h2 := hk.high
  cases hr with
  | first hx =>
    show 30 ≤ k.rxRto.toNat ∧ k.rxRto.toNat ≤ _ ∧ (k.rxRto.toNat ≤ _ ∨ _)
    exact ⟨h1, by omega, Or.inl (by omega)⟩
  | timeout hx hl rto hrto =>
    have hinc := hk.increment
    generalize (if k.nodelay = 0 then k.rxRto else k.rxRto / 2) = i at hinc hrto
    have hsum : rto.toNat = s.rto.toNat + i.toNat := by
      rw [hrto]
      exact toNat_add_of_lt (by omega)
    show 30 ≤ rto.toNat ∧ rto.toNat ≤ _ ∧ (rto.toNat ≤ _ ∨ _)
    exact ⟨by omega, by omega, Or.inr ⟨hx, hl, rfl⟩⟩
  | fast | idle =>
    show 30 ≤ s.rto.toNat ∧ s.rto.toNat ≤ _ ∧ (s.rto.toNat ≤ _ ∨ _)
    exact ⟨hlow, by omega, Or.inl hhigh⟩

/-- A flush, complete or abandoned, that counts `w` timeouts of the segment. -/
theorem Backed.flush {f : Flushing} {cut : Option ℕ} {w : ℕ} (h : Backed sn n k) (hf : k.flush b = some f)
    (hn : n + w < 2 ^ 15)
    (hw : ∀ s ∈ k.sndBuf, ∀ s' ∈ (f.stopAt cut).1.sndBuf, s.sn = sn → s'.sn = sn → s.xmit ≠ 0 → 0 ≤ k.lateness s →
      s'.xmit = s.xmit + 1 → w = 1) : Backed sn (n + w) (f.stopAt cut).1 := by
  obtain ⟨moved, done, rest, hwin, hbuf⟩ := stopAt_sndBuf hf cut
  have hwindow := h.window moved
  refine ⟨h.toRtoFits.flush hf cut, fun s' hs' he => ?_⟩
  have hmem := hs'
  rw [hbuf] at hmem
  rcases List.mem_append.mp hmem with hmem | hmem
  · obtain ⟨s, hs, rfl⟩ := List.mem_map.mp hmem
    have hr := restamped k s
    have hin : s ∈ k.window moved := hwin ▸ List.mem_append_left _ hs
    have hsn : s.sn = sn := hr.sn_eq.symm.trans he
    obtain ⟨hlow, hhigh⟩ := hwindow s hin hsn
    obtain ⟨h1, h2, h3⟩ := hr.rto_le h.toRtoFits hlow hhigh (by omega)
    rcases h3 with h3 | ⟨hx, hl, hcount⟩
    · exact ⟨h1, by omega⟩
    · have hone := hw s (mem_window_of_xmit hin hx) _ hs' hsn he hx hl hcount
      exact ⟨h1, by omega⟩
  · have hin : s' ∈ k.window moved := hwin ▸ List.mem_append_right _ hmem
    obtain ⟨hlow, hhigh⟩ := hwindow s' hin he
    exact ⟨hlow, by omega⟩

theorem timesOut_iff : e.timesOut sn op e' = true ↔ ∃ s ∈ e.kcb.sndBuf, s.sn = sn ∧ s.xmit ≠ 0 ∧
    0 ≤ (op.clock e.kcb).toInt32 - s.resendts.toInt32 ∧ ∃ s' ∈ e'.kcb.sndBuf, s'.sn = sn ∧ s'.xmit = s.xmit + 1 := by
  simp only [Endpoint.timesOut, List.any_eq_true, Bool.and_eq_true, decide_eq_true_eq]
  constructor
  · rintro ⟨s, hs, ⟨h1, h2, h3⟩, h4⟩
    exact ⟨s, hs, h1, h2, h3, h4⟩
  · rintro ⟨s, hs, h1, h2, h3, h4⟩
    exact ⟨s, hs, ⟨h1, h2, h3⟩, h4⟩

theorem Backed.exec (h : Backed sn n e.kcb) (hex : e.exec b op = some e')
    (hn : n + (if e.timesOut sn op e' then 1 else 0) < 2 ^ 15) :
    Backed sn (n + if e.timesOut sn op e' then 1 else 0) e'.kcb := by
  have hle : n ≤ n + if e.timesOut sn op e' then 1 else 0 := Nat.le_add_right _ _
  have hout : ∀ {k : Kcb}, k.sndBuf = e.kcb.sndBuf → k.current = op.clock e.kcb →
      ∀ s ∈ k.sndBuf, ∀ s' ∈ e'.kcb.sndBuf, s.sn = sn → s'.sn = sn → s.xmit ≠ 0 → 0 ≤ k.lateness s →
        s'.xmit = s.xmit + 1 → (if e.timesOut sn op e' then 1 else 0) = 1 := by
    intro k hbuf hclock s hs s' hs' h1 h2 h3 h4 h5
    rw [lateness, hclock] at h4
    exact if_pos (timesOut_iff.mpr ⟨s, hbuf ▸ hs, h1, h3, h4, s', hs', h2, h5⟩)
  cases ran_of_exec hex with
  | send buf r hs _ =>
    obtain ⟨queue, e1⟩ := send_eq hs
    rw [e1]
    exact (h.mono hle).of_eq rfl rfl rfl
  | recv cap r hs _ =>
    rcases recv_recovers hs with ⟨err, -, e1⟩ | ⟨-, -, k₁, h1, e1⟩ <;> rw [e1]
    · exact h.mono hle
    · obtain ⟨m, nxt, rfl⟩ := moveData_eq_moved h1
      exact (h.mono hle).of_eq rfl rfl rfl
  | input d r hs _ =>
    refine ⟨h.toRtoFits.input hs, fun s' hs' he => ?_⟩
    obtain ⟨s, hmem, fastack, rfl, -⟩ := bumped_input hs s' hs'
    exact (h.mono hle).segs s hmem he
  | clock now ts cut e1 _ =>
    rw [e1]
    exact (h.mono hle).of_eq rfl rfl rfl
  | update now ts cut f hf e1 _ =>
    have hk : Backed sn n (e.kcb.clocked now ts) := h.of_eq rfl rfl rfl
    rw [e1] at hout ⊢
    exact hk.flush hf hn (hout rfl rfl)
  | flush cut f hf e1 _ =>
    rw [e1] at hout ⊢
    exact h.flush hf hn (hout rfl rfl)

/-- **In every reachable state `rto` is bounded by the timeouts of the segment.** -/
theorem backed_run {conv : UInt32} {c : Config} {ops : List Op}
    (hr : run (Endpoint.exec b) (Endpoint.start conv c) ops = some e)
    (hn : timeouts b sn (Endpoint.start conv c) ops < 2 ^ 15) :
    Backed sn (timeouts b sn (Endpoint.start conv c) ops) e.kcb := by
  have hstart : Backed sn 0 (Endpoint.start conv c).kcb := by
    refine ⟨rtoFits_start conv c, ?_⟩
    obtain ⟨sndWnd, rcvWnd, nodelay, rxMinrto, interval, fastresend, h⟩ := configured_eq conv c
    rw [Endpoint.start, h]
    exact fun s hs => absurd hs List.not_mem_nil
  have hall := run_tally (w := fun e op e' => if e.timesOut sn op e' then 1 else 0)
    (I := fun n e => n < 2 ^ 15 → Backed sn n e.kcb) (fun n e op e' h hex hlt => (h (by omega)).exec hex hlt) hr
    (n := 0) fun _ => hstart
  rw [Nat.zero_add] at hall
  exact hall hn

end Backed

/-! ### The deadlines -/

theorem ahead_of_lt (c d : UInt32) (h0 : 0 < d.toNat) (h1 : d.toNat < 2 ^ 31) :
    c.toInt32 - (c + d).toInt32 < 0 := by
  have hzero : elapsed c c = 0 := elapsed_self c
  have hd : elapsed c (c + d) = d.toNat := by
    rw [elapsed_add (by omega), hzero, Nat.zero_add]
  have hdiff : (c.toInt32 - (c + d).toInt32).toInt = (elapsed c c : ℤ) - elapsed c (c + d) :=
    toInt_diff (by omega) (by omega)
  rw [Int32.lt_iff_toInt_lt, hdiff]
  show _ < 0
  omega

/-- **After the data loop has passed a segment its deadline is ahead of the clock.** -/
theorem Kcb.Restamped.ahead {k : Kcb} {s s' : Segment} (hk : RtoFits k) (h : Restamped k s s')
    (hlow : 30 ≤ s.rto.toNat) (hrto : s'.rto.toNat < 2 ^ 31) (hlow' : 30 ≤ s'.rto.toNat) : k.lateness s' < 0 := by
  cases h with
  | first hx =>
    have hmin := hk.rtomin_le
    have h1 := hk.low
    have h2 := hk.high
    have hsum : (k.rxRto + k.rtomin).toNat = k.rxRto.toNat + k.rtomin.toNat := toNat_add_of_lt (by omega)
    show k.current.toInt32 - (k.current + k.rxRto + k.rtomin).toInt32 < 0
    rw [UInt32.add_assoc]
    exact ahead_of_lt _ _ (by omega) (by omega)
  | timeout hx hl rto hrto' =>
    have h1 : 30 ≤ rto.toNat := hlow'
    have h2 : rto.toNat < 2 ^ 31 := hrto
    exact ahead_of_lt _ _ (by omega) (by omega)
  | fast =>
    have h2 : s.rto.toNat < 2 ^ 31 := hrto
    exact ahead_of_lt _ _ (by omega) (by omega)
  | idle hx hl => exact Int32.not_le.mp hl

/-! ### What has been emitted -/

/-- The segment is among those encoded so far, with some window, time and acknowledgement. -/
def Endpoint.HasSent (e : Endpoint) (s : Segment) : Prop :=
  ∃ segs, e.output = encodes segs ∧ ∃ x ∈ segs, x.fixed = s.fixed

/-- The flush of the run that counted the first transmission of the segment was abandoned at a pending write. -/
def FirstAbandoned (b : Build) (e₀ : Endpoint) (ops : List Op) (x : Fixed) : Prop :=
  ∃ pre op post e e', ops = pre ++ op :: post ∧ ¬ op.Completed ∧ run (Endpoint.exec b) e₀ pre = some e ∧
    e.exec b op = some e' ∧ (∀ s ∈ e.kcb.sndBuf, s.fixed = x → s.xmit = 0) ∧
    ∃ s ∈ e'.kcb.sndBuf, s.fixed = x ∧ s.xmit ≠ 0

/-- Whole segments were encoded, and among them is what counts as transmitted, unless its first flush was abandoned. -/
structure Emissions (b : Build) (e₀ : Endpoint) (ops : List Op) (e : Endpoint) : Prop where
  whole : ∃ segs, e.output = encodes segs
  sent : ∀ s ∈ e.kcb.sndBuf, s.xmit ≠ 0 → e.HasSent s ∨ FirstAbandoned b e₀ ops s.fixed

section Sent

variable {b : Build} {k : Kcb} {s s' : Segment} {f : Flushing} {e₀ e e' : Endpoint} {op : Op} {ops : List Op}
  {x : Fixed}

theorem Endpoint.HasSent.exec (h : e.HasSent s) (hex : e.exec b op = some e') : e'.HasSent s := by
  obtain ⟨segs, hout, x, hx, hfix⟩ := h
  obtain ⟨new, hnew, -⟩ := encodes_exec hout hex
  exact ⟨segs ++ new, hnew, x, List.mem_append_left _ hx, hfix⟩

theorem Endpoint.HasSent.of_fixed (h : e.HasSent s) (hs : s.fixed = s'.fixed) : e.HasSent s' := by
  obtain ⟨segs, hout, x, hx, hfix⟩ := h
  exact ⟨segs, hout, x, hx, hfix.trans hs⟩

theorem encode_isInfix {segs : List Segment} (h : s ∈ segs) : s.encode <:+: encodes segs := by
  obtain ⟨l, r, rfl⟩ := List.append_of_mem h
  exact ⟨encodes l, encodes r, by rw [encodes_append, encodes_cons, List.append_assoc]⟩

theorem FirstAbandoned.concat (h : FirstAbandoned b e₀ ops x) (op : Op) : FirstAbandoned b e₀ (ops ++ [op]) x := by
  obtain ⟨pre, o, post, e, e', rfl, hrest⟩ := h
  exact ⟨pre, o, post ++ [op], e, e', by simp, hrest⟩

/-- A segment that the data loop has passed was sent, or stays as it is and was transmitted before. -/
theorem Kcb.Restamped.sent (h : Restamped k s s') : k.sends s = true ∨ s' = s ∧ s.xmit ≠ 0 := by
  cases h with
  | first hx => exact Or.inl (by simp [sends, hx])
  | timeout hx hl => exact Or.inl (by simp [sends, hl])
  | fast hx hl hf => exact Or.inl (by simp [sends, hf])
  | idle hx => exact Or.inr ⟨rfl, hx⟩

/-- A completed flush encodes what it leaves in `snd_buf`, or left as it was, and all that is late. -/
theorem outgoing_sndBuf (hu : k.updated = true) (hf : k.flush b = some f) :
    ∃ segs, k.outgoing b.profile = some segs ∧
      (∀ s ∈ f.kcb.sndBuf, s ∈ segs ∨ s ∈ k.sndBuf ∧ s.xmit ≠ 0) ∧
      ∀ s ∈ k.sndBuf, 0 ≤ k.lateness s → k.restamp s ∈ segs := by
  obtain ⟨pr, moved, ht⟩ := flush_trace hu hf
  have hin : ∀ s ∈ k.window moved, k.sends s = true →
      k.restamp s ∈ k.controls pr ++ ((k.window moved).filter k.sends).map k.restamp := fun s hs h =>
    List.mem_append_right _ (List.mem_map_of_mem (List.mem_filter.mpr ⟨hs, h⟩))
  refine ⟨_, ht.outgoing, ?_, fun s hs hl => hin s (List.mem_append_left _ hs) (by simp [sends, hl])⟩
  intro s' hs'
  rw [ht.sndBuf] at hs'
  obtain ⟨s, hs, rfl⟩ := List.mem_map.mp hs'
  rcases (restamped k s).sent with hsend | ⟨hsame, hx⟩
  · exact Or.inl (hin s hs hsend)
  · rw [hsame]
    exact Or.inr ⟨mem_window_of_xmit hs hx, hx⟩

theorem flushes_sndBuf {p : Profile} (hk : op.flushes p e.kcb = some k) : k.sndBuf = e.kcb.sndBuf := by
  rcases (flushes_eq hk).2 with rfl | ⟨now, ts, rfl⟩ <;> rfl

theorem outgoing_of_flushed (hop : op.Completed) (hk : op.flushes b.profile e.kcb = some k)
    (hex : e.exec b op = some e') :
    (∀ s ∈ e'.kcb.sndBuf, s ∈ op.outgoing b.profile e.kcb ∨ s ∈ e.kcb.sndBuf ∧ s.xmit ≠ 0) ∧
      ∀ s ∈ e.kcb.sndBuf, 0 ≤ k.lateness s → k.restamp s ∈ op.outgoing b.profile e.kcb := by
  obtain ⟨f, hf, rfl⟩ := exec_of_flushes hop hk hex
  obtain ⟨segs, ho, hall, hlate⟩ := outgoing_sndBuf (flushes_eq hk).1 hf
  have hsegs : op.outgoing b.profile e.kcb = segs := by rw [Op.outgoing, hk, Option.bind_some, ho, Option.getD_some]
  rw [hsegs, ← flushes_sndBuf hk]
  exact ⟨hall, hlate⟩

/-- What counts as transmitted after a call that abandons no flush is sent by the call, or counted before it. -/
theorem sent_or_counted (hop : op.Completed) (hex : e.exec b op = some e') (hs : s ∈ e'.kcb.sndBuf) (hx : s.xmit ≠ 0) :
    s ∈ op.outgoing b.profile e.kcb ∨ ∃ x ∈ e.kcb.sndBuf, x.fixed = s.fixed ∧ x.xmit ≠ 0 := by
  have hflush : ∀ {k : Kcb}, op.flushes b.profile e.kcb = some k →
      s ∈ op.outgoing b.profile e.kcb ∨ ∃ x ∈ e.kcb.sndBuf, x.fixed = s.fixed ∧ x.xmit ≠ 0 := fun hk =>
    ((outgoing_of_flushed hop hk hex).1 s hs).imp_right fun h => ⟨s, h.1, rfl, hx⟩
  cases called_of_exec hop hex with
  | send buf r h =>
    obtain ⟨queue, e1⟩ := send_eq h
    rw [e1] at hs
    exact Or.inr ⟨s, hs, rfl, hx⟩
  | recv cap r h =>
    rcases recv_recovers h with ⟨err, -, e1⟩ | ⟨-, -, k₁, h1, e1⟩ <;> rw [e1] at hs
    · exact Or.inr ⟨s, hs, rfl, hx⟩
    · obtain ⟨m, nxt, rfl⟩ := moveData_eq_moved h1
      exact Or.inr ⟨s, hs, rfl, hx⟩
  | input d r h =>
    obtain ⟨x, hmem, fastack, rfl, -⟩ := bumped_input h s hs
    exact Or.inr ⟨x, hmem, rfl, hx⟩
  | idle hu h | clock now ts _ h =>
    rw [h] at hs
    exact Or.inr ⟨s, hs, rfl, hx⟩
  | update now ts f hk => exact hflush hk
  | flush f hu => exact hflush (if_pos hu)

theorem Emissions.exec (h : Emissions b e₀ ops e) (hr : run (Endpoint.exec b) e₀ ops = some e)
    (hex : e.exec b op = some e') : Emissions b e₀ (ops ++ [op]) e' := by
  obtain ⟨segs, hout⟩ := h.whole
  obtain ⟨new, hgrow, hall⟩ := encodes_exec hout hex
  refine ⟨⟨_, hgrow⟩, fun s hs hx => ?_⟩
  by_cases hcounted : ∃ y ∈ e.kcb.sndBuf, y.fixed = s.fixed ∧ y.xmit ≠ 0
  · obtain ⟨y, hy, hfix, hy0⟩ := hcounted
    rcases h.sent y hy hy0 with hsent | habandoned
    · exact Or.inl ((hsent.exec hex).of_fixed hfix)
    · exact Or.inr (hfix ▸ habandoned.concat op)
  · -- the call itself counts the first transmission
    by_cases hop : op.Completed
    · rcases sent_or_counted hop hex hs hx with hin | hold
      · exact Or.inl ⟨_, hgrow, s, List.mem_append_right _ (hall hop ▸ hin), rfl⟩
      · exact absurd hold hcounted
    · refine Or.inr ⟨ops, op, [], e, e', rfl, hop, hr, hex, fun y hy hfix => ?_, s, hs, rfl, hx⟩
      by_contra hy0
      exact hcounted ⟨y, hy, hfix, hy0⟩

/-- **In every reachable state** what counts as transmitted has been emitted, unless its first flush was abandoned. -/
theorem emissions_run {conv : UInt32} {c : Config} (hr : run (Endpoint.exec b) (Endpoint.start conv c) ops = some e) :
    Emissions b (Endpoint.start conv c) ops e := by
  refine run_history (s := Endpoint.start conv c) (I := Emissions b (Endpoint.start conv c)) ?_
    (fun as e op e' hr h hex => h.exec hr hex) hr
  refine ⟨⟨[], output_start conv c⟩, ?_⟩
  obtain ⟨sndWnd, rcvWnd, nodelay, rxMinrto, interval, fastresend, h⟩ := configured_eq conv c
  rw [Endpoint.start, h]
  exact fun s hs => absurd hs List.not_mem_nil

end Sent

/-! ### Every segment in flight has a timer -/

/-- A transmission is counted; the count is zero afterwards only if it has come round. -/
theorem Kcb.Restamped.xmit {k : Kcb} {s s' : Segment} (h : Restamped k s s') :
    1 ≤ s'.xmit ∨ s.xmit = UInt32.ofNat (2 ^ 32 - 1) := by
  have hsucc : ∀ x : UInt32, 1 ≤ x + 1 ∨ x = UInt32.ofNat (2 ^ 32 - 1) := by
    intro x
    by_cases hx : x = UInt32.ofNat (2 ^ 32 - 1)
    · exact Or.inr hx
    · left
      have hmax : (UInt32.ofNat (2 ^ 32 - 1)).toNat = 2 ^ 32 - 1 := rfl
      have hone : (1 : UInt32).toNat = 1 := rfl
      have hne : x.toNat ≠ 2 ^ 32 - 1 := fun h => hx (UInt32.toNat_inj.mp (h.trans hmax.symm))
      have hlt := x.toNat_lt
      rw [UInt32.le_iff_toNat_le, toNat_add_of_lt (by omega)]
      omega
  have hpos : s.xmit ≠ 0 → 1 ≤ s.xmit := by
    intro hx
    have hone : (1 : UInt32).toNat = 1 := rfl
    have hne : s.xmit.toNat ≠ 0 := fun h => hx (UInt32.toNat_inj.mp h)
    rw [UInt32.le_iff_toNat_le]
    omega
  cases h with
  | first | timeout | fast => exact hsucc s.xmit
  | idle hx => exact Or.inl (hpos hx)

section Flushed

variable {b : Build} {conv : UInt32} {c : Config} {ops : List Op} {e e' : Endpoint} {op : Op} {k : Kcb} {s : Segment}

theorem Traced.current {f : Flushing} {pr : UInt32} {moved : List Segment} (ht : Traced b k f pr moved) :
    f.kcb.current = k.current :=
  (ht.trace.invariant (I := fun x => x.current = k.current) rfl (fun _ _ hx => hx) fun x x' hx hc => by
    cases hc <;> exact hx).1

theorem restamped_of_flushed (hop : op.Completed) (hk : op.flushes b.profile e.kcb = some k)
    (hex : e.exec b op = some e') (hs : s ∈ e'.kcb.sndBuf) :
    e'.kcb.current = k.current ∧ ∃ moved, ∃ x ∈ k.window moved, Restamped k x s := by
  obtain ⟨f, hf, rfl⟩ := exec_of_flushes hop hk hex
  obtain ⟨pr, moved, ht⟩ := flush_trace (flushes_eq hk).1 hf
  have hs' : s ∈ (k.window moved).map k.restamp := ht.sndBuf ▸ hs
  obtain ⟨x, hx, rfl⟩ := List.mem_map.mp hs'
  exact ⟨ht.current, moved, x, hx, restamped k x⟩

/-- **A completed flush leaves the deadlines ahead of the clock.** -/
theorem ahead_of_flushed (hr : run (Endpoint.exec b) (Endpoint.start conv c) ops = some e) (hop : op.Completed)
    (hk : op.flushes b.profile e.kcb = some k) (hex : e.exec b op = some e') (hs : s ∈ e'.kcb.sndBuf)
    (hn : timeouts b s.sn (Endpoint.start conv c) (ops ++ [op]) < 2 ^ 15) :
    30 ≤ s.rto ∧ e'.kcb.current.toInt32 - s.resendts.toInt32 < 0 := by
  obtain ⟨hnow, moved, x, hx, hstamp⟩ := restamped_of_flushed hop hk hex hs
  -- before the flush there were no more timeouts than now
  have hbefore : timeouts b s.sn (Endpoint.start conv c) ops < 2 ^ 15 :=
    lt_of_le_of_lt (Nat.le_add_right _ _) (lt_of_eq_of_lt (timeouts_append hr).symm hn)
  have hbacked : Backed s.sn (timeouts b s.sn (Endpoint.start conv c) ops) k := by
    rcases (flushes_eq hk).2 with rfl | ⟨now, ts, rfl⟩
    · exact backed_run hr hbefore
    · exact (backed_run hr hbefore).of_eq rfl rfl rfl
  have hrun : run (Endpoint.exec b) (Endpoint.start conv c) (ops ++ [op]) = some e' :=
    run_append.mpr ⟨e, hr, run_cons.mpr ⟨_, hex, rfl⟩⟩
  obtain ⟨hlow, hhigh⟩ := (backed_run hrun hn).segs s hs rfl
  have hlow₀ := (hbacked.window moved x hx hstamp.sn_eq.symm).1
  refine ⟨UInt32.le_iff_toNat_le.mpr hlow, ?_⟩
  rw [hnow]
  exact hstamp.ahead hbacked.toRtoFits hlow₀ (by omega) hlow

theorem transmitted_of_flushed (hop : op.Completed) (hk : op.flushes b.profile e.kcb = some k)
    (hex : e.exec b op = some e') (hs : s ∈ e'.kcb.sndBuf) :
    1 ≤ s.xmit ∨ ∃ x ∈ e.kcb.sndBuf, x.sn = s.sn ∧ x.xmit = UInt32.ofNat (2 ^ 32 - 1) := by
  obtain ⟨-, moved, x, hx, hstamp⟩ := restamped_of_flushed hop hk hex hs
  rcases hstamp.xmit with hle | hmax
  · exact Or.inl hle
  · have hne : x.xmit ≠ 0 := by
      rw [hmax]
      decide
    exact Or.inr ⟨x, flushes_sndBuf hk ▸ mem_window_of_xmit hx hne, hstamp.sn_eq.symm, hmax⟩

theorem sent_of_flushed (hr : run (Endpoint.exec b) (Endpoint.start conv c) ops = some e) (hop : op.Completed)
    (hk : op.flushes b.profile e.kcb = some k) (hex : e.exec b op = some e') (hs : s ∈ e'.kcb.sndBuf) :
    e'.HasSent s ∨ FirstAbandoned b (Endpoint.start conv c) ops s.fixed := by
  have hbefore := emissions_run hr
  rcases (outgoing_of_flushed hop hk hex).1 s hs with hin | ⟨hold, hx⟩
  · left
    obtain ⟨segs, hout⟩ := hbefore.whole
    obtain ⟨new, hnew, hall⟩ := encodes_exec hout hex
    exact ⟨segs ++ new, hnew, s, List.mem_append_right _ (hall hop ▸ hin), rfl⟩
  · exact (hbefore.sent s hold hx).imp_left fun h => h.exec hex

theorem late_of_flushed (hop : op.Completed) (hk : op.flushes b.profile e.kcb = some k)
    (hex : e.exec b op = some e') :
    ∃ segs, e'.output = e.output ++ encodes segs ∧
      ∀ s ∈ e.kcb.sndBuf, 0 ≤ k.current.toInt32 - s.resendts.toInt32 → k.restamp s ∈ segs := by
  obtain ⟨segs, hout, hall⟩ := output_exec hex
  exact ⟨segs, hout, hall hop ▸ (outgoing_of_flushed hop hk hex).2⟩

theorem stopAt_keeps {f : Flushing} (hf : k.flush b = some f) (cut : Option ℕ) (hs : s ∈ k.sndBuf) :
    ∃ s' ∈ (f.stopAt cut).1.sndBuf, s'.fixed = s.fixed := by
  obtain ⟨moved, done, rest, hwin, hbuf⟩ := stopAt_sndBuf hf cut
  have hin : s ∈ done ++ rest := hwin ▸ List.mem_append_left _ hs
  rw [hbuf]
  rcases List.mem_append.mp hin with hin | hin
  · exact ⟨_, List.mem_append_left _ (List.mem_map_of_mem hin), (restamped k s).fixed⟩
  · exact ⟨s, List.mem_append_right _ hin, rfl⟩

/-- **A call keeps a segment of `snd_buf`, or acknowledges it.** -/
theorem kept_or_acknowledged (hi : SendInv e.kcb.sendSide) (hex : e.exec b op = some e') (hs : s ∈ e.kcb.sndBuf) :
    (∃ s' ∈ e'.kcb.sndBuf, s'.fixed = s.fixed) ∨
      ∃ d ev, op = .input d ∧ AckEvent.In ev d ∧ ev.spares s.sn = false := by
  cases ran_of_exec hex with
  | send buf r hsend _ =>
    obtain ⟨queue, e1⟩ := send_eq hsend
    rw [e1]
    exact Or.inl ⟨s, hs, rfl⟩
  | recv cap r hrecv _ =>
    left
    rcases recv_recovers hrecv with ⟨err, -, e1⟩ | ⟨-, -, k₁, h1, e1⟩ <;> rw [e1]
    · exact ⟨s, hs, rfl⟩
    · obtain ⟨m, nxt, rfl⟩ := moveData_eq_moved h1
      exact ⟨s, hs, rfl⟩
  | input d r hin _ =>
    rcases leaves_acknowledged hi hin hs with ⟨s', hs', fastack, rfl, -⟩ | ⟨ev, hev, hno⟩
    · exact Or.inl ⟨_, hs', rfl⟩
    · exact Or.inr ⟨d, ev, rfl, hev, hno⟩
  | clock now ts cut e1 _ =>
    rw [e1]
    exact Or.inl ⟨s, hs, rfl⟩
  | update now ts cut f hf e1 _ =>
    rw [e1]
    exact Or.inl (stopAt_keeps (k := e.kcb.clocked now ts) hf cut hs)
  | flush cut f hf e1 _ =>
    rw [e1]
    exact Or.inl (stopAt_keeps hf cut hs)

end Flushed

/-- **No segment in flight is left without a timer.**  In every reachable state: after a completed flush every segment
of `snd_buf` that has timed out fewer than `2 ^ 15` times has an `rto` of 30 ms or more and a deadline ahead of the
clock, a count of transmissions that is not zero, unless it has come round, and it has been emitted, unless the flush
that first transmitted it was abandoned.  Such a flush emits every segment whose deadline is not ahead.  And a segment
that a call takes away was acknowledged by that call. -/
theorem timers_kept {b : Build} {conv : UInt32} {c : Config} {ops : List Op} {e : Endpoint}
    (hr : run (Endpoint.exec b) (Endpoint.start conv c) ops = some e) :
    (∀ op k e', op.Completed → op.flushes b.profile e.kcb = some k → e.exec b op = some e' →
      (∀ s ∈ e'.kcb.sndBuf,
        (timeouts b s.sn (Endpoint.start conv c) (ops ++ [op]) < 2 ^ 15 →
          30 ≤ s.rto ∧ e'.kcb.current.toInt32 - s.resendts.toInt32 < 0) ∧
        (1 ≤ s.xmit ∨ ∃ x ∈ e.kcb.sndBuf, x.sn = s.sn ∧ x.xmit = UInt32.ofNat (2 ^ 32 - 1)) ∧
        (e'.HasSent s ∨ FirstAbandoned b (Endpoint.start conv c) ops s.fixed)) ∧
      ∃ segs, e'.output = e.output ++ encodes segs ∧
        ∀ s ∈ e.kcb.sndBuf, 0 ≤ k.current.toInt32 - s.resendts.toInt32 → k.restamp s ∈ segs) ∧
    ∀ op e', e.exec b op = some e' → ∀ s ∈ e.kcb.sndBuf,
      (∃ s' ∈ e'.kcb.sndBuf, s'.fixed = s.fixed) ∨
        ∃ d ev, op = .input d ∧ AckEvent.In ev d ∧ ev.spares s.sn = false := by
  refine ⟨fun op k e' hop hk hex => ⟨fun s hs => ⟨?_, ?_, ?_⟩, late_of_flushed hop hk hex⟩, fun op e' hex s hs => ?_⟩
  · exact ahead_of_flushed hr hop hk hex hs
  · exact transmitted_of_flushed hop hk hex hs
  · exact sent_of_flushed hr hop hk hex hs
  · exact kept_or_acknowledged (sendInv_run hr).1 hex hs

/-- A segment that times out: sent at 100, its deadline is at 325. -/
theorem timers_kept_late :
    ∃ e e' segs, run (Endpoint.exec shipped) (Endpoint.start 7 {}) [.send [1], .update 0 none, .update 100 none] =
        some e ∧ e.exec shipped (.update 400 none) = some e' ∧
      (∀ s ∈ e'.kcb.sndBuf, 30 ≤ s.rto ∧ e'.kcb.current.toInt32 - s.resendts.toInt32 < 0) ∧
      e'.output = e.output ++ encodes segs ∧ segs ≠ [] := by
  have hrun : ((run (Endpoint.exec shipped) (Endpoint.start 7 {})
      [.send [1], .update 0 none, .update 100 none]).bind fun e =>
        ((Op.update 400 none).flushes .release e.kcb).bind fun k => (e.exec shipped (.update 400 none)).map fun _ =>
          e.kcb.sndBuf.any fun s => decide (0 ≤ k.current.toInt32 - s.resendts.toInt32)) = some true := by
    decide +kernel
  obtain ⟨e, he, h⟩ := Option.bind_eq_some_iff.mp hrun
  obtain ⟨k, hk, h⟩ := Option.bind_eq_some_iff.mp h
  obtain ⟨e', hex, hlate⟩ := Option.map_eq_some_iff.mp h
  obtain ⟨s, hs, hl⟩ := List.any_eq_true.mp hlate
  obtain ⟨htimers, segs, hout, hsent⟩ := (timers_kept he).1 (.update 400 none) k e' rfl hk hex
  refine ⟨e, e', segs, he, hex, fun s hs => (htimers s hs).1 ?_, hout, ?_⟩
  · exact lt_of_le_of_lt (timeouts_le _ _ _ _) (by decide)
  · exact List.ne_nil_of_mem (hsent s hs (of_decide_eq_true hl))

/-! ### Where the timers say less

Every further acknowledgement of a later segment that is gone already counts up `fastack`; with `resend` 1 each flush
then transmits the segment again, and `xmit` comes round. -/

/-- The acknowledgement of the second segment, with an echo from which no round trip is taken. -/
def laterAck : List UInt8 := encodes [{ conv := 7, cmd := kcpCmdAck, wnd := 128, ts := 1, sn := 1 }]

/-- The control block with the first of two segments in flight. -/
def Kcb.unanswered (k : Kcb) (s : Segment) (fastack xmit : UInt32) : Kcb :=
  { k with
    conv := 7
    sndUna := 0
    sndNxt := 2
    current := 0
    sndBuf := [{ s with sn := 0, resendts := 200, rto := 200, fastack := fastack, xmit := xmit }] }

/-- The first of two segments is in flight, and fast retransmission is on. -/
structure Unanswered (fastack xmit : UInt32) (k : Kcb) : Prop where
  shape : ∃ k₁ s, k = Kcb.unanswered k₁ s fastack xmit
  updated : k.updated = true
  fastresend : k.fastresend = 1
  sndQueue : k.sndQueue = []

section Unanswered

variable {k : Kcb} {f : Flushing} {fastack xmit : UInt32} {e e' : Endpoint}

theorem unanswered_of {s : Segment} (h1 : k.conv = 7) (h2 : k.sndUna = 0) (h3 : k.sndNxt = 2) (h4 : k.current = 0)
    (h5 : k.sndBuf = [{ s with sn := 0, resendts := 200, rto := 200, fastack := fastack, xmit := xmit }]) :
    k = k.unanswered s fastack xmit := by
  rw [unanswered, ← h1, ← h5]
  cases k
  dsimp only at h2 h3 h4
  rw [h2, h3, h4]

theorem input_unanswered (h : Unanswered 0 xmit k) :
    ∃ k', k.input .release laterAck = some (.ok 24, k') ∧ Unanswered 1 xmit k' := by
  obtain ⟨⟨k₁, s, rfl⟩, hu, hf, hq⟩ := h
  have hin : (k₁.unanswered s 0 xmit).input .release laterAck =
      some (.ok 24, ({ k₁ with rmtWnd := 128 } : Kcb).unanswered s 1 xmit) := by
    rfl
  exact ⟨_, hin, ⟨_, s, rfl⟩, hu, hf, hq⟩

/-- The fast retransmission: nothing changes but the count. -/
theorem flush_unanswered (h : Unanswered 1 xmit k) (hx : xmit ≠ 0) (hf : k.flush shipped = some f) :
    Unanswered 0 (xmit + 1) f.kcb := by
  obtain ⟨pr, moved, ht⟩ := flush_trace h.updated hf
  obtain ⟨rfl, hq⟩ := List.append_eq_nil_iff.mp (ht.queue.symm.trans h.sndQueue)
  obtain ⟨hset, huna, hcur, hupd⟩ := (ht.trace.invariant (I := fun x => x.settings = k.settings ∧
    x.sndUna = k.sndUna ∧ x.current = k.current ∧ x.updated = k.updated) ⟨rfl, rfl, rfl, rfl⟩ (fun _ _ hx => hx)
    fun x x' hx hc => by cases hc <;> exact hx).1
  obtain ⟨k₁, s, hs⟩ := h.shape
  refine ⟨⟨f.kcb, refresh k k.wndUnused s, unanswered_of ?_ ?_ ?_ ?_ ?_⟩, hupd.trans h.updated,
    (congrArg Settings.fastresend hset).trans h.fastresend, hq⟩
  · exact (congrArg Settings.conv hset).trans (by rw [hs]; rfl)
  · exact huna.trans (by rw [hs]; rfl)
  · exact ht.sndNxt.trans (by rw [hs]; rfl)
  · exact hcur.trans (by rw [hs]; rfl)
  · have hbuf : k.window [] = [{ s with sn := 0, resendts := 200, rto := 200, fastack := 1, xmit := xmit }] := by
      rw [hs]
      rfl
    have hnow : k.current = 0 := by
      rw [hs]
      rfl
    have hlate : ¬ 0 ≤ k.lateness { s with sn := 0, resendts := 200, rto := 200, fastack := 1, xmit := xmit } := by
      unfold lateness
      rw [hnow]
      show ¬ 0 ≤ (0 : UInt32).toInt32 - (200 : UInt32).toInt32
      decide
    have hfast : k.resent ≤ 1 := by
      unfold resent
      rw [h.fastresend]
      exact UInt32.le_refl 1
    rw [ht.sndBuf, hbuf, List.map_singleton, restamp, if_neg hx, if_neg hlate, if_pos hfast, hnow]
    rfl

/-- No segment times out at clock 0. -/
theorem timesOut_unanswered (h : Unanswered fastack xmit e.kcb) (sn : UInt32) {op : Op}
    (hop : op.clock e.kcb = e.kcb.current) : e.timesOut sn op e' = false := by
  obtain ⟨k₁, s, hs⟩ := h.shape
  rw [Bool.eq_false_iff]
  intro ht
  obtain ⟨x, hx, -, -, hlate, -⟩ := timesOut_iff.mp ht
  rw [hop, hs] at hlate
  rw [hs] at hx
  obtain rfl := List.mem_singleton.mp hx
  have hlate' : 0 ≤ (0 : UInt32).toInt32 - (200 : UInt32).toInt32 := hlate
  exact absurd hlate' (by decide)

end Unanswered

/-- One more acknowledgement of the later segment, and a flush. -/
def again : List Op := [.input laterAck, .flush none]

/-- `n` times the same. -/
def agains (n : ℕ) : List Op := (List.replicate n again).flatten

section Again

variable {xmit : UInt32} {e : Endpoint}

theorem exec_again (h : Unanswered 0 xmit e.kcb) (hx : xmit ≠ 0) :
    ∃ e₁ e₂, e.exec shipped (.input laterAck) = some e₁ ∧ Unanswered 1 xmit e₁.kcb ∧
      e₁.exec shipped (.flush none) = some e₂ ∧ Unanswered 0 (xmit + 1) e₂.kcb := by
  obtain ⟨k₁, hin, h₁⟩ := input_unanswered h
  obtain ⟨f, hf⟩ := Option.isSome_iff_exists.mp (flush_release (b := shipped) rfl k₁)
  refine ⟨{ e with kcb := k₁ }, ({ e with kcb := k₁ } : Endpoint).flushed none f, ?_, h₁, ?_, flush_unanswered h₁ hx hf⟩
  · rw [Endpoint.exec, show shipped.profile = .release from rfl, hin]
    rfl
  · rw [Endpoint.exec, hf]
    rfl

theorem timeouts_again {e₁ e₂ : Endpoint} (h : Unanswered 0 xmit e.kcb)
    (hin : e.exec shipped (.input laterAck) = some e₁) (h₁ : Unanswered 1 xmit e₁.kcb)
    (hflush : e₁.exec shipped (.flush none) = some e₂) (sn : UInt32) :
    timeouts shipped sn e again = 0 := by
  have hzero : e.timesOut sn (.input laterAck) e₁ = false := timesOut_unanswered h sn rfl
  have hzero₁ : e₁.timesOut sn (.flush none) e₂ = false := timesOut_unanswered h₁ sn rfl
  simp only [timeouts, again, tally, hin, hflush, hzero, hzero₁, Option.elim_some, Bool.false_eq_true, if_false]

theorem run_agains (h : Unanswered 0 xmit e.kcb) (hx : xmit ≠ 0) {n : ℕ} (hn : xmit.toNat + n < 2 ^ 32) :
    ∃ e', run (Endpoint.exec shipped) e (agains n) = some e' ∧ Unanswered 0 (xmit + UInt32.ofNat n) e'.kcb ∧
      ∀ sn, timeouts shipped sn e (agains n) = 0 := by
  induction n generalizing e xmit with
  | zero =>
    refine ⟨e, rfl, ?_, fun _ => rfl⟩
    rw [show UInt32.ofNat 0 = 0 from rfl, UInt32.add_zero]
    exact h
  | succ n ih =>
    obtain ⟨e', e₁, hin, hs', hflush, hs1⟩ := exec_again h hx
    have h1 : run (Endpoint.exec shipped) e again = some e₁ := run_cons.mpr ⟨e', hin, run_cons.mpr ⟨e₁, hflush, rfl⟩⟩
    have hnext : (xmit + 1).toNat = xmit.toNat + 1 := toNat_add_of_lt (by
      show xmit.toNat + 1 < 2 ^ 32
      omega)
    have hx1 : xmit + 1 ≠ 0 := by
      intro hz
      have hzero := congrArg UInt32.toNat hz
      rw [hnext] at hzero
      exact absurd hzero (Nat.succ_ne_zero _)
    obtain ⟨e₂, h2, hs2, ht2⟩ := ih hs1 hx1 (by omega)
    have hcut : agains (n + 1) = again ++ agains n := rfl
    refine ⟨e₂, hcut ▸ run_append.mpr ⟨e₁, h1, h2⟩, ?_, fun sn => ?_⟩
    · have hsum : xmit + 1 + UInt32.ofNat n = xmit + UInt32.ofNat (n + 1) := by
        rw [UInt32.ofNat_add, UInt32.add_comm (UInt32.ofNat n), UInt32.add_assoc]
        rfl
      exact hsum ▸ hs2
    · have ht1 := timeouts_again h hin hs' hflush sn
      rw [hcut, timeouts_append h1, ht1, ht2 sn]

end Again

/-- Two segments, the second of which is acknowledged `2 ^ 32 - 1` times, with a flush after each time but the last. -/
def wrapOps : List Op :=
  [.send [1], .send [2], .update 0 none, .input laterAck, .flush none] ++ (agains (2 ^ 32 - 3) ++ [.input laterAck])

/-- Without a single timeout the count of transmissions comes round: after the last flush it is zero.  And where a flush
was abandoned at the write before a segment, the segment counts as transmitted, but no flush before its deadline
emits it. -/
theorem timers_lapse :
    (∃ e e', run (Endpoint.exec shipped) (Endpoint.start 7 { resend := 1, nc := true }) wrapOps = some e ∧
      e.kcb.updated = true ∧ e.exec shipped (.flush none) = some e' ∧
      (∀ sn, timeouts shipped sn (Endpoint.start 7 { resend := 1, nc := true }) (wrapOps ++ [.flush none]) < 2 ^ 15) ∧
      ∃ s ∈ e'.kcb.sndBuf, s.xmit = 0) ∧
    ∃ e, run (Endpoint.exec shipped) (Endpoint.start 7 { nc := true })
        [.send [1], .send [2], .update 0 (some 0), .update 100 none] = some e ∧
      ∃ s ∈ e.kcb.sndBuf, s.xmit = 1 ∧ ¬ e.HasSent s := by
  constructor
  · -- the five calls before the rounds
    have hpre : ((run (Endpoint.exec shipped) (Endpoint.start 7 { resend := 1, nc := true })
        [.send [1], .send [2], .update 0 none, .input laterAck, .flush none]).map fun e =>
          decide (e.kcb.conv = 7 ∧ e.kcb.sndUna = 0 ∧ e.kcb.sndNxt = 2 ∧ e.kcb.current = 0 ∧
            e.kcb.sndBuf =
              [{ conv := 7, cmd := kcpCmdPush, wnd := 32, resendts := 200, rto := 200, xmit := 2, data := [1] }] ∧
            e.kcb.updated = true ∧ e.kcb.fastresend = 1 ∧ e.kcb.sndQueue = [])) = some true := by
      decide +kernel
    obtain ⟨e₀, h0, hval⟩ := Option.map_eq_some_iff.mp hpre
    obtain ⟨hconv, huna, hnxt, hnow, hbuf, hu, hfast, hqueue⟩ := of_decide_eq_true hval
    have hs0 : Unanswered 0 2 e₀.kcb :=
      ⟨⟨e₀.kcb, { conv := 7, cmd := kcpCmdPush, wnd := 32, data := [1] }, unanswered_of hconv huna hnxt hnow hbuf⟩,
        hu, hfast, hqueue⟩
    obtain ⟨e₁, h1, hs1, ht1⟩ := run_agains hs0 (by decide) (n := 2 ^ 32 - 3) (by decide)
    obtain ⟨e, e', hin, hs, hflush, hs2⟩ := exec_again hs1 (by decide)
    have hrun : run (Endpoint.exec shipped) (Endpoint.start 7 { resend := 1, nc := true }) wrapOps = some e :=
      run_append.mpr ⟨e₀, h0, run_append.mpr ⟨e₁, h1, run_cons.mpr ⟨e, hin, rfl⟩⟩⟩
    refine ⟨e, e', hrun, hs.updated, hflush, fun sn => ?_, ?_⟩
    · -- only the first five calls may count a timeout
      have hcut : wrapOps ++ [.flush none] =
          [.send [1], .send [2], .update 0 none, .input laterAck, .flush none] ++ (agains (2 ^ 32 - 3) ++ again) := by
        rw [wrapOps, List.append_assoc, List.append_assoc]
        rfl
      rw [hcut, timeouts_append h0, timeouts_append h1, ht1 sn, timeouts_again hs1 hin hs hflush sn]
      exact lt_of_le_of_lt (timeouts_le _ _ _ _) (by decide)
    · obtain ⟨k₁, s, hs⟩ := hs2.shape
      rw [hs]
      refine ⟨_, List.mem_singleton_self _, ?_⟩
      show (2 : UInt32) + UInt32.ofNat (2 ^ 32 - 3) + 1 = 0
      decide
  · have hrun : ((run (Endpoint.exec shipped) (Endpoint.start 7 { nc := true })
        [.send [1], .send [2], .update 0 (some 0), .update 100 none]).map fun e =>
          (e.output, e.kcb.sndBuf.map fun s => (s.sn, s.xmit, s.data))) =
        some (({ conv := 7, cmd := kcpCmdPush, wnd := 32, data := [1] } : Segment).encode,
          [(0, 1, [1]), (1, 1, [2])]) := by
      decide +kernel
    obtain ⟨e, he, hval⟩ := Option.map_eq_some_iff.mp hrun
    obtain ⟨hout, hbuf⟩ := Prod.mk.inj hval
    have hmem : (1, 1, [2]) ∈ e.kcb.sndBuf.map fun s => (s.sn, s.xmit, s.data) := by
      rw [hbuf]
      decide
    obtain ⟨s, hs, hfields⟩ := List.mem_map.mp hmem
    simp only [Prod.mk.injEq] at hfields
    obtain ⟨hsn, hxmit, hdata⟩ := hfields
    refine ⟨e, he, s, hs, hxmit, ?_⟩
    -- the bytes are those of one segment, with another number
    rintro ⟨segs, hsegs, x, hmem, hx⟩
    have hin := encode_isInfix hmem
    have hxsn : x.sn = 1 := (congrArg Fixed.sn hx).trans hsn
    have hxdata : x.data = [2] := (congrArg Fixed.data hx).trans hdata
    rw [← hsegs, hout] at hin
    have heq := hin.eq_of_length (by rw [length_encode, length_encode, hxdata]; rfl)
    have h1 := readHeader_encode x []
    rw [heq, readHeader_encode] at h1
    have hhead := congrArg Header.sn (Prod.mk.inj (Option.some.inj h1)).1
    have hzero : (0 : UInt32) = 1 := hhead.trans hxsn
    exact absurd hzero (by decide)

end NetProtocols.Kcp
