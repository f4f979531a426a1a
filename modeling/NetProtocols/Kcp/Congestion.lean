import NetProtocols.Kcp.SendInv

/-!
# NetProtocols.Kcp.Congestion — the congestion window

`incr` is the congestion window in bytes: it lies between `cwnd` and `cwnd + 1` segments.  The step at the end of
`input` keeps it there, and none of its sums and products leaves `u32`.

* `CwndInv`: the invariant.
* `cwndInv_growCwnd`: the step goes through, in both profiles, and keeps the invariant.
* `cwndInv_settleCwnd`: so does the end of `flush`, where it goes through.
* `cwndInv_exec`: one call of a `dev` build.
-/

namespace NetProtocols.Kcp

/-- `incr` is `cwnd` segments and a part of the next; the remote window is a 16-bit number. -/
structure CwndInv (k : Kcb) : Prop where
  mss : k.mss = kcpMtuDef - kcpOverhead
  rmt : k.rmtWnd.toNat < 2 ^ 16
  thresh : kcpThreshMin ≤ k.ssthresh
  low : k.cwnd.toNat * (kcpMtuDef - kcpOverhead) ≤ k.incr.toNat
  high : k.incr.toNat < (k.cwnd.toNat + 1) * (kcpMtuDef - kcpOverhead)

open Kcb

variable {p : Profile} {k k' : Kcb}

theorem CwndInv.of_eq (h : CwndInv k) (h1 : k'.mss = k.mss) (h2 : k'.rmtWnd = k.rmtWnd)
    (h3 : k'.ssthresh = k.ssthresh) (h4 : k'.cwnd = k.cwnd) (h5 : k'.incr = k.incr) : CwndInv k' :=
  ⟨h1 ▸ h.mss, h2 ▸ h.rmt, h3 ▸ h.thresh, by rw [h4, h5]; exact h.low, by rw [h4, h5]; exact h.high⟩

theorem CwndInv.bounds (h : CwndInv k) :
    k.rmtWnd.toNat < 65536 ∧ k.cwnd.toNat * 1376 ≤ k.incr.toNat ∧ k.incr.toNat < (k.cwnd.toNat + 1) * 1376 :=
  ⟨h.rmt, h.low, h.high⟩

theorem CwndInv.setCwnd (h : CwndInv k) {ssthresh : UInt32} (cwnd incr : UInt32) (hth : kcpThreshMin ≤ ssthresh)
    (hlow : cwnd.toNat * 1376 ≤ incr.toNat) (hhigh : incr.toNat < (cwnd.toNat + 1) * 1376) :
    CwndInv (k.setCwnd ssthresh cwnd incr) :=
  ⟨h.mss, h.rmt, hth, hlow, hhigh⟩

theorem CwndInv.toNat_mss (h : CwndInv k) : (UInt32.ofNat k.mss).toNat = 1376 := by
  rw [h.mss]
  rfl

namespace Kcb

section Growth

variable {mss : UInt32}

theorem cwndInv_slowStart (hi : CwndInv k) (hlt : k.cwnd < k.rmtWnd) (hm : mss.toNat = 1376) :
    ∃ k', k.slowStart p mss = some k' ∧ CwndInv k' := by
  have hc := UInt32.lt_iff_toNat_lt.mp hlt
  obtain ⟨hrmt, hlow, hhigh⟩ := hi.bounds
  have h1 : k.cwnd.toNat + (1 : UInt32).toNat < 2 ^ 32 := by
    rw [UInt32.toNat_one]
    omega
  have h2 : k.incr.toNat + mss.toNat < 2 ^ 32 := by omega
  have hcwnd : (k.cwnd + 1).toNat = k.cwnd.toNat + 1 := toNat_add_of_lt h1
  have hincr : (k.incr + mss).toNat = k.incr.toNat + 1376 := hm ▸ toNat_add_of_lt h2
  refine ⟨_, ?_, hi.setCwnd (k.cwnd + 1) (k.incr + mss) hi.thresh ?_ ?_⟩
  · simp only [slowStart, Profile.add_of_lt h1, Profile.add_of_lt h2, Option.bind_eq_bind, Option.bind_some]
    rfl
  · rw [hcwnd, hincr, Nat.succ_mul]
    exact Nat.add_le_add_right hlow _
  · omega

/-- Congestion avoidance: `incr` grows by less than a segment, since two segments are in the window already. -/
theorem cwndInv_avoidCongestion (hi : CwndInv k) (hlt : k.cwnd < k.rmtWnd) (hle : k.ssthresh ≤ k.cwnd)
    (hm : mss.toNat = 1376) : ∃ k', k.avoidCongestion p mss = some k' ∧ CwndInv k' := by
  have hc := UInt32.lt_iff_toNat_lt.mp hlt
  have htwo : 2 ≤ k.cwnd.toNat := UInt32.le_iff_toNat_le.mp (UInt32.le_trans hi.thresh hle)
  obtain ⟨hrmt, hlow, hhigh⟩ := hi.bounds
  have hge : ¬ k.incr < mss := by
    rw [UInt32.not_lt, UInt32.le_iff_toNat_le]
    omega
  have hsq : mss.toNat * mss.toNat < 2 ^ 32 := by
    rw [hm]
    decide
  have hsq' : (mss * mss).toNat = 1893376 := by
    rw [UInt32.toNat_mul, hm]
  have hne : k.incr ≠ 0 := fun h => by
    rw [h, UInt32.toNat_zero] at hlow
    omega
  -- the quotient is at most half a segment
  have hq : (mss * mss / k.incr).toNat ≤ 688 := by
    rw [UInt32.toNat_div, hsq']
    exact (Nat.div_le_div_left (show 2752 ≤ k.incr.toNat by omega) (by decide)).trans (by decide)
  have hq16 : (mss / 16).toNat = 86 := by
    rw [UInt32.toNat_div, hm]
    rfl
  have h1 : (mss * mss / k.incr).toNat + (mss / 16).toNat < 2 ^ 32 := by omega
  have h2 : k.incr.toNat + (mss * mss / k.incr + mss / 16).toNat < 2 ^ 32 := by
    rw [toNat_add_of_lt h1]
    omega
  have h3 : k.cwnd.toNat + (1 : UInt32).toNat < 2 ^ 32 := by
    rw [UInt32.toNat_one]
    omega
  have hnext : (k.cwnd + 1).toNat = k.cwnd.toNat + 1 := toNat_add_of_lt h3
  have h4 : (k.cwnd + 1).toNat * mss.toNat < 2 ^ 32 := by
    rw [hnext, hm]
    omega
  have hgoal : ((k.cwnd + 1) * mss).toNat = (k.cwnd.toNat + 1) * 1376 := by
    rw [UInt32.toNat_mul, Nat.mod_eq_of_lt h4, hnext, hm]
  have hincr : (k.incr + (mss * mss / k.incr + mss / 16)).toNat = k.incr.toNat + ((mss * mss / k.incr).toNat + 86) := by
    rw [toNat_add_of_lt h2, toNat_add_of_lt h1, hq16]
  refine ⟨_, ?_, hi.setCwnd
    (if (k.cwnd + 1) * mss ≤ k.incr + (mss * mss / k.incr + mss / 16) then k.cwnd + 1 else k.cwnd)
    (k.incr + (mss * mss / k.incr + mss / 16)) hi.thresh ?_ ?_⟩
  · simp only [avoidCongestion, if_neg hge, Profile.mul_of_lt hsq, Profile.div_of_ne hne, Profile.add_of_lt h1,
      Profile.add_of_lt h2, Profile.add_of_lt h3, Profile.mul_of_lt h4, Option.bind_eq_bind, Option.bind_some]
    rfl
  · split_ifs with hg
    · rw [UInt32.le_iff_toNat_le, hgoal] at hg
      rw [hnext]
      exact hg
    · rw [hincr]
      omega
  · split_ifs with hg
    · rw [hincr, hnext]
      omega
    · rw [UInt32.le_iff_toNat_le, hgoal] at hg
      omega

/-- **The congestion step goes through** and keeps the invariant. -/
theorem cwndInv_growCwnd (hi : CwndInv k) (oldUna : UInt32) :
    ∃ k', k.growCwnd p oldUna = some k' ∧ CwndInv k' := by
  have hm := hi.toNat_mss
  unfold growCwnd
  by_cases hg : oldUna < k.sndUna ∧ k.cwnd < k.rmtWnd
  · rw [if_pos hg]
    have hstep : ∃ k1, (if k.cwnd < k.ssthresh then k.slowStart p (UInt32.ofNat k.mss)
        else k.avoidCongestion p (UInt32.ofNat k.mss)) = some k1 ∧ CwndInv k1 := by
      split_ifs with hs
      · exact cwndInv_slowStart hi hg.2 hm
      · exact cwndInv_avoidCongestion hi hg.2 (UInt32.not_lt.mp hs) hm
    obtain ⟨k1, h1, hi1⟩ := hstep
    simp only [Option.bind_eq_bind, h1, Option.bind_some]
    split_ifs with hr
    · have hrmt := hi1.rmt
      have h4 : k1.rmtWnd.toNat * (UInt32.ofNat k.mss).toNat < 2 ^ 32 := by
        rw [hm]
        omega
      have hincr : (k1.rmtWnd * UInt32.ofNat k.mss).toNat = k1.rmtWnd.toNat * 1376 := by
        rw [UInt32.toNat_mul, Nat.mod_eq_of_lt h4, hm]
      refine ⟨_, ?_, hi1.setCwnd k1.rmtWnd (k1.rmtWnd * UInt32.ofNat k.mss) hi1.thresh ?_ ?_⟩
      · simp only [Profile.mul_of_lt h4, Option.bind_some]
        rfl
      · rw [hincr]
      · rw [hincr]
        omega
    · exact ⟨k1, rfl, hi1⟩
  · rw [if_neg hg]
    exact ⟨k, rfl, hi⟩

end Growth

/-! ### The other writers -/

open Flushing

theorem thresh_le (x : UInt32) : kcpThreshMin ≤ if x < kcpThreshMin then kcpThreshMin else x := by
  split_ifs with h
  · exact UInt32.le_refl _
  · exact UInt32.not_lt.mp h

/-- The window after fast retransmissions, as `flush` computes it first. -/
def fastWnd (p : Profile) (resent : UInt32) (change : Bool) (k : Kcb) : Option Kcb :=
  if change then do
    let inflight ← p.sub k.sndNxt k.sndUna
    let ssthresh := if inflight / 2 < kcpThreshMin then kcpThreshMin else inflight / 2
    let cwnd ← p.add ssthresh resent
    let incr ← p.mul cwnd (UInt32.ofNat k.mss)
    some (k.setCwnd ssthresh cwnd incr)
  else some k

/-- A loss, or a window of none, sets the window back to one segment. -/
def restart (cwnd mss : UInt32) (lost : Bool) (k : Kcb) : Kcb :=
  let k := if lost then k.setCwnd (if cwnd / 2 < kcpThreshMin then kcpThreshMin else cwnd / 2) 1 mss else k
  if k.cwnd < 1 then k.setCwnd k.ssthresh 1 mss else k

/-- The end of `flush` in two steps. -/
theorem settleCwnd_eq_restart (cwnd resent : UInt32) (lost change : Bool) (k : Kcb) :
    settleCwnd p cwnd resent lost change k =
      (k.fastWnd p resent change).bind fun k₁ => some (k₁.restart cwnd (UInt32.ofNat k.mss) lost) := rfl

theorem cwndInv_restart {cwnd mss : UInt32} (lost : Bool) (hi : CwndInv k) (hm : mss.toNat = 1376) :
    CwndInv (k.restart cwnd mss lost) ∧ 1 ≤ (k.restart cwnd mss lost).cwnd := by
  -- one segment
  have hone : ∀ {k₁ : Kcb} {ssthresh : UInt32}, CwndInv k₁ → kcpThreshMin ≤ ssthresh →
      CwndInv (k₁.setCwnd ssthresh 1 mss) := by
    intro k₁ ssthresh h₁ hth
    exact h₁.setCwnd 1 _ hth (by rw [hm]; exact le_rfl) (by rw [hm]; decide)
  have hth := thresh_le (cwnd / 2)
  unfold restart
  generalize (if cwnd / 2 < kcpThreshMin then kcpThreshMin else cwnd / 2) = th at hth ⊢
  dsimp only
  split_ifs with hl hc hc
  · exact ⟨hone (hone hi hth) hth, UInt32.le_refl _⟩
  · exact ⟨hone hi hth, UInt32.not_lt.mp hc⟩
  · exact ⟨hone hi hi.thresh, UInt32.le_refl _⟩
  · exact ⟨hi, UInt32.not_lt.mp hc⟩

/-- The end of `flush`, where it goes through in a `dev` build. -/
theorem cwndInv_settleCwnd {cwnd resent : UInt32} {lost change : Bool} (hi : CwndInv k)
    (h : settleCwnd .dev cwnd resent lost change k = some k') : CwndInv k' := by
  rw [settleCwnd_eq_restart] at h
  obtain ⟨k1, h1, h⟩ := Option.bind_eq_some_iff.mp h
  obtain rfl := Option.some.inj h
  have hm := hi.toNat_mss
  have hi1 : CwndInv k1 := by
    unfold fastWnd at h1
    by_cases hc : change
    · rw [if_pos hc] at h1
      simp only [Option.bind_eq_bind, Option.bind_eq_some_iff, Option.some.injEq] at h1
      obtain ⟨inflight, -, c, -, i, hmul, rfl⟩ := h1
      obtain ⟨rfl, hfit⟩ := Profile.checked_eq_some.mp hmul
      have hprod : (c * UInt32.ofNat k.mss).toNat = c.toNat * 1376 := by
        rw [UInt32.toNat_mul, Nat.mod_eq_of_lt (hfit rfl), hm]
      exact hi.setCwnd c (c * UInt32.ofNat k.mss) (thresh_le _) hprod.ge (by omega)
    · rw [if_neg hc] at h1
      exact Option.some.inj h1 ▸ hi
  exact (cwndInv_restart lost hi1 hm).1

theorem cwndInv_flushStep {b : Build} {k₀ : Kcb} (hb : b.profile = .dev) (h : FlushStep b k₀ k k') (hi : CwndInv k) :
    CwndInv k' := by
  cases h
  case settle cwnd resent lost change h => exact cwndInv_settleCwnd hi (hb ▸ h)
  all_goals exact hi.of_eq rfl rfl rfl rfl rfl

/-- One segment sets the remote window, and leaves the rest to the end of `input`. -/
theorem cwndInv_taken {s s' : Scan} {h : Header} (ht : Scan.Taken p s h s') (hi : CwndInv s.kcb) : CwndInv s'.kcb := by
  have hrmt : h.wnd.toUInt32.toNat < 2 ^ 16 := h.wnd.toNat_lt
  have hh : CwndInv (s.kcb.onHeader h) := ⟨hi.mss, hrmt, hi.thresh, hi.low, hi.high⟩
  cases ht with
  | ack hc hk =>
    rename_i k m
    have hk' : CwndInv k := by
      rcases hk with rfl | ⟨rtt, hk⟩
      · exact hh
      · obtain ⟨srtt, rttval, rto, rfl⟩ := updateAck_eq hk
        exact hh.of_eq rfl rfl rfl rfl rfl
    unfold parseAck
    split_ifs <;> exact hk'.of_eq rfl rfl rfl rfl rfl
  | inside hc hsn hle hk =>
    rcases parseData_eq_moved hk with rfl | ⟨l, n, nxt, rfl⟩ <;> exact hh.of_eq rfl rfl rfl rfl rfl
  | above | below | wask | other => exact hh.of_eq rfl rfl rfl rfl rfl

theorem cwndInv_inputStep {s s' : Scan} (h : s.inputStep p = some (.ok s')) (hi : CwndInv s.kcb) : CwndInv s'.kcb := by
  obtain ⟨hd, rest, -, -, ht⟩ := Scan.inputStep_ok h
  exact cwndInv_taken (s := { s with buf := rest }) (Scan.taken_of_takeSegment ht) hi

/-- What stands between the loop and the congestion step. -/
theorem cwndInv_fastack {s : Scan} (hi : CwndInv s.kcb)
    (h : (if s.flag then s.kcb.parseFastack p s.maxack else some s.kcb) = some k') : CwndInv k' := by
  split_ifs at h
  · obtain ⟨l, -, rfl⟩ := parseFastack_eq h
    exact hi.of_eq rfl rfl rfl rfl rfl
  · exact Option.some.inj h ▸ hi

theorem cwndInv_finishInput {s : Scan} {oldUna : UInt32} (hi : CwndInv s.kcb) (h : finishInput p s oldUna = some k') :
    CwndInv k' := by
  simp only [finishInput, Option.bind_eq_bind, Option.bind_eq_some_iff] at h
  obtain ⟨k1, h1, h2⟩ := h
  obtain ⟨k2, h3, hi2⟩ := cwndInv_growCwnd (p := p) (cwndInv_fastack hi h1) oldUna
  exact Option.some.inj (h3.symm.trans h2) ▸ hi2

theorem cwndInv_input {d : List UInt8} {r : Except IoError ℕ} (h : k.input p d = some (r, k')) (hi : CwndInv k) :
    CwndInv k' :=
  input_rule (I := fun s => CwndInv s.kcb) (J := CwndInv) h hi (fun _ hs => hs)
    (fun _ _ hs hst => cwndInv_inputStep hst hs) fun _ _ hs hf => cwndInv_finishInput hs hf

end Kcb

/-! ### Runs -/

/-- **One call of a `dev` build keeps the invariant.** -/
theorem cwndInv_exec {b : Build} (hb : b.profile = .dev) {e e' : Endpoint} {op : Op} (h : e.exec b op = some e')
    (hi : CwndInv e.kcb) : CwndInv e'.kcb := by
  refine exec_rule (I := CwndInv) h ?_ ?_ (fun _ _ _ hs => cwndInv_input hs hi) fun f cut hf =>
    (flushed_rule (I := CwndInv) cut hf hi fun _ _ hi hs => cwndInv_flushStep hb hs hi).1
  · intro buf r k hs
    obtain ⟨q, rfl⟩ := send_eq hs
    exact hi.of_eq rfl rfl rfl rfl rfl
  · intro cap r k hs
    rcases recv_cases hs with ⟨err, -, rfl⟩ | ⟨-, -, k1, pr, h1, rfl⟩
    · exact hi
    · obtain ⟨n, nxt, rfl⟩ := moveData_eq_moved h1
      exact hi.of_eq rfl rfl rfl rfl rfl

theorem cwndInv_start (conv : UInt32) (c : Config) : CwndInv (Endpoint.start conv c).kcb := by
  obtain ⟨sndWnd, rcvWnd, nodelay, rxMinrto, interval, fastresend, h⟩ := configured_eq conv c
  rw [Endpoint.start, h]
  -- none of the five fields is an option
  refine CwndInv.of_eq (k := Kcb.new conv) ⟨rfl, ?_, UInt32.le_refl _, ?_, ?_⟩ rfl rfl rfl rfl rfl
  · show kcpWndRcv.toNat < 2 ^ 16
    decide
  · show (0 : UInt32).toNat * (kcpMtuDef - kcpOverhead) ≤ (0 : UInt32).toNat
    decide
  · show (0 : UInt32).toNat < ((0 : UInt32).toNat + 1) * (kcpMtuDef - kcpOverhead)
    decide

end NetProtocols.Kcp
