import NetProtocols.Kcp.Congestion
import NetProtocols.Kcp.Emission
import NetProtocols.Kcp.OneFlush
import NetProtocols.Kcp.Stages

/-!
# NetProtocols.Kcp.Window — the congestion window over whole runs

`cwnd` counts segments and `incr` bytes.  With a send window and a `resend` below `2 ^ 16`, and fewer `input` calls than
bring `fastack` to `u32::MAX`, the two agree in every reachable state of every build, and no sum or product that updates
them leaves `u32`.

* `change_of_transmit`: fast retransmission goes by `fastresend`, so `u32::MAX` never enters the window.
* `cwndInv_settle`: the new window at the end of a flush.
* `Grown`, `grown_growCwnd`: what one `input` does to the window.
* `window_exec`, `window_run`: the bracket in every reachable state; `congestion_window_consistent`.
-/

namespace NetProtocols.Kcp

open Kcb Flushing

variable {p : Profile} {b : Build} {k k' : Kcb} {f f' : Flushing}

/-! ### The end of a flush -/

/-- The data loop notes a fast retransmission only for a segment with enough later acknowledgements. -/
theorem change_of_flushData {resent rtomin wnd : UInt32} {done rest : List Segment}
    (h : flushData b resent rtomin wnd done rest f = some f') (hc : f'.change = true) :
    f.change = true ∨ ∃ s ∈ rest, resent ≤ s.fastack := by
  induction rest generalizing done f with
  | nil =>
    obtain rfl := Option.some.inj h
    exact Or.inl hc
  | cons seg rest ih =>
    simp only [flushData, Option.bind_eq_bind, Option.bind_eq_some_iff] at h
    obtain ⟨d, hd, ⟨seg', k'⟩, hs, h⟩ := h
    have hfast : d = .fast → resent ≤ seg.fastack := by
      rintro rfl
      unfold due at hd
      by_cases hx : seg.xmit = 0
      · rw [if_pos hx] at hd
        cases hd
      · rw [if_neg hx] at hd
        obtain ⟨late, -, hd⟩ := Option.bind_eq_some_iff.mp hd
        by_cases hf : resent ≤ seg.fastack
        · exact hf
        · rw [if_neg hf] at hd
          split_ifs at hd <;> cases hd
    have hnext : ∀ {g : Flushing}, g.change = (f.change || d == Due.fast) →
        (g.change = true ∨ ∃ s ∈ rest, resent ≤ s.fastack) →
          f.change = true ∨ ∃ s ∈ seg :: rest, resent ≤ s.fastack := by
      intro g hg hor
      rcases hor with hor | ⟨s, hs, hle⟩
      · rw [hg, Bool.or_eq_true, beq_iff_eq] at hor
        exact hor.imp id fun hd => ⟨seg, List.mem_cons_self, hfast hd⟩
      · exact Or.inr ⟨s, List.mem_cons_of_mem _ hs, hle⟩
    dsimp only at h
    split_ifs at h
    · exact hnext rfl (ih h)
    · obtain ⟨f2, h2, h⟩ := Option.bind_eq_some_iff.mp h
      have hput : (f2.put (refresh k' wnd seg')).change = (f.change || d == Due.fast) := (sizeTest_eq h2).2.2
      exact hnext hput (ih h)

theorem change_lasting : Lasting b fun f f' => f'.change = f.change :=
  ⟨fun _ => rfl, fun h h' => h'.trans h, fun h => (sizeTest_eq h).2.2, fun _ _ => rfl⟩

theorem change_flushControl (h : flushControl b k = some f) : f.change = false := by
  simp only [flushControl, Option.bind_eq_bind, Option.bind_eq_some_iff, Option.some.injEq] at h
  obtain ⟨⟨s1, f1⟩, h1, k2, h2, ⟨s3, f3⟩, h3, ⟨s4, f4⟩, h4, rfl⟩ := h
  have h13 : f3.change = f1.change := change_lasting.flushProbe (f := { f1 with kcb := k2 }) h3
  exact (change_lasting.flushProbe h4).trans (h13.trans (change_lasting.flushAcks h1))

/-- **Fast retransmission goes by `fastresend`**: without it `flush` compares with `u32::MAX`, which `fastack` does not
reach. -/
theorem change_of_transmit {n : ℕ} {cwnd : UInt32} (hk : FastackLe n k) (hn : n < 2 ^ 32 - 1)
    (h : k.transmit b = some (cwnd, f)) (hc : f.change = true) : k.resent = k.fastresend := by
  simp only [transmit, Option.bind_eq_bind, Option.bind_eq_some_iff, Option.some.injEq, Prod.mk.injEq] at h
  obtain ⟨f1, h1, edge, he, k2, h2, f3, h3, -, rfl⟩ := h
  obtain ⟨t, w, pr, buf, -, hbuf⟩ := flushControl_eq h1
  have hreads : Reads k f1.kcb ∧ f1.kcb.conv = k.conv ∧ f1.kcb.sndBuf = k.sndBuf := by
    rw [hbuf]
    exact ⟨⟨rfl, rfl, rfl, rfl⟩, rfl, rfl⟩
  obtain ⟨moved, rest, -, rfl⟩ := fillWindow_entered hreads.1 hreads.2.1 h2
  have hchange : f3.change = true := by
    have hrest : (f3.writeRest b).change = f3.change := by
      unfold writeRest
      split_ifs <;> rfl
    rw [← hrest]
    exact hc
  have hresent : (setSend f1.kcb (f1.kcb.sndNxt + UInt32.ofNat moved.length)
      (f1.kcb.sndBuf ++ k.entered f1.kcb.sndNxt moved) rest).resent = k.resent := by
    rw [hbuf]
    rfl
  -- a noted retransmission needs a `fastack` that has reached `resent`, and `u32::MAX` is out of reach
  rcases change_of_flushData h3 hchange with hno | ⟨s, hs, hle⟩
  · exact absurd ((change_flushControl h1).symm.trans hno) Bool.false_ne_true
  · have hn' : s.fastack.toNat ≤ n := by
      change s ∈ f1.kcb.sndBuf ++ k.entered f1.kcb.sndNxt moved at hs
      rcases List.mem_append.mp hs with hs | hs
      · exact hk s (hreads.2.2 ▸ hs)
      · obtain ⟨sn, x, rfl⟩ := mem_entered hs
        exact Nat.zero_le n
    rw [hresent, UInt32.le_iff_toNat_le] at hle
    have hmax : (UInt32.ofNat (2 ^ 32 - 1)).toNat = 2 ^ 32 - 1 := rfl
    unfold resent at hle ⊢
    split_ifs at hle ⊢
    · rfl
    · omega

theorem Stage.cwndInv {t w pr : UInt32} {segs : List Segment} (h : Stage k t w pr segs k') (hi : CwndInv k) :
    CwndInv k' := by
  cases h with
  | acks | probes => exact hi.of_eq rfl rfl rfl rfl rfl
  | data => refine hi.of_eq ?_ ?_ ?_ ?_ ?_ <;> simp only [Kcb.setBuffer, setSndBuf, setSend, setProbes, setAcklist]

theorem transmit_follows {cwnd : UInt32} (h : k.transmit b = some (cwnd, f)) : Follows b k k f.kcb f.writes := by
  simp only [transmit, Option.bind_eq_bind, Option.bind_eq_some_iff, Option.some.injEq, Prod.mk.injEq] at h
  obtain ⟨f1, h1, edge, he, k2, h2, f3, h3, -, rfl⟩ := h
  exact phases_follow h1 he h2 h3 rfl

theorem inflight_of_transmit {cwnd : UInt32} (hi : SendInv k.sendSide) (h : k.transmit b = some (cwnd, f)) :
    f.kcb.sndUna.toNat ≤ f.kcb.sndNxt.toNat ∧ f.kcb.sndNxt.toNat - f.kcb.sndUna.toNat ≤ k.sndWnd.toNat := by
  have hs : SendInv f.kcb.sendSide := (sendInv_flushed (transmit_follows h) none hi).1
  have hset : f.kcb.settings = k.settings := settings_flushed (transmit_follows h) none
  have hwnd : f.kcb.sndWnd = k.sndWnd := congrArg Settings.sndWnd hset
  have hspan : f.kcb.sndNxt.toNat ≤ f.kcb.sndUna.toNat + f.kcb.sndWnd.toNat := hs.span
  have hle : f.kcb.sndUna ≤ f.kcb.sndNxt := hs.una_le_nxt
  have hle' := UInt32.le_iff_toNat_le.mp hle
  rw [hwnd] at hspan
  exact ⟨hle', by omega⟩

/-- **The end of a flush goes through** and keeps the bracket, where the segments in flight and `resent` are few. -/
theorem cwndInv_settle {cwnd resent : UInt32} (lost : Bool) {change : Bool} (hi : CwndInv k)
    (hle : k.sndUna.toNat ≤ k.sndNxt.toNat) (hflight : k.sndNxt.toNat - k.sndUna.toNat < 2 ^ 16)
    (hresent : change = true → resent.toNat < 2 ^ 16) :
    ∃ k', settleCwnd p cwnd resent lost change k = some k' ∧ CwndInv k' ∧ 1 ≤ k'.cwnd := by
  have hm := hi.toNat_mss
  -- the sum and the product behind a fast retransmission fit, since the segments in flight are few
  have hfast : ∃ k₁, k.fastWnd p resent change = some k₁ ∧ CwndInv k₁ := by
    unfold fastWnd
    by_cases hc : change
    · have hr := hresent hc
      have hsub : p.sub k.sndNxt k.sndUna = some (k.sndNxt - k.sndUna) := Profile.checked_of_fits hle _
      have hhalf : ((k.sndNxt - k.sndUna) / 2).toNat = (k.sndNxt.toNat - k.sndUna.toNat) / 2 := by
        rw [UInt32.toNat_div, UInt32.toNat_sub_of_le _ _ (UInt32.le_iff_toNat_le.mpr hle)]
        rfl
      have hth := thresh_le ((k.sndNxt - k.sndUna) / 2)
      have hsmall : (if (k.sndNxt - k.sndUna) / 2 < kcpThreshMin then kcpThreshMin
          else (k.sndNxt - k.sndUna) / 2).toNat < 2 ^ 15 := by
        split_ifs
        · decide
        · omega
      rw [if_pos hc, hsub]
      simp only [Option.bind_eq_bind, Option.bind_some]
      generalize (if (k.sndNxt - k.sndUna) / 2 < kcpThreshMin then kcpThreshMin
        else (k.sndNxt - k.sndUna) / 2) = th at hth hsmall ⊢
      have hsum : (th + resent).toNat = th.toNat + resent.toNat := toNat_add_of_lt (by omega)
      have hprod : (th + resent).toNat * (UInt32.ofNat k.mss).toNat < 2 ^ 32 := by
        rw [hsum, hm]
        omega
      rw [Profile.add_of_lt (by omega), Option.bind_some, Profile.mul_of_lt hprod, Option.bind_some]
      have hincr : ((th + resent) * UInt32.ofNat k.mss).toNat = (th + resent).toNat * 1376 := by
        rw [toNat_mul_of_lt hprod, hm]
      exact ⟨_, rfl, hi.setCwnd (th + resent) _ hth hincr.ge (by omega)⟩
    · rw [if_neg hc]
      exact ⟨k, rfl, hi⟩
  obtain ⟨k₁, h₁, hi₁⟩ := hfast
  refine ⟨k₁.restart cwnd (UInt32.ofNat k.mss) lost, ?_, cwndInv_restart lost hi₁ hm⟩
  rw [settleCwnd_eq_restart, h₁]
  rfl

/-! ### One `input` -/

/-- From `k` to `k'` the window has not changed, or has grown by one segment, up to the remote window. -/
def Grown (k k' : Kcb) : Prop :=
  k'.cwnd = k.cwnd ∨ k'.cwnd.toNat = k.cwnd.toNat + 1 ∧ k'.cwnd ≤ k'.rmtWnd

theorem grown_step {mss : UInt32} (hlt : k.cwnd < k.rmtWnd)
    (h : (if k.cwnd < k.ssthresh then k.slowStart p mss else k.avoidCongestion p mss) = some k') :
    k'.rmtWnd = k.rmtWnd ∧ (k'.cwnd = k.cwnd ∨ k'.cwnd.toNat = k.cwnd.toNat + 1) := by
  have hsucc : (k.cwnd + 1).toNat = k.cwnd.toNat + 1 := toNat_succ_of_lt hlt
  split_ifs at h
  · simp only [slowStart, Option.bind_eq_bind, Option.bind_eq_some_iff, Option.some.injEq] at h
    obtain ⟨c, hc, i, -, rfl⟩ := h
    obtain rfl := Profile.add_eq_some hc
    exact ⟨rfl, Or.inr hsucc⟩
  · simp only [avoidCongestion, Option.bind_eq_bind, Option.bind_eq_some_iff, Option.some.injEq] at h
    obtain ⟨sq, -, q, -, q', -, i, -, n, hn, g, -, rfl⟩ := h
    obtain rfl := Profile.add_eq_some hn
    refine ⟨rfl, ?_⟩
    dsimp only
    split_ifs
    · exact Or.inr hsucc
    · exact Or.inl rfl

/-- **The congestion step never lowers the window**: the clamp to the remote window finds nothing to do. -/
theorem grown_growCwnd {oldUna : UInt32} (h : k.growCwnd p oldUna = some k') : Grown k k' := by
  unfold growCwnd at h
  by_cases hg : oldUna < k.sndUna ∧ k.cwnd < k.rmtWnd
  · rw [if_pos hg] at h
    obtain ⟨k₁, h₁, h⟩ := Option.bind_eq_some_iff.mp h
    obtain ⟨hrmt, hor⟩ := grown_step hg.2 h₁
    have hlt := UInt32.lt_iff_toNat_lt.mp hg.2
    have hle : k₁.cwnd ≤ k₁.rmtWnd := by
      rw [UInt32.le_iff_toNat_le, hrmt]
      rcases hor with hor | hor
      · rw [hor]
        omega
      · omega
    rw [if_neg (UInt32.not_lt.mpr hle)] at h
    obtain rfl := Option.some.inj h
    exact hor.imp id fun hone => ⟨hone, hle⟩
  · rw [if_neg hg] at h
    exact Or.inl (Option.some.inj h ▸ rfl)

theorem cwnd_taken {s s' : Scan} {h : Header} (ht : Scan.Taken p s h s') : s'.kcb.cwnd = s.kcb.cwnd := by
  cases ht with
  | @ack k m hc hk =>
    have hk' : k.cwnd = s.kcb.cwnd := by
      rcases hk with rfl | ⟨rtt, hk⟩
      · rfl
      · obtain ⟨srtt, rttval, rto, rfl⟩ := updateAck_eq hk
        rfl
    rw [← hk']
    unfold parseAck
    split_ifs <;> rfl
  | inside hc hsn hle hk =>
    rcases parseData_eq_moved hk with rfl | ⟨l, n, nxt, rfl⟩ <;> rfl
  | above | below | wask | other => rfl

theorem grown_input {d : List UInt8} {r : Except IoError ℕ} (h : k.input p d = some (r, k')) : Grown k k' := by
  refine input_rule (I := fun s => s.kcb.cwnd = k.cwnd) (J := Grown k) h rfl (fun _ hs => Or.inl hs) ?_ ?_
  · intro s s' hs hst
    obtain ⟨hd, rest, -, -, ht⟩ := Scan.inputStep_ok hst
    exact (cwnd_taken (s := { s with buf := rest }) (Scan.taken_of_takeSegment ht)).trans hs
  · intro s k' hs hf
    simp only [finishInput, Option.bind_eq_bind, Option.bind_eq_some_iff] at hf
    obtain ⟨k₁, h₁, h₂⟩ := hf
    have hk₁ : k₁.cwnd = k.cwnd := by
      split_ifs at h₁
      · obtain ⟨l, -, rfl⟩ := parseFastack_eq h₁
        exact hs
      · exact Option.some.inj h₁ ▸ hs
    unfold Grown
    rw [← hk₁]
    exact grown_growCwnd h₂

/-! ### Runs -/

/-- What keeps the bracket: no segment of `snd_buf` was passed over more than `n` times, and the send window and
`resend` are 16-bit numbers. -/
structure WindowInv (n : ℕ) (k : Kcb) : Prop where
  cwnd : CwndInv k
  send : SendInv k.sendSide
  fast : FastackLe n k
  sndWnd : k.sndWnd.toNat < 2 ^ 16
  fastresend : k.fastresend.toNat < 2 ^ 16

section Runs

variable {n : ℕ} {e e' : Endpoint} {op : Op}

/-- A flush computes a window, in both profiles. -/
theorem WindowInv.settles (h : WindowInv n k) (hn : n < 2 ^ 32 - 1) (p : Profile) {cwnd : UInt32}
    (hg : k.transmit b = some (cwnd, f)) :
    ∃ k', settleCwnd p cwnd k.resent f.lost f.change f.kcb = some k' ∧ CwndInv k' ∧ 1 ≤ k'.cwnd := by
  obtain ⟨t, w, pr, segs, -, hm⟩ := transmit_stages hg
  obtain ⟨hle, hflight⟩ := inflight_of_transmit h.send hg
  refine cwndInv_settle f.lost (hm.now.cwndInv h.cwnd) hle (lt_of_le_of_lt hflight h.sndWnd) fun hc => ?_
  rw [change_of_transmit h.fast hn hg hc]
  exact h.fastresend

theorem WindowInv.flush (h : WindowInv n k) (hn : n < 2 ^ 32 - 1) (hf : k.flush b = some f) (cut : Option ℕ) :
    CwndInv (f.stopAt cut).1 ∧ (k.updated = true → 1 ≤ f.kcb.cwnd) := by
  cases hu : k.updated with
  | false =>
    rw [stopAt_of_idle hu hf]
    exact ⟨h.cwnd, fun hn => absurd hn Bool.false_ne_true⟩
  | true =>
    obtain ⟨cwnd, g, hg, hs, hw⟩ := transmit_of_flush hu hf
    obtain ⟨t, w, pr, segs, -, hm⟩ := transmit_stages hg
    obtain ⟨k', hk', hend, hone⟩ := h.settles hn b.profile hg
    obtain rfl := Option.some.inj (hk'.symm.trans hs)
    refine ⟨stopAt_rule hend (fun x hx => ?_) cut, fun _ => hone⟩
    rw [hw] at hx
    obtain ⟨i, hi⟩ := List.mem_iff_getElem?.mp hx
    obtain ⟨s, hstage, -⟩ := hm.writes i x hi
    exact hstage.cwndInv h.cwnd

theorem WindowInv.clocked (h : WindowInv n k) (now ts : UInt32) : WindowInv n (k.clocked now ts) :=
  ⟨h.cwnd.of_eq rfl rfl rfl rfl rfl, ⟨h.send.sorted, h.send.window, h.send.una, h.send.span⟩, h.fast, h.sndWnd,
    h.fastresend⟩

theorem WindowInv.exec_cwnd (h : WindowInv n e.kcb) (hn : n < 2 ^ 32 - 1) (hex : e.exec b op = some e') :
    CwndInv e'.kcb := by
  cases ran_of_exec hex with
  | send buf r hs _ =>
    obtain ⟨queue, e1⟩ := send_eq hs
    rw [e1]
    exact h.cwnd.of_eq rfl rfl rfl rfl rfl
  | recv cap r hs _ =>
    rcases recv_recovers hs with ⟨err, -, e1⟩ | ⟨-, -, k₁, h1, e1⟩ <;> rw [e1]
    · exact h.cwnd
    · obtain ⟨m, nxt, rfl⟩ := moveData_eq_moved h1
      exact h.cwnd.of_eq rfl rfl rfl rfl rfl
  | input d r hs _ => exact cwndInv_input hs h.cwnd
  | clock now ts cut e1 _ =>
    rw [e1]
    exact (h.clocked now ts).cwnd
  | update now ts cut f hf e1 _ =>
    rw [e1]
    exact ((h.clocked now ts).flush hn hf cut).1
  | flush cut f hf e1 _ =>
    rw [e1]
    exact (h.flush hn hf cut).1

/-- **One call keeps the bracket**, and passes over a segment once more if it is one of `input`. -/
theorem window_exec (h : WindowInv n e.kcb) (hn : n < 2 ^ 32 - 1) (hex : e.exec b op = some e') :
    WindowInv (n + if op.isInput then 1 else 0) e'.kcb := by
  have hset := settings_exec hex
  have hwnd : e'.kcb.sndWnd = e.kcb.sndWnd := congrArg Settings.sndWnd hset
  have hfast : e'.kcb.fastresend = e.kcb.fastresend := congrArg Settings.fastresend hset
  exact ⟨h.exec_cwnd hn hex, (sendInv_exec hex h.send).1, h.fast.exec hex, hwnd ▸ h.sndWnd, hfast ▸ h.fastresend⟩

/-- **In every reachable state the bracket holds.** -/
theorem window_run {conv : UInt32} {c : Config} {ops : List Op}
    (hr : run (Endpoint.exec b) (Endpoint.start conv c) ops = some e) (hn : ops.countP Op.isInput < 2 ^ 32 - 1)
    (hw : (configured conv c).sndWnd.toNat < 2 ^ 16) (hf : (configured conv c).fastresend.toNat < 2 ^ 16) :
    WindowInv (ops.countP Op.isInput) e.kcb := by
  have hstart : WindowInv 0 (Endpoint.start conv c).kcb := by
    refine ⟨cwndInv_start conv c, sendInv_start conv c, ?_, hw, hf⟩
    obtain ⟨sndWnd, rcvWnd, nodelay, rxMinrto, interval, fastresend, h⟩ := configured_eq conv c
    rw [Endpoint.start, h]
    exact fun s hs => absurd hs List.not_mem_nil
  have hall := run_tally (w := fun _ op _ => if op.isInput then 1 else 0)
    (I := fun n e => n < 2 ^ 32 - 1 → WindowInv n e.kcb)
    (fun n e op e' h hex hlt => window_exec (h (by omega)) (by omega) hex) hr (n := 0) fun _ => hstart
  rw [Nat.zero_add, tally_eq_countP Op.isInput hr] at hall
  exact hall hn

end Runs

/-- **The congestion window stays consistent.**  With a send window and a `resend` below `2 ^ 16`, in every state that
is reached with fewer than `2 ^ 32 - 1` calls of `input`: `incr` lies between `cwnd` and `cwnd + 1` segments and
`ssthresh` is 2 or more; a completed flush leaves a window of one segment or more; one `input` leaves the window, or
makes it larger by one segment, up to the remote window; and a build with overflow checks computes each new window, at
the end of `input` and at the end of a flush. -/
theorem congestion_window_consistent {b : Build} {conv : UInt32} {c : Config} {ops : List Op} {e : Endpoint}
    (hr : run (Endpoint.exec b) (Endpoint.start conv c) ops = some e) (hn : ops.countP Op.isInput < 2 ^ 32 - 1)
    (hw : (configured conv c).sndWnd.toNat < 2 ^ 16) (hf : (configured conv c).fastresend.toNat < 2 ^ 16) :
    (e.kcb.cwnd.toNat * e.kcb.mss ≤ e.kcb.incr.toNat ∧ e.kcb.incr.toNat < (e.kcb.cwnd.toNat + 1) * e.kcb.mss ∧
      2 ≤ e.kcb.ssthresh) ∧
    (∀ op k e', op.Completed → op.flushes b.profile e.kcb = some k → e.exec b op = some e' → 1 ≤ e'.kcb.cwnd) ∧
    (∀ d r k', e.kcb.input b.profile d = some (r, k') →
      k'.cwnd = e.kcb.cwnd ∨ k'.cwnd.toNat = e.kcb.cwnd.toNat + 1 ∧ k'.cwnd ≤ k'.rmtWnd) ∧
    (∀ d s k₁, (e.kcb.scanOf d).inputLoop b.profile d.length = some (.ok (), s) →
      (if s.flag then s.kcb.parseFastack b.profile s.maxack else some s.kcb) = some k₁ →
      (k₁.growCwnd .dev e.kcb.sndUna).isSome) ∧
    ∀ (op : Op) (k : Kcb) (cwnd : UInt32) (g : Flushing), op.flushes b.profile e.kcb = some k →
      k.transmit b = some (cwnd, g) → (settleCwnd .dev cwnd k.resent g.lost g.change g.kcb).isSome := by
  have hi := window_run hr hn hw hf
  have hflushes : ∀ {op : Op} {k : Kcb}, op.flushes b.profile e.kcb = some k → WindowInv (ops.countP Op.isInput) k := by
    intro op k hk
    rcases (flushes_eq hk).2 with rfl | ⟨now, ts, rfl⟩
    · exact hi
    · exact hi.clocked now ts
  refine ⟨⟨?_, ?_, hi.cwnd.thresh⟩, fun op k e' hop hk hex => ?_, fun d r k' hin => grown_input hin, ?_, ?_⟩
  · rw [hi.cwnd.mss]
    exact hi.cwnd.low
  · rw [hi.cwnd.mss]
    exact hi.cwnd.high
  · obtain ⟨f, hf, rfl⟩ := exec_of_flushes hop hk hex
    exact ((hflushes hk).flush hn hf none).2 (flushes_eq hk).1
  · intro d s k₁ hloop hfast
    obtain ⟨-, hs⟩ := inputLoop_rule (I := fun _ s => CwndInv s.kcb) (fun _ _ _ hs hst => cwndInv_inputStep hst hs) _
      hloop hi.cwnd
    obtain ⟨k₂, h₂, -⟩ := cwndInv_growCwnd (p := .dev) (cwndInv_fastack hs hfast) e.kcb.sndUna
    rw [h₂]
    rfl
  · intro op k cwnd g hk hg
    obtain ⟨k', hk', -⟩ := (hflushes hk).settles hn .dev hg
    rw [hk']
    rfl

/-- The first segment is acknowledged, and the window grows from one segment to two. -/
theorem congestion_window_consistent_grown :
    ∃ e r k', run (Endpoint.exec shipped) (Endpoint.start 7 {}) [.send [1], .update 0 none, .update 100 none] = some e ∧
      e.kcb.input .release (encodes [{ conv := 7, cmd := kcpCmdAck, wnd := 128, ts := 100, una := 1 }]) = some (r, k') ∧
      k'.cwnd.toNat = e.kcb.cwnd.toNat + 1 ∧ k'.cwnd ≤ k'.rmtWnd := by
  have hrun : ((run (Endpoint.exec shipped) (Endpoint.start 7 {})
      [.send [1], .update 0 none, .update 100 none]).bind fun e =>
        (e.kcb.input .release (encodes [{ conv := 7, cmd := kcpCmdAck, wnd := 128, ts := 100, una := 1 }])).map fun x =>
          decide (x.2.cwnd = e.kcb.cwnd)) = some false := by
    decide +kernel
  obtain ⟨e, he, h⟩ := Option.bind_eq_some_iff.mp hrun
  obtain ⟨⟨r, k'⟩, hin, hne⟩ := Option.map_eq_some_iff.mp h
  obtain ⟨-, -, hinput, -⟩ := congestion_window_consistent he (by decide) (by decide) (by decide)
  exact ⟨e, r, k', he, hin, (hinput _ r k' hin).resolve_left (of_decide_eq_false hne)⟩

end NetProtocols.Kcp
