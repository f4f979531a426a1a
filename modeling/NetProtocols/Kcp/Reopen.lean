import NetProtocols.Kcp.Probe
import NetProtocols.Kcp.RecvInv

/-!
# NetProtocols.Kcp.Reopen — a closed window is announced when it opens

The window that a flush tells is the room in `rcv_queue` when the flush begins.  Room comes from `recv` only, and `recv`
raises the flag for a WINS segment when it finds the queue full and leaves it not full.

* `wins_outgoing`: one of the segments of a flush is a WINS segment if the flag is up.
* `Announced`: after a window of zero the queue is full, or the flag is up; `announced_step`.
* `reopening_announced`: every run; `reopening_written`: the bytes.
-/

namespace NetProtocols.Kcp

open Kcb Flushing

/-! ### The window that is told -/

section Window

variable {p : Profile} {k k' : Kcb}

theorem wndUnused_eq_zero_iff (hroom : k.rcvQueue.length ≤ k.rcvWnd.toNat) :
    k.wndUnused = 0 ↔ k.rcvWnd.toNat ≤ k.rcvQueue.length := by
  have hw := k.rcvWnd.toNat_lt
  have hlen : (UInt32.ofNat k.rcvQueue.length).toNat = k.rcvQueue.length := by
    rw [UInt32.toNat_ofNat']
    exact Nat.mod_eq_of_lt (by omega)
  unfold wndUnused
  dsimp only
  split_ifs with hlt
  · have hlt' := UInt32.lt_iff_toNat_lt.mp hlt
    have hsub : (k.rcvWnd - UInt32.ofNat k.rcvQueue.length).toNat = k.rcvWnd.toNat - k.rcvQueue.length := by
      rw [UInt32.toNat_sub_of_le _ _ (UInt32.le_of_lt hlt), hlen]
    have hzero : (0 : UInt32).toNat = 0 := rfl
    rw [← UInt32.toNat_inj, hsub]
    omega
  · rw [UInt32.lt_iff_toNat_lt] at hlt
    exact iff_of_true rfl (by omega)

theorem wndUnused_le (k : Kcb) : k.wndUnused ≤ k.rcvWnd := by
  unfold wndUnused
  dsimp only
  split_ifs with hlt
  · rw [UInt32.le_iff_toNat_le, UInt32.toNat_sub_of_le _ _ (UInt32.le_of_lt hlt)]
    exact Nat.sub_le _ _
  · exact UInt32.zero_le

theorem toUInt16_wndUnused (hsmall : k.rcvWnd.toNat < 65536) : k.wndUnused.toUInt16 = 0 ↔ k.wndUnused = 0 := by
  have hle := UInt32.le_iff_toNat_le.mp (wndUnused_le k)
  have hzero : (0 : UInt32).toNat = 0 := rfl
  have hzero' : (0 : UInt16).toNat = 0 := rfl
  rw [← UInt16.toNat_inj, ← UInt32.toNat_inj, UInt32.toNat_toUInt16]
  omega

theorem told_probeWindow {t w pr : UInt32} (h : probeWindow p k = some (k.setProbes t w pr))
    (ht : k.probe &&& kcpAskTell ≠ 0) : pr &&& kcpAskTell ≠ 0 := by
  have hflags : pr = k.probe ∨ pr = k.probe ||| kcpAskSend := by
    unfold probeWindow at h
    split_ifs at h
    · exact Or.inl (congrArg Kcb.probe (Option.some.inj h)).symm
    · simp only [Option.bind_eq_bind, Option.bind_eq_some_iff, Option.some.injEq] at h
      obtain ⟨x, -, h⟩ := h
      exact Or.inl (congrArg Kcb.probe h).symm
    · simp only [Option.bind_eq_bind, Option.bind_eq_some_iff] at h
      obtain ⟨late, -, h⟩ := h
      split_ifs at h
      · simp only [Option.bind_eq_some_iff, Option.some.injEq] at h
        obtain ⟨x, -, y, -, h⟩ := h
        exact Or.inr (congrArg Kcb.probe h).symm
      · exact Or.inl (congrArg Kcb.probe (Option.some.inj h)).symm
  rcases hflags with rfl | rfl
  · exact ht
  · rw [raised_and _ (by decide)]
    exact ht

theorem wins_outgoing {segs : List Segment} (hu : k.updated = true) (h : k.outgoing p = some segs)
    (ht : k.probe &&& kcpAskTell ≠ 0) : ∃ s ∈ segs, s.cmd = kcpCmdWins := by
  obtain ⟨t, w, pr, data, hp, rfl, -⟩ := outgoing_cases hu h
  have hpr : pr &&& kcpAskTell ≠ 0 := told_probeWindow hp ht
  refine ⟨{ k.acklist.foldl ackSegment k.scratch with cmd := kcpCmdWins }, ?_, rfl⟩
  rw [probeSegment, probeSegment, if_pos hpr]
  simp

/-! ### The queue between two flushes -/

theorem rcvQueue_input {d : List UInt8} {r : Except IoError ℕ} (h : k.input p d = some (r, k')) :
    k.rcvQueue.length ≤ k'.rcvQueue.length := by
  refine input_rule (I := fun s => k.rcvQueue.length ≤ s.kcb.rcvQueue.length)
    (J := fun k' => k.rcvQueue.length ≤ k'.rcvQueue.length) h (le_refl _) (fun _ hs => hs) ?_ ?_
  · intro s s' hs hst
    obtain ⟨hd, rest, -, -, ht⟩ := Scan.inputStep_ok hst
    refine le_trans hs ?_
    cases Scan.taken_of_takeSegment ht with
    | ack hc hk =>
      rcases hk with rfl | ⟨rtt, hk⟩
      · unfold parseAck
        split_ifs <;> exact le_refl _
      · obtain ⟨srtt, rttval, rto, rfl⟩ := updateAck_eq hk
        unfold parseAck
        split_ifs <;> exact le_refl _
    | inside hc hsn hle hk =>
      rcases parseData_eq_moved hk with rfl | ⟨l, n, nxt, rfl⟩
      · exact le_refl _
      · simp [moved, setAcklist, Kcb.onHeader, parseUna, shrinkBuf]
    | above | below | wask | other => exact le_refl _
  · intro s k' hs hf
    obtain ⟨l, c, i, -, rfl⟩ := finishInput_eq hf
    exact hs

/-- After `recv` a queue that was full is full again, or the flag is up. -/
theorem recv_full {cap : ℕ} {r : Except IoError (List UInt8)} (h : k.recv p cap = some (r, k'))
    (hfull : k.rcvWnd.toNat ≤ k.rcvQueue.length) :
    k'.rcvWnd.toNat ≤ k'.rcvQueue.length ∨ k'.probe &&& kcpAskTell ≠ 0 := by
  rcases recv_recovers h with ⟨e, -, rfl⟩ | ⟨-, -, k₁, h1, rfl⟩
  · exact Or.inl hfull
  · rw [setProbe_rcvWnd, setProbe_rcvQueue, setProbe_probe]
    by_cases hopen : k₁.rcvQueue.length < k₁.rcvWnd.toNat
    · right
      rw [recovered, if_pos ⟨hopen, hfull⟩]
      exact raised_ne_zero _ (by decide)
    · left
      exact Nat.le_of_not_lt hopen

end Window

/-! ### Runs -/

/-- What holds between two calls after the segments `sent`: if the last one told a window of zero, the queue is full or
the flag is up. -/
structure Announced (sent : List Segment) (k : Kcb) : Prop where
  small : k.rcvWnd.toNat < 65536
  told : ∀ s ∈ sent.getLast?, s.wnd.toUInt16 = 0 →
    k.rcvWnd.toNat ≤ k.rcvQueue.length ∨ k.probe &&& kcpAskTell ≠ 0

section Announced

variable {b : Build} {e e' : Endpoint} {k : Kcb} {op : Op} {sent : List Segment}

/-- A completed flush: it tells the window itself, or sends nothing and leaves things as they are. -/
theorem Announced.flush (ha : Announced sent k) (hroom : k.rcvQueue.length ≤ k.rcvWnd.toNat) (hu : k.updated = true)
    {f : Flushing} (hf : k.flush b = some f) : Announced (sent ++ (k.outgoing b.profile).getD []) f.kcb := by
  obtain ⟨segs, hs, -⟩ := flush_outgoing hf
  have hfull : k.wndUnused.toUInt16 = 0 → k.rcvWnd.toNat ≤ k.rcvQueue.length := fun hz =>
    (wndUnused_eq_zero_iff hroom).mp ((toUInt16_wndUnused ha.small).mp hz)
  -- the flush writes neither the size of the receive window nor the queue
  have hwnd : f.kcb.rcvWnd = k.rcvWnd := congrArg Settings.rcvWnd (settings_flushed (flush_follows hf rfl) none)
  have hqueue : f.kcb.rcvQueue = k.rcvQueue := (queues_flushed (flush_follows hf rfl) none).1
  rw [hs, Option.getD_some]
  constructor
  · rw [hwnd]
    exact ha.small
  · intro s hlast hz
    left
    rw [hwnd, hqueue]
    by_cases hnil : segs = []
    · subst hnil
      rw [List.append_nil] at hlast
      rcases ha.told s hlast hz with h | h
      · exact h
      · obtain ⟨x, hx, -⟩ := wins_outgoing hu hs h
        exact absurd hx List.not_mem_nil
    · rw [List.getLast?_append_of_ne_nil _ hnil] at hlast
      have hwnd := wnd_outgoing hu hs s (List.mem_of_mem_getLast? hlast)
      rw [hwnd] at hz
      exact hfull hz

/-- A call that encodes nothing, keeps the flag, and keeps a full queue full or raises the flag. -/
theorem Announced.quiet {k' : Kcb} (ha : Announced sent k) (hw : k'.rcvWnd = k.rcvWnd)
    (hflag : k.probe &&& kcpAskTell ≠ 0 → k'.probe &&& kcpAskTell ≠ 0)
    (hfull : k.rcvWnd.toNat ≤ k.rcvQueue.length →
      k'.rcvWnd.toNat ≤ k'.rcvQueue.length ∨ k'.probe &&& kcpAskTell ≠ 0) : Announced (sent ++ []) k' := by
  rw [List.append_nil]
  constructor
  · rw [hw]
    exact ha.small
  · intro s hs hz
    rcases ha.told s hs hz with h | h
    · exact hfull h
    · exact Or.inr (hflag h)

/-- **One call of a run.** -/
theorem announced_step (ha : Announced sent e.kcb) (hi : RecvInv e.kcb.recvSide e.taken) (hop : op.Completed)
    (h : e.exec b op = some e') : Announced (sent ++ op.outgoing b.profile e.kcb) e'.kcb := by
  have hw : e'.kcb.rcvWnd = e.kcb.rcvWnd := congrArg Settings.rcvWnd (settings_exec h)
  have hnone : op.flushes b.profile e.kcb = none → op.outgoing b.profile e.kcb = [] := by
    intro hs
    rw [Op.outgoing, hs]
    rfl
  have hsome : ∀ {k : Kcb}, op.flushes b.profile e.kcb = some k →
      op.outgoing b.profile e.kcb = (k.outgoing b.profile).getD [] := by
    intro k hs
    rw [Op.outgoing, hs]
    rfl
  -- a call that encodes nothing must not lose the flag; a flush tells the window itself
  cases called_of_exec hop h with
  | send buf r hk =>
    rw [hnone rfl]
    refine ha.quiet hw (Tells.send hk).told fun hfull => Or.inl ?_
    obtain ⟨queue, hq⟩ := send_eq hk
    rw [hq]
    exact hfull
  | recv cap r hk =>
    rw [hnone rfl]
    exact ha.quiet hw (Tells.recv hk).told (recv_full hk)
  | input d r hk =>
    rw [hnone rfl]
    refine ha.quiet hw (Tells.input hk).told fun hfull => Or.inl ?_
    rw [hw]
    exact hfull.trans (rcvQueue_input hk)
  | idle hu hk =>
    rw [hnone (if_neg (by simp [hu])), hk]
    exact ha.quiet rfl (fun ht => ht) Or.inl
  | clock now ts hs hk =>
    rw [hnone hs, hk]
    exact ha.quiet rfl (fun ht => ht) Or.inl
  | update now ts f hs hfl hk =>
    rw [hsome hs, hk]
    exact Announced.flush (k := e.kcb.clocked now ts) ⟨ha.small, ha.told⟩ hi.room rfl hfl
  | flush f hu hfl hk =>
    rw [hsome (if_pos hu), hk]
    exact ha.flush hi.room hu hfl

theorem announced_run {ops : List Op} (hops : ∀ op ∈ ops, op.Completed) (hr : run (Endpoint.exec b) e ops = some e')
    (ha : Announced sent e.kcb) (hi : RecvInv e.kcb.recvSide e.taken) :
    Announced (sent ++ emitted b e ops) e'.kcb ∧ RecvInv e'.kcb.recvSide e'.taken := by
  induction ops generalizing e sent with
  | nil =>
    obtain rfl := Option.some.inj hr
    rw [emitted, List.append_nil]
    exact ⟨ha, hi⟩
  | cons op ops ih =>
    obtain ⟨t, h1, h2⟩ := run_cons.mp hr
    have hop := hops op (by simp)
    have hstep := ih (fun o ho => hops o (List.mem_cons_of_mem _ ho)) h2 (announced_step ha hi hop h1)
      (recvInv_exec h1 hi).1
    rw [emitted, h1]
    rw [List.append_assoc] at hstep
    exact hstep

/-- A run of completed flushes whose last segment told a window of zero, and room in the queue: the flag is up. -/
theorem flag_of_zero {conv : UInt32} {c : Config} {ops : List Op} {seg : Segment}
    (hsmall : (Kcb.configured conv c).rcvWnd.toNat < 65536) (hops : ∀ op ∈ ops, op.Completed)
    (hr : run (Endpoint.exec b) (Endpoint.start conv c) ops = some e)
    (hlast : (emitted b (Endpoint.start conv c) ops).getLast? = some seg) (hzero : seg.wnd.toUInt16 = 0)
    (hopen : 0 < e.kcb.wndUnused) : e.kcb.rcvWnd.toNat < 65536 ∧ e.kcb.probe &&& kcpAskTell ≠ 0 := by
  have hstart : Announced [] (Endpoint.start conv c).kcb := ⟨hsmall, fun s hs => nomatch hs⟩
  obtain ⟨ha, hi⟩ := announced_run hops hr hstart (recvInv_start conv c)
  rw [List.nil_append] at ha
  refine ⟨ha.small, ?_⟩
  rcases ha.told seg hlast hzero with h | h
  · rw [(wndUnused_eq_zero_iff hi.room).mpr h] at hopen
    exact absurd hopen (by decide)
  · exact h

/-- With the flag up and room in the queue, the next flush sends a WINS segment that tells the room. -/
theorem wins_next (hsmall : e.kcb.rcvWnd.toNat < 65536) (htell : e.kcb.probe &&& kcpAskTell ≠ 0)
    (hopen : 0 < e.kcb.wndUnused) (hs : (op.flushes b.profile e.kcb).isSome) (h : e.exec b op = some e') :
    ∃ s ∈ op.outgoing b.profile e.kcb, s.cmd = kcpCmdWins ∧ s.wnd.toUInt16 ≠ 0 := by
  obtain ⟨k, hk⟩ := Option.isSome_iff_exists.mp hs
  obtain ⟨f, cut, hf, -, -⟩ := exec_flushes hk h
  obtain ⟨hu, hclock⟩ := flushes_eq hk
  obtain ⟨hp, hw⟩ : k.probe = e.kcb.probe ∧ k.wndUnused = e.kcb.wndUnused := by
    rcases hclock with rfl | ⟨now, ts, rfl⟩ <;> exact ⟨rfl, rfl⟩
  obtain ⟨segs, ho, -⟩ := flush_outgoing hf
  obtain ⟨s, hmem, hcmd⟩ := wins_outgoing hu ho (hp ▸ htell)
  rw [Op.outgoing, hk, Option.bind_some, ho]
  refine ⟨s, hmem, hcmd, fun hz => ?_⟩
  rw [wnd_outgoing hu ho s hmem, hw] at hz
  rw [(toUInt16_wndUnused hsmall).mp hz] at hopen
  exact absurd hopen (by decide)

end Announced

/-- **A closed window is announced when it opens.**  In every state that a run of completed flushes reaches with a
receive window below `2 ^ 16`: if the last segment told a window of zero and there is room now, the flag is up, and the
next flush sends a WINS segment that tells a window that is not zero. -/
theorem reopening_announced {b : Build} {conv : UInt32} {c : Config} {ops : List Op} {e : Endpoint} {seg : Segment}
    (hsmall : (Kcb.configured conv c).rcvWnd.toNat < 65536) (hops : ∀ op ∈ ops, op.Completed)
    (hr : run (Endpoint.exec b) (Endpoint.start conv c) ops = some e)
    (hlast : (emitted b (Endpoint.start conv c) ops).getLast? = some seg) (hzero : seg.wnd.toUInt16 = 0)
    (hopen : 0 < e.kcb.wndUnused) :
    e.kcb.probe &&& kcpAskTell ≠ 0 ∧
      ∀ op e', op.Completed → (op.flushes b.profile e.kcb).isSome → e.exec b op = some e' →
        ∃ s ∈ op.outgoing b.profile e.kcb, s.cmd = kcpCmdWins ∧ s.wnd.toUInt16 ≠ 0 := by
  obtain ⟨hwnd, htell⟩ := flag_of_zero hsmall hops hr hlast hzero hopen
  exact ⟨htell, fun op e' _ hs h => wins_next hwnd htell hopen hs h⟩

/-- The same of the bytes: those of the run are segments, the last of which told a window of zero, and the announcement
stands among those that the flush adds. -/
theorem reopening_written {b : Build} {conv : UInt32} {c : Config} {ops : List Op} {e e' : Endpoint} {seg : Segment}
    {op : Op} (hsmall : (Kcb.configured conv c).rcvWnd.toNat < 65536) (hops : ∀ op ∈ ops, op.Completed)
    (hr : run (Endpoint.exec b) (Endpoint.start conv c) ops = some e)
    (hlast : (emitted b (Endpoint.start conv c) ops).getLast? = some seg) (hzero : seg.wnd.toUInt16 = 0)
    (hopen : 0 < e.kcb.wndUnused) (hop : op.Completed) (hs : (op.flushes b.profile e.kcb).isSome)
    (h : e.exec b op = some e') :
    ∃ told before s after, e.output = encodes (told ++ [seg]) ∧
      e'.output = encodes (told ++ [seg] ++ (before ++ s :: after)) ∧ s.cmd = kcpCmdWins ∧ s.wnd.toUInt16 ≠ 0 := by
  obtain ⟨hwnd, htell⟩ := flag_of_zero hsmall hops hr hlast hzero hopen
  obtain ⟨s, hmem, hcmd, hne⟩ := wins_next hwnd htell hopen hs h
  obtain ⟨told, htold⟩ := List.getLast?_eq_some_iff.mp hlast
  have hbefore : e.output = encodes (told ++ [seg]) := by
    rw [output_run hops hr, output_start, List.nil_append, htold]
  obtain ⟨segs, hout, hall⟩ := encodes_exec hbefore h
  rw [hall hop] at hmem
  obtain ⟨before, after, rfl⟩ := List.append_of_mem hmem
  exact ⟨told, before, s, after, hbefore, hout, hcmd, hne⟩

/-- A window of one segment, closed by the segment that comes in, and told so in its acknowledgement. -/
theorem reopening_announced_single :
    ∃ e, run (Endpoint.exec ⟨.release, bytesMut⟩) (Endpoint.start 7 { rcvwnd := 1 })
        [.update 0 none, .input (encodes [{ conv := 7, cmd := kcpCmdPush, wnd := 8, data := [5] }]), .update 100 none,
          .recv 16] = some e ∧
      e.kcb.probe &&& kcpAskTell ≠ 0 := by
  have h : ((run (Endpoint.exec ⟨.release, bytesMut⟩) (Endpoint.start 7 { rcvwnd := 1 })
      [.update 0 none, .input (encodes [{ conv := 7, cmd := kcpCmdPush, wnd := 8, data := [5] }]), .update 100 none,
        .recv 16]).map fun e => decide (0 < e.kcb.wndUnused)) = some true := by decide +kernel
  obtain ⟨e, he, hopen⟩ := Option.map_eq_some_iff.mp h
  have hlast : (emitted ⟨.release, bytesMut⟩ (Endpoint.start 7 { rcvwnd := 1 })
      [.update 0 none, .input (encodes [{ conv := 7, cmd := kcpCmdPush, wnd := 8, data := [5] }]), .update 100 none,
        .recv 16]).getLast? = some { conv := 7, cmd := kcpCmdAck, una := 1 } := by decide +kernel
  refine ⟨e, he, (reopening_announced (by decide) ?_ he hlast rfl (of_decide_eq_true hopen)).1⟩
  intro op hop
  simp only [List.mem_cons, List.not_mem_nil, or_false] at hop
  rcases hop with rfl | rfl | rfl | rfl
  · exact rfl
  · exact trivial
  · exact rfl
  · exact trivial

end NetProtocols.Kcp
