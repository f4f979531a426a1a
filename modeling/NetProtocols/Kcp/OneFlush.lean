import NetProtocols.Kcp.Acks
import NetProtocols.Kcp.Probe
import NetProtocols.Kcp.Trace

/-!
# NetProtocols.Kcp.OneFlush — what one flush emits

The trace of a flush says which segments it encodes; which of them are there, in a reachable state, depends on `fastack`
and on the probe flags.

* `FastackLe`, `fastack_run`: `fastack` is at most the number of `input` calls.
* `Kcb.ProbeDue`, `probeWindow_flags`: the flags after the window probe.
* `Op.Polls`, `asks_run`: between two flushes the flag for a WASK segment is down, or the buffer holds what an abandoned
  flush has left in it.
* `Kcb.oneFlush`: the segments of a flush, in order; `one_flush`: the datagrams are these segments.
-/

namespace NetProtocols.Kcp

open Kcb Flushing

/-! ### `fastack` -/

/-- The call is one of `input`. -/
def Op.isInput : Op → Bool
  | .input _ => true
  | _ => false

/-- No segment of `snd_buf` was passed over more than `n` times. -/
def FastackLe (n : ℕ) (k : Kcb) : Prop := ∀ s ∈ k.sndBuf, s.fastack.toNat ≤ n

section Fastack

variable {b : Build} {k k' : Kcb} {n : ℕ} {e e' : Endpoint} {op : Op}

theorem Kcb.Restamped.fastack {s s' : Segment} (h : Restamped k s s') : s'.fastack = s.fastack ∨ s'.fastack = 0 := by
  cases h with
  | first | timeout | idle => exact Or.inl rfl
  | fast => exact Or.inr rfl

theorem FastackLe.window (h : FastackLe n k) (moved : List Segment) : ∀ s ∈ k.window moved, s.fastack.toNat ≤ n := by
  intro s hs
  rcases List.mem_append.mp hs with hs | hs
  · exact h s hs
  · obtain ⟨sn, x, rfl⟩ := mem_entered hs
    exact Nat.zero_le n

theorem FastackLe.flush {f : Flushing} (h : FastackLe n k) (hf : k.flush b = some f) (cut : Option ℕ) :
    FastackLe n (f.stopAt cut).1 := by
  obtain ⟨moved, done, rest, hw, hb⟩ := stopAt_sndBuf hf cut
  have hwindow := h.window moved
  rw [hw] at hwindow
  intro s hs
  rw [hb] at hs
  rcases List.mem_append.mp hs with hs | hs
  · obtain ⟨x, hx, rfl⟩ := List.mem_map.mp hs
    rcases (restamped k x).fastack with e | e <;> rw [e]
    · exact hwindow x (List.mem_append_left _ hx)
    · exact Nat.zero_le n
  · exact hwindow s (List.mem_append_right _ hs)

theorem FastackLe.exec (h : FastackLe n e.kcb) (hex : e.exec b op = some e') :
    FastackLe (n + if op.isInput then 1 else 0) e'.kcb := by
  cases ran_of_exec hex with
  | send buf r hs _ =>
    obtain ⟨queue, e1⟩ := send_eq hs
    rw [e1]
    exact h
  | recv cap r hs _ =>
    rcases recv_recovers hs with ⟨err, -, e1⟩ | ⟨-, -, k₁, h1, e1⟩ <;> rw [e1]
    · exact h
    · obtain ⟨m, nxt, rfl⟩ := moveData_eq_moved h1
      exact h
  | input d r hs _ =>
    intro s' hs'
    obtain ⟨s, hmem, fastack, rfl, hf⟩ := bumped_input hs s' hs'
    have hle := h s hmem
    show fastack.toNat ≤ n + 1
    rcases hf with rfl | rfl
    · omega
    · have hadd : (s.fastack + 1).toNat ≤ s.fastack.toNat + 1 := by
        rw [UInt32.toNat_add]
        exact Nat.mod_le _ _
      omega
  | clock now ts cut e1 _ =>
    rw [e1]
    exact h
  | update now ts cut f hf e1 _ =>
    rw [e1]
    exact FastackLe.flush (k := e.kcb.clocked now ts) h hf cut
  | flush cut f hf e1 _ =>
    rw [e1]
    exact h.flush hf cut

/-- **In every reachable state `fastack` is at most the number of `input` calls.** -/
theorem fastack_run {conv : UInt32} {c : Config} {ops : List Op}
    (hr : run (Endpoint.exec b) (Endpoint.start conv c) ops = some e) : FastackLe (ops.countP Op.isInput) e.kcb := by
  have hstart : FastackLe 0 (Endpoint.start conv c).kcb := by
    obtain ⟨sndWnd, rcvWnd, nodelay, rxMinrto, interval, fastresend, h⟩ := configured_eq conv c
    rw [Endpoint.start, h]
    exact fun s hs => absurd hs List.not_mem_nil
  have hall := run_tally (w := fun _ op _ => if op.isInput then 1 else 0) (I := fun n e => FastackLe n e.kcb)
    (fun _ _ _ _ h hex => h.exec hex) hr hstart
  rwa [Nat.zero_add, tally_eq_countP Op.isInput hr] at hall

/-- The data loop sends the segment: it is new, its time has come, or `fastresend` later ones were acknowledged. -/
def Kcb.selects (k : Kcb) (s : Segment) : Bool :=
  s.xmit = 0 ∨ 0 ≤ k.lateness s ∨ (0 < k.fastresend ∧ k.fastresend ≤ s.fastack)

/-- Without fast retransmission `flush` compares with `u32::MAX`, which `fastack` does not reach. -/
theorem sends_eq_selects (hn : n < 2 ^ 32 - 1) {s : Segment} (hs : s.fastack.toNat ≤ n) : k.sends s = k.selects s := by
  have hmax : (UInt32.ofNat (2 ^ 32 - 1)).toNat = 2 ^ 32 - 1 := rfl
  have hiff : k.resent ≤ s.fastack ↔ 0 < k.fastresend ∧ k.fastresend ≤ s.fastack := by
    unfold resent
    split_ifs with hpos
    · exact (and_iff_right hpos).symm
    · refine iff_of_false ?_ fun h => hpos h.1
      rw [UInt32.le_iff_toNat_le]
      omega
  simp only [sends, selects, hiff]

end Fastack

/-! ### The probe flags -/

/-- The window is closed and the probe timer has run out. -/
def Kcb.ProbeDue (k : Kcb) : Prop := k.rmtWnd = 0 ∧ k.probeWait ≠ 0 ∧ 0 ≤ k.current.toInt32 - k.tsProbe.toInt32

instance (k : Kcb) : Decidable k.ProbeDue := inferInstanceAs (Decidable (_ ∧ _))

theorem probeWindow_flags {p : Profile} {k k' : Kcb} (h : probeWindow p k = some k') :
    k'.probe = if k.ProbeDue then k.probe ||| kcpAskSend else k.probe := by
  unfold probeWindow at h
  by_cases hr : k.rmtWnd ≠ 0
  · rw [if_pos hr] at h
    obtain rfl := Option.some.inj h
    exact (if_neg fun hd => hr hd.1).symm
  rw [if_neg hr] at h
  by_cases hw : k.probeWait = 0
  · rw [if_pos hw] at h
    simp only [Option.bind_eq_bind, Option.bind_eq_some_iff, Option.some.injEq] at h
    obtain ⟨t, -, rfl⟩ := h
    exact (if_neg fun hd => hd.2.1 hw).symm
  rw [if_neg hw] at h
  simp only [Option.bind_eq_bind, Option.bind_eq_some_iff] at h
  obtain ⟨late, hlate, h⟩ := h
  obtain rfl := Profile.subI32_eq_some hlate
  split_ifs at h with hl
  · simp only [Option.bind_eq_some_iff, Option.some.injEq] at h
    obtain ⟨w, -, t, -, rfl⟩ := h
    exact (if_pos ⟨not_not.mp hr, hw, hl⟩).symm
  · obtain rfl := Option.some.inj h
    exact (if_neg fun hd => hl hd.2.2).symm

theorem probe_asks {p : Profile} {k k' : Kcb} (h : probeWindow p k = some k') :
    (k'.probe &&& kcpAskSend ≠ 0 ↔ k.ProbeDue ∨ k.probe &&& kcpAskSend ≠ 0) ∧
      k'.probe &&& kcpAskTell = k.probe &&& kcpAskTell := by
  rw [probeWindow_flags h]
  split_ifs with hd
  · exact ⟨iff_of_true (raised_ne_zero _ (by decide)) (Or.inl hd), raised_and _ (by decide)⟩
  · exact ⟨(or_iff_right hd).symm, rfl⟩

/-- A write that is abandoned was called with bytes to write: `write_all` of an empty buffer polls nothing. -/
def Op.Polls (b : Build) (e : Endpoint) : Op → Prop
  | .update now (some i) => ∀ f, e.kcb.update b now = some f → ∀ w, f.writes[i]? = some w → w.buffer ≠ []
  | .flush (some i) => ∀ f, e.kcb.flush b = some f → ∀ w, f.writes[i]? = some w → w.buffer ≠ []
  | _ => True

/-- The flag for a WASK segment is down, or the buffer holds what an abandoned flush has left in it. -/
def AsksNot (k : Kcb) : Prop := k.buffer = [] → k.probe &&& kcpAskSend = 0

section Asks

variable {b : Build} {k k' : Kcb} {e e' : Endpoint} {op : Op}

theorem AsksNot.tells (h : AsksNot k) (hb : k'.buffer = k.buffer) (ht : k.Tells k') : AsksNot k' := by
  intro hnil
  rw [ht.asks]
  exact h (hb.symm.trans hnil)

theorem AsksNot.flush {f : Flushing} (h : AsksNot k) (hf : k.flush b = some f) {cut : Option ℕ}
    (hp : ∀ i, cut = some i → ∀ w, f.writes[i]? = some w → w.buffer ≠ []) : AsksNot (f.stopAt cut).1 := by
  have hend : AsksNot f.kcb := by
    cases hu : k.updated with
    | true =>
      obtain ⟨pr, moved, ht⟩ := flush_trace hu hf
      intro _
      rw [ht.probe]
      rfl
    | false =>
      have hidle := stopAt_of_idle hu hf none
      rw [show f.kcb = k from hidle]
      exact h
  unfold stopAt
  split
  · exact hend
  · rename_i w hw
    obtain ⟨i, hi, hw⟩ := Option.bind_eq_some_iff.mp hw
    exact fun hnil => absurd hnil (hp i hi w hw)

theorem AsksNot.exec (h : AsksNot e.kcb) (hp : op.Polls b e) (hex : e.exec b op = some e') : AsksNot e'.kcb := by
  cases op <;> simp only [Endpoint.exec, Option.map_eq_some_iff] at hex
  case send buf =>
    obtain ⟨⟨r, k'⟩, hs, rfl⟩ := hex
    have hk : AsksNot k' := by
      obtain ⟨queue, rfl⟩ := send_eq hs
      exact h
    cases r <;> exact hk
  case recv cap =>
    obtain ⟨⟨r, k'⟩, hs, rfl⟩ := hex
    have hk := h.tells (settings_recv hs).2.1 (.recv hs)
    cases r <;> exact hk
  case input d =>
    obtain ⟨⟨r, k'⟩, hs, rfl⟩ := hex
    exact h.tells (settings_input hs).2 (.input hs)
  case update now cut =>
    obtain ⟨f, hf, rfl⟩ := hex
    have hcut : ∀ i, cut = some i → ∀ w, f.writes[i]? = some w → w.buffer ≠ [] := by
      rintro i rfl
      exact hp f hf
    obtain ⟨ts, hcase⟩ := update_eq hf
    have hclock : AsksNot (e.kcb.clocked now ts) := h
    rcases hcase with rfl | hflush
    · exact stopAt_rule (I := AsksNot) hclock (fun w hw => absurd hw List.not_mem_nil) cut
    · exact hclock.flush hflush hcut
  case flush cut =>
    obtain ⟨f, hf, rfl⟩ := hex
    refine h.flush hf ?_
    rintro i rfl
    exact hp f hf

/-- **In every reachable state with an empty buffer the flag for a WASK segment is down.** -/
theorem asks_run {conv : UInt32} {c : Config} {ops : List Op}
    (hp : Meets (Endpoint.exec b) (fun e op => op.Polls b e) (Endpoint.start conv c) ops)
    (hr : run (Endpoint.exec b) (Endpoint.start conv c) ops = some e) : AsksNot e.kcb := by
  refine run_invariant_of_meets (I := fun e => AsksNot e.kcb) (fun _ _ _ h hp hex => h.exec hp hex) hp hr ?_
  obtain ⟨sndWnd, rcvWnd, nodelay, rxMinrto, interval, fastresend, h⟩ := configured_eq conv c
  rw [Endpoint.start, h]
  intro _
  show (0 : UInt32) &&& kcpAskSend = 0
  decide

end Asks

/-! ### One flush -/

/-- The segments that a flush of `k` emits when it moves `moved` from `snd_queue`, in order: the acknowledgements, the
window probe if `asks`, the window announcement if it was asked for, and the selected segments of the window. -/
def Kcb.oneFlush (k : Kcb) (asks : Prop) [Decidable asks] (moved : List Segment) : List Segment :=
  k.acklist.map (ackSegment k.scratch) ++
    (if asks then [{ k.acklist.foldl ackSegment k.scratch with cmd := kcpCmdWask }] else []) ++
    (if k.probe &&& kcpAskTell ≠ 0 then [{ k.acklist.foldl ackSegment k.scratch with cmd := kcpCmdWins }] else []) ++
    ((k.window moved).filter k.selects).map k.restamp

/-- The empty buffers aside, the datagrams are whole segments. -/
theorem datagrams_packed {writes : List Kcb} {parts : List (List Segment)}
    (h : writes.map (fun w => w.buffer) = parts.map encodes) :
    ∃ parts' : List (List Segment), datagrams writes = parts'.map encodes ∧ parts'.flatten = parts.flatten := by
  refine ⟨parts.filter fun l => !l.isEmpty, ?_, List.flatten_filter_not_isEmpty⟩
  rw [datagrams, h, List.filter_map]
  congr 1
  refine List.filter_congr fun l _ => ?_
  rw [Function.comp_apply, Bool.eq_iff_iff, Bool.not_eq_true', Bool.not_eq_true', Bool.eq_false_iff, Bool.eq_false_iff,
    ne_eq, ne_eq, List.isEmpty_iff, List.isEmpty_iff, encodes_eq_nil]

/-- **What one flush emits.**  In every state reached with fewer than `2 ^ 32 - 1` calls of `input`, a flush that begins
with an empty buffer runs to its end.  The datagrams are whole segments; one after the other they are the
acknowledgements, the WASK segment, the WINS segment and the selected segments of `snd_buf` as it is then, each once.
Nothing is left to acknowledge, to ask for or to write, and `snd_buf` has got what `snd_queue` has lost. -/
theorem one_flush {b : Build} {conv : UInt32} {c : Config} {ops : List Op} {e : Endpoint} (hb : b.profile = .release)
    (hpos : ∀ n, 0 < b.remainingMut n) (hr : run (Endpoint.exec b) (Endpoint.start conv c) ops = some e)
    (hn : ops.countP Op.isInput < 2 ^ 32 - 1) {op : Op} {k : Kcb} (hk : op.flushes b.profile e.kcb = some k)
    (hbuf : k.buffer = []) :
    ∃ (f : Flushing) (moved : List Segment) (parts : List (List Segment)), k.flush b = some f ∧
      datagrams f.writes = parts.map encodes ∧ (datagrams f.writes).flatten = encodes parts.flatten ∧
      parts.flatten = k.oneFlush (k.ProbeDue ∨ k.probe &&& kcpAskSend ≠ 0) moved ∧
      (Meets (Endpoint.exec b) (fun e op => op.Polls b e) (Endpoint.start conv c) ops →
        parts.flatten = k.oneFlush k.ProbeDue moved) ∧
      f.kcb.acklist = [] ∧ f.kcb.probe = 0 ∧ f.kcb.buffer = [] ∧
      k.sndQueue = moved ++ f.kcb.sndQueue ∧ f.kcb.sndBuf = (k.window moved).map k.restamp := by
  obtain ⟨hu, hcase⟩ := flushes_eq hk
  obtain ⟨f, hf⟩ := Option.isSome_iff_exists.mp (flush_release hb k)
  obtain ⟨pr, moved, ht⟩ := flush_trace hu hf
  obtain ⟨t, w, hprobe⟩ := ht.flags
  obtain ⟨parts, rest, hparts, hrest, hsegs⟩ := ht.trace.packed hbuf
  -- nothing is left in the buffer, so nothing but the datagrams was encoded
  obtain rfl : rest = [] := by
    rw [ht.buffer hpos] at hrest
    exact encodes_eq_nil.mp hrest.symm
  rw [List.append_nil] at hsegs
  obtain ⟨parts', hdata, hflat⟩ := datagrams_packed hparts
  -- which segments are selected
  have hfast : FastackLe (ops.countP Op.isInput) k := by
    rcases hcase with rfl | ⟨now, ts, rfl⟩
    · exact fastack_run hr
    · exact fastack_run hr
  have hselect : (k.window moved).filter k.sends = (k.window moved).filter k.selects :=
    List.filter_congr fun s hs => sends_eq_selects hn (hfast.window moved s hs)
  -- which flags are up
  obtain ⟨hask, htell⟩ := probe_asks hprobe
  have hemitted : parts'.flatten = k.oneFlush (k.ProbeDue ∨ k.probe &&& kcpAskSend ≠ 0) moved := by
    rw [hflat, hsegs, hselect, controls, oneFlush, probeSegment, probeSegment]
    replace htell : pr &&& kcpAskTell = k.probe &&& kcpAskTell := htell
    replace hask : pr &&& kcpAskSend ≠ 0 ↔ k.ProbeDue ∨ k.probe &&& kcpAskSend ≠ 0 := hask
    simp only [htell, hask]
  have hconcat : (datagrams f.writes).flatten = encodes parts'.flatten := by
    rw [hdata, encodes_flatten]
  refine ⟨f, moved, parts', hf, hdata, hconcat, hemitted, ?_, ht.acklist, ht.probe, ht.buffer hpos, ht.queue,
    ht.sndBuf⟩
  intro hp
  have hnot : k.probe &&& kcpAskSend = 0 := by
    rcases hcase with rfl | ⟨now, ts, rfl⟩
    · exact asks_run hp hr hbuf
    · exact asks_run hp hr hbuf
  rw [hemitted]
  simp only [oneFlush, hnot, ne_eq, not_true_eq_false, or_false]

/-- Three segments in flight, of which the second is acknowledged; then a PUSH and a WASK segment come in while the peer
tells a closed window. -/
def mixedOps : List Op :=
  [.send [1], .send [2], .send [3], .update 0 none,
    .input (encodes [{ conv := 7, cmd := kcpCmdAck, sn := 1 }]), .update 100 none,
    .input (encodes [{ conv := 7, cmd := kcpCmdPush, ts := 9, data := [5] }, { conv := 7, cmd := kcpCmdWask }])]

/-- The next flush acknowledges, asks, tells and sends the two segments whose time has come. -/
theorem one_flush_mixed :
    ∃ (e : Endpoint) (k : Kcb) (f : Flushing) (parts : List (List Segment)),
      run (Endpoint.exec ⟨.release, fun len => max 1 (bytesMut len)⟩) (Endpoint.start 7 { resend := 1, nc := true })
        mixedOps = some e ∧
      (Op.update 7200 none).flushes .release e.kcb = some k ∧
      k.flush ⟨.release, fun len => max 1 (bytesMut len)⟩ = some f ∧
      datagrams f.writes = parts.map encodes ∧
      parts.flatten.map (fun s => (s.cmd, s.sn, s.xmit)) =
        [(kcpCmdAck, 0, 0), (kcpCmdWask, 0, 0), (kcpCmdWins, 0, 0), (kcpCmdPush, 0, 3), (kcpCmdPush, 2, 2)] := by
  have hrun : ((run (Endpoint.exec ⟨.release, fun len => max 1 (bytesMut len)⟩)
      (Endpoint.start 7 { resend := 1, nc := true }) mixedOps).bind fun e =>
        ((Op.update 7200 none).flushes .release e.kcb).map fun k => (decide (k.buffer = []), decide (k.sndQueue = []),
          (k.oneFlush (k.ProbeDue ∨ k.probe &&& kcpAskSend ≠ 0) []).map fun s => (s.cmd, s.sn, s.xmit))) =
      some (true, true,
        [(kcpCmdAck, 0, 0), (kcpCmdWask, 0, 0), (kcpCmdWins, 0, 0), (kcpCmdPush, 0, 3), (kcpCmdPush, 2, 2)]) := by
    decide +kernel
  obtain ⟨e, he, hk⟩ := Option.bind_eq_some_iff.mp hrun
  obtain ⟨k, hk, hval⟩ := Option.map_eq_some_iff.mp hk
  simp only [Prod.mk.injEq, decide_eq_true_eq] at hval
  obtain ⟨hbuf, hqueue, hsegs⟩ := hval
  obtain ⟨f, moved, parts, hf, hdata, -, hflat, -, -, -, -, hmoved, -⟩ :=
    one_flush rfl (fun n => lt_of_lt_of_le one_pos (le_max_left 1 (bytesMut n))) he (by decide) hk hbuf
  rw [hqueue] at hmoved
  obtain rfl := (List.append_eq_nil_iff.mp hmoved.symm).1
  exact ⟨e, k, f, parts, he, hk, hf, hdata, by rw [hflat]; exact hsegs⟩

end NetProtocols.Kcp
