import NetProtocols.Kcp.OneFlush
import NetProtocols.Kcp.Stages

/-!
# NetProtocols.Kcp.Abandoned — an abandoned flush loses nothing

The stream polls a flush once and drops it when a write is pending.  What the control block owes its peer is then still
there, as a debt or as bytes.

* `Encoded`: the bytes of a segment are in the output buffer or in a datagram of the flush.
* `Kept`: nothing that was owed is lost; `Stage.kept`: at every moment of a flush.
* `abandoned_flush_loses_nothing`: from any reachable state, wherever the flush is left.
-/

namespace NetProtocols.Kcp

open Kcb Flushing

/-- The bytes of the segment are in the output buffer, or in one of the datagrams. -/
def Encoded (k : Kcb) (sent : List (List UInt8)) (seg : Segment) : Prop :=
  seg.encode <:+: k.buffer ∨ ∃ d ∈ sent, seg.encode <:+: d

/-- What `k` owed to its peer when a flush began, `k'` still owes, or it is encoded. -/
structure Kept (k k' : Kcb) (sent : List (List UInt8)) : Prop where
  acks : ∀ a ∈ k.acklist, a ∈ k'.acklist ∨ Encoded k' sent (ackSegment k.scratch a)
  asked : k.probe &&& kcpAskSend ≠ 0 → k'.probe &&& kcpAskSend ≠ 0 ∨
    Encoded k' sent { k.acklist.foldl ackSegment k.scratch with cmd := kcpCmdWask }
  due : k.ProbeDue → k'.probe &&& kcpAskSend ≠ 0 ∨ (k'.ProbeDue ∧ k'.tsProbe = k.tsProbe) ∨
    Encoded k' sent { k.acklist.foldl ackSegment k.scratch with cmd := kcpCmdWask }
  told : k.probe &&& kcpAskTell ≠ 0 → k'.probe &&& kcpAskTell ≠ 0 ∨
    Encoded k' sent { k.acklist.foldl ackSegment k.scratch with cmd := kcpCmdWins }
  data : (k'.sndBuf ++ k'.sndQueue).map Segment.data = (k.sndBuf ++ k.sndQueue).map Segment.data

variable {b : Build} {k k' : Kcb} {segs : List Segment} {seg : Segment}

theorem controls_asks {t w pr : UInt32}
    (hk : probeWindow b.profile (k.setAcklist []) = some ((k.setAcklist []).setProbes t w pr)) :
    (pr &&& kcpAskSend ≠ 0 ↔ k.ProbeDue ∨ k.probe &&& kcpAskSend ≠ 0) ∧ pr &&& kcpAskTell = k.probe &&& kcpAskTell :=
  probe_asks hk

theorem mem_probeSegment {ask pr : UInt32} {cmd : UInt8} (h : pr &&& ask ≠ 0) :
    ({ seg with cmd := cmd } : Segment) ∈ probeSegment ask cmd pr seg := by
  unfold probeSegment
  rw [if_pos h]
  exact List.mem_singleton_self _

/-- **At every moment of a flush nothing is lost.**  Until all the acknowledgements are encoded they are in `acklist`,
and the probe fields are untouched; then the flags are up until the probes are encoded. -/
theorem Stage.kept {t w pr : UInt32} {sent : List (List UInt8)} (h : Stage k t w pr segs k')
    (hk : probeWindow b.profile (k.setAcklist []) = some ((k.setAcklist []).setProbes t w pr))
    (hsegs : ∀ seg ∈ segs, Encoded k' sent seg) : Kept k k' sent := by
  obtain ⟨hask, htell⟩ := controls_asks hk
  cases h with
  | acks done rest hacks buf => exact ⟨fun a ha => Or.inl ha, Or.inl, fun hd => Or.inr (Or.inl ⟨hd, rfl⟩), Or.inl, rfl⟩
  | probes segs rest hall buf =>
    refine ⟨fun a ha => Or.inr ?_, fun h => Or.inl ?_, fun h => Or.inl ?_, fun h => Or.inl ?_, rfl⟩
    · exact hsegs _ (List.mem_append_left _ (List.mem_map_of_mem ha))
    · exact hask.mpr (Or.inr h)
    · exact hask.mpr (Or.inl h)
    · exact htell.trans_ne h
  | data segs nxt xmit l queue hdata buf =>
    have hcontrol : ∀ seg ∈ k.controls pr, Encoded _ sent seg := fun seg hs => hsegs seg (List.mem_append_left _ hs)
    have hwask : pr &&& kcpAskSend ≠ 0 →
        Encoded _ sent { k.acklist.foldl ackSegment k.scratch with cmd := kcpCmdWask } := fun h =>
      hcontrol _ (List.mem_append_left _ (List.mem_append_right _ (mem_probeSegment h)))
    refine ⟨fun a ha => Or.inr ?_, fun h => Or.inr ?_, fun h => Or.inr (Or.inr ?_), fun h => Or.inr ?_, hdata⟩
    · exact hcontrol _ (List.mem_append_left _ (List.mem_append_left _ (List.mem_map_of_mem ha)))
    · exact hwask (hask.mpr (Or.inr h))
    · exact hwask (hask.mpr (Or.inl h))
    · exact hcontrol _ (List.mem_append_right _ (mem_probeSegment (htell.trans_ne h)))

theorem Kept.setCwnd {sent : List (List UInt8)} (h : Kept k k' sent) (ssthresh cwnd incr : UInt32) :
    Kept k (k'.setCwnd ssthresh cwnd incr) sent :=
  ⟨h.acks, h.asked, h.due, h.told, h.data⟩

/-- Wherever a flush is left, nothing is lost. -/
theorem kept_stopAt {f : Flushing} (hu : k.updated = true) (hf : k.flush b = some f) (cut : Option ℕ) :
    Kept k (f.stopAt cut).1 (f.stopAt cut).2 := by
  obtain ⟨cwnd, g, hg, hsettle, hwrites⟩ := transmit_of_flush hu hf
  obtain ⟨t, w, pr, segs, hk, hm⟩ := transmit_stages hg
  rcases stopAt_cases f cut with hstop | ⟨i, x, hx, hstop⟩
  · obtain ⟨ssthresh, cwnd', incr, hsame⟩ := settleCwnd_eq hsettle
    rw [hstop, hsame, hwrites]
    exact (hm.now.kept hk fun seg hs => (hm.held seg hs).datagrams).setCwnd ssthresh cwnd' incr
  · rw [hwrites] at hx hstop
    obtain ⟨s, hstage, hheld⟩ := hm.writes i x hx
    rw [hstop]
    exact hstage.kept hk fun seg hs => (hheld seg hs).datagrams

/-- **An abandoned flush loses nothing.**  From any reachable state, wherever the flush of a call is left: what was owed
to the peer is still owed or it is encoded, no data of `snd_buf` and `snd_queue` is gone or out of its place, and the
send side is intact. -/
theorem abandoned_flush_loses_nothing {conv : UInt32} {c : Config} {ops : List Op} {e e' : Endpoint} {op : Op}
    (hr : run (Endpoint.exec b) (Endpoint.start conv c) ops = some e) (hk : op.flushes b.profile e.kcb = some k)
    (hex : e.exec b op = some e') :
    ∃ sent, e'.written = e.written ++ sent ∧ Kept k e'.kcb sent ∧ SendInv e'.kcb.sendSide := by
  obtain ⟨hu, -⟩ := flushes_eq hk
  have hinv := (sendInv_exec hex (sendInv_run hr).1).1
  obtain ⟨f, cut, hf, rfl, -⟩ := exec_flushes hk hex
  exact ⟨(f.stopAt cut).2, rfl, kept_stopAt hu hf cut, hinv⟩

/-- Two PUSH segments and a WASK segment come in. -/
def owingOps : List Op :=
  [.send [9], .input (encodes [{ conv := 7, cmd := kcpCmdPush, ts := 3, data := [5] },
    { conv := 7, cmd := kcpCmdPush, sn := 1, ts := 4, data := [6] }, { conv := 7, cmd := kcpCmdWask }])]

/-- A flush that is dropped at its second write has sent the first acknowledgement; the second one is in the buffer, and
the flag for the WINS segment is still up. -/
theorem abandoned_flush_loses_nothing_second :
    ∃ (e e' : Endpoint) (k : Kcb) (sent : List (List UInt8)),
      run (Endpoint.exec ⟨.release, bytesMut⟩) (Endpoint.start 7 {}) owingOps = some e ∧
      (Op.update 0 (some 1)).flushes .release e.kcb = some k ∧ k.acklist = [(0, 3), (1, 4)] ∧
      e.exec ⟨.release, bytesMut⟩ (.update 0 (some 1)) = some e' ∧
      e'.kcb.acklist = [] ∧ e'.kcb.buffer = (ackSegment k.scratch (1, 4)).encode ∧ e'.kcb.probe = kcpAskTell ∧
      e'.written = e.written ++ sent ∧ Kept k e'.kcb sent ∧ SendInv e'.kcb.sendSide := by
  have hrun : ((run (Endpoint.exec ⟨.release, bytesMut⟩) (Endpoint.start 7 {}) owingOps).bind fun e =>
      ((Op.update 0 (some 1)).flushes .release e.kcb).bind fun k =>
        (e.exec ⟨.release, bytesMut⟩ (.update 0 (some 1))).map fun e' => (k.acklist, e'.kcb.acklist,
          decide (e'.kcb.buffer = (ackSegment k.scratch (1, 4)).encode), e'.kcb.probe)) =
      some ([(0, 3), (1, 4)], [], true, kcpAskTell) := by
    decide +kernel
  obtain ⟨e, he, hk⟩ := Option.bind_eq_some_iff.mp hrun
  obtain ⟨k, hk, hx⟩ := Option.bind_eq_some_iff.mp hk
  obtain ⟨e', hx, hval⟩ := Option.map_eq_some_iff.mp hx
  simp only [Prod.mk.injEq, decide_eq_true_eq] at hval
  obtain ⟨hacks, hleft, hbuf, hprobe⟩ := hval
  obtain ⟨sent, hsent⟩ := abandoned_flush_loses_nothing he hk hx
  exact ⟨e, e', k, sent, he, hk, hacks, hx, hleft, hbuf, hprobe, hsent⟩

end NetProtocols.Kcp
