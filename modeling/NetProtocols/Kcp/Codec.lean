import NetProtocols.Kcp.Outbound
import NetProtocols.Kcp.RecvInv

/-!
# NetProtocols.Kcp.Codec — what the peer reads out of a segment

`encode` writes the low 16 bits of the window, and `input` steps over the data of a segment that it takes only.  So the
peer reads back what was meant exactly when the window fits into 16 bits and the data, if there is any, is taken.

* `mem_op_outgoing`: where a segment that a call encodes comes from.
* `Recovered`: the peer has read the segment.
* `recovered_iff`: when it does.
* `window_read_as_zero`: a window of `65536` is read as zero.
-/

namespace NetProtocols.Kcp

open Kcb Flushing

/-! ### The segments that are encoded -/

/-- A segment that a call encodes is one of a flush of the control block with its clock moved on. -/
theorem mem_op_outgoing {p : Profile} {k : Kcb} {op : Op} {seg : Segment} (h : seg ∈ op.outgoing p k) :
    ∃ now ts segs, (k.clocked now ts).outgoing p = some segs ∧ seg ∈ segs := by
  unfold Op.outgoing at h
  cases hs : op.flushes p k with
  | none =>
    rw [hs] at h
    exact absurd h List.not_mem_nil
  | some k' =>
    rw [hs, Option.bind_some] at h
    have hk : ∃ now ts, k' = k.clocked now ts := by
      cases op with
      | update now cut =>
        replace hs : (k.flushAt p now).getD none = some k' := hs
        cases hat : k.flushAt p now with
        | none =>
          rw [hat] at hs
          cases hs
        | some due =>
          rw [hat, Option.getD_some] at hs
          rw [hs] at hat
          obtain ⟨ts, e⟩ := flushAt_eq hat
          exact ⟨now, ts, e⟩
      | flush cut =>
        replace hs : (if k.updated then some k else none) = some k' := hs
        split_ifs at hs with hu
        obtain rfl := Option.some.inj hs
        refine ⟨k.current, k.tsFlush, ?_⟩
        rw [clocked, ← hu]
      | send | recv | input => cases hs
    obtain ⟨now, ts, rfl⟩ := hk
    cases ho : (k.clocked now ts).outgoing p with
    | none =>
      rw [ho] at h
      exact absurd h List.not_mem_nil
    | some segs =>
      rw [ho, Option.getD_some] at h
      exact ⟨now, ts, segs, ho, h⟩

/-- A segment of the conversation `conv` with a command that `input` knows; only PUSH segments carry data, and the
length fits into its field. -/
structure Segment.Sendable (conv : UInt32) (s : Segment) : Prop where
  conv : s.conv = conv
  cmd : validCmd s.cmd = true
  data : s.cmd ≠ kcpCmdPush → s.data = []
  len : s.data.length < 2 ^ 32

theorem sendable_outgoing {p : Profile} {k : Kcb} {op : Op} {seg : Segment} (ho : Outbound k)
    (h : seg ∈ op.outgoing p k) : seg.Sendable k.conv ∧ seg.wnd = k.wndUnused := by
  obtain ⟨now, ts, segs, hs, hmem⟩ := mem_op_outgoing h
  refine ⟨?_, wnd_outgoing (k := k.clocked now ts) rfl hs seg hmem⟩
  rcases mem_outgoing (k := k.clocked now ts) rfl hs seg hmem with ⟨hc, hcmd⟩ | hd
  · constructor
    · exact hc.conv
    · rcases hcmd with e | e | e <;> rw [e] <;> rfl
    · exact fun _ => hc.data
    · rw [hc.data]
      exact Nat.two_pow_pos 32
  · have hdata : seg.fixed.IsData k.conv :=
      hd.isData (k := k.clocked now ts) ⟨ho.sndBuf, ho.sndQueue, ho.mss, ho.stream⟩
    have hlen := hdata.len
    have hmss : kcpMtuDef - kcpOverhead = 1376 := rfl
    constructor
    · exact hdata.conv
    · rw [show seg.cmd = kcpCmdPush from hdata.cmd]
      rfl
    · exact fun hn => absurd hdata.cmd hn
    · show seg.fixed.data.length < 2 ^ 32
      omega

namespace Segment.Sendable

variable {conv : UInt32} {p : Profile} {seg : Segment} {s s' : Scan} {rest : List UInt8}

theorem length_header (hsend : seg.Sendable conv) : seg.header.len.toNat = seg.data.length := by
  show (UInt32.ofNat seg.data.length).toNat = _
  rw [UInt32.toNat_ofNat']
  exact Nat.mod_eq_of_lt hsend.len

/-- A segment that can be sent passes the tests of the header, so the step handles it. -/
theorem handled {r : Except IoError Scan} (hsend : seg.Sendable s.kcb.conv) (hbuf : s.buf = seg.encode ++ rest)
    (hs : s.inputStep p = some r) :
    ∃ s', r = .ok s' ∧ ({ s with buf := seg.data ++ rest } : Scan).takeSegment p seg.header = some s' := by
  have hread : readHeader s.buf = some (seg.header, seg.data ++ rest) := by
    rw [hbuf]
    exact readHeader_encode seg rest
  have h1 : ¬ seg.header.conv ≠ s.kcb.conv := fun hn => hn hsend.conv
  have h2 : ¬ (seg.data ++ rest).length < seg.header.len.toNat := by
    rw [hsend.length_header, List.length_append]
    omega
  have h3 : ¬ (!validCmd seg.header.cmd) = true := by
    rw [show validCmd seg.header.cmd = true from hsend.cmd]
    decide
  simp only [Scan.inputStep, hread, Option.bind_eq_bind, Option.bind_some, if_neg h1, if_neg h2, if_neg h3] at hs
  obtain ⟨s', ht, hs⟩ := Option.bind_eq_some_iff.mp hs
  exact ⟨s', (Option.some.inj hs).symm, ht⟩

end Segment.Sendable

/-! ### Reading them back -/

/-- In the step of the segment loop from `s` to `s'` the segment was read, with the free window `wnd` of its sender: the
header fields, the data, the cursor afterwards, and the window that the receiver keeps. -/
structure Recovered (wnd : UInt32) (seg : Segment) (rest : List UInt8) (s s' : Scan) : Prop where
  header : ∃ h buf, readHeader s.buf = some (h, buf) ∧ h.conv = seg.conv ∧ h.cmd = seg.cmd ∧ h.frg = seg.frg ∧
    h.wnd.toUInt32 = wnd ∧ h.ts = seg.ts ∧ h.sn = seg.sn ∧ h.una = seg.una ∧ buf.take h.len.toNat = seg.data
  buf : s'.buf = rest
  rmtWnd : s'.kcb.rmtWnd = wnd

section Reading

variable {p : Profile} {s s' : Scan} {h : Header}

theorem rmtWnd_taken (ht : Scan.Taken p s h s') : s'.kcb.rmtWnd = h.wnd.toUInt32 := by
  have hhead : (s.kcb.onHeader h).rmtWnd = h.wnd.toUInt32 := rfl
  cases ht with
  | ack hc hk =>
    rcases hk with rfl | ⟨rtt, hk⟩
    · unfold parseAck
      split_ifs <;> exact hhead
    · obtain ⟨srtt, rttval, rto, rfl⟩ := updateAck_eq hk
      unfold parseAck
      split_ifs <;> exact hhead
  | inside hc hsn hle hk =>
    rcases parseData_eq_moved hk with rfl | ⟨l, n, nxt, rfl⟩ <;> exact hhead
  | above | below | wask | other => exact hhead

/-- The step goes over the data of a PUSH segment in the window, and over nothing otherwise. -/
theorem buf_taken (ht : Scan.Taken p s h s') :
    s'.buf = if h.cmd = kcpCmdPush ∧ s.kcb.rcvNxt ≤ h.sn ∧ h.sn < s.kcb.rcvNxt + s.kcb.rcvWnd then
      s.buf.drop h.len.toNat else s.buf := by
  cases ht with
  | ack hc hk =>
    have hne : h.cmd ≠ kcpCmdPush := by rw [hc]; decide
    exact (if_neg fun hp => hne hp.1).symm
  | above hc hsn => exact (if_neg fun hp => UInt32.not_lt.mpr hsn hp.2.2).symm
  | below hc hsn hlt => exact (if_neg fun hp => UInt32.not_le.mpr hlt hp.2.1).symm
  | inside hc hsn hle hk => exact (if_pos ⟨hc, hle, hsn⟩).symm
  | wask hc =>
    have hne : h.cmd ≠ kcpCmdPush := by rw [hc]; decide
    exact (if_neg fun hp => hne hp.1).symm
  | other ha hc => exact (if_neg fun hp => hc hp.1).symm

theorem buf_taken_iff {conv : UInt32} {seg : Segment} {rest : List UInt8} (hsend : seg.Sendable conv)
    (hbuf : s.buf = seg.data ++ rest) (ht : Scan.Taken p s seg.header s') :
    s'.buf = rest ↔ seg.data = [] ∨ s.kcb.rcvNxt ≤ seg.sn ∧ seg.sn < s.kcb.rcvNxt + s.kcb.rcvWnd := by
  have hafter : s'.buf = if seg.cmd = kcpCmdPush ∧ s.kcb.rcvNxt ≤ seg.sn ∧ seg.sn < s.kcb.rcvNxt + s.kcb.rcvWnd then
      s.buf.drop seg.header.len.toNat else s.buf := buf_taken ht
  have hdrop : s.buf.drop seg.header.len.toNat = rest := by
    rw [hbuf, hsend.length_header]
    exact List.drop_left
  rw [hafter, hdrop, hbuf]
  by_cases hin : seg.cmd = kcpCmdPush ∧ s.kcb.rcvNxt ≤ seg.sn ∧ seg.sn < s.kcb.rcvNxt + s.kcb.rcvWnd
  · rw [if_pos hin]
    exact iff_of_true rfl (Or.inr hin.2)
  · rw [if_neg hin, List.append_left_eq_self]
    constructor
    · exact Or.inl
    · rintro (hnil | hwindow)
      · exact hnil
      · exact hsend.data fun hpush => hin ⟨hpush, hwindow⟩

end Reading

theorem toUInt32_toUInt16_eq_iff (x : UInt32) : x.toUInt16.toUInt32 = x ↔ x.toNat < 65536 := by
  have hx := x.toNat_lt
  rw [← UInt32.toNat_inj, UInt16.toNat_toUInt32, UInt32.toNat_toUInt16]
  omega

/-- **What the peer reads back.**  A segment that a call encodes in a reachable state is read back by the segment loop
of a peer, with the free window of its sender and exactly its own bytes, if and only if that window is below `2 ^ 16`,
and the segment has no data or its number is in the receive window of the peer. -/
theorem recovered_iff {b : Build} {p : Profile} {conv : UInt32} {c : Config} {ops : List Op} {e : Endpoint} {op : Op}
    {seg : Segment} {s : Scan} {rest : List UInt8} {r : Except IoError Scan}
    (hr : run (Endpoint.exec b) (Endpoint.start conv c) ops = some e) (hseg : seg ∈ op.outgoing b.profile e.kcb)
    (hconv : s.kcb.conv = e.kcb.conv) (hbuf : s.buf = seg.encode ++ rest) (hs : s.inputStep p = some r) :
    (∃ s', r = .ok s' ∧ Recovered e.kcb.wndUnused seg rest s s') ↔
      e.kcb.wndUnused.toNat < 65536 ∧
        (seg.data = [] ∨ s.kcb.rcvNxt ≤ seg.sn ∧ seg.sn < s.kcb.rcvNxt + s.kcb.rcvWnd) := by
  obtain ⟨hsend, hwnd⟩ := sendable_outgoing (outbound_run hr) hseg
  have hsend' : seg.Sendable s.kcb.conv := by
    rw [hconv]
    exact hsend
  obtain ⟨s', rfl, ht⟩ := hsend'.handled hbuf hs
  have htaken := Scan.taken_of_takeSegment ht
  -- the window is read back modulo 2^16, and the cursor stops behind data only where it is taken
  have hrmt : s'.kcb.rmtWnd = seg.wnd.toUInt16.toUInt32 := rmtWnd_taken htaken
  have hafter : s'.buf = rest ↔ seg.data = [] ∨ s.kcb.rcvNxt ≤ seg.sn ∧ seg.sn < s.kcb.rcvNxt + s.kcb.rcvWnd :=
    buf_taken_iff (s := { s with buf := seg.data ++ rest }) hsend rfl htaken
  rw [hwnd] at hrmt
  constructor
  · rintro ⟨_, heq, hrec⟩
    obtain rfl := Except.ok.inj heq
    constructor
    · rw [← toUInt32_toUInt16_eq_iff, ← hrmt]
      exact hrec.rmtWnd
    · exact hafter.mp hrec.buf
  · rintro ⟨hsmall, hdata⟩
    have hback := (toUInt32_toUInt16_eq_iff _).mpr hsmall
    have hread : readHeader s.buf = some (seg.header, seg.data ++ rest) := by
      rw [hbuf]
      exact readHeader_encode seg rest
    refine ⟨s', rfl, ⟨seg.header, seg.data ++ rest, hread, rfl, rfl, rfl, ?_, rfl, rfl, rfl, ?_⟩, ?_, ?_⟩
    · show seg.wnd.toUInt16.toUInt32 = _
      rw [hwnd]
      exact hback
    · rw [hsend.length_header]
      exact List.take_left
    · exact hafter.mpr hdata
    · rw [hrmt]
      exact hback

/-- The first data segment of a fresh conversation with the receive window `wnd`. -/
def firstSegment (wnd : UInt32) : Segment where
  conv := 7
  cmd := kcpCmdPush
  wnd := wnd
  ts := 100
  resendts := 325
  rto := 200
  xmit := 1
  data := [5]

/-- A window of 128, and a fresh peer. -/
theorem recovered_iff_fresh :
    ∃ e s', run (Endpoint.exec ⟨.release, bytesMut⟩) (Endpoint.start 7 { rcvwnd := 128 }) [.update 0 none, .send [5]] =
        some e ∧
      Recovered e.kcb.wndUnused (firstSegment 128) [] ((Kcb.configured 7 {}).scanOf (firstSegment 128).encode) s' := by
  have h : ((run (Endpoint.exec ⟨.release, bytesMut⟩) (Endpoint.start 7 { rcvwnd := 128 })
      [.update 0 none, .send [5]]).map fun e =>
        ((e.kcb.conv, e.kcb.wndUnused), (Op.update 100 none).outgoing .release e.kcb)) =
      some ((7, 128), [firstSegment 128]) := by decide +kernel
  obtain ⟨e, he, hsent⟩ := Option.map_eq_some_iff.mp h
  obtain ⟨hhead, hsegs⟩ := Prod.mk.inj hsent
  obtain ⟨hconv, hwnd⟩ := Prod.mk.inj hhead
  have hstep : (((Kcb.configured 7 {}).scanOf (firstSegment 128).encode).inputStep .release).isSome = true := by
    decide +kernel
  obtain ⟨r, hr⟩ := Option.isSome_iff_exists.mp hstep
  have hmem : firstSegment 128 ∈ (Op.update 100 none).outgoing .release e.kcb := by
    rw [hsegs]
    exact List.mem_cons_self
  have hpeer : ((Kcb.configured 7 {}).scanOf (firstSegment 128).encode).kcb.conv = e.kcb.conv := by
    rw [hconv]
    rfl
  have hbuf : ((Kcb.configured 7 {}).scanOf (firstSegment 128).encode).buf = (firstSegment 128).encode ++ [] :=
    (List.append_nil _).symm
  obtain ⟨s', -, hrec⟩ := (recovered_iff he hmem hpeer hbuf hr).mpr ⟨by rw [hwnd]; decide, Or.inr (by decide)⟩
  exact ⟨e, s', he, hrec⟩

/-- **A free window of `65536` is read as a closed one.** -/
theorem window_read_as_zero :
    ∃ e s', run (Endpoint.exec ⟨.release, bytesMut⟩) (Endpoint.start 7 { rcvwnd := 65536 })
        [.update 0 none, .send [5]] = some e ∧
      firstSegment 65536 ∈ (Op.update 100 none).outgoing .release e.kcb ∧ e.kcb.wndUnused = 65536 ∧
      ((Kcb.configured 7 {}).scanOf (firstSegment 65536).encode).inputStep .release = some (.ok s') ∧
      s'.kcb.rmtWnd = 0 ∧
      ¬ Recovered e.kcb.wndUnused (firstSegment 65536) [] ((Kcb.configured 7 {}).scanOf (firstSegment 65536).encode)
        s' := by
  have h : ((run (Endpoint.exec ⟨.release, bytesMut⟩) (Endpoint.start 7 { rcvwnd := 65536 })
      [.update 0 none, .send [5]]).map fun e =>
        (e.kcb.wndUnused, (Op.update 100 none).outgoing .release e.kcb)) =
      some (65536, [firstSegment 65536]) := by decide +kernel
  obtain ⟨e, he, hsent⟩ := Option.map_eq_some_iff.mp h
  obtain ⟨hwnd, hsegs⟩ := Prod.mk.inj hsent
  have hstep : (((Kcb.configured 7 {}).scanOf (firstSegment 65536).encode).inputStep .release).map
      (fun r => r.toOption.map fun s' => s'.kcb.rmtWnd) = some (some 0) := by decide +kernel
  obtain ⟨r, hr, hok⟩ := Option.map_eq_some_iff.mp hstep
  obtain ⟨s', hs', hrmt⟩ := Option.map_eq_some_iff.mp hok
  obtain rfl : r = .ok s' := by
    cases r with
    | error err => cases hs'
    | ok t => exact congrArg Except.ok (Option.some.inj hs')
  refine ⟨e, s', he, ?_, hwnd, hr, hrmt, ?_⟩
  · rw [hsegs]
    exact List.mem_cons_self
  · intro hrec
    have hback := hrec.rmtWnd
    rw [hwnd, hrmt] at hback
    exact absurd hback (by decide)

end NetProtocols.Kcp
