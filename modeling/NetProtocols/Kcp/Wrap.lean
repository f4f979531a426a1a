import NetProtocols.Kcp.Steady
import NetProtocols.Kcp.SendInv

/-!
# NetProtocols.Kcp.Wrap — sequence numbers are not serial numbers

`input` and `flush` commute with a shift of all sequence numbers as long as no comparison they make reaches across the
end of a lap; where one does, it turns around.

* `Kcb.Shifts`, `Flushing.Shifts`: a control block and a flush with its datagrams, and their shifts.
* `FlushSteady`: the comparison that `flush` makes; `flush_shifts_iff`.
* `shift_commutes`: both calls.
* `shift_stops`: a fresh conversation, and its shift, which takes nothing and sends nothing.
-/

namespace NetProtocols.Kcp

open Kcb Scan

/-! ### A flush -/

/-- `k'` is `k` shifted, the segments waiting in `buffer` included. -/
def Kcb.Shifts (δ : UInt32) (k k' : Kcb) : Prop :=
  ∃ pend pend', k.buffer = encodes pend ∧ List.Forall₂ (Segment.Shifts δ) pend pend' ∧ k' = k.shift δ (encodes pend')

/-- A flush under way and its shift: the control blocks, and one by one the datagrams written. -/
structure Flushing.Shifts (δ : UInt32) (f f' : Flushing) : Prop where
  kcb : f.kcb.Shifts δ f'.kcb
  writes : List.Forall₂ (Kcb.Shifts δ) f.writes f'.writes
  tests : f'.tests = f.tests
  lost : f'.lost = f.lost
  change : f'.change = f.change

open Flushing

section Flush

variable {δ : UInt32} {b : Build} {f f' : Flushing} {k k' : Kcb}

/-- What neither looks at sequence numbers nor at the buffer carries the relation over. -/
theorem shifts_of_map {x x' : Option Kcb} (h : k.Shifts δ k') (hbuf : ∀ k₁, x = some k₁ → k₁.buffer = k.buffer)
    (hx : x' = x.map (Kcb.shift δ k'.buffer)) : Option.Rel (Kcb.Shifts δ) x x' := by
  obtain ⟨pend, pend', hb, hp, rfl⟩ := h
  rw [hx]
  cases hx1 : x with
  | none => exact Option.Rel.none
  | some k₁ => exact Option.Rel.some ⟨pend, pend', (hbuf k₁ hx1).trans hb, hp, rfl⟩

theorem writeAll_shifts (h : f.Shifts δ f') : f.writeAll.Shifts δ f'.writeAll := by
  obtain ⟨pend, pend', hb, hp, hk⟩ := h.kcb
  refine ⟨⟨[], [], rfl, .nil, ?_⟩, ?_, h.tests, h.lost, h.change⟩
  · show f'.kcb.setBuffer [] = _
    rw [hk]
    rfl
  · exact List.rel_append h.writes (.cons h.kcb .nil)

theorem length_buffer_shifts (h : k.Shifts δ k') : k'.buffer.length = k.buffer.length := by
  obtain ⟨pend, pend', hb, hp, rfl⟩ := h
  rw [hb]
  exact length_encodes_shifts hp

theorem sizeTest_shifts (h : f.Shifts δ f') (need : ℕ) :
    Option.Rel (Flushing.Shifts δ) (f.sizeTest b need) (f'.sizeTest b need) := by
  have hlen := length_buffer_shifts h.kcb
  have hmtu : f'.kcb.mtu = f.kcb.mtu := by
    obtain ⟨pend, pend', -, -, hk⟩ := h.kcb
    rw [hk]
    rfl
  exact sizeTest_rel (R := Flushing.Shifts δ) hlen hmtu
    (fun t => ⟨h.kcb, h.writes, by rw [h.tests], h.lost, h.change⟩) (fun _ _ => writeAll_shifts) need

theorem put_shifts {seg seg' : Segment} (h : f.Shifts δ f') (hs : seg.Shifts δ seg') :
    (f.put seg).Shifts δ (f'.put seg') := by
  obtain ⟨pend, pend', hb, hp, hk⟩ := h.kcb
  refine ⟨⟨pend ++ [seg], pend' ++ [seg'], ?_, List.rel_append hp (.cons hs .nil), ?_⟩, h.writes, h.tests, h.lost,
    h.change⟩
  · show f.kcb.buffer ++ seg.encode = _
    rw [hb, encodes_append, encodes_cons, encodes_nil, List.append_nil]
  · show f'.kcb.setBuffer (f'.kcb.buffer ++ seg'.encode) = _
    rw [hk, encodes_append, encodes_cons, encodes_nil, List.append_nil]
    rfl

/-- The scratch segment of `flush`: its number is shifted only once it is that of an acknowledgement. -/
def ScratchShifts (δ : UInt32) (seg seg' : Segment) : Prop := seg' = { seg with sn := seg'.sn, una := seg.una + δ }

theorem flushAcks_shifts {acks : List (UInt32 × UInt32)} {seg seg' : Segment} (h : f.Shifts δ f')
    (hs : ScratchShifts δ seg seg') :
    Option.Rel (fun r r' => ScratchShifts δ r.1 r'.1 ∧ r.2.Shifts δ r'.2) (flushAcks b acks seg f)
      (flushAcks b (acks.map (shiftAck δ)) seg' f') := by
  induction acks generalizing seg seg' f f' with
  | nil => exact Option.Rel.some ⟨hs, h⟩
  | cons ack acks ih =>
    rw [List.map_cons]
    unfold flushAcks
    refine rel_bind (sizeTest_shifts h kcpOverhead) fun g g' _ hg => ?_
    have hseg : Segment.Shifts δ { seg with sn := ack.1, ts := ack.2 }
        { seg' with sn := (shiftAck δ ack).1, ts := (shiftAck δ ack).2 } := by
      rw [hs]
      exact ⟨rfl, fun _ => rfl⟩
    exact ih (put_shifts hg hseg) hseg.1

theorem probeWindow_shift (p : Profile) (k : Kcb) (buf : List UInt8) :
    probeWindow p (k.shift δ buf) = (probeWindow p k).map (Kcb.shift δ buf) := by
  exact probeWindow_frame (Kcb.shift δ buf) k rfl rfl rfl rfl rfl fun _ _ _ => rfl

theorem probeWindow_shifts (p : Profile) (h : k.Shifts δ k') :
    Option.Rel (Kcb.Shifts δ) (probeWindow p k) (probeWindow p k') := by
  refine shifts_of_map h (fun k₁ hk => ?_) ?_
  · obtain ⟨tsProbe, probeWait, probe, rfl⟩ := probeWindow_eq hk
    rfl
  · obtain ⟨pend, pend', -, -, rfl⟩ := h
    exact probeWindow_shift p k _

theorem flushProbe_shifts {ask : UInt32} {cmd : UInt8} {seg seg' : Segment} (hp : cmd ≠ kcpCmdPush)
    (ha : cmd ≠ kcpCmdAck) (h : f.Shifts δ f') (hs : ScratchShifts δ seg seg') :
    Option.Rel (fun r r' => ScratchShifts δ r.1 r'.1 ∧ r.2.Shifts δ r'.2) (flushProbe b ask cmd seg f)
      (flushProbe b ask cmd seg' f') := by
  have hprobe : f'.kcb.probe = f.kcb.probe := by
    obtain ⟨pend, pend', -, -, hk⟩ := h.kcb
    rw [hk]
    rfl
  have hseg : Segment.Shifts δ { seg with cmd := cmd } { seg' with cmd := cmd } := by
    rw [hs]
    exact ⟨rfl, fun hc => (hc.elim hp ha).elim⟩
  unfold flushProbe
  rw [hprobe]
  split_ifs
  · exact rel_bind (sizeTest_shifts h kcpOverhead) fun g g' _ hg => Option.Rel.some ⟨hseg.1, put_shifts hg hseg⟩
  · exact Option.Rel.some ⟨hs, h⟩

theorem wndUnused_shift (k : Kcb) (buf : List UInt8) : (k.shift δ buf).wndUnused = k.wndUnused := by
  unfold wndUnused
  rw [show (k.shift δ buf).rcvQueue.length = k.rcvQueue.length from List.length_map _]
  rfl

theorem flushControl_shifts (h : k.Shifts δ k') :
    Option.Rel (Flushing.Shifts δ) (flushControl b k) (flushControl b k') := by
  have hscratch : ScratchShifts δ k.scratch k'.scratch := by
    obtain ⟨pend, pend', -, -, rfl⟩ := h
    unfold ScratchShifts scratch
    rw [wndUnused_shift]
    rfl
  have hacks : k'.acklist = k.acklist.map (shiftAck δ) := by
    obtain ⟨pend, pend', -, -, rfl⟩ := h
    rfl
  have hclear : ∀ {f f' : Flushing}, f.Shifts δ f' → (f.kcb.setAcklist []).Shifts δ (f'.kcb.setAcklist []) := by
    intro f f' hf
    obtain ⟨pend, pend', hb, hp, hk⟩ := hf.kcb
    exact ⟨pend, pend', hb, hp, by rw [hk]; rfl⟩
  unfold flushControl
  rw [hacks]
  refine rel_bind (flushAcks_shifts ⟨h, .nil, rfl, rfl, rfl⟩ hscratch) fun r r' _ hr => ?_
  refine rel_bind (probeWindow_shifts b.profile (hclear hr.2)) fun k₁ k₁' _ hk => ?_
  have hf : Flushing.Shifts δ { r.2 with kcb := k₁ } { r'.2 with kcb := k₁' } :=
    ⟨hk, hr.2.writes, hr.2.tests, hr.2.lost, hr.2.change⟩
  refine rel_bind (flushProbe_shifts (by decide) (by decide) hf hr.1) fun q q' _ hq => ?_
  refine rel_bind (flushProbe_shifts (by decide) (by decide) hq.2 hq.1) fun g g' _ hg => ?_
  obtain ⟨pend, pend', hb, hp, hk⟩ := hg.2.kcb
  refine Option.Rel.some ⟨⟨pend, pend', hb, hp, ?_⟩, hg.2.writes, hg.2.tests, hg.2.lost, hg.2.change⟩
  show Kcb.setProbes _ _ _ _ = _
  rw [hk]
  rfl

/-- Below the edge every number is on the lap of the edge, if the first is. -/
theorem fillWindow_shift {edge wnd : UInt32} {queue : List Segment} (hl : queue ≠ [] → SameLap δ k.sndNxt edge)
    (buf : List UInt8) :
    fillWindow .release (edge + δ) wnd queue (k.shift δ buf) =
      (fillWindow .release edge wnd queue k).map (Kcb.shift δ buf) := by
  induction queue generalizing k with
  | nil => rfl
  | cons seg rest ih =>
    have hlap := hl (List.cons_ne_nil _ _)
    unfold fillWindow
    rw [show (k.shift δ buf).sndNxt = k.sndNxt + δ from rfl]
    by_cases hlt : k.sndNxt < edge
    · have hmove : moveSegment (k.shift δ buf) wnd (k.sndNxt + 1 + δ) seg rest =
          (moveSegment k wnd (k.sndNxt + 1) seg rest).shift δ buf := by
        unfold moveSegment Kcb.shift
        simp only [List.map_append]
        rfl
      rw [if_pos hlt, if_pos (hlap.add_lt_add.mpr hlt)]
      simp only [Profile.add_release, Option.bind_eq_bind, Option.bind_some]
      rw [add_shift, hmove]
      have hsucc := toNat_succ_of_lt hlt
      have hle : k.sndNxt ≤ k.sndNxt + 1 := by
        rw [UInt32.le_iff_toNat_le, hsucc]
        exact Nat.le_succ _
      have hge : k.sndNxt + 1 ≤ edge := by
        rw [UInt32.le_iff_toNat_le, hsucc]
        exact UInt32.lt_iff_toNat_lt.mp hlt
      exact ih fun _ => hlap.between hle hge
    · rw [if_neg hlt, if_neg (mt hlap.add_lt_add.mp hlt)]
      rfl

/-- The branches of the loop "flush data segments" look at no sequence number. -/
theorem stamp_shift (k : Kcb) (rtomin : UInt32) (seg : Segment) (d : Due) (buf : List UInt8) :
    stamp .release (k.shift δ buf) rtomin (seg.shift δ) d =
      (stamp .release k rtomin seg d).map fun r => (r.1.shift δ, r.2.shift δ buf) := by
  cases d <;> rfl

theorem stamped_shifts (h : f.Shifts δ f') {k₁ : Kcb} (hk : k₁.buffer = f.kcb.buffer) (d : Due) :
    Flushing.Shifts δ { f with kcb := k₁, lost := f.lost || d == Due.timeout, change := f.change || d == Due.fast }
      { f' with
        kcb := k₁.shift δ f'.kcb.buffer
        lost := f'.lost || d == Due.timeout
        change := f'.change || d == Due.fast } := by
  obtain ⟨pend, pend', hbuf, hp, hk'⟩ := h.kcb
  have hbuf' : f'.kcb.buffer = encodes pend' := by
    rw [hk']
    rfl
  refine ⟨⟨pend, pend', hk.trans hbuf, hp, by rw [hbuf']⟩, h.writes, h.tests, ?_, ?_⟩
  · show (f'.lost || _) = _
    rw [h.lost]
  · show (f'.change || _) = _
    rw [h.change]

theorem setSndBuf_shift (k : Kcb) (done rest : List Segment) (seg : Segment) (xmit : UInt32) (buf : List UInt8) :
    (k.setSndBuf (done ++ seg :: rest) xmit).shift δ buf =
      (k.shift δ buf).setSndBuf (done.map (Segment.shift δ) ++ seg.shift δ :: rest.map (Segment.shift δ)) xmit := by
  unfold setSndBuf Kcb.shift
  simp only [List.map_append, List.map_cons]

/-- The loop "flush data segments", by induction on the rest of `snd_buf`. -/
theorem flushData_shifts (hb : b.profile = .release) {resent rtomin wnd : UInt32} {done rest : List Segment}
    (h : f.Shifts δ f') :
    Option.Rel (Flushing.Shifts δ) (flushData b resent rtomin wnd done rest f)
      (flushData b resent rtomin wnd (done.map (Segment.shift δ)) (rest.map (Segment.shift δ)) f') := by
  induction rest generalizing done f f' with
  | nil => exact Option.Rel.some h
  | cons seg rest ih =>
    have hk : f'.kcb = f.kcb.shift δ f'.kcb.buffer := by
      obtain ⟨pend, pend', -, -, hk⟩ := h.kcb
      rw [hk]
      rfl
    -- neither the due test nor the stamp sees a sequence number
    have hdue : due b.profile f'.kcb.current resent (seg.shift δ) = due b.profile f.kcb.current resent seg := by
      rw [hk]
      rfl
    have hstamp : ∀ d, stamp .release f'.kcb rtomin (seg.shift δ) d =
        (stamp .release f.kcb rtomin seg d).map fun r => (r.1.shift δ, r.2.shift δ f'.kcb.buffer) := by
      intro d
      rw [← stamp_shift, ← hk]
    have hdone : ∀ x : Segment, done.map (Segment.shift δ) ++ [x.shift δ] = (done ++ [x]).map (Segment.shift δ) := by
      intro x
      rw [List.map_append, List.map_singleton]
    rw [List.map_cons]
    unfold flushData
    rw [hdue, hb]
    simp only [Option.bind_eq_bind]
    cases due .release f.kcb.current resent seg with
    | none => exact Option.Rel.none
    | some d =>
      simp only [Option.bind_some]
      rw [hstamp]
      cases hst : stamp .release f.kcb rtomin seg d with
      | none => exact Option.Rel.none
      | some r =>
        obtain ⟨seg₁, k₁⟩ := r
        have hk₁ : k₁.buffer = f.kcb.buffer := by
          obtain ⟨-, xmit, rfl⟩ := stamp_eq hst
          rfl
        simp only [Option.map_some, Option.bind_some]
        by_cases hno : d = .no
        · rw [if_pos hno, if_pos hno, hdone]
          exact ih (stamped_shifts h hk₁ d)
        · have hnext := stamped_shifts h
            (show (k₁.setSndBuf (done ++ refresh k₁ wnd seg₁ :: rest) k₁.xmit).buffer = f.kcb.buffer from hk₁) d
          rw [setSndBuf_shift] at hnext
          rw [if_neg hno, if_neg hno,
            show refresh (k₁.shift δ f'.kcb.buffer) wnd (seg₁.shift δ) = (refresh k₁ wnd seg₁).shift δ from rfl, hdone]
          exact rel_bind (sizeTest_shifts hnext _) fun g g' _ hg => ih (put_shifts hg (Segment.shifts_shift δ _))

theorem writeRest_shifts (h : f.Shifts δ f') : (f.writeRest b).Shifts δ (f'.writeRest b) := by
  unfold writeRest
  rw [length_buffer_shifts h.kcb]
  split_ifs
  · exact writeAll_shifts h
  · exact h

theorem settleCwnd_shift (k : Kcb) (cwnd resent : UInt32) (lost change : Bool) (buf : List UInt8) :
    settleCwnd .release cwnd resent lost change (k.shift δ buf) =
      (settleCwnd .release cwnd resent lost change k).map (Kcb.shift δ buf) := by
  unfold settleCwnd
  rw [show (k.shift δ buf).sndNxt = k.sndNxt + δ from rfl, show (k.shift δ buf).sndUna = k.sndUna + δ from rfl]
  simp only [Profile.sub_release, sub_shift]
  cases change <;> cases lost <;>
    simp only [Bool.false_eq_true, if_false, if_true, Profile.add_release, Profile.mul_release, Option.bind_eq_bind,
      Option.bind_some, Option.map_some, Option.some.injEq]
  · show (if k.cwnd < 1 then _ else _) = Kcb.shift δ buf (if k.cwnd < 1 then _ else _)
    split_ifs <;> rfl
  · rfl
  · split_ifs <;> rfl
  · rfl

theorem fillWindow_buffer {p : Profile} {edge wnd : UInt32} {queue : List Segment}
    (h : fillWindow p edge wnd queue k = some k') : k'.buffer = k.buffer := by
  obtain ⟨nxt, l, rest, rfl⟩ := fillWindow_eq h
  rfl

theorem fillWindow_shifts (h : k.Shifts δ k')
    (hl : k.sndQueue ≠ [] → SameLap δ k.sndNxt (k.sndUna + k.flushWnd)) (wnd : UInt32) :
    Option.Rel (Kcb.Shifts δ) (fillWindow .release (k.sndUna + k.flushWnd) wnd k.sndQueue k)
      (fillWindow .release (k'.sndUna + k'.flushWnd) wnd k'.sndQueue k') := by
  refine shifts_of_map h (fun k₁ h₁ => fillWindow_buffer h₁) ?_
  obtain ⟨pend, pend', -, -, rfl⟩ := h
  rw [show (k.shift δ (encodes pend')).sndUna + (k.shift δ (encodes pend')).flushWnd = k.sndUna + k.flushWnd + δ
    from add_shift _ _ _]
  exact fillWindow_shift hl _

theorem settleCwnd_shifts (h : f.Shifts δ f') (cwnd resent : UInt32) :
    Option.Rel (Kcb.Shifts δ) (settleCwnd .release cwnd resent f.lost f.change f.kcb)
      (settleCwnd .release cwnd resent f'.lost f'.change f'.kcb) := by
  refine shifts_of_map h.kcb (fun k₁ h₁ => ?_) ?_
  · obtain ⟨s, c, i, rfl⟩ := settleCwnd_eq h₁
    rfl
  · obtain ⟨pend, pend', -, -, hk⟩ := h.kcb
    rw [h.lost, h.change, hk]
    exact settleCwnd_shift _ _ _ _ _ _

/-- The comparison that `flush` makes: `snd_nxt < snd_una + cwnd`, for every segment that waits. -/
def FlushSteady (δ : UInt32) (k : Kcb) : Prop :=
  k.updated = true → k.sndQueue ≠ [] → SameLap δ k.sndNxt (k.sndUna + k.flushWnd)

theorem flush_shifts (hb : b.profile = .release) (h : k.Shifts δ k') (hl : FlushSteady δ k) :
    Option.Rel (Flushing.Shifts δ) (k.flush b) (k'.flush b) := by
  have hupdated : k'.updated = k.updated := by
    obtain ⟨pend, pend', -, -, rfl⟩ := h
    rfl
  have hwnd : k'.wndUnused = k.wndUnused := by
    obtain ⟨pend, pend', -, -, rfl⟩ := h
    exact wndUnused_shift _ _
  unfold Kcb.flush
  rw [hupdated, hwnd]
  cases hu : k.updated with
  | false => exact Option.Rel.some ⟨h, .nil, rfl, rfl, rfl⟩
  | true =>
    refine rel_bind (flushControl_shifts h) fun f f' hf hff => ?_
    -- the one comparison of numbers in a flush: the fill of the window against its edge
    have hlap : f.kcb.sndQueue ≠ [] → SameLap δ f.kcb.sndNxt (f.kcb.sndUna + f.kcb.flushWnd) := by
      obtain ⟨-, buf, t, w, e⟩ := flushControl_follows k hf
      rw [e]
      exact hl hu
    have hcwnd : f'.kcb.flushWnd = f.kcb.flushWnd := by
      obtain ⟨pend, pend', -, -, hk⟩ := hff.kcb
      rw [hk]
      rfl
    rw [hb]
    show Option.Rel _ (Option.bind (fillWindow .release _ _ _ _) _) (Option.bind (fillWindow .release _ _ _ _) _)
    refine rel_bind (fillWindow_shifts hff.kcb hlap _) fun k₁ k₁' _ hk₁ => ?_
    have hstart : Flushing.Shifts δ { f with kcb := k₁ } { f' with kcb := k₁' } :=
      ⟨hk₁, hff.writes, hff.tests, hff.lost, hff.change⟩
    obtain ⟨pend, pend', -, -, rfl⟩ := hk₁
    refine rel_bind (flushData_shifts hb hstart) fun g g' _ hg => ?_
    have hrest := writeRest_shifts (b := b) hg
    rw [hcwnd]
    exact rel_bind (settleCwnd_shifts hrest _ _) fun k₂ k₂' _ hk₂ =>
      Option.Rel.some ⟨hk₂, hrest.writes, hrest.tests, hrest.lost, hrest.change⟩

/-! ### What a flush takes off the queue -/

theorem fillWindow_suffix {p : Profile} {edge wnd : UInt32} {queue : List Segment}
    (h : fillWindow p edge wnd queue k = some k') : k'.sndQueue <:+ queue := by
  induction queue generalizing k with
  | nil => exact (Option.some.inj h) ▸ List.suffix_rfl
  | cons seg rest ih =>
    unfold fillWindow at h
    split_ifs at h
    · obtain ⟨nxt, -, h⟩ := Option.bind_eq_some_iff.mp h
      exact (ih h).trans (List.suffix_cons _ _)
    · exact (Option.some.inj h) ▸ List.suffix_rfl

/-- The first segment waits exactly when `snd_nxt` is not below the edge. -/
theorem fillWindow_waits {p : Profile} {edge wnd : UInt32} {queue : List Segment} (hne : queue ≠ [])
    (h : fillWindow p edge wnd queue k = some k') : k'.sndQueue = queue ↔ ¬ k.sndNxt < edge := by
  obtain ⟨seg, rest, rfl⟩ := List.exists_cons_of_ne_nil hne
  unfold fillWindow at h
  by_cases hlt : k.sndNxt < edge
  · rw [if_pos hlt] at h
    obtain ⟨nxt, -, h⟩ := Option.bind_eq_some_iff.mp h
    refine ⟨fun hq => ?_, fun hn => absurd hlt hn⟩
    have hle := (fillWindow_suffix h).length_le
    rw [hq, List.length_cons] at hle
    omega
  · rw [if_neg hlt] at h
    exact ⟨fun _ => hlt, fun _ => (Option.some.inj h) ▸ rfl⟩

theorem flushData_sndQueue {resent rtomin wnd : UInt32} {done rest : List Segment}
    (h : flushData b resent rtomin wnd done rest f = some f') : f'.kcb.sndQueue = f.kcb.sndQueue := by
  obtain ⟨l, xmit, buf, e⟩ := flushData_eq h
  rw [e]
  rfl

theorem flush_waits (h : k.flush b = some f) (hu : k.updated = true) (hne : k.sndQueue ≠ []) :
    f.kcb.sndQueue = k.sndQueue ↔ ¬ k.sndNxt < k.sndUna + k.flushWnd := by
  unfold Kcb.flush at h
  simp only [hu, Bool.not_true, Bool.false_eq_true, if_false, Option.bind_eq_bind, Option.bind_eq_some_iff,
    Option.some.injEq] at h
  obtain ⟨f1, h1, edge, he, k2, h2, f3, h3, k4, h4, rfl⟩ := h
  obtain ⟨-, buf, t, w, e⟩ := flushControl_follows k h1
  obtain rfl := Profile.add_eq_some he
  have hwaits := fillWindow_waits (by rw [e]; exact hne) h2
  have hdata := flushData_sndQueue h3
  obtain ⟨s, c, i, rfl⟩ := settleCwnd_eq h4
  have hrest : (f3.writeRest b).kcb.sndQueue = f3.kcb.sndQueue := by
    unfold writeRest
    split_ifs <;> rfl
  show (f3.writeRest b).kcb.sndQueue = _ ↔ _
  rw [hrest, hdata]
  rw [e] at hwaits
  exact hwaits

/-- **`flush`**: it commutes with the shift exactly when its comparison survives it. -/
theorem flush_shifts_iff (hb : b.profile = .release) (h : k.Shifts δ k') :
    (∃ f f', k.flush b = some f ∧ k'.flush b = some f' ∧ f.Shifts δ f') ↔ FlushSteady δ k := by
  constructor
  · rintro ⟨f, f', hf, hf', hs⟩ hu hne
    have hqueue : k'.sndQueue = k.sndQueue := by
      obtain ⟨pend, pend', -, -, rfl⟩ := h
      rfl
    have hqueue' : f'.kcb.sndQueue = f.kcb.sndQueue := by
      obtain ⟨pend, pend', -, -, e⟩ := hs.kcb
      rw [e]
      rfl
    have hwaits := flush_waits hf hu hne
    obtain ⟨pend, pend', -, -, rfl⟩ := h
    have hwaits' := flush_waits hf' hu (hqueue ▸ hne)
    rw [hqueue', hqueue, hwaits, not_iff_not] at hwaits'
    refine lt_add_iff.mp (Iff.trans ?_ hwaits'.symm)
    rw [← add_shift]
    rfl
  · intro hl
    have hrel := flush_shifts hb h hl
    obtain ⟨f, hf⟩ := Option.isSome_iff_exists.mp (flush_release hb k)
    obtain ⟨f', hf'⟩ := Option.isSome_iff_exists.mp (flush_release hb k')
    rw [hf, hf'] at hrel
    cases hrel with
    | some hs => exact ⟨f, f', hf, hf', hs⟩

end Flush

/-! ### Both calls -/

/-- **When a shift of all sequence numbers commutes with `input` and `flush`**: for `input`, when every comparison on
the way survives the shift and no data is misread; for `flush`, exactly when its comparison survives it. -/
theorem shift_commutes {δ : UInt32} {b : Build} {k k' : Kcb} (hb : b.profile = .release) (h : k.Shifts δ k') :
    (∀ segs segs' tail, List.Forall₂ (Segment.Shifts δ) segs segs' → Steady δ k.sndUna tail (k.scanOf []) segs segs' →
        Option.Rel (fun r r' => r'.1 = r.1 ∧ r.2.Shifts δ r'.2) (k.input b.profile (encodes segs ++ tail))
          (k'.input b.profile (encodes segs' ++ tail))) ∧
      ((∃ f f', k.flush b = some f ∧ k'.flush b = some f' ∧ f.Shifts δ f') ↔ FlushSteady δ k) := by
  refine ⟨fun segs segs' tail hsegs hsteady => ?_, flush_shifts_iff hb h⟩
  obtain ⟨pend, pend', hbuf, hp, rfl⟩ := h
  rw [hb, input_shift hsegs hsteady]
  cases hin : k.input .release (encodes segs ++ tail) with
  | none => exact Option.Rel.none
  | some r =>
    exact Option.Rel.some ⟨rfl, pend, pend', (settings_input hin).2.trans hbuf, hp, rfl⟩

/-- The first segment of a conversation. -/
def firstPush : Segment := { conv := 7, cmd := kcpCmdPush, wnd := 32, data := [1, 2, 3] }

/-- The first segment for a fresh control block, both moved on by five. -/
theorem shift_commutes_fresh :
    Option.Rel (fun r r' => r'.1 = r.1 ∧ Kcb.Shifts 5 r.2 r'.2) ((Kcb.new 7).input .release (encodes [firstPush] ++ []))
      (((Kcb.new 7).shift 5 []).input .release (encodes [firstPush.shift 5] ++ [])) :=
  (shift_commutes (b := ⟨.release, bytesMut⟩) rfl ⟨[], [], rfl, .nil, rfl⟩).1 _ _ []
    (.cons (Segment.shifts_shift _ _) .nil) (by decide +kernel)

/-- A fresh control block that has one byte to send. -/
def freshSender : Kcb := { Kcb.new 7 with updated := true, cwnd := 1, sndQueue := [{ data := [1] }] }

/-- The shift that takes 0 to the last number of a lap. -/
def lastNumber : UInt32 := UInt32.ofNat (2 ^ 32 - 1)

/-- A fresh conversation and its shift by `2 ^ 32 - 1`: the first segment is taken in the one and turned down in the
other, and the one sends its byte and the other does not. -/
theorem shift_stops :
    SendInv freshSender.sendSide ∧ RecvInv freshSender.recvSide [] ∧
      freshSender.sndWnd.toNat < 2 ^ 15 ∧ freshSender.rcvWnd.toNat < 2 ^ 15 ∧
      freshSender.Shifts lastNumber (freshSender.shift lastNumber []) ∧
      ¬ Option.Rel (fun r r' => r'.1 = r.1 ∧ Kcb.Shifts lastNumber r.2 r'.2)
        (freshSender.input .release (encodes [firstPush]))
        ((freshSender.shift lastNumber []).input .release (encodes [firstPush.shift lastNumber])) ∧
      ¬ ∃ f f', freshSender.flush ⟨.release, bytesMut⟩ = some f ∧
        (freshSender.shift lastNumber []).flush ⟨.release, bytesMut⟩ = some f' ∧ f.Shifts lastNumber f' := by
  have hshift : freshSender.Shifts lastNumber (freshSender.shift lastNumber []) := ⟨[], [], rfl, .nil, rfl⟩
  refine ⟨⟨increasing_nil, fun s hs => absurd hs List.not_mem_nil, rfl, by decide +kernel⟩, recvInv_start 7 {},
    by decide +kernel, by decide +kernel, hshift, ?_, ?_⟩
  · intro h
    have htaken : (freshSender.input .release (encodes [firstPush])).map (fun r => r.2.rcvQueue.length) = some 1 := by
      decide +kernel
    have hdown : ((freshSender.shift lastNumber []).input .release (encodes [firstPush.shift lastNumber])).map
        (fun r => r.2.rcvQueue.length) = some 0 := by decide +kernel
    obtain ⟨r, hr, h1⟩ := Option.map_eq_some_iff.mp htaken
    obtain ⟨r', hr', h2⟩ := Option.map_eq_some_iff.mp hdown
    rw [hr, hr'] at h
    cases h with
    | some hrel =>
      obtain ⟨-, pend, pend', -, -, e⟩ := hrel
      rw [e, Kcb.shift, List.length_map, h1] at h2
      exact absurd h2 (by decide)
  · intro h
    have hlap := (flush_shifts_iff rfl hshift).mp h rfl (List.cons_ne_nil _ _)
    revert hlap
    decide +kernel

end NetProtocols.Kcp
