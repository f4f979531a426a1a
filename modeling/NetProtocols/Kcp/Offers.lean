import NetProtocols.Kcp.Checked
import NetProtocols.Kcp.Reassembly

/-!
# NetProtocols.Kcp.Offers — one segment for `input`, one message for `recv`

* `input_again`, `input_next`: `input` on a datagram of one PUSH segment, repeated or next in order.
* `recv_message`: `recv` with a whole message in `rcv_queue`.
* `Offer`: the calls on the receiving side: a segment of the message is given to `input`, or `recv` is called.
* `offerStep`: the fragments are given in order, each any number of times.
* `Receiving`: where the receiver stands after the first `m` fragments, when they fit the window; `receiving_run`.
-/

namespace NetProtocols.Kcp

open Kcb Scan

variable {p : Profile} {k k' : Kcb}

/-! ### One segment as a datagram -/

/-- A cursor that the header tests refuse ends the segment loop where it is. -/
theorem inputLoop_of_refuses {s : Scan} (hr : refuses s.kcb.conv s.buf = true) (fuel : ℕ) :
    ∃ r, s.inputLoop p fuel = some (r, s) := by
  cases fuel with
  | zero => exact ⟨_, rfl⟩
  | succ fuel =>
    unfold inputLoop
    by_cases hl : s.buf.length < kcpOverhead
    · exact ⟨_, if_pos hl⟩
    · rw [if_neg hl]
      obtain ⟨hd, hh⟩ := readHeader_of_le (Nat.le_of_not_lt hl)
      have herr : ∃ e, s.inputStep p = some (.error e) := by
        unfold inputStep
        simp only [hh, Option.bind_eq_bind, Option.bind_some]
        split_ifs with h1 h2 h3
        · exact ⟨_, rfl⟩
        · exact ⟨_, rfl⟩
        · exact ⟨_, rfl⟩
        · -- the header would be accepted
          exfalso
          simp only [refuses, hh, Bool.not_eq_true', Header.accepted] at hr
          simp only [ne_eq, Decidable.not_not] at h1
          simp only [h1, beq_self_eq_true, Bool.true_and, Nat.le_of_not_lt h2, decide_true, Bool.not_eq_true'] at hr h3
          simp [hr] at h3
      obtain ⟨e, he⟩ := herr
      simp only [he, Option.bind_eq_bind, Option.bind_some]
      exact ⟨_, rfl⟩

/-- One segment is the whole datagram, and what it leaves of its data is refused. -/
theorem input_one {seg : Segment} {t : Scan} (hconv : seg.conv = k.conv) (hcmd : validCmd seg.cmd = true)
    (ht : (k.scanOf []).handle p seg = some t) (hrest : refuses t.kcb.conv t.buf = true) (hflag : t.flag = false)
    (huna : ¬ k.sndUna < t.kcb.sndUna) : ∃ r, k.input p seg.encode = some (r, t.kcb) := by
  have hstep : (k.scanOf seg.encode).inputStep p = some (.ok t) := by
    have h := inputStep_handle (p := p) (k.scanOf []) hconv hcmd []
    rw [ht] at h
    simpa [scanOf] using h
  have hlen : ¬ seg.encode.length < kcpOverhead := by
    rw [length_encode]
    omega
  obtain ⟨fuel, hfuel⟩ : ∃ fuel, seg.encode.length = fuel + 1 := ⟨seg.encode.length - 1, by
    rw [length_encode]
    simp only [kcpOverhead]
    omega⟩
  obtain ⟨r, hr⟩ := inputLoop_of_refuses (p := p) hrest fuel
  have hloop : (k.scanOf seg.encode).inputLoop p seg.encode.length = some (r, t) := by
    rw [hfuel]
    unfold inputLoop
    rw [if_neg (show ¬ (k.scanOf seg.encode).buf.length < kcpOverhead from hlen)]
    simp only [hstep, Option.bind_eq_bind, Option.bind_some, hr]
  unfold Kcb.input
  rw [if_neg hlen]
  simp only [hloop, Option.bind_eq_bind, Option.bind_some]
  cases r with
  | error e => exact ⟨_, rfl⟩
  | ok u =>
    have hfin : finishInput p t k.sndUna = some t.kcb := by
      unfold finishInput growCwnd
      simp only [hflag, Bool.false_eq_true, if_false, Option.bind_eq_bind, Option.bind_some]
      rw [if_neg (fun h => huna h.1)]
    exact ⟨.ok (seg.encode.length - t.buf.length), by simp only [hfin, Option.bind_some]⟩

/-- Nothing is being sent. -/
def Kcb.Idle (k : Kcb) : Prop := k.sndBuf = [] ∧ k.sndUna = k.sndNxt

theorem idle_onHeader (hi : k.Idle) (h : Header) : (k.onHeader h).Idle ∧ (k.onHeader h).sndUna = k.sndUna := by
  obtain ⟨h1, h2⟩ := hi
  simp [Kcb.Idle, onHeader, parseUna, shrinkBuf, h1, h2]

/-- A PUSH as it is handled: the state after every header, and the acknowledgement queued. -/
def Kcb.acking (k : Kcb) (seg : Segment) : Kcb :=
  (k.onHeader seg.header).setAcklist (k.acklist ++ [(seg.sn, seg.ts)])

/-- Below the edge of the window a PUSH is acknowledged, and taken over if it is not known. -/
theorem handle_push {seg : Segment} (hpush : seg.cmd = kcpCmdPush)
    (hfit : k.rcvNxt.toNat + k.rcvWnd.toNat < 2 ^ 32) (hedge : seg.sn < k.rcvNxt + k.rcvWnd) :
    (k.scanOf []).handle p seg =
      if k.rcvNxt ≤ seg.sn then
        ((k.acking seg).parseData p (segmentOf seg.header (seg.data.take seg.header.len.toNat))).bind fun k =>
          some ⟨k, false, 0, seg.data.drop seg.header.len.toNat⟩
      else some ⟨k.acking seg, false, 0, seg.data⟩ := by
  have hack : ¬ seg.header.cmd = kcpCmdAck := by
    show ¬ seg.cmd = kcpCmdAck
    rw [hpush]
    decide
  have hadd : p.add (k.onHeader seg.header).rcvNxt (k.onHeader seg.header).rcvWnd = some (k.rcvNxt + k.rcvWnd) :=
    Profile.add_of_lt hfit
  unfold handle takeSegment scanOf
  rw [if_neg hack, if_pos (show seg.header.cmd = kcpCmdPush from hpush)]
  unfold takePush
  dsimp only
  rw [hadd, Option.bind_eq_bind, Option.bind_some, if_pos (show seg.header.sn < k.rcvNxt + k.rcvWnd from hedge)]
  rfl

section Push

variable {seg : Segment} (hconv : seg.conv = k.conv) (hpush : seg.cmd = kcpCmdPush) (hi : k.Idle)
  (hfit : k.rcvNxt.toNat + k.rcvWnd.toNat < 2 ^ 32)

include hconv hpush hi hfit

theorem input_again (hlt : seg.sn < k.rcvNxt) (hrest : refuses k.conv seg.data = true) :
    ∃ r, k.input p seg.encode = some (r, k.acking seg) := by
  have hedge : seg.sn < k.rcvNxt + k.rcvWnd := by
    have h1 := UInt32.lt_iff_toNat_lt.mp hlt
    rw [UInt32.lt_iff_toNat_lt, toNat_add_of_lt hfit]
    omega
  refine input_one (t := ⟨k.acking seg, false, 0, seg.data⟩) hconv (by rw [hpush]; rfl) ?_ hrest rfl ?_
  · rw [handle_push hpush hfit hedge, if_neg (UInt32.not_le.mpr hlt)]
  · show ¬ k.sndUna < (k.onHeader seg.header).sndUna
    rw [(idle_onHeader hi _).2]
    exact UInt32.lt_irrefl _

/-- The next segment goes through `rcv_buf` to `rcv_queue`. -/
theorem input_next (hsn : seg.sn = k.rcvNxt) (hbuf : k.rcvBuf = []) (hroom : k.rcvQueue.length < k.rcvWnd.toNat)
    (hlen : seg.data.length < 2 ^ 32) :
    ∃ r, k.input p seg.encode =
      some (r, ({ k.acking seg with rcvBuf := [segmentOf seg.header seg.data] } : Kcb).moved 1 (k.rcvNxt + 1)) := by
  have hedge : seg.sn < k.rcvNxt + k.rcvWnd := by
    rw [UInt32.lt_iff_toNat_lt, toNat_add_of_lt hfit, hsn]
    omega
  have hone : k.rcvNxt.toNat + (1 : UInt32).toNat < 2 ^ 32 := by
    rw [UInt32.toNat_one]
    omega
  -- the only segment of `rcv_buf` is the next one, so it moves at once
  have hparse : (k.acking seg).parseData p (segmentOf seg.header seg.data) =
      some (({ k.acking seg with rcvBuf := [segmentOf seg.header seg.data] } : Kcb).moved 1 (k.rcvNxt + 1)) := by
    obtain ⟨l, hl, heq⟩ := parseData_inside (p := p) (k := k.acking seg)
      (show k.rcvNxt ≤ (segmentOf seg.header seg.data).sn from hsn ▸ UInt32.le_refl _) hedge
    have hl' : l = [segmentOf seg.header seg.data] := by
      rw [show (k.acking seg).rcvBuf = [] from hbuf] at hl
      rcases hl with ⟨-, s, hs, -⟩ | ⟨i, -, rfl, -⟩
      · exact absurd hs List.not_mem_nil
      · simp
    rw [heq, hl']
    unfold moveData
    simp only [countReady]
    rw [if_pos ⟨hsn, hroom⟩]
    have hadd : p.add (k.acking seg).rcvNxt 1 = some (k.rcvNxt + 1) := Profile.add_of_lt hone
    simp only [hadd, Option.bind_eq_bind, Option.bind_some]
    rfl
  have hdrop : seg.data.take seg.header.len.toNat = seg.data ∧ seg.data.drop seg.header.len.toNat = [] := by
    have : seg.header.len.toNat = seg.data.length := by
      simp only [Segment.header, UInt32.toNat_ofNat']
      exact Nat.mod_eq_of_lt hlen
    rw [this]
    simp
  refine input_one (t := ⟨_, false, 0, []⟩) hconv (by rw [hpush]; rfl) ?_ rfl rfl ?_
  · rw [handle_push hpush hfit hedge, if_pos (hsn ▸ UInt32.le_refl _), hdrop.1, hdrop.2]
    show ((k.acking seg).parseData p (segmentOf seg.header seg.data)).bind _ = _
    rw [hparse]
    rfl
  · show ¬ k.sndUna < (k.onHeader seg.header).sndUna
    rw [(idle_onHeader hi _).2]
    exact UInt32.lt_irrefl _

end Push

/-! ### `recv` -/

/-- The fragments of one message, as `send` cuts them. -/
structure IsMessage (segs : List Segment) (msg : List UInt8) : Prop where
  frame : Frame follow (segs.map Segment.piece)
  len : segs.length ≤ 255
  data : segs.flatMap Segment.data = msg
  short : ∀ s ∈ segs, s.data.length < 2 ^ 32

theorem IsMessage.head {segs : List Segment} {msg : List UInt8} (hm : IsMessage segs msg) {seg : Segment}
    {rest : List Segment} {m : ℕ} (h : (seg :: rest).map Segment.piece = (segs.take m).map Segment.piece) :
    seg.frg.toNat + 1 = segs.length := by
  cases segs with
  | nil => simp at h
  | cons a l =>
    cases m with
    | zero => simp at h
    | succ m =>
      simp only [List.take_succ_cons, List.map_cons, List.cons.injEq] at h
      have hlen := hm.frame.length_eq
      rw [show seg.frg = a.frg from congrArg Prod.fst h.1]
      simp only [List.length_cons, List.length_map] at hlen ⊢
      exact hlen.symm

/-- `recv` takes a queue of exactly the fragments of a message and returns the message. -/
theorem recv_message {segs : List Segment} {msg : List UInt8} (hm : IsMessage segs msg)
    (hq : k.rcvQueue.map Segment.piece = segs.map Segment.piece) (hbuf : k.rcvBuf = []) {cap : ℕ}
    (hcap : msg.length ≤ cap) :
    ∃ probe, k.recv p cap = some (.ok msg, ({ k with rcvQueue := [] } : Kcb).setProbe probe) := by
  have hdata : k.rcvQueue.flatMap Segment.data = msg := by
    rw [data_pieces, hq, ← data_pieces, hm.data]
  have hlen : k.rcvQueue.length ≤ 255 := by
    have := congrArg List.length hq
    simp only [List.length_map] at this
    exact this ▸ hm.len
  have hsize : (segs.flatMap Segment.data).length < 2 ^ 64 := by
    have h1 := length_data_le hm.short
    have h2 := hm.len
    omega
  rw [hm.data] at hsize
  have h := recv_head (p := p) (k := k) (q := k.rcvQueue) (t := []) (List.append_nil _).symm (hq ▸ hm.frame) hlen
    (hdata ▸ hsize) hbuf (hdata ▸ hcap)
  rwa [hdata] at h

/-! ### What the receiving side is offered -/

/-- A segment is given to `input`, or `recv` is called. -/
inductive Offer
  | give (seg : Segment)
  | recv (cap : ℕ)

/-- The call it is. -/
def Offer.op : Offer → Op
  | .give seg => .input seg.encode
  | .recv cap => .recv cap

/-- **The fragments in order, each any number of times**: the first `m` of the fragments `frags` have been given, and
the next segment given is fragment `m` or one of those before it.  A fragment is what all transmissions of a segment
have in common. -/
def offerStep (frags : List Fixed) (m : ℕ) : Offer → Option ℕ
  | .give seg => if frags[m]? = some seg.fixed then some (m + 1) else if seg.fixed ∈ frags.take m then some m else none
  | .recv _ => some m

/-- A buffer given to `recv` is at least `len` bytes long. -/
def RoomFor (len : ℕ) (_ : ℕ) : Offer → Prop
  | .give _ => True
  | .recv cap => len ≤ cap

/-- When a fragment is given again, its data is not taken for another segment. -/
def RepeatRefused (conv : UInt32) (frags : List Fixed) (m : ℕ) : Offer → Prop
  | .give seg => frags[m]? = some seg.fixed ∨ refuses conv seg.data = true
  | .recv _ => True

instance RoomFor.decidable (len m : ℕ) : ∀ o, Decidable (RoomFor len m o)
  | .give _ => isTrue trivial
  | .recv cap => inferInstanceAs (Decidable (len ≤ cap))

instance RepeatRefused.decidable (conv : UInt32) (frags : List Fixed) (m : ℕ) :
    ∀ o, Decidable (RepeatRefused conv frags m o)
  | .give seg => inferInstanceAs (Decidable (frags[m]? = some seg.fixed ∨ refuses conv seg.data = true))
  | .recv _ => isTrue trivial

theorem offerStep_give {frags : List Fixed} {m m' : ℕ} {seg : Segment}
    (h : offerStep frags m (.give seg) = some m') :
    (frags[m]? = some seg.fixed ∧ m' = m + 1) ∨
      (frags[m]? ≠ some seg.fixed ∧ m' = m ∧ ∃ i < m, frags[i]? = some seg.fixed) := by
  rw [offerStep] at h
  split_ifs at h with hnext hmem
  · exact Or.inl ⟨hnext, (Option.some.inj h).symm⟩
  · obtain ⟨i, hi⟩ := List.mem_iff_getElem?.mp hmem
    rw [List.getElem?_take] at hi
    split_ifs at hi with hlt
    exact Or.inr ⟨hnext, (Option.some.inj h).symm, i, hlt, hi⟩

theorem getElem?_numbered (conv nxt : UInt32) (l : List Segment) (i : ℕ) :
    (numbered conv nxt l)[i]? = l[i]?.map fun s => ⟨conv, kcpCmdPush, s.frg, nxt + UInt32.ofNat i, s.data⟩ := by
  induction l generalizing nxt i with
  | nil => simp [numbered]
  | cons a l ih =>
    cases i with
    | zero => simp [numbered]
    | succ i =>
      simp only [numbered, List.getElem?_cons_succ, ih, UInt32.ofNat_add]
      rw [UInt32.add_assoc, UInt32.add_comm 1]
      rfl

theorem fragment_fields {conv : UInt32} {segs : List Segment} {seg : Segment} {i : ℕ}
    (h : (numbered conv 0 segs)[i]? = some seg.fixed) :
    i < segs.length ∧ seg.conv = conv ∧ seg.cmd = kcpCmdPush ∧ seg.sn = UInt32.ofNat i ∧
      segs[i]?.map Segment.piece = some seg.piece := by
  rw [getElem?_numbered] at h
  obtain ⟨s, hs, he⟩ := Option.map_eq_some_iff.mp h
  have hi := (List.getElem?_eq_some_iff.mp hs).1
  have hconv : conv = seg.conv := congrArg Fixed.conv he
  have hcmd : kcpCmdPush = seg.cmd := congrArg Fixed.cmd he
  have hsn : (0 : UInt32) + UInt32.ofNat i = seg.sn := congrArg Fixed.sn he
  have hpiece : s.piece = seg.piece := Prod.ext (congrArg Fixed.frg he) (congrArg Fixed.data he)
  refine ⟨hi, hconv.symm, hcmd.symm, ?_, by rw [hs, Option.map_some, hpiece]⟩
  rw [← hsn, UInt32.zero_add]

/-! ### A message that fits the window -/

/-- Where the receiver stands after the first `m` fragments: they are in `rcv_queue`, or the message has been read. -/
structure Receiving (conv wnd : UInt32) (segs : List Segment) (msg : List UInt8) (m : ℕ) (e : Endpoint) : Prop where
  conv : e.kcb.conv = conv
  wnd : e.kcb.rcvWnd = wnd
  idle : e.kcb.Idle
  buf : e.kcb.rcvBuf = []
  nxt : e.kcb.rcvNxt.toNat = m
  le : m ≤ segs.length
  stage : (e.received = [] ∧ e.kcb.rcvQueue.map Segment.piece = (segs.take m).map Segment.piece) ∨
    (m = segs.length ∧ e.received = [msg] ∧ e.kcb.rcvQueue = [])

section Fits

variable {b : Build} {conv wnd : UInt32} {segs : List Segment} {msg : List UInt8} {m m' : ℕ} {e : Endpoint}

theorem exec_input {d : List UInt8} {r : Except IoError ℕ} {k' : Kcb}
    (h : e.kcb.input b.profile d = some (r, k')) : e.exec b (.input d) = some { e with kcb := k' } := by
  simp only [Endpoint.exec, h, Option.map_some]

theorem receiving_next (hm : IsMessage segs msg) (hwnd : wnd.toNat < 2 ^ 31) (hlt : m < wnd.toNat)
    (hr : Receiving conv wnd segs msg m e) {seg : Segment} (hnext : (numbered conv 0 segs)[m]? = some seg.fixed) :
    ∃ e', e.exec b (.input seg.encode) = some e' ∧ Receiving conv wnd segs msg (m + 1) e' ∧ e'.taken = e.taken := by
  have hlen := hm.len
  have hle := hr.le
  obtain ⟨hm', hconv, hcmd, hsn, hpiece⟩ := fragment_fields hnext
  rcases hr.stage with ⟨hrec, hq⟩ | ⟨hall, -⟩
  · have hsum : e.kcb.rcvNxt.toNat + e.kcb.rcvWnd.toNat < 2 ^ 32 := by
      rw [hr.nxt, hr.wnd]
      omega
    have hqlen : e.kcb.rcvQueue.length = m := by
      have := congrArg List.length hq
      simpa [hle] using this
    have hsn' : seg.sn = e.kcb.rcvNxt := by
      refine UInt32.toNat_inj.mp ?_
      rw [hsn, hr.nxt, UInt32.toNat_ofNat']
      exact Nat.mod_eq_of_lt (by omega)
    obtain ⟨s, hs, he⟩ := Option.map_eq_some_iff.mp hpiece
    have hshort : seg.data.length < 2 ^ 32 := by
      have hd : s.data = seg.data := congrArg Prod.snd he
      exact hd ▸ hm.short s (List.mem_of_getElem? hs)
    obtain ⟨r, h⟩ := input_next (p := b.profile) (hconv.trans hr.conv.symm) hcmd hr.idle hsum hsn' hr.buf
      (by rw [hqlen, hr.wnd]; exact hlt) hshort
    refine ⟨_, exec_input h, ⟨hr.conv, hr.wnd, (idle_onHeader hr.idle _).1, rfl, ?_, hm', Or.inl ⟨hrec, ?_⟩⟩, rfl⟩
    · show (e.kcb.rcvNxt + 1).toNat = m + 1
      rw [toNat_add_of_lt (by rw [hr.nxt, UInt32.toNat_one]; omega), hr.nxt, UInt32.toNat_one]
    · show (e.kcb.rcvQueue ++ [segmentOf seg.header seg.data]).map Segment.piece = _
      rw [List.map_append, hq, List.take_add_one, List.map_append, hs]
      simp only [Option.toList_some, List.map_cons, List.map_nil, he]
      rfl
  · omega

theorem receiving_offer (hm : IsMessage segs msg) (hwnd : wnd.toNat < 2 ^ 31) (hfit : segs.length ≤ wnd.toNat)
    (hr : Receiving conv wnd segs msg m e) {o : Offer} (ho : offerStep (numbered conv 0 segs) m o = some m')
    (hroom : RoomFor msg.length m o) (href : RepeatRefused conv (numbered conv 0 segs) m o) :
    ∃ e', e.exec b o.op = some e' ∧ Receiving conv wnd segs msg m' e' := by
  have hlen := hm.len
  have hle := hr.le
  have hsum : e.kcb.rcvNxt.toNat + e.kcb.rcvWnd.toNat < 2 ^ 32 := by
    rw [hr.nxt, hr.wnd]
    omega
  cases o with
  | recv cap =>
    obtain rfl : m = m' := Option.some.inj ho
    -- a `recv` that fails changes nothing
    have hfail : ∀ err, e.kcb.recv b.profile cap = some (.error err, e.kcb) →
        ∃ e', e.exec b (Offer.recv cap).op = some e' ∧ Receiving conv wnd segs msg m e' := by
      intro err h
      exact ⟨e, by simp only [Offer.op, Endpoint.exec, h, Option.map_some]; rfl, hr⟩
    rcases hr.stage with ⟨hrec, hq⟩ | ⟨-, -, hq⟩
    · by_cases hall : m = segs.length
      · rw [hall, List.take_length] at hq
        obtain ⟨probe, h⟩ := recv_message (p := b.profile) hm hq hr.buf hroom
        refine ⟨e.got (.ok msg, ({ e.kcb with rcvQueue := [] } : Kcb).setProbe probe), ?_, ?_⟩
        · simp only [Offer.op, Endpoint.exec, h, Option.map_some]
        exact ⟨hr.conv, hr.wnd, hr.idle, hr.buf, hr.nxt, hle, Or.inr ⟨hall, by simp [Endpoint.got, hrec], rfl⟩⟩
      · cases hc : e.kcb.rcvQueue with
        | nil => exact hfail _ (recv_empty hc cap)
        | cons seg rest =>
          have hfrg := hm.head (hc ▸ hq)
          have hqlen : e.kcb.rcvQueue.length = m := by
            have := congrArg List.length hq
            simpa [hle] using this
          exact hfail _ (recv_incomplete hc (by omega) (by omega) cap)
    · exact hfail _ (recv_empty hq cap)
  | give seg =>
    rcases offerStep_give ho with ⟨hnext, rfl⟩ | ⟨hnext, rfl, i, hi, hget⟩
    · obtain ⟨e', h1, h2, -⟩ := receiving_next (b := b) hm hwnd
        (Nat.lt_of_lt_of_le (fragment_fields hnext).1 hfit) hr hnext
      exact ⟨e', h1, h2⟩
    · obtain ⟨-, hconv, hcmd, hsn, -⟩ := fragment_fields hget
      have hlt : seg.sn < e.kcb.rcvNxt := by
        rw [UInt32.lt_iff_toNat_lt, hsn, hr.nxt, UInt32.toNat_ofNat', Nat.mod_eq_of_lt (by omega)]
        exact hi
      have hrest : refuses e.kcb.conv seg.data = true := by
        rw [hr.conv]
        exact href.resolve_left hnext
      obtain ⟨r, h⟩ := input_again (p := b.profile) (hconv.trans hr.conv.symm) hcmd hr.idle hsum hlt hrest
      exact ⟨_, exec_input h, hr.conv, hr.wnd, (idle_onHeader hr.idle _).1, hr.buf, hr.nxt, hle, hr.stage⟩

theorem receiving_run (hm : IsMessage segs msg) (hwnd : wnd.toNat < 2 ^ 31) (hfit : segs.length ≤ wnd.toNat)
    {offers : List Offer} (hr : Receiving conv wnd segs msg m e)
    (ho : run (offerStep (numbered conv 0 segs)) m offers = some m')
    (hroom : Meets (offerStep (numbered conv 0 segs)) (RoomFor msg.length) m offers)
    (href : Meets (offerStep (numbered conv 0 segs)) (RepeatRefused conv (numbered conv 0 segs)) m offers) :
    ∃ e', run (Endpoint.exec b) e (offers.map Offer.op) = some e' ∧ Receiving conv wnd segs msg m' e' := by
  induction offers generalizing m e with
  | nil =>
    obtain rfl := Option.some.inj ho
    exact ⟨e, rfl, hr⟩
  | cons o offers ih =>
    obtain ⟨m1, h1, h2⟩ := run_cons.mp ho
    obtain ⟨e1, he1, hr1⟩ := receiving_offer (b := b) hm hwnd hfit hr h1 hroom.1 href.1
    obtain ⟨e2, he2, hr2⟩ := ih hr1 h2 (hroom.2 m1 h1) (href.2 m1 h1)
    exact ⟨e2, run_cons.mpr ⟨e1, he1, he2⟩, hr2⟩

end Fits

end NetProtocols.Kcp
