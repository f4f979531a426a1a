import NetProtocols.Lib.Channel
import NetProtocols.Kcp.Fragments
import NetProtocols.Kcp.Reading

/-!
# NetProtocols.Kcp.Integrity — from `send` to `recv`

What the right side's `recv` returns is a prefix of what the left side's `send` accepted, in every run in which the
right side never reads data as a header: whatever the network does with the datagrams, whatever the left side is given,
and for every configuration of the two sides.

* `pieces`: the stream of fragments of the accepted messages; `Carries`: a segment carries the fragment that its number
  says.
* `Sender`: everything the left side holds or has ever written carries fragments of the stream.
* `Receiver`: everything the right side has stored does, so its queue continues the stream where `recv` left off.
* `link_simulates`: the link does what a reliable, ordered channel does; `delivered_prefix` follows.
* `delivered_forged`: the input on which the right side reads data as a header.
-/

namespace NetProtocols.Kcp

open Kcb Scan

/-- The fragments of the messages, in order. -/
def pieces (mss : ℕ) (msgs : List (List UInt8)) : List (UInt8 × List UInt8) :=
  (msgs.map fun m => (cut mss m).map Segment.piece).flatten

/-- What a segment on the send side carries. -/
def Fixed.piece (f : Fixed) : UInt8 × List UInt8 := (f.frg, f.data)

/-- The segment carries the fragment of the stream that its number says. -/
def Carries (F : List (UInt8 × List UInt8)) (f : Fixed) : Prop := F[f.num]? = some f.piece

theorem Carries.mono {F F' : List (UInt8 × List UInt8)} {f : Fixed} (h : Carries F f) (hF : F <+: F') :
    Carries F' f := by
  obtain ⟨t, rfl⟩ := hF
  exact (List.getElem?_append_left (List.getElem?_eq_some_iff.mp h).1).trans h

theorem pieces_append (mss : ℕ) (l₁ l₂ : List (List UInt8)) :
    pieces mss (l₁ ++ l₂) = pieces mss l₁ ++ pieces mss l₂ := by
  simp [pieces]

theorem pieces_mono (mss : ℕ) {l l' : List (List UInt8)} (h : l <+: l') : pieces mss l <+: pieces mss l' := by
  obtain ⟨t, rfl⟩ := h
  rw [pieces_append]
  exact List.prefix_append _ _

theorem length_of_mem_pieces {mss : ℕ} {msgs : List (List UInt8)} {x : UInt8 × List UInt8} (h : x ∈ pieces mss msgs) :
    x.2.length ≤ mss := by
  simp only [pieces, List.mem_flatten, List.mem_map] at h
  obtain ⟨l, ⟨m, -, rfl⟩, hl⟩ := h
  obtain ⟨s, hs, rfl⟩ := List.mem_map.mp hl
  exact length_data_fragments hs

/-- The segments of an honest datagram: fragments of the stream, and segments without data. -/
def Genuine (F : List (UInt8 × List UInt8)) (seg : Segment) : Prop :=
  (seg.cmd = kcpCmdPush ∧ Carries F seg.fixed ∧ seg.data.length < 2 ^ 32) ∨ (seg.cmd ≠ kcpCmdPush ∧ seg.data = [])

theorem Genuine.mono {F F' : List (UInt8 × List UInt8)} {seg : Segment} (h : Genuine F seg) (hF : F <+: F') :
    Genuine F' seg :=
  h.imp_left fun ⟨h1, h2, h3⟩ => ⟨h1, h2.mono hF, h3⟩

/-! ### The sender -/

/-- What a control block holds to send carries the stream. -/
structure Carrying (F : List (UInt8 × List UInt8)) (k : Kcb) : Prop where
  nxt : k.sndNxt.toNat ≤ F.length
  queue : k.sndQueue.map Segment.piece = F.drop k.sndNxt.toNat
  buf : ∀ f ∈ k.sendSide.sndBuf, f.cmd = kcpCmdPush ∧ Carries F f ∧ f.data.length < 2 ^ 32
  buffer : Made (Genuine F) k.buffer

theorem carrying_flushStep {b : Build} {F : List (UInt8 × List UInt8)} {k₀ k k' : Kcb}
    (hF : ∀ x ∈ F, x.2.length < 2 ^ 32) (h : FlushStep b k₀ k k') (hc : Carrying F k) : Carrying F k' := by
  have hbuffer : Made (Genuine F) k'.buffer := by
    refine made_flushStep h ?_ ?_ hc.buffer
    · intro seg hctl hs
      refine Or.inr ⟨?_, hctl.data⟩
      rcases hs with ⟨hs, -⟩ | hs | hs <;> rw [hs] <;> decide
    · intro seg hm _
      obtain ⟨h1, h2⟩ := hc.buf seg.fixed (List.mem_map_of_mem hm)
      exact Or.inl ⟨h1, h2⟩
  rcases sendSide_flushStep h with e | ⟨seg, rest, hq, hlt, e⟩
  · have e2 : k'.sndNxt = k.sndNxt := congrArg SendSide.sndNxt e
    have e4 : k'.sndQueue = k.sndQueue := congrArg SendSide.sndQueue e
    exact ⟨e2 ▸ hc.nxt, by rw [e4, e2, hc.queue], by rw [e]; exact hc.buf, hbuffer⟩
  · have e2 : k'.sndNxt = k.sndNxt + 1 := congrArg SendSide.sndNxt e
    have e4 : k'.sndQueue = rest := congrArg SendSide.sndQueue e
    have hn := toNat_succ_of_lt hlt
    have hqueue := hc.queue
    rw [hq, List.map_cons] at hqueue
    have hlen : k.sndNxt.toNat < F.length := by
      by_contra hge
      rw [List.drop_of_length_le (by omega)] at hqueue
      simp at hqueue
    rw [List.drop_eq_getElem_cons hlen] at hqueue
    obtain ⟨h1, h2⟩ := List.cons.inj hqueue
    refine ⟨by rw [e2, hn]; omega, by rw [e4, e2, hn, h2], ?_, hbuffer⟩
    rw [e]
    intro f hf
    rcases List.mem_append.mp hf with hf | hf
    · exact hc.buf f hf
    · rw [List.mem_singleton.mp hf]
      have hget : F[k.sndNxt.toNat]? = some seg.piece := h1 ▸ List.getElem?_eq_getElem hlen
      exact ⟨rfl, hget, hF seg.piece (List.mem_of_getElem? hget)⟩

/-- The invariant of the side that sends, in message mode. -/
structure Sender (mss : ℕ) (e : Endpoint) : Prop where
  stream : e.kcb.stream = false
  size : e.kcb.mss = mss
  msgs : ∀ m ∈ e.accepted, Sendable mss m
  carrying : Carrying (pieces mss e.accepted) e.kcb
  written : ∀ d ∈ e.written, Made (Genuine (pieces mss e.accepted)) d

section SenderCalls

variable {b : Build} {mss : ℕ} {e e' : Endpoint}

theorem sender_flushed {f : Flushing} (hmss : mss < 2 ^ 32) (hf : Follows b e.kcb e.kcb f.kcb f.writes)
    (cut : Option ℕ) (hs : Sender mss e) : Sender mss (e.flushed cut f) := by
  have hset := settings_flushed hf cut
  have hF : ∀ x ∈ pieces mss e.accepted, x.2.length < 2 ^ 32 :=
    fun x hx => Nat.lt_of_le_of_lt (length_of_mem_pieces hx) hmss
  obtain ⟨hk, hw⟩ := flushed_rule (I := Carrying (pieces mss e.accepted)) cut hf hs.carrying
    fun k k' hc h => carrying_flushStep hF h hc
  refine ⟨(congrArg Settings.stream hset).trans hs.stream, (congrArg Settings.mss hset).trans hs.size, hs.msgs, hk, ?_⟩
  intro d hd
  rcases List.mem_append.mp hd with hd | hd
  · exact hs.written d hd
  · obtain ⟨w, hw, rfl⟩ := hw d hd
    exact hw.buffer

/-- A call that only takes segments out of `snd_buf`. -/
theorem sender_shrinks (hs : Sender mss e) (hset : e'.kcb.settings = e.kcb.settings)
    (hsh : e.kcb.sendSide.Shrinks e'.kcb.sendSide) (hbuf : e'.kcb.buffer = e.kcb.buffer)
    (hacc : e'.accepted = e.accepted) (hwr : e'.written = e.written) : Sender mss e' := by
  have e2 : e'.kcb.sndNxt = e.kcb.sndNxt := hsh.nxt
  have e4 : e'.kcb.sndQueue = e.kcb.sndQueue := hsh.queue
  refine ⟨(congrArg Settings.stream hset).trans hs.stream, (congrArg Settings.mss hset).trans hs.size,
    hacc ▸ hs.msgs, ?_, by rw [hwr, hacc]; exact hs.written⟩
  rw [hacc]
  exact ⟨e2 ▸ hs.carrying.nxt, by rw [e4, e2]; exact hs.carrying.queue,
    fun f hf => hs.carrying.buf f (hsh.buf.subset hf), hbuf ▸ hs.carrying.buffer⟩

theorem sender_sent {buf : List UInt8} (hs : Sender mss e) (hsend : Sendable mss buf) :
    Sender mss
      { e with kcb := e.kcb.setSndQueue (e.kcb.sndQueue ++ cut mss buf), accepted := e.accepted ++ [buf] } := by
  have hF : pieces mss e.accepted <+: pieces mss (e.accepted ++ [buf]) :=
    pieces_mono mss (List.prefix_append _ _)
  have hnew : pieces mss (e.accepted ++ [buf]) = pieces mss e.accepted ++ (cut mss buf).map Segment.piece := by
    rw [pieces_append]
    simp [pieces]
  refine ⟨hs.stream, hs.size, fun m hm => ?_, ⟨?_, ?_, ?_, ?_⟩, fun d hd => (hs.written d hd).mono fun s h => h.mono hF⟩
  · rcases List.mem_append.mp hm with hm | hm
    · exact hs.msgs m hm
    · exact List.mem_singleton.mp hm ▸ hsend
  · exact Nat.le_trans hs.carrying.nxt hF.length_le
  · show (e.kcb.sndQueue ++ cut mss buf).map Segment.piece = (pieces mss (e.accepted ++ [buf])).drop e.kcb.sndNxt.toNat
    rw [hnew, List.map_append, hs.carrying.queue, List.drop_append_of_le_length hs.carrying.nxt]
  · intro f hf
    obtain ⟨h1, h2, h3⟩ := hs.carrying.buf f hf
    exact ⟨h1, h2.mono hF, h3⟩
  · exact hs.carrying.buffer.mono fun s h => h.mono hF

/-- **One call of the side that sends**: any call, any datagrams given to it. -/
theorem sender_exec {op : Op} (hmss : 0 < mss ∧ mss < 2 ^ 32) (h : e.exec b op = some e') (hs : Sender mss e) :
    Sender mss e' ∧ (e'.accepted = e.accepted ∨ ∃ buf, e'.accepted = e.accepted ++ [buf]) := by
  cases op <;> simp only [Endpoint.exec, Option.map_eq_some_iff] at h
  case send buf =>
    obtain ⟨⟨r, k'⟩, hsend, rfl⟩ := h
    rcases send_message hs.stream (hs.size ▸ hmss.1) hsend with ⟨err, rfl, rfl⟩ | ⟨n, rfl, hok, rfl⟩
    · exact ⟨hs, Or.inl rfl⟩
    · rw [hs.size] at hok
      refine ⟨?_, Or.inr ⟨buf, rfl⟩⟩
      simp only [Endpoint.sent, hs.size]
      exact sender_sent hs hok
  case recv cap =>
    obtain ⟨⟨r, k'⟩, hrecv, rfl⟩ := h
    obtain ⟨h1, h2, h3⟩ := settings_recv hrecv
    have hsh : e.kcb.sendSide.Shrinks k'.sendSide := h3 ▸ .refl _
    cases r <;> exact ⟨sender_shrinks hs h1 hsh h2 rfl rfl, Or.inl rfl⟩
  case input d =>
    obtain ⟨⟨r, k'⟩, hin, rfl⟩ := h
    obtain ⟨h1, h2⟩ := settings_input hin
    exact ⟨sender_shrinks hs h1 (shrinks_input hin) h2 rfl rfl, Or.inl rfl⟩
  case update now cut =>
    obtain ⟨f, hf, rfl⟩ := h
    exact ⟨sender_flushed hmss.2 (update_follows hf) cut hs, Or.inl rfl⟩
  case flush cut =>
    obtain ⟨f, hf, rfl⟩ := h
    exact ⟨sender_flushed hmss.2 (flush_follows hf rfl) cut hs, Or.inl rfl⟩

end SenderCalls

/-! ### The receiver -/

/-- Everything that waits on the receive side carries the stream. -/
def Carried (F : List (UInt8 × List UInt8)) (k : Kcb) : Prop :=
  ∀ s ∈ k.rcvQueue ++ k.rcvBuf, Carries F s.fixed

/-- The invariant of the side that receives. -/
structure Receiver (mss : ℕ) (msgs : List (List UInt8)) (e : Endpoint) : Prop where
  recv : RecvInv e.kcb.recvSide e.taken
  carried : Carried (pieces mss msgs) e.kcb
  taken : e.taken.map Segment.piece = pieces mss e.received
  ordered : e.received <+: msgs

section ReceiverCalls

variable {b : Build} {p : Profile} {mss : ℕ} {msgs : List (List UInt8)} {e e' : Endpoint}

theorem carried_moved {F : List (UInt8 × List UInt8)} {k : Kcb} (hc : Carried F k) (n : ℕ) (nxt : UInt32) :
    Carried F (k.moved n nxt) := by
  intro s hs
  refine hc s ?_
  simp only [moved, List.append_assoc, List.take_append_drop] at hs
  exact hs

theorem carried_parseData {F : List (UInt8 × List UInt8)} {k k' : Kcb} {seg : Segment} (h1 : k.rcvNxt ≤ seg.sn)
    (h2 : seg.sn < k.rcvNxt + k.rcvWnd) (h : k.parseData p seg = some k') (hc : Carried F k)
    (hseg : Carries F seg.fixed) : Carried F k' := by
  obtain ⟨l, hl, e⟩ := parseData_inside (p := p) h1 h2
  rw [e] at h
  obtain ⟨n, nxt, rfl⟩ := moveData_eq_moved h
  refine carried_moved ?_ n nxt
  intro s hs
  rcases List.mem_append.mp hs with hs | hs
  · exact hc s (List.mem_append_left _ hs)
  · rcases hl.mem hs with hs | rfl
    · exact hc s (List.mem_append_right _ hs)
    · exact hseg

/-- Apart from a PUSH inside the window, a segment changes nothing that is stored. -/
theorem carried_taken {F : List (UInt8 × List UInt8)} {s s' : Scan} {h : Header} (ht : Taken p s h s')
    (hc : Carried F s.kcb)
    (hseg : InWindow s.kcb h → Carries F (segmentOf h (s.buf.take h.len.toNat)).fixed) : Carried F s'.kcb := by
  cases ht with
  | ack hack hk =>
    rename_i k m
    have e : (k.parseAck h.sn).shrinkBuf.recvSide = s.kcb.recvSide := by
      rcases hk with rfl | ⟨rtt, hk⟩
      · unfold parseAck
        split_ifs <;> rfl
      · obtain ⟨srtt, rttval, rto, rfl⟩ := updateAck_eq hk
        unfold parseAck
        split_ifs <;> rfl
    have e3 : (k.parseAck h.sn).shrinkBuf.rcvQueue = s.kcb.rcvQueue := congrArg RecvSide.rcvQueue e
    have e4 : (k.parseAck h.sn).shrinkBuf.rcvBuf = s.kcb.rcvBuf := congrArg RecvSide.rcvBuf e
    intro x hx
    rw [e3, e4] at hx
    exact hc x hx
  | inside hp hsn hle hk => exact carried_parseData hle hsn hk hc (hseg ⟨hp, hle, hsn⟩)
  | above | below | wask | other => exact hc

/-- After an honest segment that is not misread, whole segments follow, or nothing that is accepted. -/
theorem cursor_genuine {F : List (UInt8 × List UInt8)} {s s' : Scan} {seg : Segment} {segs : List Segment}
    (hbuf : s.buf = encodes (seg :: segs)) (hgen : Genuine F seg) (hsegs : ∀ x ∈ segs, Genuine F x)
    (hmis : s.misreads = false) (hs : s.inputStep p = some (.ok s'))
    (ht : Taken p { s with buf := seg.data ++ encodes segs } seg.header s') :
    Made (Genuine F) s'.buf ∨ refuses s.kcb.conv s'.buf = true := by
  have hlen : seg.header.len.toNat = seg.data.length := by
    rcases hgen with ⟨-, -, h3⟩ | ⟨-, h2⟩
    · exact Nat.mod_eq_of_lt h3
    · simp [Segment.header, h2]
  rcases cursor_taken ht with ⟨-, e⟩ | ⟨hw, e⟩
  · rw [hlen, List.drop_left] at e
    exact Or.inl ⟨segs, e, hsegs⟩
  · by_cases hd : seg.data = []
    · rw [hd] at e
      exact Or.inl ⟨segs, e, hsegs⟩
    · right
      obtain ⟨h, rest, hr, hacc, -⟩ := inputStep_ok hs
      have hr' := hr
      rw [hbuf, encodes_cons, readHeader_encode, Option.some.injEq, Prod.mk.injEq] at hr'
      obtain ⟨rfl, rfl⟩ := hr'
      have hlen0 : seg.header.len ≠ 0 := by
        intro h0
        rw [h0] at hlen
        exact hd (List.length_eq_zero_iff.mp hlen.symm)
      rw [e]
      exact refuses_of_not_misreads hr hacc hlen0 hw hmis

/-- **`input`, given an honest datagram that is not misread**, stores fragments of the stream only. -/
theorem carried_input {F : List (UInt8 × List UInt8)} {k k' : Kcb} {d : List UInt8} {r : Except IoError ℕ}
    (h : k.input p d = some (r, k')) (ha : k.aligned p d = true) (hd : Made (Genuine F) d) (hc : Carried F k) :
    Carried F k' := by
  -- the cursor stands before whole segments, or where the header tests refuse
  refine input_rule_aligned
    (I := fun s => Carried F s.kcb ∧ (Made (Genuine F) s.buf ∨ refuses s.kcb.conv s.buf = true))
    (J := Carried F) h ha ⟨hc, Or.inl hd⟩ (fun _ hs => hs.1) ?_ ?_
  · rintro s s' ⟨i1, i2⟩ hmis hs
    rcases i2 with ⟨segs, hbuf, hsegs⟩ | href
    · cases segs with
      | nil =>
        obtain ⟨hd, rest, hr, -⟩ := inputStep_ok hs
        rw [hbuf] at hr
        simp [readHeader, encodes, getU32le, getLE] at hr
      | cons seg segs =>
        have hgen := hsegs seg (by simp)
        have ht := inputStep_encodes hbuf hs
        have hconv : s'.kcb.conv = s.kcb.conv := congrArg Settings.conv (settings_taken ht).1
        refine ⟨carried_taken ht i1 fun hw => ?_, ?_⟩
        · rcases hgen with ⟨-, h2, h3⟩ | ⟨hne, -⟩
          · have hlen : seg.header.len.toNat = seg.data.length := Nat.mod_eq_of_lt h3
            rw [hlen, List.take_left]
            exact h2
          · exact absurd hw.1 hne
        · rw [hconv]
          exact cursor_genuine hbuf hgen (fun x hx => hsegs x (by simp [hx])) hmis hs ht
    · exact absurd hs (inputStep_of_refuses href)
  · rintro s k' ⟨i1, -⟩ hf
    obtain ⟨l, c, i, -, rfl⟩ := finishInput_eq hf
    exact i1

theorem Receiver.queue_prefix {rest : List (List UInt8)} (hr : Receiver mss msgs e)
    (hrest : e.received ++ rest = msgs) : e.kcb.rcvQueue.map Segment.piece <+: pieces mss rest := by
  have hnum := hr.recv.numbers
  have htaken : (pieces mss e.received).length = e.taken.length := by rw [← hr.taken, List.length_map]
  rw [List.prefix_iff_getElem?]
  intro i hi
  rw [List.length_map] at hi
  -- the number of the segment is its place in the stream
  have hn : e.kcb.rcvQueue[i].num = e.taken.length + i := by
    have h1 : ((e.taken ++ e.kcb.rcvQueue).map Segment.num)[e.taken.length + i]? = some e.kcb.rcvQueue[i].num := by
      rw [List.getElem?_map, List.getElem?_append_right (Nat.le_add_right _ _), Nat.add_sub_cancel_left,
        List.getElem?_eq_getElem hi, Option.map_some]
    replace hnum : (e.taken ++ e.kcb.rcvQueue).map Segment.num = List.range e.kcb.rcvNxt.toNat := hnum
    rw [hnum, List.getElem?_eq_some_iff] at h1
    obtain ⟨hlt, h1⟩ := h1
    rw [List.getElem_range] at h1
    exact h1.symm
  have hc := hr.carried _ (List.mem_append_left _ (List.getElem_mem hi))
  have hc' : (pieces mss msgs)[e.taken.length + i]? = some e.kcb.rcvQueue[i].piece := by
    rw [← hn]
    exact hc
  rw [← hrest, pieces_append, ← htaken, List.getElem?_append_right (Nat.le_add_right _ _),
    Nat.add_sub_cancel_left] at hc'
  rw [List.getElem_map]
  exact hc'

/-- **`recv` returns the next message.** -/
theorem receiver_recv {k₁ : Kcb} {probe : UInt32} (hmss : 0 < mss) (hm : ∀ m ∈ msgs, Sendable mss m)
    (hr : Receiver mss msgs e) (hw : Whole e.kcb.rcvQueue) (h1 : moveData p e.kcb.popped = some k₁) :
    Receiver mss msgs
      { e with
        kcb := k₁.setProbe probe
        received := e.received ++ [(headMessage e.kcb.rcvQueue).flatMap Segment.data]
        taken := e.taken ++ headMessage e.kcb.rcvQueue } := by
  obtain ⟨rest, hrest⟩ := hr.ordered
  obtain ⟨m, rest', rfl, hp, hd⟩ := headMessage_of_prefix hmss
    (fun m hmem => hm m (hrest ▸ List.mem_append_right _ hmem)) (hr.queue_prefix hrest) hw
  refine ⟨(recvInv_popped hr.recv h1).1, ?_, ?_, ?_⟩
  · obtain ⟨n, nxt, rfl⟩ := moveData_eq_moved h1
    refine carried_moved ?_ n nxt
    intro s hs
    rcases List.mem_append.mp hs with hs | hs
    · exact hr.carried s (List.mem_append_left _ (List.mem_of_mem_drop hs))
    · exact hr.carried s (List.mem_append_right _ hs)
  · rw [List.map_append, hr.taken, hp, hd, pieces_append]
    simp [pieces]
  · refine ⟨rest', ?_⟩
    show e.received ++ [(headMessage e.kcb.rcvQueue).flatMap Segment.data] ++ rest' = msgs
    rw [hd, ← hrest, List.append_assoc]
    rfl

theorem Receiver.mono {msgs' : List (List UInt8)} (hr : Receiver mss msgs e) (h : msgs <+: msgs') :
    Receiver mss msgs' e :=
  ⟨hr.recv, fun s hs => (hr.carried s hs).mono (pieces_mono mss h), hr.taken, hr.ordered.trans h⟩

/-- A call that stores nothing new. -/
theorem receiver_keeps (hr : Receiver mss msgs e) (hrecv : RecvInv e'.kcb.recvSide e.taken)
    (hc : Carried (pieces mss msgs) e'.kcb) (ht : e'.taken = e.taken) (hrec : e'.received = e.received) :
    Receiver mss msgs e' :=
  ⟨ht ▸ hrecv, hc, by rw [ht, hrec]; exact hr.taken, hrec ▸ hr.ordered⟩

theorem carried_flushed {F : List (UInt8 × List UInt8)} {k₀ k : Kcb} {f : Flushing}
    (hf : Follows b k₀ k f.kcb f.writes) (cut : Option ℕ) (hc : Carried F k) : Carried F (f.stopAt cut).1 := by
  refine (flushed_rule (I := Carried F) cut hf hc fun k k' hi hs => ?_).1
  rcases recvSide_flushStep hs with e | e
  all_goals
    have e3 : k'.rcvQueue = k.rcvQueue := congrArg RecvSide.rcvQueue e
    have e4 : k'.rcvBuf = k.rcvBuf := congrArg RecvSide.rcvBuf e
    intro x hx
    rw [e3, e4] at hx
    exact hi x hx

/-- **One call of the side that receives**, the network handing over honest datagrams. -/
theorem receiver_exec {op : Op} (hmss : 0 < mss) (hm : ∀ m ∈ msgs, Sendable mss m) (h : e.exec b op = some e')
    (hop : ∀ d, op = .input d → Made (Genuine (pieces mss msgs)) d ∧ e.kcb.aligned b.profile d = true)
    (hr : Receiver mss msgs e) :
    Receiver mss msgs e' ∧ (e'.received = e.received ∨ ∃ m, e'.received = e.received ++ [m]) := by
  have hrecv := (recvInv_exec h hr.recv).1
  cases op <;> simp only [Endpoint.exec, Option.map_eq_some_iff] at h
  case send buf =>
    obtain ⟨⟨r, k'⟩, hsend, rfl⟩ := h
    obtain ⟨q, rfl⟩ := send_eq hsend
    cases r <;> exact ⟨receiver_keeps hr hrecv hr.carried rfl rfl, Or.inl rfl⟩
  case recv cap =>
    obtain ⟨⟨r, k'⟩, hrc, rfl⟩ := h
    rcases recv_cases hrc with ⟨err, rfl, rfl⟩ | ⟨rfl, hw, k1, pr, h1, rfl⟩
    · exact ⟨hr, Or.inl rfl⟩
    · exact ⟨receiver_recv hmss hm hr hw h1, Or.inr ⟨_, rfl⟩⟩
  case input d =>
    obtain ⟨⟨r, k'⟩, hin, rfl⟩ := h
    obtain ⟨h1, h2⟩ := hop d rfl
    exact ⟨receiver_keeps hr hrecv (carried_input hin h2 h1 hr.carried) rfl rfl, Or.inl rfl⟩
  case update now cut =>
    obtain ⟨f, hf, rfl⟩ := h
    exact ⟨receiver_keeps hr hrecv (carried_flushed (update_follows hf) cut hr.carried) rfl rfl, Or.inl rfl⟩
  case flush cut =>
    obtain ⟨f, hf, rfl⟩ := h
    exact ⟨receiver_keeps hr hrecv (carried_flushed (flush_follows hf rfl) cut hr.carried) rfl rfl, Or.inl rfl⟩

end ReceiverCalls

/-! ### The link is a channel -/

variable {b : Build}

/-- The two sides together. -/
structure Delivers (mss : ℕ) (l : Link) : Prop where
  left : Sender mss l.left
  right : Receiver mss l.left.accepted l.right

/-- The call does not make the right side read data as a header. -/
def Act.aligned (b : Build) (l : Link) : Act → Bool
  | .right (.input d) => l.right.kcb.aligned b.profile d
  | _ => true

/-- **The link simulates a reliable, ordered channel**, as long as the right side does not read data as a header. -/
theorem link_simulates {mss : ℕ} (hmss : 0 < mss ∧ mss < 2 ^ 32) :
    Simulates (Link.exec b) (fun l a => a.aligned b l = true) (Delivers mss) (fun l => l.left.accepted)
      fun l => l.right.received := by
  intro l a l' c hi ha h hs hd
  cases a with
  | left op =>
    obtain ⟨-, e, he, rfl⟩ := Link.link_left h
    obtain ⟨i1, i2⟩ := sender_exec hmss he hi.left
    rcases i2 with hacc | ⟨buf, hacc⟩
    · exact ⟨⟨i1, hacc ▸ hi.right⟩, c, .refl, hs.trans hacc.symm, hd⟩
    · have hpre : l.left.accepted <+: e.accepted := hacc ▸ List.prefix_append _ _
      refine ⟨⟨i1, hi.right.mono hpre⟩, _, .single (.send c buf), ?_, hd⟩
      show c.sent ++ [buf] = e.accepted
      rw [hs, hacc]
  | right op =>
    obtain ⟨hdel, e, he, rfl⟩ := Link.link_right h
    have hop : ∀ d, op = .input d → Made (Genuine (pieces mss l.left.accepted)) d ∧
        l.right.kcb.aligned b.profile d = true := by
      rintro d rfl
      exact ⟨hi.left.written d (Link.mem_of_deliverable hdel), ha⟩
    obtain ⟨i1, i2⟩ := receiver_exec hmss.1 hi.left.msgs he hop hi.right
    rcases i2 with hrec | ⟨m, hrec⟩
    · exact ⟨⟨hi.left, i1⟩, c, .refl, hs, hd.trans hrec.symm⟩
    · have hord : c.delivered ++ [m] <+: c.sent := by
        rw [hd, hs, ← hrec]
        exact i1.ordered
      refine ⟨⟨hi.left, i1⟩, _, .single (.deliver c hord), hs, ?_⟩
      show c.delivered ++ [m] = e.received
      rw [hd, hrec]

theorem delivers_start (conv : UInt32) (cl cr : Config) :
    Delivers (kcpMtuDef - kcpOverhead) (Link.start conv cl cr) := by
  obtain ⟨_, _, _, _, _, _, h⟩ := configured_eq conv cl
  obtain ⟨_, _, _, _, _, _, h'⟩ := configured_eq conv cr
  refine ⟨⟨?_, ?_, fun m hm => absurd hm List.not_mem_nil, ?_, fun d hd => absurd hd List.not_mem_nil⟩,
    recvInv_start conv cr, ?_, rfl, List.nil_prefix⟩
  · show (configured conv cl).stream = false
    rw [h]
    rfl
  · show (configured conv cl).mss = _
    rw [h]
    rfl
  · show Carrying _ (configured conv cl)
    rw [h]
    exact ⟨Nat.zero_le _, rfl, fun f hf => absurd hf List.not_mem_nil, made_nil⟩
  · show Carried _ (configured conv cr)
    rw [h']
    exact fun s hs => absurd hs List.not_mem_nil

/-- **Integrity from end to end**: in every run in which the right side never reads data as a header, what it receives
is a prefix of what the left side's `send` accepted. -/
theorem delivered_prefix {conv : UInt32} {cl cr : Config} {acts : List Act} {l : Link}
    (hm : Meets (Link.exec b) (fun l a => a.aligned b l = true) (Link.start conv cl cr) acts)
    (hr : run (Link.exec b) (Link.start conv cl cr) acts = some l) : l.right.received <+: l.left.accepted :=
  delivered_prefix_of_simulates (link_simulates (by decide)) hm hr (delivers_start conv cl cr) rfl rfl

/-- A message of two bytes whose segment arrives twice. -/
theorem delivered_prefix_twice :
    ∃ l, run (Link.exec ⟨.release, bytesMut⟩) (Link.start 1 {} {})
        [.left (.send [7, 8]), .left (.update 0 none), .left (.update 100 none),
          .right (.input (encodes [{ conv := 1, cmd := kcpCmdPush, wnd := 32, ts := 100, data := [7, 8] }])),
          .right (.input (encodes [{ conv := 1, cmd := kcpCmdPush, wnd := 32, ts := 100, data := [7, 8] }])),
          .right (.recv 2)] = some l ∧
      l.right.received = [[7, 8]] ∧ l.right.received <+: l.left.accepted := by
  have h : (run (Link.exec ⟨.release, bytesMut⟩) (Link.start 1 {} {})
      [.left (.send [7, 8]), .left (.update 0 none), .left (.update 100 none),
        .right (.input (encodes [{ conv := 1, cmd := kcpCmdPush, wnd := 32, ts := 100, data := [7, 8] }])),
        .right (.input (encodes [{ conv := 1, cmd := kcpCmdPush, wnd := 32, ts := 100, data := [7, 8] }])),
        .right (.recv 2)]).map (fun l => l.right.received) = some [[7, 8]] := by
    decide +kernel
  obtain ⟨l, hl, hv⟩ := Option.map_eq_some_iff.mp h
  exact ⟨l, hl, hv, delivered_prefix (by decide +kernel) hl⟩

/-- The bytes of a segment with number 1 and four bytes of data, sent as a message. -/
def forged : List UInt8 := Segment.encode { conv := 1, cmd := kcpCmdPush, wnd := 32, sn := 1, data := [1, 2, 3, 4] }

/-- The segment that carries `forged` arrives twice.  The second time it lies below the window, its data is not
skipped, and the right side receives a message that was never sent. -/
theorem delivered_forged :
    ∃ l, run (Link.exec ⟨.release, bytesMut⟩) (Link.start 1 {} {})
        [.left (.send forged), .left (.update 0 none), .left (.update 100 none),
          .right (.input (encodes [{ conv := 1, cmd := kcpCmdPush, wnd := 32, ts := 100, data := forged }])),
          .right (.input (encodes [{ conv := 1, cmd := kcpCmdPush, wnd := 32, ts := 100, data := forged }])),
          .right (.recv 28), .right (.recv 28)] = some l ∧
      l.left.accepted = [forged] ∧ l.right.received = [forged, [1, 2, 3, 4]] ∧
      ¬ l.right.received <+: l.left.accepted := by
  have h : (run (Link.exec ⟨.release, bytesMut⟩) (Link.start 1 {} {})
      [.left (.send forged), .left (.update 0 none), .left (.update 100 none),
        .right (.input (encodes [{ conv := 1, cmd := kcpCmdPush, wnd := 32, ts := 100, data := forged }])),
        .right (.input (encodes [{ conv := 1, cmd := kcpCmdPush, wnd := 32, ts := 100, data := forged }])),
        .right (.recv 28), .right (.recv 28)]).map (fun l => (l.left.accepted, l.right.received)) =
      some ([forged], [forged, [1, 2, 3, 4]]) := by
    decide +kernel
  obtain ⟨l, hl, hv⟩ := Option.map_eq_some_iff.mp h
  obtain ⟨h1, h2⟩ := Prod.mk.inj hv
  refine ⟨l, hl, h1, h2, ?_⟩
  rw [h1, h2]
  intro hp
  exact absurd hp.length_le (by decide)

end NetProtocols.Kcp
