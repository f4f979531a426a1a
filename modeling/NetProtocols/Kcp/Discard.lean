import NetProtocols.Kcp.Reading

/-!
# NetProtocols.Kcp.Discard — the sender discards only what the receiver has stored

The left side sends, the right side does not.  Every acknowledgement and every `una` value that the right side has
ever written is true of its present state, because what is stored stays stored (`RecvSide.Keeps`); so, however late
and however often they arrive, they make the left side drop stored numbers only.

* `Reply r seg`: a segment that acknowledges nothing but what the receive side `r` has stored.
* `Replies`: the invariant of a side that never sends.
* `Discards`: the invariant that joins the two sides.
-/

namespace NetProtocols.Kcp

open Kcb Scan

/-- A segment without data that acknowledges what `r` has stored, and nothing else. -/
structure Reply (r : RecvSide) (seg : Segment) : Prop where
  data : seg.data = []
  una : seg.una ≤ r.rcvNxt
  ack : seg.cmd = kcpCmdAck → r.Stored seg.sn

theorem Reply.keeps {r r' : RecvSide} {seg : Segment} (h : Reply r seg) (hk : r.Keeps r') : Reply r' seg :=
  ⟨h.data, UInt32.le_trans h.una hk.nxt, fun hc => hk.stored _ (h.ack hc)⟩

/-- An endpoint that never sends: it has nothing to transmit, and its datagrams are made of replies. -/
structure Replies (e : Endpoint) : Prop where
  recv : RecvInv e.kcb.recvSide e.taken
  queue : e.kcb.sndQueue = []
  buf : e.kcb.sndBuf = []
  buffer : Made (Reply e.kcb.recvSide) e.kcb.buffer
  written : ∀ d ∈ e.written, Made (Reply e.kcb.recvSide) d

/-! ### The side that never sends -/

section Receiver

variable {b : Build} {e e' : Endpoint}

/-- During a flush, the receive side only loses acknowledgements that it has sent. -/
structure Replying (k k' : Kcb) : Prop where
  nxt : k'.rcvNxt = k.rcvNxt
  rcvBuf : k'.rcvBuf = k.rcvBuf
  acks : ∀ a ∈ k'.acklist, a ∈ k.acklist
  queue : k'.sndQueue = []
  buf : k'.sndBuf = []
  buffer : Made (Reply k.recvSide) k'.buffer

theorem replying_flushStep {k k₀ k₁ k₂ : Kcb} (hacked : ∀ a ∈ k.acklist, k.recvSide.Stored a.1)
    (hr : Replying k k₁) (h : FlushStep b k₀ k₁ k₂) : Replying k k₂ := by
  have hbuffer : Made (Reply k.recvSide) k₂.buffer := by
    refine made_flushStep h ?_ ?_ hr.buffer
    · intro seg hc hs
      refine ⟨hc.data, ?_, fun hcmd => ?_⟩
      · rw [hc.una, hr.nxt]
        exact UInt32.le_refl _
      · rcases hs with ⟨-, hm⟩ | hw | hw
        · exact hacked _ (hr.acks _ hm)
        · exact absurd (hcmd.symm.trans hw) (by decide)
        · exact absurd (hcmd.symm.trans hw) (by decide)
    · intro seg hm
      rw [hr.buf] at hm
      simp at hm
  have hsend : k₂.sndQueue = [] ∧ k₂.sndBuf = [] := by
    rcases sendSide_flushStep h with e | ⟨seg, rest, hq, -⟩
    · simp only [sendSide, SendSide.mk.injEq] at e
      obtain ⟨-, -, -, e4, e5⟩ := e
      rw [hr.buf] at e5
      exact ⟨e4.trans hr.queue, List.map_eq_nil_iff.mp e5⟩
    · rw [hr.queue] at hq
      simp at hq
  rcases recvSide_flushStep h with e | e
  all_goals
    simp only [recvSide, RecvSide.mk.injEq] at e
    obtain ⟨e1, -, -, e4, e5⟩ := e
    refine ⟨e1.trans hr.nxt, e4.trans hr.rcvBuf, ?_, hsend.1, hsend.2, hbuffer⟩
    rw [e5]
  · exact hr.acks
  · simp

theorem replies_flushed {f : Flushing} (hf : Follows b e.kcb e.kcb f.kcb f.writes) (cut : Option ℕ)
    (hi : Replies e) : Replies (e.flushed cut f) := by
  have hself : Replying e.kcb e.kcb := ⟨rfl, rfl, fun _ h => h, hi.queue, hi.buf, hi.buffer⟩
  obtain ⟨hk, hw⟩ := flushed_rule (I := Replying e.kcb) cut hf hself fun k k' hr hs =>
    replying_flushStep hi.recv.acked hr hs
  obtain ⟨hinv, hkeep⟩ := recvInv_flushed hf cut hi.recv
  refine ⟨hinv, hk.queue, hk.buf, hk.buffer.mono fun s hs => hs.keeps hkeep, ?_⟩
  intro d hd
  rcases List.mem_append.mp hd with hd | hd
  · exact (hi.written d hd).mono fun s hs => hs.keeps hkeep
  · obtain ⟨w, hw, rfl⟩ := hw d hd
    exact hw.buffer.mono fun s hs => hs.keeps hkeep

theorem replies_keeps {k : Kcb} {taken : List Segment} (hi : Replies e) (hrecv : RecvInv k.recvSide taken)
    (hkeep : e.kcb.recvSide.Keeps k.recvSide) (hq : k.sndQueue = []) (hb : k.sndBuf = [])
    (hbuf : k.buffer = e.kcb.buffer) (he : e'.kcb = k) (ht : e'.taken = taken) (hw : e'.written = e.written) :
    Replies e' := by
  refine ⟨he ▸ ht ▸ hrecv, he ▸ hq, he ▸ hb, ?_, ?_⟩
  · rw [he, hbuf]
    exact hi.buffer.mono fun s hs => hs.keeps hkeep
  · intro d hd
    rw [he]
    exact (hi.written d (hw ▸ hd)).mono fun s hs => hs.keeps hkeep

theorem replies_exec {op : Op} (h : e.exec b op = some e') (hop : ∀ buf, op ≠ .send buf) (hi : Replies e) :
    Replies e' ∧ e.kcb.recvSide.Keeps e'.kcb.recvSide := by
  obtain ⟨hrecv, hkeep⟩ := recvInv_exec h hi.recv
  refine ⟨?_, hkeep⟩
  cases op <;> simp only [Endpoint.exec, Option.map_eq_some_iff] at h
  case send buf => exact absurd rfl (hop buf)
  case recv cap =>
    obtain ⟨⟨r, k'⟩, hs, rfl⟩ := h
    have hside := (settings_recv hs).2.2
    simp only [sendSide, SendSide.mk.injEq] at hside
    obtain ⟨-, -, -, e4, e5⟩ := hside
    rw [hi.buf] at e5
    cases r <;>
      exact replies_keeps hi hrecv hkeep (e4.trans hi.queue) (List.map_eq_nil_iff.mp e5) (settings_recv hs).2.1 rfl
        rfl rfl
  case input d =>
    obtain ⟨⟨r, k'⟩, hs, rfl⟩ := h
    have hsh := shrinks_input hs
    have hb : k'.sndBuf.map Segment.fixed = [] := by
      have h1 : (k'.sndBuf.map Segment.fixed).Sublist (e.kcb.sndBuf.map Segment.fixed) := hsh.buf
      rw [hi.buf] at h1
      exact List.sublist_nil.mp h1
    have hq : k'.sndQueue = e.kcb.sndQueue := hsh.queue
    exact replies_keeps hi hrecv hkeep (hq.trans hi.queue) (List.map_eq_nil_iff.mp hb) (settings_input hs).2 rfl rfl
      rfl
  case update now cut =>
    obtain ⟨f, hf, rfl⟩ := h
    exact replies_flushed (update_follows hf) cut hi
  case flush cut =>
    obtain ⟨f, hf, rfl⟩ := h
    exact replies_flushed (flush_follows hf rfl) cut hi

end Receiver

/-! ### The side that sends -/

section Sender

variable {p : Profile} {b : Build}

/-- Every number that `k` has used is still in its `snd_buf`, or stored by `r`. -/
def Discards (k : Kcb) (r : RecvSide) : Prop :=
  ∀ sn, sn < k.sndNxt → (∃ f ∈ k.sendSide.sndBuf, f.sn = sn) ∨ r.Stored sn

theorem Discards.keeps {k : Kcb} {r r' : RecvSide} (h : Discards k r) (hk : r.Keeps r') : Discards k r' :=
  fun sn hsn => (h sn hsn).imp_right (hk.stored sn)

theorem Discards.of_sendSide {k k' : Kcb} {r : RecvSide} (h : Discards k r) (e : k'.sendSide = k.sendSide) :
    Discards k' r := by
  simp only [Discards, e]
  have e2 : k'.sndNxt = k.sndNxt := congrArg SendSide.sndNxt e
  rw [e2]
  exact h

/-- A reply takes out stored numbers only. -/
theorem discards_taken {s s' : Scan} {seg : Segment} {r : RecvSide} (ht : Scan.Taken p s seg.header s')
    (hr : Reply r seg) (hd : Discards s.kcb r) : Discards s'.kcb r := by
  have hh : Discards (s.kcb.onHeader seg.header) r := by
    intro sn hsn
    rcases hd sn hsn with ⟨f, hf, rfl⟩ | hst
    · obtain ⟨x, hx, rfl⟩ := List.mem_map.mp hf
      rcases UInt32.lt_or_le x.sn seg.una with hlt | hle
      · exact Or.inr (Or.inl (UInt32.lt_of_lt_of_le hlt hr.una))
      · exact Or.inl ⟨_, List.mem_map_of_mem (drop_countBelow_keeps hx hle), rfl⟩
    · exact Or.inr hst
  rcases sendSide_taken ht with e | ⟨hc, e⟩
  · exact hh.of_sendSide e
  · refine Discards.of_sendSide ?_ e
    intro sn hsn
    have hnxt : ((s.kcb.onHeader seg.header).parseAck seg.header.sn).shrinkBuf.sndNxt =
        (s.kcb.onHeader seg.header).sndNxt := (shrinks_parseAck _ _).nxt
    rcases hh sn (hnxt ▸ hsn) with ⟨f, hf, rfl⟩ | hst
    · obtain ⟨x, hx, rfl⟩ := List.mem_map.mp hf
      by_cases hne : x.sn = seg.sn
      · have hst : r.Stored x.sn := hne ▸ hr.ack hc
        exact Or.inr hst
      · refine Or.inl ⟨x.fixed, List.mem_map_of_mem ?_, rfl⟩
        unfold parseAck
        split_ifs
        · exact hx
        · exact removeSn_keeps hx hne
    · exact Or.inr hst

theorem discards_input {k k' : Kcb} {d : List UInt8} {x : Except IoError ℕ} {r : RecvSide}
    (h : k.input p d = some (x, k')) (hm : Made (Reply r) d) (hd : Discards k r) : Discards k' r := by
  refine input_rule (I := fun s => Discards s.kcb r ∧ Made (Reply r) s.buf) (J := fun k' => Discards k' r) h ⟨hd, hm⟩
    (fun _ hs => hs.1) ?_ ?_
  · rintro s s' ⟨i1, segs, hbuf, hsegs⟩ hs
    cases segs with
    | nil =>
      obtain ⟨hd, rest, hr, -⟩ := Scan.inputStep_ok hs
      rw [hbuf] at hr
      simp [readHeader, encodes, getU32le, getLE] at hr
    | cons seg segs =>
      have ht := inputStep_encodes hbuf hs
      have hr := hsegs seg (by simp)
      rw [hr.data, List.nil_append] at ht
      refine ⟨discards_taken ht hr i1, segs, ?_, fun s hm => hsegs s (by simp [hm])⟩
      rcases cursor_taken ht with ⟨-, e⟩ | ⟨-, e⟩
      · rw [e, Segment.header, hr.data]
        rfl
      · exact e
  · rintro s k' ⟨i1, -⟩ hf
    exact i1.of_sendSide (finishInput_sides hf).2

/-- Numbers that a flush assigns enter `snd_buf`. -/
theorem discards_assigned {k k' : Kcb} {n : ℕ} {r : RecvSide} (ha : Assigned k k' n) (hd : Discards k r) :
    Discards k' r := by
  intro sn hsn
  have hbuf : k'.sendSide.sndBuf = k.sendSide.sndBuf ++ numbered k.conv k.sndNxt (k.sndQueue.take n) := ha.buf
  rw [hbuf]
  rcases UInt32.lt_or_le sn k.sndNxt with hlt | hle
  · rcases hd sn hlt with ⟨f, hf, e⟩ | hst
    · exact Or.inl ⟨f, List.mem_append_left _ hf, e⟩
    · exact Or.inr hst
  · have h1 := UInt32.le_iff_toNat_le.mp hle
    have h2 := UInt32.lt_iff_toNat_lt.mp hsn
    rw [ha.nxt] at h2
    have hlt : sn.toNat - k.sndNxt.toNat < (k.sndQueue.take n).length := by
      have := ha.len
      rw [List.length_take]
      omega
    obtain ⟨f, hf, e⟩ := mem_numbered k.conv k.sndNxt hlt
    refine Or.inl ⟨f, List.mem_append_right _ hf, ?_⟩
    rw [e]
    exact (eq_add_ofNat (by omega)).symm

/-- One call of the side that sends, the network handing over replies. -/
theorem discards_exec {e e' : Endpoint} {op : Op} {r : RecvSide} (h : e.exec b op = some e')
    (hop : ∀ d, op = .input d → Made (Reply r) d) (hi : SendInv e.kcb.sendSide) (hd : Discards e.kcb r) :
    Discards e'.kcb r := by
  by_cases hfl : op.Flushes
  · obtain ⟨n, ha⟩ := assigned_exec h hi hfl
    exact discards_assigned ha hd
  · cases op <;> simp only [Endpoint.exec, Option.map_eq_some_iff] at h
    case send buf =>
      obtain ⟨⟨x, k'⟩, hs, rfl⟩ := h
      obtain ⟨q, rfl⟩ := send_eq hs
      cases x <;> exact hd
    case recv cap =>
      obtain ⟨⟨x, k'⟩, hs, rfl⟩ := h
      cases x <;> exact hd.of_sendSide ((settings_recv hs).2.2)
    case input d =>
      obtain ⟨⟨x, k'⟩, hs, rfl⟩ := h
      exact discards_input hs (hop d rfl) hd
    all_goals exact absurd trivial hfl

end Sender

/-! ### The two sides together -/

variable {b : Build}

/-- The invariant of a link whose right side never sends. -/
structure OneWay (l : Link) : Prop where
  left : SendInv l.left.kcb.sendSide
  right : Replies l.right
  discards : Discards l.left.kcb l.right.kcb.recvSide

theorem oneWay_exec {l l' : Link} {a : Act} (ha : ∀ buf, a ≠ .right (.send buf)) (h : l.exec b a = some l')
    (hi : OneWay l) : OneWay l' := by
  cases a with
  | left op =>
    obtain ⟨hd, e, he, rfl⟩ := Link.link_left h
    refine ⟨(sendInv_exec he hi.left).1, hi.right, discards_exec he ?_ hi.left hi.discards⟩
    rintro d rfl
    exact hi.right.written d (Link.mem_of_deliverable hd)
  | right op =>
    obtain ⟨-, e, he, rfl⟩ := Link.link_right h
    obtain ⟨i1, i2⟩ := replies_exec he (fun buf hb => ha buf (hb ▸ rfl)) hi.right
    exact ⟨hi.left, i1, hi.discards.keeps i2⟩

theorem oneWay_start (conv : UInt32) (cl cr : Config) : OneWay (Link.start conv cl cr) := by
  refine ⟨sendInv_start conv cl, ⟨recvInv_start conv cr, ?_, ?_, ?_, fun d hd => absurd hd List.not_mem_nil⟩, ?_⟩
  · obtain ⟨_, _, _, _, _, _, h⟩ := configured_eq conv cr
    show (configured conv cr).sndQueue = []
    rw [h]
    rfl
  · obtain ⟨_, _, _, _, _, _, h⟩ := configured_eq conv cr
    show (configured conv cr).sndBuf = []
    rw [h]
    rfl
  · obtain ⟨_, _, _, _, _, _, h⟩ := configured_eq conv cr
    show Made _ (configured conv cr).buffer
    rw [h]
    exact made_nil
  · obtain ⟨_, _, _, _, _, _, h⟩ := configured_eq conv cl
    intro sn hsn
    replace hsn : sn < (configured conv cl).sndNxt := hsn
    rw [h] at hsn
    exact absurd hsn (UInt32.not_lt.mpr UInt32.zero_le)

/-- **The sender discards only what the receiver has stored**: in every run of a link whose right side never sends,
a number that the left side has used and no longer holds was handed on by the right side, or waits in its
`rcv_buf`. -/
theorem discards_only_stored {conv : UInt32} {cl cr : Config} {acts : List Act} {l : Link}
    (hsend : ∀ a ∈ acts, ∀ buf, a ≠ .right (.send buf))
    (hr : run (Link.exec b) (Link.start conv cl cr) acts = some l) (sn : UInt32) (hsn : sn < l.left.kcb.sndNxt)
    (hgone : ∀ s ∈ l.left.kcb.sndBuf, s.sn ≠ sn) :
    sn < l.right.kcb.rcvNxt ∨ ∃ s ∈ l.right.kcb.rcvBuf, s.sn = sn := by
  have hm : Meets (Link.exec b) (fun _ a => ∀ buf, a ≠ .right (.send buf)) (Link.start conv cl cr) acts :=
    meets_of_forall (fun _ a ha => hsend a ha) _
  have hi : OneWay l := run_invariant_of_meets (I := OneWay) (fun _ _ _ hi ha h => oneWay_exec ha h hi) hm hr
    (oneWay_start conv cl cr)
  rcases hi.discards sn hsn with ⟨f, hf, rfl⟩ | hst
  · obtain ⟨s, hs, rfl⟩ := List.mem_map.mp hf
    exact absurd rfl (hgone s hs)
  · exact hst

/-- One segment sent, received, acknowledged, and dropped by the sender. -/
theorem discards_only_stored_acknowledged :
    ∃ l, run (Link.exec ⟨.release, bytesMut⟩) (Link.start 1 {} {})
        [.left (.send [7]), .left (.update 0 none), .left (.update 100 none), .right (.update 0 none),
          .right (.input (encodes [{ conv := 1, cmd := kcpCmdPush, wnd := 32, ts := 100, data := [7] }])),
          .right (.update 100 none),
          .left (.input (encodes [{ conv := 1, cmd := kcpCmdAck, wnd := 31, ts := 100, una := 1 }]))] = some l ∧
      l.left.kcb.sndNxt = 1 ∧ l.left.kcb.sndBuf = [] ∧
      (0 < l.right.kcb.rcvNxt ∨ ∃ s ∈ l.right.kcb.rcvBuf, s.sn = 0) := by
  have h : (run (Link.exec ⟨.release, bytesMut⟩) (Link.start 1 {} {})
      [.left (.send [7]), .left (.update 0 none), .left (.update 100 none), .right (.update 0 none),
        .right (.input (encodes [{ conv := 1, cmd := kcpCmdPush, wnd := 32, ts := 100, data := [7] }])),
        .right (.update 100 none),
        .left (.input (encodes [{ conv := 1, cmd := kcpCmdAck, wnd := 31, ts := 100, una := 1 }]))]).map
      (fun l => (l.left.kcb.sndNxt, l.left.kcb.sndBuf)) = some (1, []) := by
    decide +kernel
  obtain ⟨l, hl, hv⟩ := Option.map_eq_some_iff.mp h
  obtain ⟨h1, h2⟩ := Prod.mk.inj hv
  refine ⟨l, hl, h1, h2, discards_only_stored (by simp) hl 0 ?_ ?_⟩
  · rw [h1]
    decide
  · simp [h2]

end NetProtocols.Kcp
