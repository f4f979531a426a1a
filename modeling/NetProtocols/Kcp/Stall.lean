import NetProtocols.Kcp.Offers

/-!
# NetProtocols.Kcp.Stall — a message of more fragments than the window

* `Blocked`: a queue whose first fragment asks for more fragments than the window has; `blocked_exec`: no call of the
  receiving side changes that.
* `Stuck`: the queue is full, and no input makes `recv` return anything; `stuck_of_blocked`.
* `Stalling`: where the receiver stands after the first `m` fragments; `stalling_run`.
-/

namespace NetProtocols.Kcp

open Kcb Scan

variable {p : Profile} {k k' : Kcb}

/-- The queue begins with a fragment of a message of `n` fragments, more than the window has room for. -/
structure Blocked (wnd : UInt32) (n : ℕ) (e : Endpoint) : Prop where
  len : wnd.toNat < n ∧ n < 2 ^ 8
  wnd : e.kcb.rcvWnd = wnd
  inv : RecvInv e.kcb.recvSide e.taken
  head : ∃ seg rest, e.kcb.rcvQueue = seg :: rest ∧ seg.frg.toNat + 1 = n

/-- `rcv_queue` is full, `recv` fails, and no datagram given to `input` and no further `recv` changes that. -/
def Stuck (b : Build) (e : Endpoint) : Prop :=
  e.kcb.rcvWnd.toNat ≤ e.kcb.rcvQueue.length ∧
    ∀ calls e', (∀ op ∈ calls, Op.Receives op) → run (Endpoint.exec b) e calls = some e' →
      e'.kcb.rcvWnd.toNat ≤ e'.kcb.rcvQueue.length ∧
        ∀ cap, ∃ err, e'.kcb.recv b.profile cap = some (.error err, e'.kcb)

theorem blocked_recv {wnd : UInt32} {n : ℕ} {e : Endpoint} (hb : Blocked wnd n e) (cap : ℕ) :
    e.kcb.recv p cap = some (.error ⟨.unexpectedEof, "unexpected EOF"⟩, e.kcb) := by
  obtain ⟨seg, rest, hq, hfrg⟩ := hb.head
  have hroom : e.kcb.rcvQueue.length ≤ e.kcb.rcvWnd.toNat := hb.inv.room
  have hlen := hb.len
  rw [hb.wnd] at hroom
  exact recv_incomplete hq (by omega) (by omega) cap

theorem prefix_taken {s s' : Scan} {h : Header} (ht : Scan.Taken p s h s') : s.kcb.rcvQueue <+: s'.kcb.rcvQueue := by
  cases ht with
  | ack hc hk =>
    rename_i k m
    have hk' : k.rcvQueue = s.kcb.rcvQueue := by
      rcases hk with rfl | ⟨rtt, hk⟩
      · rfl
      · obtain ⟨srtt, rttval, rto, rfl⟩ := updateAck_eq hk
        rfl
    show s.kcb.rcvQueue <+: (k.parseAck h.sn).shrinkBuf.rcvQueue
    unfold parseAck
    split_ifs <;> exact hk' ▸ List.prefix_refl _
  | inside hc hsn hle hk =>
    rcases parseData_eq_moved hk with rfl | ⟨l, n, nxt, rfl⟩
    · exact List.prefix_refl _
    · exact List.prefix_append _ _
  | above | below | wask | other => exact List.prefix_refl _

theorem prefix_input {d : List UInt8} {r : Except IoError ℕ} (h : k.input p d = some (r, k')) :
    k.rcvQueue <+: k'.rcvQueue := by
  refine input_rule (I := fun s => k.rcvQueue <+: s.kcb.rcvQueue) (J := fun k' => k.rcvQueue <+: k'.rcvQueue) h
    (List.prefix_refl _) (fun _ hs => hs) ?_ ?_
  · intro s s' hs hst
    obtain ⟨hd, rest, -, -, ht⟩ := Scan.inputStep_ok hst
    exact hs.trans (prefix_taken (s := { s with buf := rest }) (Scan.taken_of_takeSegment ht))
  · intro s k' hs hf
    obtain ⟨l, c, i, -, rfl⟩ := finishInput_eq hf
    exact hs

/-- One call of the receiving side leaves a blocked queue blocked, and delivers nothing. -/
theorem blocked_exec {b : Build} {wnd : UInt32} {n : ℕ} {e e' : Endpoint} {op : Op} (hop : op.Receives)
    (hb : Blocked wnd n e) (h : e.exec b op = some e') :
    Blocked wnd n e' ∧ e.kcb.rcvQueue <+: e'.kcb.rcvQueue ∧ e'.received = e.received ∧ e'.taken = e.taken ∧
      e.kcb.recvSide.Keeps e'.kcb.recvSide := by
  cases op with
  | recv cap =>
    simp only [Endpoint.exec, blocked_recv hb cap, Option.map_some, Option.some.injEq] at h
    obtain rfl : e = e' := h
    exact ⟨hb, List.prefix_refl _, rfl, rfl, .refl _⟩
  | input d =>
    simp only [Endpoint.exec, Option.map_eq_some_iff] at h
    obtain ⟨⟨r, k'⟩, hin, rfl⟩ := h
    obtain ⟨hinv, hkeep⟩ := recvInv_input hin hb.inv
    have hpre := prefix_input hin
    refine ⟨⟨hb.len, hkeep.wnd.trans hb.wnd, hinv, ?_⟩, hpre, rfl, rfl, hkeep⟩
    obtain ⟨seg, rest, hq, hfrg⟩ := hb.head
    obtain ⟨l, hl⟩ := hpre
    exact ⟨seg, rest ++ l, by rw [← hl, hq]; rfl, hfrg⟩
  | send | update | flush => exact hop.elim

/-- **A blocked queue that is full is stuck.** -/
theorem stuck_of_blocked {b : Build} {wnd : UInt32} {n : ℕ} {e : Endpoint} (hb : Blocked wnd n e)
    (hfull : e.kcb.rcvWnd.toNat ≤ e.kcb.rcvQueue.length) : Stuck b e := by
  refine ⟨hfull, fun calls e' hcalls hr => ?_⟩
  have hfull' : wnd.toNat ≤ e.kcb.rcvQueue.length := hb.wnd ▸ hfull
  have hm : Meets (Endpoint.exec b) (fun _ op => Op.Receives op) e calls := meets_of_forall (fun _ => hcalls) e
  have h : Blocked wnd n e' ∧ wnd.toNat ≤ e'.kcb.rcvQueue.length := by
    refine run_invariant_of_meets (I := fun e => Blocked wnd n e ∧ wnd.toNat ≤ e.kcb.rcvQueue.length) ?_ hm hr
      ⟨hb, hfull'⟩
    rintro e op e' ⟨hb, hf⟩ hop hex
    obtain ⟨hb', hpre, -⟩ := blocked_exec hop hb hex
    exact ⟨hb', hf.trans hpre.length_le⟩
  exact ⟨h.1.wnd.symm ▸ h.2, fun cap => ⟨_, blocked_recv h.1 cap⟩⟩

/-- **Invariant rule for `input`** from its first iteration on. -/
theorem input_rule_first {I : Scan → Prop} {J : Kcb → Prop} {d : List UInt8} {r : Except IoError ℕ} {t : Scan}
    (h : k.input p d = some (r, k')) (hlen : kcpOverhead ≤ d.length) (hfirst : (k.scanOf d).inputStep p = some (.ok t))
    (h0 : I t) (hJ : ∀ s, I s → J s.kcb) (hstep : ∀ s s', I s → s.inputStep p = some (.ok s') → I s')
    (hfin : ∀ s k', I s → finishInput p s k.sndUna = some k' → J k') : J k' := by
  obtain ⟨fuel, hfuel⟩ : ∃ fuel, d.length = fuel + 1 := ⟨d.length - 1, by
    simp only [kcpOverhead] at hlen
    omega⟩
  unfold Kcb.input at h
  rw [if_neg (Nat.not_lt.mpr hlen)] at h
  simp only [Option.bind_eq_bind, Option.bind_eq_some_iff] at h
  obtain ⟨⟨x, s⟩, hx, h⟩ := h
  rw [hfuel] at hx
  unfold inputLoop at hx
  rw [if_neg (show ¬ (k.scanOf d).buf.length < kcpOverhead from Nat.not_lt.mpr hlen)] at hx
  simp only [hfirst, Option.bind_eq_bind, Option.bind_some] at hx
  obtain ⟨-, hs⟩ := inputLoop_rule (I := fun _ s => I s) (fun _ s s' => hstep s s') fuel hx h0
  cases x with
  | error e =>
    simp only [Option.some.injEq, Prod.mk.injEq] at h
    exact h.2 ▸ hJ s hs
  | ok u =>
    simp only [Option.bind_eq_some_iff, Option.some.injEq, Prod.mk.injEq] at h
    obtain ⟨k1, h1, -, rfl⟩ := h
    exact hfin s k1 hs h1

/-- A PUSH below the edge of the window is stored, whatever its data is read as afterwards. -/
theorem stored_input {seg : Segment} {r : Except IoError ℕ} {taken : List Segment} (hinv : RecvInv k.recvSide taken)
    (hconv : seg.conv = k.conv) (hpush : seg.cmd = kcpCmdPush) (hfit : k.rcvNxt.toNat + k.rcvWnd.toNat < 2 ^ 32)
    (hedge : seg.sn < k.rcvNxt + k.rcvWnd) (h : k.input p seg.encode = some (r, k')) : k'.recvSide.Stored seg.sn := by
  have hacking : RecvWindow (k.acking seg).recvSide taken :=
    ⟨hinv.sorted, hinv.window, hinv.below, hinv.room, hinv.numbers⟩
  have hstored : ∃ t, (k.scanOf []).handle p seg = some t ∧ t.kcb.recvSide.Stored seg.sn := by
    rw [handle_push hpush hfit hedge]
    by_cases hle : k.rcvNxt ≤ seg.sn
    · obtain ⟨k1, hk1, -, -, -, hst, -⟩ := recvWindow_parseData (p := p) hacking
        (show k.rcvNxt ≤ (segmentOf seg.header (seg.data.take seg.header.len.toNat)).sn from hle) hedge
      rw [if_pos hle, hk1]
      exact ⟨_, rfl, hst⟩
    · rw [if_neg hle]
      exact ⟨_, rfl, Or.inl (UInt32.not_le.mp hle)⟩
  obtain ⟨t, ht, hst⟩ := hstored
  have hstep : (k.scanOf seg.encode).inputStep p = some (.ok t) := by
    have h := inputStep_handle (p := p) (k.scanOf []) hconv (by rw [hpush]; rfl) []
    rw [ht] at h
    simpa [scanOf] using h
  refine input_rule_first (I := fun s => RecvInv s.kcb.recvSide taken ∧ s.kcb.recvSide.Stored seg.sn)
    (J := fun k' => k'.recvSide.Stored seg.sn) h (by rw [length_encode]; omega) hstep ⟨?_, hst⟩ (fun _ hs => hs.2) ?_ ?_
  · exact (recvInv_taken (taken_handle ht) hinv).1
  · rintro s s' ⟨i1, i2⟩ hs
    obtain ⟨hd, rest, -, -, ht⟩ := Scan.inputStep_ok hs
    obtain ⟨j1, j2⟩ := recvInv_taken (s := { s with buf := rest }) (Scan.taken_of_takeSegment ht) i1
    exact ⟨j1, j2.stored _ i2⟩
  · rintro s k' ⟨-, i2⟩ hf
    exact (finishInput_sides hf).1 ▸ i2

/-- When everything below the window's size is stored and nothing was read, the queue is full. -/
theorem full_of_stored {r : RecvSide} (hi : RecvInv r []) (hst : ∀ i < r.rcvWnd.toNat, r.Stored (UInt32.ofNat i)) :
    r.rcvWnd.toNat ≤ r.rcvQueue.length := by
  have hlen : r.rcvQueue.length = r.rcvNxt.toNat := by
    have := congrArg List.length hi.numbers
    simpa using this
  by_contra hlt
  rcases hst r.rcvNxt.toNat (by omega) with h | ⟨s, hs, hsn⟩
  · rw [UInt32.ofNat_toNat] at h
    exact UInt32.lt_irrefl _ h
  · rw [UInt32.ofNat_toNat] at hsn
    have hsorted := hi.sorted
    have hwin := hi.window
    have hheld := hi.held
    unfold RecvSide.Held at hheld
    cases hb : r.rcvBuf with
    | nil => simp [hb] at hs
    | cons a l =>
      rw [hb] at hs hsorted hwin hheld
      have ha := (hwin a (by simp)).1
      have hsn' : s.num = r.rcvNxt.toNat := congrArg UInt32.toNat hsn
      have han : a.num = r.rcvNxt.toNat := by
        rcases List.mem_cons.mp hs with rfl | hs
        · exact hsn'
        · have := (increasing_cons.mp hsorted).1 s hs
          omega
      exact hlt (hheld a rfl (UInt32.toNat_inj.mp han))

/-- Where the receiver stands after the first `m` fragments of a message that does not fit. -/
structure Stalling (conv wnd : UInt32) (segs : List Segment) (msg : List UInt8) (m : ℕ) (e : Endpoint) : Prop where
  received : e.received = []
  taken : e.taken = []
  inv : RecvInv e.kcb.recvSide []
  stage : (m = 0 ∧ Receiving conv wnd segs msg 0 e) ∨
    (0 < m ∧ Blocked wnd segs.length e ∧ ∀ i < min m wnd.toNat, e.kcb.recvSide.Stored (UInt32.ofNat i))
  conv : e.kcb.conv = conv

section Stalls

variable {b : Build} {conv wnd : UInt32} {segs : List Segment} {msg : List UInt8} {m m' : ℕ} {e e' : Endpoint}

theorem stalling_first (hm : IsMessage segs msg) (hwnd : 0 < wnd.toNat ∧ wnd.toNat < 2 ^ 31)
    (hbig : wnd.toNat < segs.length) (hs : Stalling conv wnd segs msg 0 e) {seg : Segment}
    (hnext : (numbered conv 0 segs)[0]? = some seg.fixed) (hex : e.exec b (.input seg.encode) = some e') :
    Stalling conv wnd segs msg 1 e' := by
  have hconv' := (congrArg Settings.conv (settings_exec hex)).trans hs.conv
  have hinv := (recvInv_exec hex (hs.taken ▸ hs.inv)).1
  rcases hs.stage with ⟨-, hr⟩ | ⟨h0, -⟩
  · obtain ⟨e1, h1, hr1, ht⟩ := receiving_next (b := b) hm hwnd.2 hwnd.1 hr hnext
    obtain rfl := Option.some.inj (h1.symm.trans hex)
    rw [ht, hs.taken] at hinv
    have hlen := hm.len
    rcases hr1.stage with ⟨hrec, hq⟩ | ⟨h, -⟩
    · refine ⟨hrec, ht.trans hs.taken, hinv, Or.inr ⟨Nat.one_pos, ⟨⟨hbig, by omega⟩, hr1.wnd, ?_, ?_⟩, ?_⟩, hconv'⟩
      · rw [ht, hs.taken]
        exact hinv
      · cases hc : e1.kcb.rcvQueue with
        | nil =>
          have := congrArg List.length hq
          simp only [hc, List.map_nil, List.length_nil, List.length_map, List.length_take] at this
          omega
        | cons a l => exact ⟨a, l, rfl, hm.head (hc ▸ hq)⟩
      · intro i hi
        obtain rfl : i = 0 := by omega
        refine Or.inl (UInt32.lt_iff_toNat_lt.mpr ?_)
        show 0 < e1.kcb.rcvNxt.toNat
        rw [hr1.nxt]
        exact Nat.one_pos
    · omega
  · exact absurd h0 (Nat.lt_irrefl 0)

theorem stalling_offer (hm : IsMessage segs msg) (hwnd : 0 < wnd.toNat ∧ wnd.toNat < 2 ^ 31)
    (hbig : wnd.toNat < segs.length) (hs : Stalling conv wnd segs msg m e) {o : Offer}
    (ho : offerStep (numbered conv 0 segs) m o = some m') (hex : e.exec b o.op = some e') :
    Stalling conv wnd segs msg m' e' := by
  have hlen := hm.len
  -- either nothing has come yet, or the first fragment blocks the queue
  rcases hs.stage with ⟨rfl, hr⟩ | ⟨hpos, hb, hst⟩
  · cases o with
    | recv cap =>
      obtain rfl : 0 = m' := Option.some.inj ho
      have hq : e.kcb.rcvQueue = [] := by
        rcases hr.stage with ⟨-, hq⟩ | ⟨-, -, hq⟩
        · simpa using hq
        · exact hq
      simp only [Offer.op, Endpoint.exec, recv_empty hq cap, Option.map_some, Option.some.injEq] at hex
      obtain rfl : e = e' := hex
      exact hs
    | give seg =>
      rcases offerStep_give ho with ⟨hnext, rfl⟩ | ⟨-, -, i, hi, -⟩
      · exact stalling_first hm hwnd hbig hs hnext hex
      · exact absurd hi (Nat.not_lt_zero i)
  · have hconv' := (congrArg Settings.conv (settings_exec hex)).trans hs.conv
    have hop : o.op.Receives := by cases o <;> trivial
    -- a blocked queue stays blocked; what is below the edge is still stored
    obtain ⟨hb', -, hrec, htaken, hkeep⟩ := blocked_exec hop hb hex
    have htaken' := htaken.trans hs.taken
    have hinv' : RecvInv e'.kcb.recvSide [] := htaken' ▸ hb'.inv
    have hkept : ∀ i < min m wnd.toNat, e'.kcb.recvSide.Stored (UInt32.ofNat i) := fun i hi => hkeep.stored _ (hst i hi)
    cases o with
    | recv cap =>
      obtain rfl : m = m' := Option.some.inj ho
      exact ⟨hrec.trans hs.received, htaken', hinv', Or.inr ⟨hpos, hb', hkept⟩, hconv'⟩
    | give seg =>
      rcases offerStep_give ho with ⟨hnext, rfl⟩ | ⟨-, rfl, -⟩
      · refine ⟨hrec.trans hs.received, htaken', hinv', Or.inr ⟨Nat.succ_pos m, hb', fun i hi => ?_⟩, hconv'⟩
        by_cases him : i < m
        · exact hkept i (by omega)
        · -- fragment `m` itself, below the edge
          obtain rfl : i = m := by omega
          obtain ⟨-, hconv, hcmd, hsn, -⟩ := fragment_fields hnext
          have hnxt : e.kcb.rcvNxt.toNat ≤ wnd.toNat := by
            have h1 := congrArg List.length hs.inv.numbers
            have h2 : e.kcb.rcvQueue.length ≤ e.kcb.rcvWnd.toNat := hs.inv.room
            rw [hb.wnd] at h2
            simp only [List.nil_append, List.length_map, List.length_range] at h1
            have h3 : e.kcb.rcvQueue.length = e.kcb.rcvNxt.toNat := h1
            omega
          have hfit : e.kcb.rcvNxt.toNat + e.kcb.rcvWnd.toNat < 2 ^ 32 := by
            rw [hb.wnd]
            omega
          have hedge : seg.sn < e.kcb.rcvNxt + e.kcb.rcvWnd := by
            rw [UInt32.lt_iff_toNat_lt, toNat_add_of_lt hfit, hsn, UInt32.toNat_ofNat', Nat.mod_eq_of_lt (by omega),
              hb.wnd]
            omega
          simp only [Offer.op, Endpoint.exec, Option.map_eq_some_iff] at hex
          obtain ⟨⟨r, k1⟩, hin, rfl⟩ := hex
          exact hsn ▸ stored_input hs.inv (hconv.trans hs.conv.symm) hcmd hfit hedge hin
      · exact ⟨hrec.trans hs.received, htaken', hinv', Or.inr ⟨hpos, hb', hkept⟩, hconv'⟩

theorem stalling_run (hm : IsMessage segs msg) (hwnd : 0 < wnd.toNat ∧ wnd.toNat < 2 ^ 31)
    (hbig : wnd.toNat < segs.length) {offers : List Offer} (hs : Stalling conv wnd segs msg m e)
    (ho : run (offerStep (numbered conv 0 segs)) m offers = some m')
    (hex : run (Endpoint.exec b) e (offers.map Offer.op) = some e') : Stalling conv wnd segs msg m' e' := by
  induction offers generalizing m e with
  | nil =>
    obtain rfl := Option.some.inj ho
    obtain rfl := Option.some.inj hex
    exact hs
  | cons o offers ih =>
    obtain ⟨m1, h1, h2⟩ := run_cons.mp ho
    obtain ⟨e1, he1, he2⟩ := run_cons.mp hex
    exact ih (stalling_offer hm hwnd hbig hs h1 he1) h2 he2

end Stalls

end NetProtocols.Kcp
