import NetProtocols.Kcp.Acks
import NetProtocols.Kcp.Codec
import NetProtocols.Kcp.Probe
import NetProtocols.Kcp.Steady

/-!
# NetProtocols.Kcp.Heard — what `input` cannot fail to do with a datagram

The invariants say what `input` never does.  Here it is shown to do something: a segment that stands in a datagram
behind segments without data is reached, and has its effect, whatever is behind it.

* `input_release`: in a release build `input` goes through.
* `input_reaches`: the state in which the segment is handled, and the rest of the loop.
* `acklist_hears`: a PUSH below the window's edge is queued for acknowledgement.
* `sndBuf_hears`: an acknowledged segment leaves `snd_buf`; `rmtWnd_hears`: the window the peer told is taken over;
  `probe_hears`: a question about the window is to be answered.
-/

namespace NetProtocols.Kcp

open Kcb Scan

variable {p : Profile} {k k' : Kcb}

/-! ### `input` goes through -/

namespace Scan

theorem inputLoop_release (fuel : ℕ) (s : Scan) : (s.inputLoop .release fuel).isSome := by
  induction fuel generalizing s with
  | zero => rfl
  | succ fuel ih =>
    unfold inputLoop
    by_cases hlong : s.buf.length < kcpOverhead
    · rw [if_pos hlong]
      rfl
    · rw [if_neg hlong]
      refine Profile.isSome_bind ?_ fun r _ => ?_
      · obtain ⟨h, hr⟩ := readHeader_of_le (Nat.le_of_not_lt hlong)
        unfold inputStep
        rw [hr, Option.bind_eq_bind, Option.bind_some]
        dsimp only
        split_ifs
        · rfl
        · rfl
        · rfl
        · exact Profile.isSome_bind (takeSegment_release _ _) fun t _ => rfl
      · cases r with
        | error e => rfl
        | ok t => exact ih t

end Scan

theorem input_release (hmss : UInt32.ofNat k.mss ≠ 0) (d : List UInt8) : (k.input .release d).isSome := by
  unfold input
  split_ifs
  · rfl
  · refine Profile.isSome_bind (inputLoop_release _ _) fun x hx => ?_
    obtain ⟨r, s⟩ := x
    cases r with
    | error e => rfl
    | ok u =>
      obtain ⟨m, hs⟩ := inputLoop_rule (I := fun _ s => s.kcb.settings = k.settings) (fun n s s' hi hs => by
        obtain ⟨h, rest, -, -, ht⟩ := inputStep_ok hs
        exact (settings_taken (taken_of_takeSegment ht)).1.trans hi) d.length hx rfl
      have e : s.kcb.mss = k.mss := congrArg Settings.mss hs
      have hmss' : UInt32.ofNat s.kcb.mss ≠ 0 := e.symm ▸ hmss
      exact Profile.isSome_bind (finishInput_release hmss' _) fun k' _ => rfl

/-! ### A segment behind segments without data -/

theorem foldlM_handle_rule {I : Scan → Prop} {segs : List Segment} {s t : Scan}
    (hstep : ∀ seg ∈ segs, ∀ s t, I s → s.handle p seg = some t → I t) (h : segs.foldlM (handle p) s = some t)
    (hs : I s) : I t := by
  induction segs generalizing s with
  | nil =>
    obtain rfl := Option.some.inj h
    exact hs
  | cons seg segs ih =>
    rw [List.foldlM_cons, Option.bind_eq_bind, Option.bind_eq_some_iff] at h
    obtain ⟨u, hu, h⟩ := h
    exact ih (fun x hx => hstep x (by simp [hx])) h (hstep seg (by simp) s u hs hu)

/-- A segment without data leaves nothing that is not skipped. -/
theorem buf_of_dataless {s t : Scan} {seg : Segment} (hd : seg.data = []) (ht : s.handle p seg = some t) :
    t.buf = [] := by
  have hlen := length_handle_le ht
  rw [hd] at hlen
  exact List.length_eq_zero_iff.mp (Nat.le_zero.mp hlen)

/-- One iteration at a whole segment, backwards. -/
theorem inputLoop_handle {s s' : Scan} {seg : Segment} {post : List UInt8} {r : Except IoError Unit} {fuel : ℕ}
    (hmine : seg.conv = s.kcb.conv ∧ validCmd seg.cmd = true)
    (h : ({ s with buf := seg.encode ++ post } : Scan).inputLoop p (fuel + 1) = some (r, s')) :
    ∃ t, s.handle p seg = some t ∧ ({ t with buf := t.buf ++ post } : Scan).inputLoop p fuel = some (r, s') := by
  cases ht : s.handle p seg with
  | some t => exact ⟨t, rfl, by rw [← inputLoop_cons hmine ht, h]⟩
  | none =>
    have hstep := inputStep_handle (p := p) s hmine.1 hmine.2 post
    have hlong : ¬ (seg.encode ++ post).length < kcpOverhead := by
      rw [List.length_append, length_encode]
      omega
    unfold inputLoop at h
    rw [if_neg hlong, hstep, ht] at h
    cases h

theorem inputLoop_dataless {s s' : Scan} {segs : List Segment} {post : List UInt8} {r : Except IoError Unit} {fuel : ℕ}
    (hv : Valid s.kcb.conv segs) (hd : ∀ seg ∈ segs, seg.data = [])
    (h : ({ s with buf := encodes segs ++ post } : Scan).inputLoop p (segs.length + fuel) = some (r, s')) :
    ∃ t, segs.foldlM (handle p) s = some t ∧ ({ t with buf := post } : Scan).inputLoop p fuel = some (r, s') := by
  induction segs generalizing s with
  | nil =>
    rw [List.length_nil, Nat.zero_add] at h
    exact ⟨s, rfl, h⟩
  | cons seg segs ih =>
    rw [encodes_cons, List.append_assoc, List.length_cons, Nat.add_right_comm] at h
    obtain ⟨t, ht, h⟩ := inputLoop_handle (hv seg (by simp)) h
    rw [buf_of_dataless (hd seg (by simp)) ht, List.nil_append] at h
    have hconv : t.kcb.conv = s.kcb.conv := congrArg Settings.conv (settings_taken (taken_handle ht)).1
    obtain ⟨u, hu, h⟩ := ih (fun x hx => hconv ▸ hv x (by simp [hx])) (fun x hx => hd x (by simp [hx])) h
    refine ⟨u, ?_, h⟩
    rw [List.foldlM_cons, Option.bind_eq_bind, ht]
    exact hu

/-- `input` comes to the segment `x`: `t` is the state then, `u` the state after it, and `s` the state in which the
loop ends. -/
structure Hears (p : Profile) (k : Kcb) (before : List Segment) (x : Segment) (after : List Segment) (k' : Kcb)
    (t u s : Scan) : Prop where
  before : before.foldlM (handle p) (k.scanOf []) = some t
  handled : t.handle p x = some u
  loop : ∃ r fuel, ({ u with buf := u.buf ++ encodes after } : Scan).inputLoop p fuel = some (r, s)
  finish : k' = s.kcb ∨ finishInput p s k.sndUna = some k'

/-- **A segment behind segments without data is reached.** -/
theorem input_reaches {before after : List Segment} {x : Segment} {r : Except IoError ℕ}
    (h : k.input p (encodes (before ++ x :: after)) = some (r, k')) (hv : Valid k.conv (before ++ [x]))
    (hd : ∀ seg ∈ before, seg.data = []) : ∃ t u s, Hears p k before x after k' t u s := by
  have hlen : before.length + 1 ≤ (encodes (before ++ x :: after)).length := by
    have := length_le_encodes (before ++ x :: after)
    rw [List.length_append, List.length_cons] at this
    omega
  have hlong : ¬ (encodes (before ++ x :: after)).length < kcpOverhead := by
    rw [encodes_append, encodes_cons, List.length_append, List.length_append, length_encode]
    omega
  unfold input at h
  rw [if_neg hlong, Option.bind_eq_bind, Option.bind_eq_some_iff] at h
  obtain ⟨⟨r', s⟩, hloop, h⟩ := h
  obtain ⟨fuel, hfuel⟩ := Nat.exists_eq_add_of_le hlen
  rw [hfuel, Nat.add_assoc] at hloop
  replace hloop : ({ k.scanOf [] with buf := encodes (before ++ x :: after) } : Scan).inputLoop p
      (before.length + (1 + fuel)) = some (r', s) := hloop
  rw [encodes_append] at hloop
  obtain ⟨t, ht, hloop⟩ := inputLoop_dataless (fun y hy => hv y (List.mem_append_left _ hy)) hd hloop
  have hconv : t.kcb.conv = k.conv :=
    foldlM_handle_rule (I := fun s => s.kcb.conv = k.conv) (fun y _ s t hs hst =>
      (congrArg Settings.conv (settings_taken (taken_handle hst)).1).trans hs) ht rfl
  rw [encodes_cons, Nat.add_comm 1 fuel] at hloop
  obtain ⟨u, hu, hloop⟩ := inputLoop_handle (hconv ▸ hv x (by simp)) hloop
  refine ⟨t, u, s, ht, hu, ⟨r', fuel, hloop⟩, ?_⟩
  cases r' with
  | error e =>
    simp only [Option.some.injEq, Prod.mk.injEq] at h
    exact Or.inl h.2.symm
  | ok v =>
    simp only [Option.bind_eq_bind, Option.bind_eq_some_iff, Option.some.injEq, Prod.mk.injEq] at h
    obtain ⟨k₁, hk₁, -, rfl⟩ := h
    exact Or.inr hk₁

/-- **Rule**: `I` holds until the segment is reached; its handling leads to `J`, which the rest keeps. -/
theorem Hears.rule {before after : List Segment} {x : Segment} {t u s : Scan} (h : Hears p k before x after k' t u s)
    {I J : Scan → Prop} {K : Kcb → Prop} (h0 : I (k.scanOf []))
    (hI : ∀ y ∈ before, ∀ s t, I s → s.handle p y = some t → I t)
    (hx : ∀ s t, I s → s.handle p x = some t → J { t with buf := t.buf ++ encodes after })
    (hJ : ∀ s s', J s → s.inputStep p = some (.ok s') → J s') (hK : ∀ s, J s → K s.kcb)
    (hfin : ∀ s k', J s → finishInput p s k.sndUna = some k' → K k') : K k' := by
  have hu := hx t u (foldlM_handle_rule hI h.before h0) h.handled
  obtain ⟨r, fuel, hloop⟩ := h.loop
  obtain ⟨m, hs⟩ := inputLoop_rule (I := fun _ s => J s) (fun _ s s' hs hst => hJ s s' hs hst) fuel hloop hu
  rcases h.finish with rfl | hk
  · exact hK s hs
  · exact hfin s k' hs hk

/-! ### What is heard -/

section Effects

variable {before after : List Segment} {x : Segment} {t u s : Scan}

theorem acklist_taken {s s' : Scan} {h : Header} (ht : Taken p s h s') : ∀ a ∈ s.kcb.acklist, a ∈ s'.kcb.acklist := by
  cases ht with
  | ack hc hk =>
    rename_i k m
    have e : (k.parseAck h.sn).shrinkBuf.acklist = s.kcb.acklist := by
      have e1 : k.acklist = s.kcb.acklist := by
        rcases hk with rfl | ⟨rtt, hk⟩
        · rfl
        · obtain ⟨srtt, rttval, rto, rfl⟩ := updateAck_eq hk
          rfl
      rw [← e1]
      unfold parseAck
      split_ifs <;> rfl
    intro a ha
    exact e.symm ▸ ha
  | below hc hsn hlt => exact fun a ha => List.mem_append_left _ ha
  | inside hc hsn hle hk =>
    intro a ha
    rcases parseData_eq_moved hk with rfl | ⟨l, n, nxt, rfl⟩
    · exact List.mem_append_left _ ha
    · exact List.mem_append_left _ ha
  | above | wask | other => exact fun a ha => ha

theorem recvSide_handle {s t : Scan} {seg : Segment} (hcmd : seg.cmd ≠ kcpCmdPush) (h : s.handle p seg = some t) :
    t.kcb.recvSide = s.kcb.recvSide := by
  cases taken_handle h with
  | ack hc hk =>
    rename_i k m
    have e : k.recvSide = s.kcb.recvSide := by
      rcases hk with rfl | ⟨rtt, hk⟩
      · rfl
      · obtain ⟨srtt, rttval, rto, rfl⟩ := updateAck_eq hk
        rfl
    show (k.parseAck _).shrinkBuf.recvSide = _
    rw [← e]
    unfold parseAck
    split_ifs <;> rfl
  | above hc hsn => exact absurd hc hcmd
  | below hc hsn hlt => exact absurd hc hcmd
  | inside hc hsn hle hk => exact absurd hc hcmd
  | wask hc => rfl
  | other ha hc => rfl

/-- **A PUSH below the window's edge is queued for acknowledgement.** -/
theorem acklist_hears (h : Hears p k before x after k' t u s) (hbefore : ∀ y ∈ before, y.cmd ≠ kcpCmdPush)
    (hcmd : x.cmd = kcpCmdPush) (hsn : x.sn < k.rcvNxt + k.rcvWnd) : (x.sn, x.ts) ∈ k'.acklist := by
  refine h.rule (I := fun s => s.kcb.recvSide = k.recvSide) (J := fun s => (x.sn, x.ts) ∈ s.kcb.acklist)
    (K := fun k' => (x.sn, x.ts) ∈ k'.acklist) rfl ?_ ?_ ?_ (fun _ hs => hs) ?_
  · intro y hy s t hs ht
    exact (recvSide_handle (hbefore y hy) ht).trans hs
  · intro s t hs ht
    have hedge : x.header.sn < s.kcb.rcvNxt + s.kcb.rcvWnd := by
      have e1 : s.kcb.rcvNxt = k.rcvNxt := congrArg RecvSide.rcvNxt hs
      have e2 : s.kcb.rcvWnd = k.rcvWnd := congrArg RecvSide.rcvWnd hs
      rw [e1, e2]
      exact hsn
    cases taken_handle ht with
    | above hc hout => exact absurd hedge (UInt32.not_lt.mpr hout)
    | below hc hin hlt => exact List.mem_append_right _ (List.mem_singleton_self _)
    | inside hc hin hle hk =>
      rcases parseData_eq_moved hk with rfl | ⟨l, n, nxt, rfl⟩
      · exact List.mem_append_right _ (List.mem_singleton_self _)
      · exact List.mem_append_right _ (List.mem_singleton_self _)
    | ack hc => exact absurd (hc.symm.trans hcmd) (by decide)
    | wask hc => exact absurd (hc.symm.trans hcmd) (by decide)
    | other ha hc => exact absurd hcmd hc
  · intro s s' hs hst
    obtain ⟨hd, rest, -, -, ht⟩ := inputStep_ok hst
    exact acklist_taken (taken_of_takeSegment ht) _ hs
  · intro s k' hs hf
    have e : k'.acklist = s.kcb.acklist := congrArg RecvSide.acklist (finishInput_sides hf).1
    exact e.symm ▸ hs

/-- **An acknowledged segment leaves `snd_buf`.** -/
theorem sndBuf_hears (h : Hears p k before x after k' t u s) (hi : SendInv k.sendSide) (hcmd : x.cmd = kcpCmdAck) :
    ∀ f ∈ k'.sendSide.sndBuf, f.sn ≠ x.sn := by
  refine h.rule (I := fun s => SendInv s.kcb.sendSide) (J := fun s => ∀ f ∈ s.kcb.sendSide.sndBuf, f.sn ≠ x.sn)
    (K := fun k' => ∀ f ∈ k'.sendSide.sndBuf, f.sn ≠ x.sn) hi ?_ ?_ ?_ (fun _ hs => hs) ?_
  · intro y _ s t hs ht
    obtain ⟨h1, h2⟩ := shrinks_taken (taken_handle ht)
    exact (sendInv_shrinks hs h1 h2).1
  · intro s t hs ht f hf
    obtain ⟨y, hy, rfl⟩ := List.mem_map.mp hf
    have hbuf := (acknowledge_taken (taken_handle ht)).1
    have hkeep : (s.kcb.acknowledge x.header.event).sndBuf = s.kcb.sndBuf.filter fun y => x.header.event.spares y.sn :=
      congrArg Kcb.sndBuf (acknowledge_keep hs x.header.event)
    replace hy : y ∈ t.kcb.sndBuf := hy
    rw [hbuf, hkeep, List.mem_filter] at hy
    rintro hsn
    have hack : x.header.event.ack = some x.sn := if_pos hcmd
    have hspare := hy.2
    simp only [AckEvent.spares, hack, Bool.and_eq_true, decide_eq_true_eq] at hspare
    exact hspare.2 (congrArg some hsn.symm)
  · intro s s' hs hst
    obtain ⟨hd, rest, -, -, ht⟩ := inputStep_ok hst
    exact fun f hf => hs f ((shrinks_taken (taken_of_takeSegment ht)).1.buf.subset hf)
  · intro s k' hs hf
    rw [(finishInput_sides hf).2]
    exact hs

/-- **The window told by the last segment is taken over**, when that is one without data. -/
theorem rmtWnd_hears (h : Hears p k before x [] k' t u s) (hd : x.data = []) : k'.rmtWnd = x.header.wnd.toUInt32 := by
  refine h.rule (I := fun _ => True) (J := fun s => s.buf = [] ∧ s.kcb.rmtWnd = x.header.wnd.toUInt32)
    (K := fun k' => k'.rmtWnd = x.header.wnd.toUInt32) trivial (fun _ _ _ _ _ _ => trivial) ?_ ?_ (fun _ hs => hs.2) ?_
  · intro s t _ ht
    have hw : t.kcb.rmtWnd = x.header.wnd.toUInt32 := rmtWnd_taken (taken_handle ht)
    exact ⟨by rw [buf_of_dataless hd ht]; rfl, hw⟩
  · rintro s s' ⟨hbuf, -⟩ hst
    obtain ⟨hd, rest, hr, -⟩ := inputStep_ok hst
    rw [hbuf] at hr
    cases hr
  · rintro s k' ⟨-, hw⟩ hf
    obtain ⟨l, cwnd, incr, -, rfl⟩ := finishInput_eq hf
    exact hw

/-- **A datagram without data** leaves the receive side alone. -/
theorem recvSide_hears (h : Hears p k before x [] k' t u s) (hbefore : ∀ y ∈ before, y.cmd ≠ kcpCmdPush)
    (hcmd : x.cmd ≠ kcpCmdPush) (hd : x.data = []) : k'.recvSide = k.recvSide := by
  refine h.rule (I := fun s => s.kcb.recvSide = k.recvSide) (J := fun s => s.buf = [] ∧ s.kcb.recvSide = k.recvSide)
    (K := fun k' => k'.recvSide = k.recvSide) rfl ?_ ?_ ?_ (fun _ hs => hs.2) ?_
  · intro y hy s t hs ht
    exact (recvSide_handle (hbefore y hy) ht).trans hs
  · intro s t hs ht
    exact ⟨by rw [buf_of_dataless hd ht]; rfl, (recvSide_handle hcmd ht).trans hs⟩
  · rintro s s' ⟨hbuf, -⟩ hst
    obtain ⟨hd, rest, hr, -⟩ := inputStep_ok hst
    rw [hbuf] at hr
    cases hr
  · rintro s k' ⟨-, hs⟩ hf
    exact (finishInput_sides hf).1.trans hs

/-- **A question about the window is to be answered.** -/
theorem probe_hears (h : Hears p k before x after k' t u s) (hcmd : x.cmd = kcpCmdWask) :
    k'.probe &&& kcpAskTell ≠ 0 := by
  refine h.rule (I := fun _ => True) (J := fun s => s.kcb.probe &&& kcpAskTell ≠ 0)
    (K := fun k' => k'.probe &&& kcpAskTell ≠ 0) trivial (fun _ _ _ _ _ _ => trivial) ?_ ?_ (fun _ hs => hs) ?_
  · intro s t _ ht
    have hask : x.header.cmd = kcpCmdWask := hcmd
    unfold handle takeSegment at ht
    dsimp only at ht
    rw [hask, if_neg (by decide), if_neg (by decide), if_pos rfl] at ht
    obtain rfl := Option.some.inj ht
    exact raised_ne_zero _ (by decide)
  · intro s s' hs hst
    obtain ⟨hd, rest, -, -, ht⟩ := inputStep_ok hst
    exact (Tells.takeSegment ht).told hs
  · intro s k' hs hf
    obtain ⟨l, cwnd, incr, -, rfl⟩ := finishInput_eq hf
    exact hs

end Effects

end NetProtocols.Kcp
