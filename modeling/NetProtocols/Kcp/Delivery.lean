import NetProtocols.Kcp.Stall

/-!
# NetProtocols.Kcp.Delivery — which accepted messages can be delivered

`send` accepts messages of up to 255 fragments; `recv` returns a message when all its fragments stand in `rcv_queue`,
which never holds more than `rcv_wnd` of them.  So a message of more fragments than the window is accepted, and no
`recv` ever returns it.

* `Deliverable`: what delivery means.
* `deliverable_iff`: a message is delivered exactly when it is no longer than the window.
-/

namespace NetProtocols.Kcp

open Kcb Scan

/-! ### Accepted messages -/

/-- What `wndsize` makes of the two windows, `nodelay` leaves. -/
theorem windows_configured (conv : UInt32) (c : Config) :
    (Kcb.configured conv c).sndWnd = (if 0 < c.sndwnd then c.sndwnd.toUInt32 else kcpWndSnd) ∧
      (Kcb.configured conv c).rcvWnd = if 0 < c.rcvwnd then c.rcvwnd.toUInt32 else kcpWndRcv := by
  have hnodelay : ∀ (k : Kcb) (n i r : Int32) (nc : Bool),
      (k.setNodelay n i r nc).sndWnd = k.sndWnd ∧ (k.setNodelay n i r nc).rcvWnd = k.rcvWnd := by
    intro k n i r nc
    unfold setNodelay
    split_ifs <;> exact ⟨rfl, rfl⟩
  rw [Kcb.configured, (hnodelay _ _ _ _ _).1, (hnodelay _ _ _ _ _).2]
  unfold wndsize
  split_ifs <;> exact ⟨rfl, rfl⟩

theorem window_bounds {x : Int32} {wnd : UInt32} (hwnd : 0 < wnd.toNat ∧ wnd.toNat < 2 ^ 31) :
    0 < (if 0 < x then x.toUInt32 else wnd).toNat ∧ (if 0 < x then x.toUInt32 else wnd).toNat < 2 ^ 31 := by
  split_ifs with h
  · have hlt := Int32.lt_iff_toInt_lt.mp h
    have hmax := x.toInt_lt
    rw [Int32.toInt_zero] at hlt
    rw [toNat_toUInt32_of_nonneg (Int32.le_iff_toInt_le.mpr (by rw [Int32.toInt_zero]; omega))]
    omega
  · exact hwnd

theorem rcvWnd_configured (conv : UInt32) (c : Config) :
    0 < (Kcb.configured conv c).rcvWnd.toNat ∧ (Kcb.configured conv c).rcvWnd.toNat < 2 ^ 31 := by
  rw [(windows_configured conv c).2]
  exact window_bounds (by decide)

theorem sndWnd_configured (conv : UInt32) (c : Config) :
    0 < (Kcb.configured conv c).sndWnd.toNat ∧ (Kcb.configured conv c).sndWnd.toNat < 2 ^ 31 := by
  rw [(windows_configured conv c).1]
  exact window_bounds (by decide)

theorem send_configured {conv : UInt32} {c : Config} {msg : List UInt8} {n : ℕ} {k : Kcb}
    (h : (Kcb.configured conv c).send p msg = some (.ok n, k)) :
    IsMessage k.sndQueue msg ∧ k.sndQueue.length = fragCount (kcpMtuDef - kcpOverhead) msg.length := by
  obtain ⟨sndWnd, rcvWnd, nodelay, rxMinrto, interval, fastresend, hk⟩ := configured_eq conv c
  rw [hk] at h
  rcases send_message rfl (show 0 < kcpMtuDef - kcpOverhead by decide) h with ⟨err, h1, -⟩ | ⟨n', -, hok, rfl⟩
  · exact absurd h1 (by simp)
  · have hq : ∀ k0 : Kcb, k0.sndQueue = [] →
        (k0.setSndQueue (k0.sndQueue ++ cut (kcpMtuDef - kcpOverhead) msg)).sndQueue =
          cut (kcpMtuDef - kcpOverhead) msg := fun k0 h0 => by simp [setSndQueue, h0]
    rw [show ((new conv).setOptions sndWnd rcvWnd nodelay rxMinrto interval fastresend c.nc).mss =
      kcpMtuDef - kcpOverhead from rfl, hq _ rfl]
    refine ⟨⟨frame_cut (by decide) hok.2, (length_cut _ _).trans_le hok.2, data_cut (by decide) msg, fun s hs => ?_⟩,
      length_cut _ _⟩
    exact lt_of_le_of_lt (length_data_fragments hs) (by decide)

theorem receiving_start (conv : UInt32) (c : Config) (segs : List Segment) (msg : List UInt8) :
    Receiving conv (Kcb.configured conv c).rcvWnd segs msg 0 (Endpoint.start conv c) := by
  obtain ⟨sndWnd, rcvWnd, nodelay, rxMinrto, interval, fastresend, hk⟩ := configured_eq conv c
  rw [Endpoint.start, hk]
  exact ⟨rfl, rfl, ⟨rfl, rfl⟩, rfl, rfl, Nat.zero_le _, Or.inl ⟨rfl, rfl⟩⟩

/-- **What delivery means**: after the calls `ops` a `recv` with room for the message has returned it, as the only one,
and on the way there the receiver is never stuck. -/
def Deliverable (b : Build) (e : Endpoint) (msg : List UInt8) (ops : List Op) : Prop :=
  (∀ cap, msg.length ≤ cap → ∃ e', run (Endpoint.exec b) e (ops ++ [.recv cap]) = some e' ∧ e'.received = [msg]) ∧
    ∀ before after e', ops = before ++ after → run (Endpoint.exec b) e before = some e' → ¬ Stuck b e'

theorem not_stuck_of_receiving {b : Build} {conv wnd : UInt32} {segs : List Segment} {msg : List UInt8} {m : ℕ}
    {e : Endpoint} (hm : IsMessage segs msg) (hpos : 0 < wnd.toNat) (hfit : segs.length ≤ wnd.toNat)
    (hr : Receiving conv wnd segs msg m e) : ¬ Stuck b e := by
  rintro ⟨hfull, hfail⟩
  rw [hr.wnd] at hfull
  have hle := hr.le
  rcases hr.stage with ⟨-, hq⟩ | ⟨-, -, hq⟩
  · have hqlen : e.kcb.rcvQueue.length = m := by
      have := congrArg List.length hq
      simpa [hle] using this
    obtain rfl : m = segs.length := by omega
    rw [List.take_length] at hq
    obtain ⟨probe, h⟩ := recv_message (p := b.profile) hm hq hr.buf (Nat.le_refl _)
    obtain ⟨err, herr⟩ := (hfail [] e (by simp) rfl).2 msg.length
    rw [h] at herr
    simp at herr
  · rw [hq, List.length_nil] at hfull
    omega

section Accepted

variable {b : Build} {conv : UInt32} {c : Config} {msg : List UInt8} {n : ℕ} {k : Kcb} {offers : List Offer}

/-- The message is cut into at most `rcv_wnd` fragments exactly when it is no longer than `rcv_wnd` segments. -/
theorem length_le_rcvWnd_iff (hsend : (Kcb.configured conv c).send b.profile msg = some (.ok n, k)) :
    k.sndQueue.length ≤ (Kcb.configured conv c).rcvWnd.toNat ↔
      msg.length ≤ (Kcb.configured conv c).rcvWnd.toNat * (kcpMtuDef - kcpOverhead) := by
  have hmss : 0 < kcpMtuDef - kcpOverhead := by decide
  rw [(send_configured hsend).2]
  exact fragCount_le_iff hmss (rcvWnd_configured conv c).1

/-- Once all fragments of a message longer than the window have been given, the receiver has returned nothing, and its
queue is full and incomplete. -/
theorem blocked_of_long (hsend : (Kcb.configured conv c).send b.profile msg = some (.ok n, k))
    (hoffers : run (offerStep (numbered conv 0 k.sndQueue)) 0 offers = some k.sndQueue.length)
    (hlong : (Kcb.configured conv c).rcvWnd.toNat < k.sndQueue.length) {e : Endpoint}
    (he : run (Endpoint.exec b) (Endpoint.start conv c) (offers.map Offer.op) = some e) :
    Blocked (Kcb.configured conv c).rcvWnd k.sndQueue.length e ∧ e.received = [] ∧ Stuck b e := by
  obtain ⟨hpos, hwnd⟩ := rcvWnd_configured conv c
  have hstart := receiving_start conv c k.sndQueue msg
  have hs : Stalling conv (Kcb.configured conv c).rcvWnd k.sndQueue msg 0 (Endpoint.start conv c) :=
    ⟨rfl, rfl, recvInv_start conv c, Or.inl ⟨rfl, hstart⟩, hstart.conv⟩
  have hs' := stalling_run (send_configured hsend).1 ⟨hpos, hwnd⟩ hlong hs hoffers he
  rcases hs'.stage with ⟨h0, -⟩ | ⟨-, hb, hst⟩
  · omega
  · refine ⟨hb, hs'.received, stuck_of_blocked hb (full_of_stored hs'.inv fun i hi => hst i ?_)⟩
    have hw : e.kcb.recvSide.rcvWnd = (Kcb.configured conv c).rcvWnd := hb.wnd
    rw [hw] at hi
    omega

theorem not_deliverable_of_long (hsend : (Kcb.configured conv c).send b.profile msg = some (.ok n, k))
    (hoffers : run (offerStep (numbered conv 0 k.sndQueue)) 0 offers = some k.sndQueue.length)
    (hlong : (Kcb.configured conv c).rcvWnd.toNat < k.sndQueue.length) :
    ¬ Deliverable b (Endpoint.start conv c) msg (offers.map Offer.op) := by
  intro hd
  obtain ⟨e', hr, hrec⟩ := hd.1 msg.length (Nat.le_refl _)
  obtain ⟨e, he, hlast⟩ := run_append.mp hr
  obtain ⟨hb, hnone, -⟩ := blocked_of_long hsend hoffers hlong he
  obtain ⟨e₁, hex, h₁⟩ := run_cons.mp hlast
  obtain rfl := Option.some.inj h₁
  have := (blocked_exec (show Op.Receives (.recv msg.length) from trivial) hb hex).2.2.1
  rw [hrec, hnone] at this
  simp at this

/-- A message that fits the window is delivered, when what a repeated fragment carries is not read as a segment. -/
theorem deliverable_of_fits (hsend : (Kcb.configured conv c).send b.profile msg = some (.ok n, k))
    (hoffers : run (offerStep (numbered conv 0 k.sndQueue)) 0 offers = some k.sndQueue.length)
    (hroom : Meets (offerStep (numbered conv 0 k.sndQueue)) (RoomFor msg.length) 0 offers)
    (href : Meets (offerStep (numbered conv 0 k.sndQueue)) (RepeatRefused conv (numbered conv 0 k.sndQueue)) 0 offers)
    (hfit : k.sndQueue.length ≤ (Kcb.configured conv c).rcvWnd.toNat) :
    Deliverable b (Endpoint.start conv c) msg (offers.map Offer.op) := by
  obtain ⟨hm, -⟩ := send_configured hsend
  obtain ⟨hpos, hwnd⟩ := rcvWnd_configured conv c
  have hstart := receiving_start conv c k.sndQueue msg
  refine ⟨fun cap hcap => ?_, ?_⟩
  · obtain ⟨e, he, hr⟩ := receiving_run (b := b) hm hwnd hfit hstart hoffers hroom href
    have hlast : ∃ e', e.exec b (.recv cap) = some e' ∧ e'.received = [msg] := by
      rcases hr.stage with ⟨hrec, hq⟩ | ⟨-, hrec, hq⟩
      · rw [List.take_length] at hq
        obtain ⟨probe, h⟩ := recv_message (p := b.profile) hm hq hr.buf hcap
        refine ⟨e.got (.ok msg, ({ e.kcb with rcvQueue := [] } : Kcb).setProbe probe), ?_, by simp [Endpoint.got, hrec]⟩
        simp only [Endpoint.exec, h, Option.map_some]
      · exact ⟨e, by simp only [Endpoint.exec, recv_empty hq cap, Option.map_some]; rfl, hrec⟩
    obtain ⟨e', he', hrec⟩ := hlast
    exact ⟨e', run_append.mpr ⟨e, he, run_cons.mpr ⟨e', he', rfl⟩⟩, hrec⟩
  · intro before after e' hsplit he'
    obtain ⟨o₁, o₂, rfl, rfl, rfl⟩ := List.map_eq_append_iff.mp hsplit
    obtain ⟨m, ho, -⟩ := run_append.mp hoffers
    obtain ⟨e, he, hr⟩ := receiving_run (b := b) hm hwnd hfit hstart ho (meets_append hroom) (meets_append href)
    obtain rfl := Option.some.inj (he.symm.trans he')
    exact not_stuck_of_receiving hm hpos hfit hr

/-- **Which accepted messages are deliverable.**  The fragments of a message that `send` has accepted are given to a
fresh receiver of the same configuration, in order and each any number of times, with `recv` calls in between.  The
message is delivered exactly when it is no longer than `rcv_wnd` segments, provided that no repeated fragment's data is
read as another segment; and a longer one is never delivered, and leaves the receiver stuck. -/
theorem deliverable_iff (hsend : (Kcb.configured conv c).send b.profile msg = some (.ok n, k))
    (hoffers : run (offerStep (numbered conv 0 k.sndQueue)) 0 offers = some k.sndQueue.length)
    (hroom : Meets (offerStep (numbered conv 0 k.sndQueue)) (RoomFor msg.length) 0 offers) :
    (Meets (offerStep (numbered conv 0 k.sndQueue)) (RepeatRefused conv (numbered conv 0 k.sndQueue)) 0 offers →
        (Deliverable b (Endpoint.start conv c) msg (offers.map Offer.op) ↔
          msg.length ≤ (Kcb.configured conv c).rcvWnd.toNat * (kcpMtuDef - kcpOverhead))) ∧
      ((Kcb.configured conv c).rcvWnd.toNat * (kcpMtuDef - kcpOverhead) < msg.length →
        ¬ Deliverable b (Endpoint.start conv c) msg (offers.map Offer.op) ∧
          ∀ e, run (Endpoint.exec b) (Endpoint.start conv c) (offers.map Offer.op) = some e → Stuck b e) := by
  have hfits := length_le_rcvWnd_iff hsend
  constructor
  · intro href
    rw [← hfits]
    constructor
    · intro hd
      by_contra hlong
      exact not_deliverable_of_long hsend hoffers (Nat.lt_of_not_le hlong) hd
    · exact deliverable_of_fits hsend hoffers hroom href
  · intro hlt
    have hlong : (Kcb.configured conv c).rcvWnd.toNat < k.sndQueue.length :=
      Nat.lt_of_not_le fun hle => Nat.not_le_of_lt hlt (hfits.mp hle)
    exact ⟨not_deliverable_of_long hsend hoffers hlong, fun e he => (blocked_of_long hsend hoffers hlong he).2.2⟩

end Accepted

/-- One fragment, given twice, between two `recv` calls. -/
theorem deliverable_iff_repeated :
    (Kcb.configured 7 {}).send .dev [1, 2, 3] =
        some (.ok 3, (Kcb.configured 7 {}).setSndQueue [{ data := [1, 2, 3] }]) ∧
      Deliverable ⟨.dev, bytesMut⟩ (Endpoint.start 7 {}) [1, 2, 3]
        ([.recv 8, .give { conv := 7, cmd := kcpCmdPush, wnd := 32, data := [1, 2, 3] },
          .give { conv := 7, cmd := kcpCmdPush, wnd := 32, ts := 200, data := [1, 2, 3] }, .recv 8].map Offer.op) :=
  ⟨by decide +kernel,
    ((deliverable_iff (n := 3) (k := (Kcb.configured 7 {}).setSndQueue [{ data := [1, 2, 3] }]) (by decide +kernel)
      (by decide +kernel) (by decide +kernel)).1 (by decide +kernel)).mpr (by decide)⟩

/-- The two fragments of a message of 1377 bytes, as an endpoint with a receive window of one sends them. -/
def twoFragments : List Offer :=
  [.give { conv := 7, cmd := kcpCmdPush, frg := 1, wnd := 1, data := List.replicate 1376 0 },
    .give { conv := 7, cmd := kcpCmdPush, sn := 1, wnd := 1, data := [0] }]

/-- A message of two fragments and a receive window of one: accepted, and stuck once both have been given. -/
theorem undeliverable_accepted :
    ∃ k e, (Kcb.configured 7 { rcvwnd := 1 }).send .dev (List.replicate 1377 0) = some (.ok 1377, k) ∧
      run (offerStep (numbered 7 0 k.sndQueue)) 0 twoFragments = some k.sndQueue.length ∧
      run (Endpoint.exec ⟨.dev, bytesMut⟩) (Endpoint.start 7 { rcvwnd := 1 }) (twoFragments.map Offer.op) = some e ∧
      Stuck ⟨.dev, bytesMut⟩ e ∧
      ¬ Deliverable ⟨.dev, bytesMut⟩ (Endpoint.start 7 { rcvwnd := 1 }) (List.replicate 1377 0)
        (twoFragments.map Offer.op) := by
  have h : (run (Endpoint.exec ⟨.dev, bytesMut⟩) (Endpoint.start 7 { rcvwnd := 1 }) (twoFragments.map Offer.op)).map
      (fun e => (e.kcb.rcvWnd, e.kcb.rcvQueue.map fun s => s.frg.toNat)) = some (1, [1]) := by decide +kernel
  obtain ⟨e, he, h⟩ := Option.map_eq_some_iff.mp h
  obtain ⟨hw, hq⟩ : e.kcb.rcvWnd = 1 ∧ e.kcb.rcvQueue.map (fun s => s.frg.toNat) = [1] := by simpa using h
  obtain ⟨seg, hseg, hfrg⟩ := List.map_eq_singleton_iff.mp hq
  have hblocked : Blocked 1 2 e := ⟨by decide, hw, recvInv_run he, seg, [], hseg, by omega⟩
  have hfull : e.kcb.rcvWnd.toNat ≤ e.kcb.rcvQueue.length := by
    rw [hw, hseg]
    exact Nat.le_refl 1
  have hstuck : Stuck ⟨.dev, bytesMut⟩ e := stuck_of_blocked hblocked hfull
  refine ⟨(Kcb.configured 7 { rcvwnd := 1 }).setSndQueue
    [{ frg := 1, data := List.replicate 1376 0 }, { data := [0] }], e, by decide +kernel, by decide +kernel, he, hstuck,
    fun hd => ?_⟩
  exact hd.2 _ [] e (List.append_nil _).symm he hstuck

end NetProtocols.Kcp
