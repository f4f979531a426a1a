import NetProtocols.Kcp.Endpoint

/-!
# NetProtocols.Kcp.Frames — what each helper of the control block can change

The receive side (`RecvSide`) and the send side (`SendSide`) of a control block meet in `input` and in `flush` only.
Every helper either leaves a side as it is or changes it in one stated way; the invariants of the two sides are
proved from these statements, not from the definitions.

* `Segment.fixed`: the fields of a segment that its retransmissions keep; `Settings`: the fields of a control block
  that no call changes.
* `updateAck_eq`, `growCwnd_eq`, `parseFastack_eq`: the helpers that touch neither side's numbers.
* `Scan.Taken`, `taken_of_takeSegment`: the six things that handling one segment can do.
* `input_rule`: the invariant rule for `input`.
-/

namespace NetProtocols.Kcp

/-- The fields of a segment that stay the same from its first transmission on. -/
structure Fixed where
  conv : UInt32
  cmd : UInt8
  frg : UInt8
  sn : UInt32
  data : List UInt8
  deriving DecidableEq

def Segment.fixed (s : Segment) : Fixed := ⟨s.conv, s.cmd, s.frg, s.sn, s.data⟩

/-- The receive side of a control block. -/
structure RecvSide where
  rcvNxt : UInt32
  rcvWnd : UInt32
  rcvQueue : List Segment
  rcvBuf : List Segment
  acklist : List (UInt32 × UInt32)

/-- The send side of a control block. -/
structure SendSide where
  sndUna : UInt32
  sndNxt : UInt32
  sndWnd : UInt32
  sndQueue : List Segment
  sndBuf : List Fixed

/-- The fields of a control block that only its configuration sets. -/
structure Settings where
  conv : UInt32
  mtu : ℕ
  mss : ℕ
  sndWnd : UInt32
  rcvWnd : UInt32
  rxMinrto : UInt32
  interval : UInt32
  nodelay : UInt32
  fastresend : UInt32
  nocwnd : Bool
  stream : Bool

namespace Kcb

def settings (k : Kcb) : Settings :=
  ⟨k.conv, k.mtu, k.mss, k.sndWnd, k.rcvWnd, k.rxMinrto, k.interval, k.nodelay, k.fastresend, k.nocwnd, k.stream⟩

def recvSide (k : Kcb) : RecvSide := ⟨k.rcvNxt, k.rcvWnd, k.rcvQueue, k.rcvBuf, k.acklist⟩

def sendSide (k : Kcb) : SendSide :=
  ⟨k.sndUna, k.sndNxt, k.sndWnd, k.sndQueue, k.sndBuf.map Segment.fixed⟩

variable {p : Profile}

/-- Assignment to the windows and the options. -/
def setOptions (k : Kcb) (sndWnd rcvWnd nodelay rxMinrto interval fastresend : UInt32) (nocwnd : Bool) : Kcb :=
  { k with
    sndWnd := sndWnd
    rcvWnd := rcvWnd
    nodelay := nodelay
    rxMinrto := rxMinrto
    interval := interval
    fastresend := fastresend
    nocwnd := nocwnd }

/-- Configuring a fresh control block sets the windows, the options and nothing else. -/
theorem configured_eq (conv : UInt32) (c : Config) :
    ∃ sndWnd rcvWnd nodelay rxMinrto interval fastresend,
      configured conv c = (new conv).setOptions sndWnd rcvWnd nodelay rxMinrto interval fastresend c.nc := by
  have h : ∃ sndWnd rcvWnd,
      (new conv).wndsize c.sndwnd c.rcvwnd = { new conv with sndWnd := sndWnd, rcvWnd := rcvWnd } := by
    unfold wndsize
    split_ifs <;> exact ⟨_, _, rfl⟩
  obtain ⟨sndWnd, rcvWnd, h⟩ := h
  unfold configured setNodelay
  rw [h]
  split_ifs <;> exact ⟨_, _, _, _, _, _, rfl⟩

theorem send_eq {k k' : Kcb} {buf : List UInt8} {r : Except IoError ℕ} (h : k.send p buf = some (r, k')) :
    ∃ queue, k' = k.setSndQueue queue := by
  unfold send at h
  by_cases hbuf : buf = []
  · rw [if_pos hbuf] at h
    simp only [Option.some.injEq, Prod.mk.injEq] at h
    exact ⟨k.sndQueue, h.2.symm⟩
  rw [if_neg hbuf] at h
  generalize (if k.stream then appendLast k.mss k.sndQueue buf else (k.sndQueue, buf)) = x at h
  obtain ⟨queue, rest⟩ := x
  dsimp only at h
  split_ifs at h
  · simp only [Option.some.injEq, Prod.mk.injEq] at h
    exact ⟨_, h.2.symm⟩
  · simp only [Option.some.injEq, Prod.mk.injEq] at h
    exact ⟨_, h.2.symm⟩
  · simp only [Option.bind_eq_bind, Option.bind_eq_some_iff, Option.some.injEq, Prod.mk.injEq] at h
    obtain ⟨u, -, -, rfl⟩ := h
    exact ⟨_, rfl⟩

/-! ### The helpers of `input` -/

theorem updateAck_eq {k k' : Kcb} {rtt : UInt32} (h : k.updateAck p rtt = some k') :
    ∃ srtt rttval rto, k' = { k with rxSrtt := srtt, rxRttval := rttval, rxRto := rto } := by
  simp only [updateAck, Option.bind_eq_bind, Option.bind_eq_some_iff, Option.some.injEq] at h
  obtain ⟨k1, h1, z, -, rto, -, rfl⟩ := h
  by_cases h0 : k.rxSrtt = 0
  · rw [if_pos h0] at h1
    obtain rfl := Option.some.inj h1
    exact ⟨_, _, _, rfl⟩
  · rw [if_neg h0] at h1
    simp only [Option.bind_eq_some_iff, Option.some.injEq] at h1
    obtain ⟨delta, -, x, -, x', -, y, -, y', -, rfl⟩ := h1
    exact ⟨_, _, _, rfl⟩

theorem slowStart_eq {k k' : Kcb} {mss : UInt32} (h : k.slowStart p mss = some k') :
    ∃ cwnd incr, k' = { k with cwnd := cwnd, incr := incr } := by
  simp only [slowStart, Option.bind_eq_bind, Option.bind_eq_some_iff, Option.some.injEq] at h
  obtain ⟨c, -, i, -, rfl⟩ := h
  exact ⟨_, _, rfl⟩

theorem avoidCongestion_eq {k k' : Kcb} {mss : UInt32} (h : k.avoidCongestion p mss = some k') :
    ∃ cwnd incr, k' = { k with cwnd := cwnd, incr := incr } := by
  simp only [avoidCongestion, Option.bind_eq_bind, Option.bind_eq_some_iff, Option.some.injEq] at h
  obtain ⟨sq, -, q, -, q', -, i, -, n, -, g, -, rfl⟩ := h
  exact ⟨_, _, rfl⟩

theorem growCwnd_eq {k k' : Kcb} {oldUna : UInt32} (h : k.growCwnd p oldUna = some k') :
    ∃ cwnd incr, k' = { k with cwnd := cwnd, incr := incr } := by
  unfold growCwnd at h
  by_cases hg : oldUna < k.sndUna ∧ k.cwnd < k.rmtWnd
  · rw [if_pos hg] at h
    simp only [Option.bind_eq_bind, Option.bind_eq_some_iff] at h
    obtain ⟨k1, h1, h2⟩ := h
    have hk1 : ∃ cwnd incr, k1 = { k with cwnd := cwnd, incr := incr } := by
      split_ifs at h1
      · exact slowStart_eq h1
      · exact avoidCongestion_eq h1
    obtain ⟨c, i, rfl⟩ := hk1
    split_ifs at h2
    · simp only [Option.bind_eq_some_iff, Option.some.injEq] at h2
      obtain ⟨i', -, rfl⟩ := h2
      exact ⟨_, _, rfl⟩
    · obtain rfl := Option.some.inj h2
      exact ⟨_, _, rfl⟩
  · rw [if_neg hg] at h
    obtain rfl := Option.some.inj h
    exact ⟨k.cwnd, k.incr, rfl⟩

theorem bumpFastack_fixed {sn : UInt32} {l l' : List Segment} (h : bumpFastack p sn l = some l') :
    l'.map Segment.fixed = l.map Segment.fixed := by
  induction l generalizing l' with
  | nil =>
    obtain rfl := Option.some.inj h
    rfl
  | cons seg rest ih =>
    unfold bumpFastack at h
    by_cases hlt : sn < seg.sn
    · rw [if_pos hlt] at h
      obtain rfl := Option.some.inj h
      rfl
    · rw [if_neg hlt] at h
      simp only [Option.bind_eq_bind, Option.bind_eq_some_iff, Option.some.injEq] at h
      obtain ⟨f, -, rest', hr, rfl⟩ := h
      simp only [List.map_cons, ih hr]
      rfl

theorem parseFastack_eq {k k' : Kcb} {sn : UInt32} (h : k.parseFastack p sn = some k') :
    ∃ l, l.map Segment.fixed = k.sndBuf.map Segment.fixed ∧ k' = { k with sndBuf := l } := by
  unfold parseFastack at h
  split_ifs at h
  · obtain rfl := Option.some.inj h
    exact ⟨_, rfl, rfl⟩
  · simp only [Option.bind_eq_bind, Option.bind_eq_some_iff, Option.some.injEq] at h
    obtain ⟨l, hl, rfl⟩ := h
    exact ⟨l, bumpFastack_fixed hl, rfl⟩

/-- `k` with the first `n` segments of `rcv_buf` moved to `rcv_queue`, `rcv_nxt` being `nxt` then. -/
def moved (k : Kcb) (n : ℕ) (nxt : UInt32) : Kcb :=
  { k with rcvNxt := nxt, rcvQueue := k.rcvQueue ++ k.rcvBuf.take n, rcvBuf := k.rcvBuf.drop n }

theorem moveData_eq_moved {k k' : Kcb} (h : moveData p k = some k') : ∃ n nxt, k' = k.moved n nxt := by
  simp only [moveData, Option.bind_eq_bind, Option.bind_eq_some_iff, Option.some.injEq] at h
  obtain ⟨⟨n, nxt⟩, -, rfl⟩ := h
  exact ⟨n, nxt, rfl⟩

theorem parseData_eq_moved {k k' : Kcb} {seg : Segment} (h : k.parseData p seg = some k') :
    k' = k ∨ ∃ l n nxt, k' = ({ k with rcvBuf := l } : Kcb).moved n nxt := by
  simp only [parseData, Option.bind_eq_bind, Option.bind_eq_some_iff] at h
  obtain ⟨edge, -, h⟩ := h
  by_cases hout : edge ≤ seg.sn ∨ seg.sn < k.rcvNxt
  · rw [if_pos hout] at h
    exact Or.inl (Option.some.inj h).symm
  · rw [if_neg hout] at h
    obtain ⟨⟨dup, i⟩, -, h⟩ := Option.bind_eq_some_iff.mp h
    dsimp only at h
    split_ifs at h
    · obtain ⟨n, nxt, h⟩ := moveData_eq_moved h
      exact Or.inr ⟨k.rcvBuf, n, nxt, h⟩
    · obtain ⟨u, -, h⟩ := Option.bind_eq_some_iff.mp h
      obtain ⟨n, nxt, h⟩ := moveData_eq_moved h
      exact Or.inr ⟨_, n, nxt, h⟩

/-- After the segment loop only `fastack` values and the congestion window change. -/
theorem finishInput_eq {s : Scan} {oldUna : UInt32} {k : Kcb} (h : finishInput p s oldUna = some k) :
    ∃ l cwnd incr, l.map Segment.fixed = s.kcb.sndBuf.map Segment.fixed ∧
      k = { s.kcb with sndBuf := l, cwnd := cwnd, incr := incr } := by
  simp only [finishInput, Option.bind_eq_bind, Option.bind_eq_some_iff] at h
  obtain ⟨k1, h1, h2⟩ := h
  obtain ⟨c, i, rfl⟩ := growCwnd_eq h2
  split_ifs at h1
  · obtain ⟨l, hl, rfl⟩ := parseFastack_eq h1
    exact ⟨l, c, i, hl, rfl⟩
  · obtain rfl := Option.some.inj h1
    exact ⟨_, c, i, rfl, rfl⟩

theorem finishInput_sides {s : Scan} {oldUna : UInt32} {k : Kcb} (h : finishInput p s oldUna = some k) :
    k.recvSide = s.kcb.recvSide ∧ k.sendSide = s.kcb.sendSide := by
  obtain ⟨l, c, i, hl, rfl⟩ := finishInput_eq h
  refine ⟨rfl, ?_⟩
  simp only [sendSide, hl]

@[simp] theorem onHeader_recvSide (k : Kcb) (h : Header) : (k.onHeader h).recvSide = k.recvSide := rfl

end Kcb

/-! ### Handling one segment -/

namespace Scan

open Kcb

variable {p : Profile}

/-- What handling one segment with header `h` can do. -/
inductive Taken (p : Profile) (s : Scan) (h : Header) : Scan → Prop
  | ack {k : Kcb} {m : UInt32} (hc : h.cmd = kcpCmdAck)
      (hk : k = s.kcb.onHeader h ∨ ∃ rtt, (s.kcb.onHeader h).updateAck p rtt = some k) :
      Taken p s h ⟨(k.parseAck h.sn).shrinkBuf, true, m, s.buf⟩
  | above (hc : h.cmd = kcpCmdPush) (hsn : s.kcb.rcvNxt + s.kcb.rcvWnd ≤ h.sn) :
      Taken p s h ⟨s.kcb.onHeader h, s.flag, s.maxack, s.buf⟩
  | below (hc : h.cmd = kcpCmdPush) (hsn : h.sn < s.kcb.rcvNxt + s.kcb.rcvWnd) (hlt : h.sn < s.kcb.rcvNxt) :
      Taken p s h
        ⟨(s.kcb.onHeader h).setAcklist (s.kcb.acklist ++ [(h.sn, h.ts)]), s.flag, s.maxack, s.buf⟩
  | inside {k : Kcb} (hc : h.cmd = kcpCmdPush) (hsn : h.sn < s.kcb.rcvNxt + s.kcb.rcvWnd)
      (hle : s.kcb.rcvNxt ≤ h.sn)
      (hk : ((s.kcb.onHeader h).setAcklist (s.kcb.acklist ++ [(h.sn, h.ts)])).parseData p
        (segmentOf h (s.buf.take h.len.toNat)) = some k) :
      Taken p s h ⟨k, s.flag, s.maxack, s.buf.drop h.len.toNat⟩
  | wask (hc : h.cmd = kcpCmdWask) {probe : UInt32} :
      Taken p s h ⟨{ s.kcb.onHeader h with probe := probe }, s.flag, s.maxack, s.buf⟩
  | other (ha : h.cmd ≠ kcpCmdAck) (hc : h.cmd ≠ kcpCmdPush) :
      Taken p s h ⟨s.kcb.onHeader h, s.flag, s.maxack, s.buf⟩

theorem settings_taken {s s' : Scan} {h : Header} (ht : Taken p s h s') :
    s'.kcb.settings = s.kcb.settings ∧ s'.kcb.buffer = s.kcb.buffer := by
  cases ht with
  | ack hc hk =>
    rcases hk with rfl | ⟨rtt, hk⟩
    · unfold parseAck
      split_ifs <;> exact ⟨rfl, rfl⟩
    · obtain ⟨srtt, rttval, rto, rfl⟩ := updateAck_eq hk
      unfold parseAck
      split_ifs <;> exact ⟨rfl, rfl⟩
  | inside hc hsn hle hk =>
    rcases parseData_eq_moved hk with rfl | ⟨l, n, nxt, rfl⟩
    · exact ⟨rfl, rfl⟩
    · exact ⟨rfl, rfl⟩
  | above | below | wask | other => exact ⟨rfl, rfl⟩

theorem taken_of_takeSegment {s s' : Scan} {h : Header} (ht : s.takeSegment p h = some s') :
    Taken p s h s' := by
  unfold takeSegment at ht
  dsimp only at ht
  by_cases hack : h.cmd = kcpCmdAck
  · rw [if_pos hack] at ht
    simp only [takeAck, Option.bind_eq_bind, Option.bind_eq_some_iff] at ht
    obtain ⟨rtt, -, k, hk, ht⟩ := ht
    have hk' : k = s.kcb.onHeader h ∨ ∃ rtt, (s.kcb.onHeader h).updateAck p rtt = some k := by
      split_ifs at hk
      · exact Or.inr ⟨_, hk⟩
      · exact Or.inl (Option.some.inj hk).symm
    split_ifs at ht with hf
    all_goals obtain rfl := Option.some.inj ht
    · exact .ack hack hk'
    all_goals
      have hs : s.flag = true := by simpa using hf
      rw [hs]
      exact .ack hack hk'
  by_cases hpush : h.cmd = kcpCmdPush
  · rw [if_neg hack, if_pos hpush] at ht
    simp only [takePush, Option.bind_eq_bind, Option.bind_eq_some_iff] at ht
    obtain ⟨edge, he, ht⟩ := ht
    obtain rfl := Profile.add_eq_some he
    split_ifs at ht with hsn hle
    · obtain ⟨k, hk, ht⟩ := Option.bind_eq_some_iff.mp ht
      obtain rfl := Option.some.inj ht
      exact .inside hpush hsn hle hk
    · obtain rfl := Option.some.inj ht
      exact .below hpush hsn (UInt32.not_le.mp hle)
    · obtain rfl := Option.some.inj ht
      exact .above hpush (UInt32.not_lt.mp hsn)
  rw [if_neg hack, if_neg hpush] at ht
  split_ifs at ht with hw
  · obtain rfl := Option.some.inj ht
    exact .wask hw
  · obtain rfl := Option.some.inj ht
    exact .other hack hpush

/-- An iteration that goes on has read a header that the tests accept. -/
theorem inputStep_ok {s s' : Scan} (hs : s.inputStep p = some (.ok s')) :
    ∃ h rest, readHeader s.buf = some (h, rest) ∧ h.accepted s.kcb.conv rest = true ∧
      ({ s with buf := rest } : Scan).takeSegment p h = some s' := by
  simp only [inputStep, Option.bind_eq_bind, Option.bind_eq_some_iff] at hs
  obtain ⟨⟨h, rest⟩, hr, hs⟩ := hs
  dsimp only at hs
  split_ifs at hs with h1 h2 h3
  all_goals simp only [Option.some.injEq, reduceCtorEq, Option.bind_eq_some_iff, Except.ok.injEq] at hs
  obtain ⟨t, ht, rfl⟩ := hs
  refine ⟨h, rest, hr, ?_, ht⟩
  simp only [ne_eq, Decidable.not_not] at h1
  simp only [Header.accepted, h1, beq_self_eq_true, Bool.true_and, Bool.and_eq_true, decide_eq_true_eq]
  exact ⟨by omega, by simpa using h3⟩

/-- Where the header tests refuse the cursor, the loop does not go on. -/
theorem inputStep_of_refuses {s s' : Scan} (hr : refuses s.kcb.conv s.buf = true) :
    s.inputStep p ≠ some (.ok s') := by
  intro hs
  obtain ⟨h, rest, h1, h2, -⟩ := inputStep_ok hs
  simp [refuses, h1, h2] at hr

end Scan

/-! ### The invariant rule for `input` -/

namespace Kcb

open Scan

variable {p : Profile}

theorem inputLoop_rule {I : ℕ → Scan → Prop}
    (hstep : ∀ n s s', I (n + 1) s → s.inputStep p = some (.ok s') → I n s') :
    ∀ (n : ℕ) {s s' : Scan} {r : Except IoError Unit}, s.inputLoop p n = some (r, s') → I n s → ∃ m, I m s' := by
  intro n
  induction n with
  | zero =>
    intro s s' r h hs
    simp only [inputLoop, Option.some.injEq, Prod.mk.injEq] at h
    exact ⟨0, h.2 ▸ hs⟩
  | succ n ih =>
    intro s s' r h hs
    unfold inputLoop at h
    split_ifs at h with hl
    · simp only [Option.some.injEq, Prod.mk.injEq] at h
      exact ⟨n + 1, h.2 ▸ hs⟩
    · simp only [Option.bind_eq_bind, Option.bind_eq_some_iff] at h
      obtain ⟨x, hx, h⟩ := h
      cases x with
      | error e =>
        simp only [Option.some.injEq, Prod.mk.injEq] at h
        exact ⟨n + 1, h.2 ▸ hs⟩
      | ok t => exact ih h (hstep n s t hs hx)

/-- The invariant rule for `input`, the invariant of the segment loop taking the iterations left into account. -/
theorem input_rule_fuel {I : ℕ → Scan → Prop} {J : Kcb → Prop} {k k' : Kcb} {d : List UInt8} {r : Except IoError ℕ}
    (h : k.input p d = some (r, k')) (h0 : I d.length (k.scanOf d)) (hJ : ∀ n s, I n s → J s.kcb)
    (hstep : ∀ n s s', I (n + 1) s → s.inputStep p = some (.ok s') → I n s')
    (hfin : ∀ n s k', I n s → finishInput p s k.sndUna = some k' → J k') : J k' := by
  unfold input at h
  split_ifs at h with hl
  · simp only [Option.some.injEq, Prod.mk.injEq] at h
    exact h.2 ▸ hJ _ _ h0
  · simp only [Option.bind_eq_bind, Option.bind_eq_some_iff] at h
    obtain ⟨⟨x, s⟩, hx, h⟩ := h
    obtain ⟨m, hs⟩ := inputLoop_rule hstep _ hx h0
    cases x with
    | error e =>
      simp only [Option.some.injEq, Prod.mk.injEq] at h
      exact h.2 ▸ hJ m s hs
    | ok u =>
      simp only [Option.bind_eq_some_iff, Option.some.injEq, Prod.mk.injEq] at h
      obtain ⟨k1, h1, -, rfl⟩ := h
      exact hfin m s k1 hs h1

/-- **Invariant rule for `input`**: `I` holds of every state of the segment loop, and `J` of the control block in
which the call ends, with an error or without. -/
theorem input_rule {I : Scan → Prop} {J : Kcb → Prop} {k k' : Kcb} {d : List UInt8} {r : Except IoError ℕ}
    (h : k.input p d = some (r, k')) (h0 : I (k.scanOf d)) (hJ : ∀ s, I s → J s.kcb)
    (hstep : ∀ s s', I s → s.inputStep p = some (.ok s') → I s')
    (hfin : ∀ s k', I s → finishInput p s k.sndUna = some k' → J k') : J k' :=
  input_rule_fuel (I := fun _ s => I s) h h0 (fun _ s => hJ s) (fun _ s s' => hstep s s') fun _ s k' => hfin s k'

theorem settings_input {k k' : Kcb} {d : List UInt8} {r : Except IoError ℕ} (h : k.input p d = some (r, k')) :
    k'.settings = k.settings ∧ k'.buffer = k.buffer := by
  refine input_rule (I := fun s => s.kcb.settings = k.settings ∧ s.kcb.buffer = k.buffer)
    (J := fun k' => k'.settings = k.settings ∧ k'.buffer = k.buffer) h ⟨rfl, rfl⟩ (fun _ hs => hs) ?_ ?_
  · intro s s' hs hst
    obtain ⟨hd, rest, -, -, ht⟩ := inputStep_ok hst
    obtain ⟨h1, h2⟩ := settings_taken (taken_of_takeSegment ht)
    exact ⟨h1.trans hs.1, h2.trans hs.2⟩
  · intro s k' hs hf
    obtain ⟨l, c, i, -, rfl⟩ := finishInput_eq hf
    exact hs

end Kcb

end NetProtocols.Kcp
