import NetProtocols.Kcp.Congestion
import NetProtocols.Kcp.Reading

/-!
# NetProtocols.Kcp.Checked — when `input` and `recv` stop a build with overflow checks

Under the `dev` profile four sums and differences in `input` and `recv` can leave their types, and a peer reaches each
with one datagram (the `fastack` counter needs many): the age of an acknowledgement, the round-trip estimate made from
it, the edge of the receive window, and the count of fragments in `peeksize`.  Everything else stays in range in every
reachable state.

* `AckFits`, `PushFits`, `FastFits`, `HeadFits`: what must hold for each of the four.
* `InputFits`: what must hold for a datagram, segment by segment, each in the state in which it is read.
* `calls_return_iff`: from a reachable state, a sequence of `input` and `recv` calls returns exactly when each call
  meets its condition.
-/

namespace NetProtocols.Kcp

namespace Kcb

variable {k k' : Kcb}

/-! ### The age of an acknowledgement -/

/-- The difference of two clock readings as `timediff` means it: both are read as `i32`. -/
def age (later earlier : UInt32) : ℤ := later.toInt32.toInt - earlier.toInt32.toInt

theorem timediff_dev {a b : UInt32} : (timediff .dev a b).isSome ↔ -2 ^ 31 ≤ age a b ∧ age a b < 2 ^ 31 := by
  simp [timediff, Profile.subI32, Profile.isSome_checked, age]

theorem timediff_eq {p : Profile} {a b : UInt32} {d : Int32} (h : timediff p a b = some d)
    (hlow : -2 ^ 31 ≤ age a b) (hhigh : age a b < 2 ^ 31) : d.toInt = age a b := by
  rw [Profile.subI32_eq_some h, Int32.toInt_sub]
  exact Int.bmod_eq_of_le hlow hhigh

theorem toNat_toUInt32_of_nonneg {d : Int32} (h : 0 ≤ d) : d.toUInt32.toNat = d.toInt.toNat :=
  Int32.toNat_toUInt32_of_le h

/-! ### The round-trip estimate -/

/-- How far the sample is from the estimate. -/
def deviation (k : Kcb) (rtt : ℕ) : ℕ := (k.rxSrtt.toNat - rtt) + (rtt - k.rxSrtt.toNat)

/-- The new estimate and the new mean deviation. -/
def smoothed (k : Kcb) (rtt : ℕ) : ℕ × ℕ :=
  if k.rxSrtt = 0 then (rtt, rtt / 2)
  else (max 1 ((7 * k.rxSrtt.toNat + rtt) / 8), (3 * k.rxRttval.toNat + k.deviation rtt) / 4)

/-- The sums of `update_ack` fit into `u32`. -/
def RttFits (k : Kcb) (rtt : ℕ) : Prop :=
  (k.rxSrtt ≠ 0 → 3 * k.rxRttval.toNat + k.deviation rtt < 2 ^ 32 ∧ 7 * k.rxSrtt.toNat + rtt < 2 ^ 32) ∧
    (k.smoothed rtt).1 + max k.interval.toNat (4 * (k.smoothed rtt).2) < 2 ^ 32

theorem isSome_rto {srtt rttval interval : UInt32} {f : UInt32 → Option Kcb} (hf : ∀ rto, (f rto).isSome) :
    ((Profile.dev.mul 4 rttval).bind fun z => (Profile.dev.add srtt (max interval z)).bind f).isSome ↔
      srtt.toNat + max interval.toNat (4 * rttval.toNat) < 2 ^ 32 := by
  rw [Profile.isSome_mul_bind, Profile.isSome_add_bind, toNat_max]
  have h4 : (4 : UInt32).toNat = 4 := rfl
  rw [h4]
  constructor
  · rintro ⟨h1, h2, -⟩
    rw [toNat_mul_of_lt (by rw [h4]; exact h1), h4] at h2
    exact h2
  · intro h
    have h1 : 4 * rttval.toNat < 2 ^ 32 := by omega
    refine ⟨h1, ?_, hf _⟩
    rw [toNat_mul_of_lt (by rw [h4]; exact h1), h4]
    exact h

theorem delta_eq {p : Profile} (k : Kcb) (rtt : UInt32) :
    ∃ d, (if k.rxSrtt < rtt then p.sub rtt k.rxSrtt else p.sub k.rxSrtt rtt) = some d ∧
      d.toNat = k.deviation rtt.toNat := by
  unfold deviation
  split_ifs with h
  · have h' := UInt32.lt_iff_toNat_lt.mp h
    refine ⟨rtt - k.rxSrtt, Profile.checked_of_fits h'.le _, ?_⟩
    rw [UInt32.toNat_sub_of_le _ _ (UInt32.le_of_lt h)]
    omega
  · have h' := UInt32.le_iff_toNat_le.mp (UInt32.not_lt.mp h)
    refine ⟨k.rxSrtt - rtt, Profile.checked_of_fits h' _, ?_⟩
    rw [UInt32.toNat_sub_of_le _ _ (UInt32.not_lt.mp h)]
    omega

theorem toNat_estimate (y : UInt32) : (if y / 8 < 1 then 1 else y / 8).toNat = max 1 (y.toNat / 8) := by
  have h8 : (y / 8).toNat = y.toNat / 8 := UInt32.toNat_div _ _
  split_ifs with h
  · have h' := UInt32.lt_iff_toNat_lt.mp h
    rw [h8, UInt32.toNat_one] at h'
    rw [UInt32.toNat_one]
    omega
  · have h' := UInt32.le_iff_toNat_le.mp (UInt32.not_lt.mp h)
    rw [h8, UInt32.toNat_one] at h'
    omega

theorem isSome_updateAck_iff (rtt : UInt32) : (k.updateAck .dev rtt).isSome ↔ RttFits k rtt.toNat := by
  unfold updateAck RttFits smoothed
  simp only [Option.bind_eq_bind]
  by_cases h0 : k.rxSrtt = 0
  · simp only [if_pos h0, Option.bind_some]
    rw [isSome_rto fun _ => rfl, UInt32.toNat_div]
    simp [h0]
  · obtain ⟨d, hd, hdev⟩ := delta_eq (p := .dev) k rtt
    have h3 : (3 : UInt32).toNat = 3 := rfl
    have h7 : (7 : UInt32).toNat = 7 := rfl
    simp only [if_neg h0, hd, Option.bind_some, Option.bind_assoc]
    rw [Profile.isSome_mul_bind, Profile.isSome_add_bind, Profile.isSome_mul_bind, Profile.isSome_add_bind,
      isSome_rto fun _ => rfl, toNat_estimate, UInt32.toNat_div, h3, h7, ← hdev]
    simp only [ne_eq, h0, not_false_eq_true, true_imp_iff]
    constructor
    · rintro ⟨hx, hx', hy, hy', h⟩
      have ex : (3 * k.rxRttval).toNat = 3 * k.rxRttval.toNat := toNat_mul_of_lt hx
      have ey : (7 * k.rxSrtt).toNat = 7 * k.rxSrtt.toNat := toNat_mul_of_lt hy
      rw [toNat_add_of_lt hx', toNat_add_of_lt hy', ex, ey] at h
      rw [ex] at hx'
      rw [ey] at hy'
      exact ⟨⟨hx', hy'⟩, h⟩
    · rintro ⟨⟨hx', hy'⟩, h⟩
      have hx : 3 * k.rxRttval.toNat < 2 ^ 32 := by omega
      have hy : 7 * k.rxSrtt.toNat < 2 ^ 32 := by omega
      have ex : (3 * k.rxRttval).toNat = 3 * k.rxRttval.toNat := toNat_mul_of_lt hx
      have ey : (7 * k.rxSrtt).toNat = 7 * k.rxSrtt.toNat := toNat_mul_of_lt hy
      have ex' : (3 * k.rxRttval + d).toNat = 3 * k.rxRttval.toNat + d.toNat := ex ▸ toNat_add_of_lt (ex ▸ hx')
      have ey' : (7 * k.rxSrtt + rtt).toNat = 7 * k.rxSrtt.toNat + rtt.toNat := ey ▸ toNat_add_of_lt (ey ▸ hy')
      rw [ex', ey', ex, ey]
      exact ⟨hx, hx', hy, hy', h⟩

/-! ### What must hold of each call -/

/-- The age of the acknowledgement is an `i32`, and its round trip can be taken into account. -/
def AckFits (k : Kcb) (ts : UInt32) : Prop :=
  -2 ^ 31 ≤ age k.current ts ∧ age k.current ts < 2 ^ 31 ∧
    (0 ≤ age k.current ts → k.RttFits (age k.current ts).toNat)

/-- The edge of the receive window is a `u32`. -/
def PushFits (k : Kcb) : Prop := k.rcvNxt.toNat + k.rcvWnd.toNat < 2 ^ 32

/-- The segments of `snd_buf` that the acknowledgement of `sn` passes over can be counted up once more. -/
def FastFits (k : Kcb) (sn : UInt32) : Prop :=
  k.sndUna ≤ sn → sn < k.sndNxt → ∀ seg ∈ k.sndBuf, seg.sn < sn → seg.fastack.toNat + 1 < 2 ^ 32

/-- `peeksize` can count the fragments of the first message. -/
def HeadFits (k : Kcb) : Prop := ∀ seg ∈ k.rcvQueue.head?, seg.frg ≠ 255

theorem ackFits_onHeader (h : Header) (ts : UInt32) : (k.onHeader h).AckFits ts ↔ k.AckFits ts := Iff.rfl

/-- One segment, by its command. -/
def SegmentFits (k : Kcb) (h : Header) : Prop :=
  (h.cmd = kcpCmdAck → k.AckFits h.ts) ∧ (h.cmd = kcpCmdPush → k.PushFits)

end Kcb

namespace Scan

open Kcb

/-- The segment at the cursor, if the header tests accept it. -/
def StepFits (s : Scan) : Prop :=
  match readHeader s.buf with
  | none => True
  | some (h, rest) => h.accepted s.kcb.conv rest = true → s.kcb.SegmentFits h

/-- The end of `input`. -/
def FinishFits (s : Scan) : Prop := s.flag = true → s.kcb.FastFits s.maxack

/-- The segment loop, each segment in the state in which it is read. -/
def LoopFits : ℕ → Scan → Prop
  | 0, s => s.FinishFits
  | fuel + 1, s =>
    if s.buf.length < kcpOverhead then s.FinishFits
    else s.StepFits ∧
      match s.inputStep .dev with
      | some (.ok t) => t.LoopFits fuel
      | _ => True

end Scan

/-- The condition on a datagram. -/
def Kcb.InputFits (k : Kcb) (d : List UInt8) : Prop := kcpOverhead ≤ d.length → (k.scanOf d).LoopFits d.length

/-! ### One segment -/

namespace Scan

open Kcb

variable {s : Scan} {h : Header} {taken : List Segment}

theorem isSome_takeAck_iff : (s.takeAck .dev h).isSome ↔ s.kcb.AckFits h.ts := by
  have hrtt : ∀ rtt, timediff .dev s.kcb.current h.ts = some rtt →
      -2 ^ 31 ≤ age s.kcb.current h.ts → age s.kcb.current h.ts < 2 ^ 31 →
      (0 ≤ rtt ↔ 0 ≤ age s.kcb.current h.ts) ∧
        (0 ≤ rtt → rtt.toUInt32.toNat = (age s.kcb.current h.ts).toNat) := by
    intro rtt hr h1 h2
    have e := timediff_eq hr h1 h2
    refine ⟨?_, fun h0 => by rw [toNat_toUInt32_of_nonneg h0, e]⟩
    rw [Int32.le_iff_toInt_le, e]
    rfl
  constructor
  · intro hs
    unfold takeAck at hs
    obtain ⟨rtt, hr, hs⟩ := Profile.isSome_bind_iff.mp hs
    obtain ⟨h1, h2⟩ := timediff_dev.mp (Option.isSome_iff_exists.mpr ⟨rtt, hr⟩)
    obtain ⟨h3, h4⟩ := hrtt rtt hr h1 h2
    refine ⟨h1, h2, fun h0 => ?_⟩
    obtain ⟨k, hk, -⟩ := Profile.isSome_bind_iff.mp hs
    rw [if_pos (h3.mpr h0)] at hk
    rw [← h4 (h3.mpr h0)]
    exact (isSome_updateAck_iff _).mp (Option.isSome_iff_exists.mpr ⟨k, hk⟩)
  · rintro ⟨h1, h2, hu⟩
    refine isSome_takeAck (timediff_dev.mpr ⟨h1, h2⟩) fun rtt hr h0 => ?_
    obtain ⟨h3, h4⟩ := hrtt rtt hr h1 h2
    rw [isSome_updateAck_iff, h4 h0]
    exact hu (h3.mp h0)

theorem isSome_parseData {p : Profile} {k : Kcb} (hw : RecvWindow k.recvSide taken)
    (he : (p.add k.rcvNxt k.rcvWnd).isSome) (seg : Segment) : (k.parseData p seg).isSome := by
  by_cases hout : k.rcvNxt + k.rcvWnd ≤ seg.sn ∨ seg.sn < k.rcvNxt
  · unfold parseData
    refine Profile.isSome_bind he fun edge h => ?_
    obtain rfl := Profile.add_eq_some h
    dsimp only
    rw [if_pos hout]
    rfl
  · rw [not_or, UInt32.not_le, UInt32.not_lt] at hout
    obtain ⟨k', h, -⟩ := recvWindow_parseData (p := p) hw hout.2 hout.1
    rw [h]
    rfl

theorem isSome_takePush_iff (hw : RecvWindow s.kcb.recvSide taken) :
    (s.takePush .dev h).isSome ↔ s.kcb.PushFits := by
  have hadd : (Profile.dev.add s.kcb.rcvNxt s.kcb.rcvWnd).isSome ↔ s.kcb.PushFits := by
    simp [Profile.add, Profile.isSome_checked, PushFits]
  constructor
  · intro hs
    unfold takePush at hs
    obtain ⟨edge, he, -⟩ := Profile.isSome_bind_iff.mp hs
    exact hadd.mp (Option.isSome_iff_exists.mpr ⟨edge, he⟩)
  · intro hp
    have he := hadd.mpr hp
    refine isSome_takePush he fun acks seg => ?_
    have hw' : RecvWindow (s.kcb.setAcklist acks).recvSide taken :=
      ⟨hw.sorted, hw.window, hw.below, hw.room, hw.numbers⟩
    exact isSome_parseData hw' he seg

/-- **One iteration of the segment loop** goes through exactly when its segment fits. -/
theorem isSome_inputStep_iff (hw : RecvWindow s.kcb.recvSide taken) (hlen : kcpOverhead ≤ s.buf.length) :
    (s.inputStep .dev).isSome ↔ s.StepFits := by
  obtain ⟨hd, hr⟩ := readHeader_of_le hlen
  have htake : ∀ rest, ((({ s with buf := rest } : Scan).takeSegment .dev hd).isSome ↔ s.kcb.SegmentFits hd) := by
    intro rest
    unfold takeSegment SegmentFits
    dsimp only
    by_cases hack : hd.cmd = kcpCmdAck
    · rw [if_pos hack]
      have hpush : hd.cmd ≠ kcpCmdPush := by
        rw [hack]
        decide
      rw [isSome_takeAck_iff, ackFits_onHeader]
      exact ⟨fun h => ⟨fun _ => h, fun hp => absurd hp hpush⟩, fun h => h.1 hack⟩
    · rw [if_neg hack]
      by_cases hpush : hd.cmd = kcpCmdPush
      · rw [if_pos hpush]
        have hw' : RecvWindow (s.kcb.onHeader hd).recvSide taken := hw
        rw [isSome_takePush_iff (s := ⟨s.kcb.onHeader hd, s.flag, s.maxack, rest⟩) hw']
        exact ⟨fun h => ⟨fun ha => absurd ha hack, fun _ => h⟩, fun h => h.2 hpush⟩
      · rw [if_neg hpush]
        refine iff_of_true (by split_ifs <;> rfl) ⟨fun ha => absurd ha hack, fun hp => absurd hp hpush⟩
  unfold inputStep StepFits
  simp only [hr, Option.bind_eq_bind, Option.bind_some]
  -- what the header tests refuse is not accepted, so nothing is asked of it
  split_ifs with h1 h2 h3
  · refine iff_of_true rfl fun hacc => ?_
    simp [Header.accepted, h1] at hacc
  · refine iff_of_true rfl fun hacc => ?_
    simp only [Header.accepted, Bool.and_eq_true, decide_eq_true_eq] at hacc
    omega
  · refine iff_of_true rfl fun hacc => ?_
    simp only [Header.accepted, Bool.and_eq_true] at hacc
    simp [hacc.2] at h3
  · have hacc : hd.accepted s.kcb.conv (s.buf.drop kcpOverhead) = true := by
      simp only [ne_eq, Decidable.not_not] at h1
      simp only [Header.accepted, h1, beq_self_eq_true, Bool.true_and, Bool.and_eq_true, decide_eq_true_eq]
      exact ⟨by omega, by simpa using h3⟩
    rw [Profile.isSome_bind_iff]
    simp only [hacc, true_imp_iff, ← htake (s.buf.drop kcpOverhead), Option.isSome_some, and_true]
    exact Option.isSome_iff_exists.symm

end Scan

/-! ### After the segment loop -/

namespace Kcb

variable {k k' : Kcb} {p : Profile}

theorem isSome_bumpFastack_iff {sn : UInt32} {l : List Segment} (hl : Increasing Fixed.num (l.map Segment.fixed)) :
    (bumpFastack .dev sn l).isSome ↔ ∀ seg ∈ l, seg.sn < sn → seg.fastack.toNat + 1 < 2 ^ 32 := by
  induction l with
  | nil => simp [bumpFastack]
  | cons a l ih =>
    rw [List.map_cons, increasing_cons] at hl
    have hrest := ih hl.2
    unfold bumpFastack
    by_cases hlt : sn < a.sn
    · -- the loop stops here, and all the numbers that follow are greater
      rw [if_pos hlt]
      refine iff_of_true rfl fun seg hs hsn => ?_
      have hlt' := UInt32.lt_iff_toNat_lt.mp hlt
      have hsn' := UInt32.lt_iff_toNat_lt.mp hsn
      rcases List.mem_cons.mp hs with rfl | hs
      · omega
      · have : a.sn.toNat < seg.sn.toNat := hl.1 _ (List.mem_map_of_mem hs)
        omega
    · rw [if_neg hlt]
      have htail : ∀ fastack : UInt32, ((bumpFastack .dev sn l).bind fun rest =>
          some ({ a with fastack := fastack } :: rest)).isSome ↔ (bumpFastack .dev sn l).isSome := by
        intro fastack
        cases bumpFastack .dev sn l <;> rfl
      simp only [List.mem_cons, forall_eq_or_imp, Option.bind_eq_bind]
      by_cases heq : sn = a.sn
      · rw [if_neg (by simpa using heq), Option.bind_some, htail, hrest, heq]
        simp
      · rw [if_pos heq, Profile.isSome_add_bind, htail, hrest, UInt32.toNat_one]
        have : a.sn < sn := UInt32.lt_of_le_of_ne (UInt32.not_lt.mp hlt) (Ne.symm heq)
        simp [this]

theorem isSome_parseFastack_iff {sn : UInt32} (hi : SendInv k.sendSide) :
    (k.parseFastack .dev sn).isSome ↔ k.FastFits sn := by
  unfold parseFastack FastFits
  by_cases hout : sn < k.sndUna ∨ k.sndNxt ≤ sn
  · rw [if_pos hout]
    refine iff_of_true rfl fun h1 h2 => ?_
    rcases hout with h | h
    · exact absurd h (UInt32.not_lt.mpr h1)
    · exact absurd h2 (UInt32.not_lt.mpr h)
  · rw [if_neg hout]
    rw [not_or, UInt32.not_lt, UInt32.not_le] at hout
    simp only [hout.1, hout.2, true_imp_iff]
    rw [← isSome_bumpFastack_iff hi.sorted]
    cases bumpFastack .dev sn k.sndBuf <;> rfl

/-- The end of `input`: the congestion step never stops. -/
theorem isSome_finishInput_iff {s : Scan} {oldUna : UInt32} (hs : SendInv s.kcb.sendSide) (hc : CwndInv s.kcb) :
    (finishInput .dev s oldUna).isSome ↔ s.FinishFits := by
  have hgrow : ∀ k : Kcb, CwndInv k → (k.growCwnd .dev oldUna).isSome := by
    intro k hk
    obtain ⟨k', h, -⟩ := cwndInv_growCwnd (p := .dev) hk oldUna
    rw [h]
    rfl
  unfold finishInput Scan.FinishFits
  by_cases hf : s.flag = true
  · simp only [hf, if_true, true_imp_iff]
    rw [← isSome_parseFastack_iff hs]
    constructor
    · intro h
      obtain ⟨k, hk, -⟩ := Profile.isSome_bind_iff.mp h
      exact Option.isSome_iff_exists.mpr ⟨k, hk⟩
    · intro h
      refine Profile.isSome_bind h fun k hk => hgrow k ?_
      obtain ⟨l, -, rfl⟩ := parseFastack_eq hk
      exact hc.of_eq rfl rfl rfl rfl rfl
  · rw [if_neg hf]
    exact iff_of_true (hgrow _ hc) fun h => absurd h hf

end Kcb

/-! ### The invariant -/

open Kcb

/-- Data that came in a datagram is shorter than `2 ^ 32` bytes. -/
def RecvSide.Short (r : RecvSide) : Prop := ∀ seg ∈ r.rcvQueue ++ r.rcvBuf, seg.data.length < 2 ^ 32

/-- Everything that keeps `input` and `recv` in range. -/
structure InRange (k : Kcb) (taken : List Segment) : Prop where
  recv : RecvInv k.recvSide taken
  send : SendInv k.sendSide
  cwnd : CwndInv k
  short : k.recvSide.Short

theorem short_moved {k : Kcb} {n : ℕ} {nxt : UInt32} (h : k.recvSide.Short) : (k.moved n nxt).recvSide.Short := by
  intro seg hs
  simp only [recvSide, moved, List.append_assoc, List.take_append_drop] at hs
  exact h seg hs

theorem short_taken {p : Profile} {s s' : Scan} {h : Header} (ht : Scan.Taken p s h s') (hs : s.kcb.recvSide.Short) :
    s'.kcb.recvSide.Short := by
  cases ht with
  | ack hc hk =>
    rename_i k m
    have hk' : k.recvSide.Short := by
      rcases hk with rfl | ⟨rtt, hk⟩
      · exact hs
      · obtain ⟨srtt, rttval, rto, rfl⟩ := updateAck_eq hk
        exact hs
    show (k.parseAck h.sn).shrinkBuf.recvSide.Short
    unfold parseAck
    split_ifs <;> exact hk'
  | inside hc hsn hle hk =>
    obtain ⟨l, hl, heq⟩ := parseData_inside (p := p)
      (k := (s.kcb.onHeader h).setAcklist (s.kcb.acklist ++ [(h.sn, h.ts)]))
      (show _ ≤ (Scan.segmentOf h (s.buf.take h.len.toNat)).sn from hle) hsn
    obtain ⟨n, nxt, rfl⟩ := moveData_eq_moved (heq.symm.trans hk)
    refine short_moved fun seg hseg => ?_
    rcases List.mem_append.mp hseg with hseg | hseg
    · exact hs seg (List.mem_append_left _ hseg)
    · rcases hl.mem hseg with hseg | rfl
      · exact hs seg (List.mem_append_right _ hseg)
      · show (s.buf.take h.len.toNat).length < 2 ^ 32
        exact lt_of_le_of_lt (List.length_take_le _ _) h.len.toNat_lt
  | above | below | wask | other => exact hs

theorem inRange_inputStep {p : Profile} {s s' : Scan} {taken : List Segment} (hi : InRange s.kcb taken)
    (h : s.inputStep p = some (.ok s')) : InRange s'.kcb taken := by
  obtain ⟨hd, rest, -, -, ht⟩ := Scan.inputStep_ok h
  have ht' := Scan.taken_of_takeSegment ht
  obtain ⟨hsh, hun⟩ := shrinks_taken ht'
  exact ⟨(recvInv_taken ht' hi.recv).1, (sendInv_shrinks hi.send hsh hun).1, cwndInv_taken ht' hi.cwnd,
    short_taken ht' hi.short⟩

/-! ### `input` -/

/-- The segment loop and what follows it; `done` is the rest of `input`. -/
theorem isSome_inputLoop_iff {taken : List Segment} (oldUna : UInt32) {β : Type}
    {done : Except IoError Unit × Scan → Option β}
    (hdone : ∀ x, (done x).isSome ↔ (x.1 = .ok () → (finishInput .dev x.2 oldUna).isSome)) :
    ∀ (fuel : ℕ) {s : Scan}, InRange s.kcb taken → (((s.inputLoop .dev fuel).bind done).isSome ↔ s.LoopFits fuel) := by
  have hend : ∀ {s : Scan}, InRange s.kcb taken → ((done (.ok (), s)).isSome ↔ s.FinishFits) := by
    intro s hi
    rw [hdone, ← isSome_finishInput_iff hi.send hi.cwnd]
    exact ⟨fun h => h rfl, fun h _ => h⟩
  intro fuel
  induction fuel with
  | zero => exact hend
  | succ fuel ih =>
    intro s hi
    unfold Scan.inputLoop Scan.LoopFits
    by_cases hl : s.buf.length < kcpOverhead
    · rw [if_pos hl, if_pos hl]
      exact hend hi
    · rw [if_neg hl, if_neg hl, ← Scan.isSome_inputStep_iff hi.recv.toRecvWindow (Nat.le_of_not_lt hl)]
      cases hx : s.inputStep .dev with
      | none => simp
      | some x =>
        simp only [Option.bind_eq_bind, Option.bind_some, Option.isSome_some, true_and]
        cases x with
        | error e =>
          refine iff_of_true ((hdone _).mpr fun h => ?_) trivial
          exact absurd h (by simp)
        | ok t => exact ih (inRange_inputStep hi hx)

/-- **`input` returns exactly when the datagram fits.** -/
theorem isSome_input_iff {k : Kcb} {taken : List Segment} (hi : InRange k taken) (d : List UInt8) :
    (k.input .dev d).isSome ↔ k.InputFits d := by
  unfold Kcb.input Kcb.InputFits
  by_cases hl : d.length < kcpOverhead
  · rw [if_pos hl]
    exact iff_of_true rfl fun h => absurd h (Nat.not_le_of_lt hl)
  · rw [if_neg hl]
    simp only [Nat.le_of_not_lt hl, true_imp_iff]
    refine isSome_inputLoop_iff k.sndUna (s := k.scanOf d) ?_ d.length hi
    rintro ⟨r, s⟩
    cases r with
    | error e => exact iff_of_true rfl fun h => absurd h (by simp)
    | ok u =>
      simp only [Option.bind_eq_bind, true_imp_iff]
      cases finishInput .dev s k.sndUna <;> rfl

/-! ### `recv` -/

theorem sumLength_short {p : Profile} {l : List Segment} (hl : ∀ seg ∈ l, seg.data.length < 2 ^ 32)
    (hroom : l.length < 2 ^ 32) : sumLength p l 0 = some ((headMessage l).flatMap Segment.data).length := by
  have hsub : headMessage l <+: l := ⟨_, headMessage_append_drop l⟩
  have hsize := length_data_le fun seg hs => hl seg (hsub.subset hs)
  have hlen := hsub.length_le
  rw [sumLength_eq (by omega), Nat.zero_add]

/-- `peeksize` stops only at a fragment number that has no successor. -/
theorem isSome_peeksize_iff {k : Kcb} (hs : ∀ seg ∈ k.rcvQueue, seg.data.length < 2 ^ 32)
    (hroom : k.rcvQueue.length < 2 ^ 32) : (k.peeksize .dev).isSome ↔ k.HeadFits := by
  unfold peeksize HeadFits
  cases hq : k.rcvQueue with
  | nil => simp
  | cons seg rest =>
    simp only [List.head?_cons, Option.mem_some_iff, forall_eq']
    by_cases hf : seg.frg = 0
    · rw [if_pos hf, hf]
      exact iff_of_true rfl (by decide)
    · rw [if_neg hf, Option.bind_eq_bind, Profile.isSome_addU8_bind]
      have hsum := sumLength_short (p := .dev) hs hroom
      rw [hq] at hsum
      have htail : (if (seg :: rest).length < (seg.frg + 1).toNat then some (.error (-1) : Except Int ℕ)
          else (sumLength .dev (seg :: rest) 0).bind fun length => some (.ok length)).isSome := by
        split_ifs
        · rfl
        · rw [hsum]
          rfl
      have h255 : seg.frg.toNat + 1 < 2 ^ 8 ↔ seg.frg ≠ 255 := by
        have := seg.frg.toNat_lt
        have e : (255 : UInt8).toNat = 255 := rfl
        rw [ne_eq, ← UInt8.toNat_inj, e]
        omega
      exact (and_iff_left htail).trans h255

theorem peeksize_ok {p : Profile} {k : Kcb} {n : ℕ} (hs : ∀ seg ∈ k.rcvQueue, seg.data.length < 2 ^ 32)
    (hroom : k.rcvQueue.length < 2 ^ 32) (h : k.peeksize p = some (.ok n)) :
    n = ((headMessage k.rcvQueue).flatMap Segment.data).length := by
  have hsum := sumLength_short (p := p) hs hroom
  unfold peeksize at h
  cases hq : k.rcvQueue with
  | nil => simp [hq] at h
  | cons seg rest =>
    rw [hq] at h hsum
    dsimp only at h
    by_cases hf : seg.frg = 0
    · rw [if_pos hf] at h
      simp only [Option.some.injEq, Except.ok.injEq] at h
      simp [headMessage, hf, ← h]
    · rw [if_neg hf] at h
      simp only [Option.bind_eq_bind, Option.bind_eq_some_iff] at h
      obtain ⟨m, -, h⟩ := h
      split_ifs at h
      · simp at h
      · rw [hsum] at h
        simpa using h.symm

/-- **`recv` returns exactly when the number of the first fragment has a successor.** -/
theorem isSome_recv_iff {k : Kcb} {taken : List Segment} (hi : InRange k taken) (cap : ℕ) :
    (k.recv .dev cap).isSome ↔ k.HeadFits := by
  have hs : ∀ seg ∈ k.rcvQueue, seg.data.length < 2 ^ 32 := fun seg h => hi.short seg (List.mem_append_left _ h)
  have hroom : k.rcvQueue.length < 2 ^ 32 := lt_of_le_of_lt hi.recv.room k.rcvWnd.toNat_lt
  have hpeek := isSome_peeksize_iff hs hroom
  unfold recv
  by_cases hq : k.rcvQueue = []
  · rw [if_pos hq]
    exact iff_of_true rfl (by simp [HeadFits, hq])
  · rw [if_neg hq, ← hpeek]
    constructor
    · intro h
      obtain ⟨peek, hp, -⟩ := Profile.isSome_bind_iff.mp h
      exact Option.isSome_iff_exists.mpr ⟨peek, hp⟩
    · intro h
      refine Profile.isSome_bind h fun peek hp => ?_
      cases peek with
      | error e => rfl
      | ok n =>
        dsimp only
        by_cases hcap : cap < n
        · rw [if_pos hcap]
          rfl
        · rw [if_neg hcap]
          cases hm : mergeFragments cap k.rcvQueue [] 0 with
          | error e => rfl
          | ok x =>
            obtain ⟨out, index⟩ := x
            obtain ⟨rfl, rfl⟩ := mergeFragments_spec hm
            obtain ⟨i, nxt, hmove, -⟩ := recvWindow_moveData (p := .dev) (recvWindow_popped hi.recv.toRecvWindow)
            have hn := peeksize_ok hs hroom hp
            dsimp only
            rw [Profile.assert_of (by rw [hn]; rfl), Nat.zero_add]
            rw [show ({ k with rcvQueue := k.rcvQueue.drop (headMessage k.rcvQueue).length } : Kcb) = k.popped from rfl,
              hmove]
            simp only [Option.bind_eq_bind, Option.bind_some]
            split_ifs <;> rfl

/-! ### Runs -/

variable {b : Build}

theorem inRange_start (conv : UInt32) (c : Config) :
    InRange (Endpoint.start conv c).kcb (Endpoint.start conv c).taken := by
  refine ⟨recvInv_start conv c, sendInv_start conv c, cwndInv_start conv c, ?_⟩
  obtain ⟨sndWnd, rcvWnd, nodelay, rxMinrto, interval, fastresend, h⟩ := configured_eq conv c
  rw [Endpoint.start, h]
  exact fun seg hs => absurd hs List.not_mem_nil

theorem short_exec {e e' : Endpoint} {op : Op} (h : e.exec b op = some e') (hs : e.kcb.recvSide.Short) :
    e'.kcb.recvSide.Short := by
  refine exec_rule (I := fun k => k.recvSide.Short) h ?_ ?_ ?_ ?_
  · intro buf r k h
    obtain ⟨q, rfl⟩ := send_eq h
    exact hs
  · intro cap r k h
    rcases recv_cases h with ⟨err, -, rfl⟩ | ⟨-, -, k1, pr, h1, rfl⟩
    · exact hs
    · obtain ⟨n, nxt, rfl⟩ := moveData_eq_moved h1
      refine short_moved (k := e.kcb.popped) fun seg hseg => hs seg ?_
      rcases List.mem_append.mp hseg with hseg | hseg
      · exact List.mem_append_left _ (List.mem_of_mem_drop hseg)
      · exact List.mem_append_right _ hseg
  · intro d r k h
    refine input_rule (I := fun s => s.kcb.recvSide.Short) (J := fun k => k.recvSide.Short) h hs (fun _ h => h) ?_ ?_
    · intro s s' hs hst
      obtain ⟨hd, rest, -, -, ht⟩ := Scan.inputStep_ok hst
      exact short_taken (Scan.taken_of_takeSegment ht) hs
    · intro s k' hs hf
      exact (finishInput_sides hf).1 ▸ hs
  · intro f cut hf
    refine (flushed_rule (I := fun k => k.recvSide.Short) cut hf hs fun k k' hk hstep => ?_).1
    rcases recvSide_flushStep hstep with e | e <;> exact e ▸ hk

theorem inRange_exec (hb : b.profile = .dev) {e e' : Endpoint} {op : Op} (h : e.exec b op = some e')
    (hi : InRange e.kcb e.taken) : InRange e'.kcb e'.taken :=
  ⟨(recvInv_exec h hi.recv).1, (sendInv_exec h hi.send).1, cwndInv_exec hb h hi.cwnd, short_exec h hi.short⟩

/-- The calls of the receiving side. -/
def Op.Receives : Op → Prop
  | .recv _ | .input _ => True
  | _ => False

/-- The condition on one of them, in the state in which it is made. -/
def CallFits (e : Endpoint) : Op → Prop
  | .recv _ => e.kcb.HeadFits
  | .input d => e.kcb.InputFits d
  | _ => True

theorem isSome_exec_iff {e : Endpoint} {op : Op} (hb : b.profile = .dev) (hi : InRange e.kcb e.taken)
    (hop : op.Receives) : (e.exec b op).isSome ↔ CallFits e op := by
  cases op with
  | recv cap =>
    simp only [Endpoint.exec, hb, Option.isSome_map]
    exact isSome_recv_iff hi cap
  | input d =>
    simp only [Endpoint.exec, hb, Option.isSome_map]
    exact isSome_input_iff hi d
  | send | update | flush => exact hop.elim

/-- **When a receiver survives**: from every state that a `dev` build reaches, a sequence of `input` and `recv` calls,
on any byte strings and buffers, returns exactly when each of them meets its condition in the state in which it is
made. -/
theorem calls_return_iff {rem : ℕ → ℕ} {conv : UInt32} {c : Config} {ops calls : List Op} {e : Endpoint}
    (hr : run (Endpoint.exec ⟨.dev, rem⟩) (Endpoint.start conv c) ops = some e)
    (hcalls : ∀ op ∈ calls, op.Receives) :
    (run (Endpoint.exec ⟨.dev, rem⟩) e calls).isSome ↔ Meets (Endpoint.exec ⟨.dev, rem⟩) CallFits e calls := by
  have hi : InRange e.kcb e.taken := run_invariant (I := fun e => InRange e.kcb e.taken)
    (fun _ _ _ hi h => inRange_exec rfl h hi) hr (inRange_start conv c)
  clear hr
  induction calls generalizing e with
  | nil => exact iff_of_true rfl trivial
  | cons op calls ih =>
    have h1 := isSome_exec_iff (b := ⟨.dev, rem⟩) rfl hi (hcalls op (by simp))
    have hrest : ∀ op ∈ calls, op.Receives := fun op hop => hcalls op (by simp [hop])
    simp only [run, Meets, ← h1]
    rw [Profile.isSome_bind_iff, Option.isSome_iff_exists]
    constructor
    · rintro ⟨t, ht, h⟩
      refine ⟨⟨t, ht⟩, fun t' ht' => ?_⟩
      obtain rfl := Option.some.inj (ht.symm.trans ht')
      exact (ih hrest (inRange_exec rfl ht hi)).mp h
    · rintro ⟨⟨t, ht⟩, h⟩
      exact ⟨t, ht, (ih hrest (inRange_exec rfl ht hi)).mpr (h t ht)⟩

/-- Data, an acknowledgement and a window probe in one datagram, and a `recv`. -/
theorem calls_return_iff_mixed :
    ∃ e, run (Endpoint.exec ⟨.dev, bytesMut⟩) (Endpoint.start 7 {}) [.update 10 none] = some e ∧
      Meets (Endpoint.exec ⟨.dev, bytesMut⟩) CallFits e
        [.input (encodes [{ conv := 7, cmd := kcpCmdPush, wnd := 32, data := [5, 6] },
          { conv := 7, cmd := kcpCmdAck, wnd := 32, ts := 4 }, { conv := 7, cmd := kcpCmdWask }]), .recv 8] := by
  have h : ((run (Endpoint.exec ⟨.dev, bytesMut⟩) (Endpoint.start 7 {}) [.update 10 none]).map fun e =>
      (run (Endpoint.exec ⟨.dev, bytesMut⟩) e
        [.input (encodes [{ conv := 7, cmd := kcpCmdPush, wnd := 32, data := [5, 6] },
          { conv := 7, cmd := kcpCmdAck, wnd := 32, ts := 4 }, { conv := 7, cmd := kcpCmdWask }]), .recv 8]).isSome) =
      some true := by decide +kernel
  obtain ⟨e, he, h⟩ := Option.map_eq_some_iff.mp h
  exact ⟨e, he, (calls_return_iff he (by simp [Op.Receives])).mp h⟩

/-- An acknowledgement with the time stamp `2 ^ 31` stops a fresh receiver in `input`; a fragment numbered 255 is taken
over, and stops it in the next `recv`. -/
theorem receiver_stops :
    (Endpoint.start 7 {}).exec ⟨.dev, bytesMut⟩ (.input (encodes [{ conv := 7, cmd := kcpCmdAck, ts := 0x80000000 }])) =
        none ∧
      ∃ e, (Endpoint.start 7 {}).exec ⟨.dev, bytesMut⟩
          (.input (encodes [{ conv := 7, cmd := kcpCmdPush, frg := 255, data := [1] }])) = some e ∧
        e.exec ⟨.dev, bytesMut⟩ (.recv 16) = none := by
  refine ⟨by decide +kernel, ?_⟩
  have h : ((Endpoint.start 7 {}).exec ⟨.dev, bytesMut⟩
      (.input (encodes [{ conv := 7, cmd := kcpCmdPush, frg := 255, data := [1] }]))).map
        (fun e => e.exec ⟨.dev, bytesMut⟩ (.recv 16)) = some none := by decide +kernel
  exact Option.map_eq_some_iff.mp h

end NetProtocols.Kcp
