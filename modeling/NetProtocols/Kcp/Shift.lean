import Mathlib.Data.List.InsertIdx
import NetProtocols.Lib.Serial
import NetProtocols.Kcp.Reading

/-!
# NetProtocols.Kcp.Shift — `input` on shifted sequence numbers

`kcb.rs` compares times by `timediff`, on the circle, and sequence numbers by `<` and `>=`, on the line.  Here every
sequence number of a control block and of a datagram is shifted by `δ` modulo `2 ^ 32`.

* `Kcb.shift`, `Scan.shift`, `Segment.Shifts`: the shifted control block, segment loop and segment.
* `unaPairs`, `ackPairs`, `pushPairs`, `fastackPairs`, `Scan.pairs`, `finishPairs`: the pairs of sequence numbers that
  each function compares.
* `handle_shift`: the handling of a segment commutes with the shift when these comparisons survive it.

The module `Steady` has the same over a whole datagram.
-/

namespace NetProtocols.Kcp

open Kcb Scan

/-! ### Shifted states -/

/-- A segment with its two sequence numbers shifted. -/
def Segment.shift (δ : UInt32) (s : Segment) : Segment := { s with sn := s.sn + δ, una := s.una + δ }

/-- A shifted entry of `acklist`. -/
def shiftAck (δ : UInt32) (ack : UInt32 × UInt32) : UInt32 × UInt32 := (ack.1 + δ, ack.2)

/-- `s'` is `s` shifted.  Window probes are sent with whatever number the scratch segment of `flush` has, and nothing
reads it. -/
def Segment.Shifts (δ : UInt32) (s s' : Segment) : Prop :=
  s' = { s with sn := s'.sn, una := s.una + δ } ∧ (s.cmd = kcpCmdPush ∨ s.cmd = kcpCmdAck → s'.sn = s.sn + δ)

instance (δ : UInt32) (s s' : Segment) : Decidable (s.Shifts δ s') := inferInstanceAs (Decidable (_ ∧ _))

@[simp] theorem Segment.sn_shift (δ : UInt32) (s : Segment) : (s.shift δ).sn = s.sn + δ := rfl

theorem Segment.shifts_shift (δ : UInt32) (s : Segment) : s.Shifts δ (s.shift δ) := ⟨rfl, fun _ => rfl⟩

namespace Kcb

/-- The control block with every sequence number shifted, and `buf` for the bytes of `buffer`. -/
def shift (δ : UInt32) (buf : List UInt8) (k : Kcb) : Kcb :=
  { k with
    sndUna := k.sndUna + δ
    sndNxt := k.sndNxt + δ
    rcvNxt := k.rcvNxt + δ
    rcvQueue := k.rcvQueue.map (Segment.shift δ)
    sndBuf := k.sndBuf.map (Segment.shift δ)
    rcvBuf := k.rcvBuf.map (Segment.shift δ)
    acklist := k.acklist.map (shiftAck δ)
    buffer := buf }

/-! ### What is compared -/

/-- The counting loop of `parse_una`. -/
def unaPairs (una : UInt32) : List Segment → List (UInt32 × UInt32)
  | [] => []
  | seg :: rest => (seg.sn, una) :: if seg.sn < una then unaPairs una rest else []

/-- The guard of `parse_ack` and `parse_fastack`, in front of what is compared behind it. -/
def guardPairs (k : Kcb) (sn : UInt32) (inside : List (UInt32 × UInt32)) : List (UInt32 × UInt32) :=
  (sn, k.sndUna) :: if sn < k.sndUna then [] else (k.sndNxt, sn) :: if k.sndNxt ≤ sn then [] else inside

/-- The scan of `parse_ack`. -/
def removePairs (sn : UInt32) : List Segment → List (UInt32 × UInt32)
  | [] => []
  | seg :: rest => if sn = seg.sn then [] else (sn, seg.sn) :: if sn < seg.sn then [] else removePairs sn rest

/-- `parse_ack`. -/
def ackPairs (k : Kcb) (sn : UInt32) : List (UInt32 × UInt32) := k.guardPairs sn (removePairs sn k.sndBuf)

/-- The loop of `parse_fastack`. -/
def bumpPairs (sn : UInt32) : List Segment → List (UInt32 × UInt32)
  | [] => []
  | seg :: rest => (sn, seg.sn) :: if sn < seg.sn then [] else bumpPairs sn rest

/-- `parse_fastack`. -/
def fastackPairs (k : Kcb) (sn : UInt32) : List (UInt32 × UInt32) := k.guardPairs sn (bumpPairs sn k.sndBuf)

/-- The reverse scan of `parse_data`. -/
def scanPairs (sn : UInt32) : List Segment → List (UInt32 × UInt32)
  | [] => []
  | seg :: rest => if sn = seg.sn then [] else (seg.sn, sn) :: if seg.sn < sn then [] else scanPairs sn rest

/-- The PUSH branch of `input`; the comparisons with the window's ends are made again in `parse_data`. -/
def pushPairs (k : Kcb) (sn : UInt32) : List (UInt32 × UInt32) :=
  (sn, k.rcvNxt + k.rcvWnd) ::
    if sn < k.rcvNxt + k.rcvWnd then
      (k.rcvNxt, sn) :: if k.rcvNxt ≤ sn then scanPairs sn k.rcvBuf.reverse else []
    else []

end Kcb

namespace Scan

/-- The segment loop on shifted numbers; `maxack` is a sequence number once `flag` is set. -/
def shift (δ : UInt32) (buf : List UInt8) (s : Scan) : Scan where
  kcb := s.kcb.shift δ buf
  flag := s.flag
  maxack := if s.flag then s.maxack + δ else s.maxack
  buf := s.buf

/-- What the loop body compares. -/
def pairs (s : Scan) (h : Header) : List (UInt32 × UInt32) :=
  unaPairs h.una s.kcb.sndBuf ++
    if h.cmd = kcpCmdAck then
      (s.kcb.onHeader h).ackPairs h.sn ++ if s.flag then [(s.maxack, h.sn)] else []
    else if h.cmd = kcpCmdPush then (s.kcb.onHeader h).pushPairs h.sn
    else []

/-- What is compared after the segment loop; `snd_una > old_una` matters only below the remote window. -/
def finishPairs (s : Scan) (oldUna : UInt32) : List (UInt32 × UInt32) :=
  (if s.flag then s.kcb.fastackPairs s.maxack else []) ++
    if s.kcb.cwnd < s.kcb.rmtWnd then [(oldUna, s.kcb.sndUna)] else []

end Scan

/-! ### The helpers of `input` -/

section Helpers

variable {δ : UInt32} {w : List UInt8} {k : Kcb}

theorem countBelow_shift {una : UInt32} {l : List Segment} (h : Level δ (unaPairs una l)) :
    countBelow (una + δ) (l.map (Segment.shift δ)) = countBelow una l := by
  induction l with
  | nil => rfl
  | cons seg l ih =>
    obtain ⟨hlap, h⟩ := level_cons.mp h
    rw [List.map_cons]
    unfold countBelow
    rw [Segment.sn_shift]
    by_cases hlt : seg.sn < una
    · rw [if_pos hlt] at h
      rw [if_pos hlt, if_pos (hlap.add_lt_add.mpr hlt), ih h]
    · rw [if_neg hlt, if_neg fun hn => hlt (hlap.add_lt_add.mp hn)]

theorem parseUna_shift {una : UInt32} (h : Level δ (unaPairs una k.sndBuf)) :
    (k.shift δ w).parseUna (una + δ) = (k.parseUna una).shift δ w := by
  have hcount : countBelow (una + δ) (k.shift δ w).sndBuf = countBelow una k.sndBuf := countBelow_shift h
  unfold parseUna
  rw [hcount]
  show _ = ({ k with sndBuf := k.sndBuf.drop _ } : Kcb).shift δ w
  unfold Kcb.shift
  simp only [List.map_drop]

theorem shrinkBuf_shift (k : Kcb) : (k.shift δ w).shrinkBuf = k.shrinkBuf.shift δ w := by
  unfold shrinkBuf Kcb.shift
  cases k.sndBuf <;> rfl

theorem removeSn_shift {sn : UInt32} {l : List Segment} (h : Level δ (removePairs sn l)) :
    removeSn (sn + δ) (l.map (Segment.shift δ)) = (removeSn sn l).map (Segment.shift δ) := by
  induction l with
  | nil => rfl
  | cons seg l ih =>
    rw [List.map_cons]
    unfold removeSn
    unfold removePairs at h
    have heq : sn + δ = seg.sn + δ ↔ sn = seg.sn := UInt32.add_left_inj δ
    rw [Segment.sn_shift]
    by_cases hsn : sn = seg.sn
    · rw [if_pos hsn, if_pos (heq.mpr hsn)]
    · rw [if_neg hsn] at h
      obtain ⟨hlap, h⟩ := level_cons.mp h
      rw [if_neg hsn, if_neg (mt heq.mp hsn)]
      by_cases hlt : sn < seg.sn
      · rw [if_pos hlt, if_pos (hlap.add_lt_add.mpr hlt), List.map_cons]
      · rw [if_neg hlt] at h
        rw [if_neg hlt, if_neg fun hn => hlt (hlap.add_lt_add.mp hn), ih h, List.map_cons]

/-- The guard commutes, and what it lets through is compared behind it. -/
theorem guard_shift {sn : UInt32} {inside : List (UInt32 × UInt32)} (h : Level δ (k.guardPairs sn inside)) :
    (sn + δ < (k.shift δ w).sndUna ∨ (k.shift δ w).sndNxt ≤ sn + δ ↔ sn < k.sndUna ∨ k.sndNxt ≤ sn) ∧
      (¬ (sn < k.sndUna ∨ k.sndNxt ≤ sn) → Level δ inside) := by
  show (sn + δ < k.sndUna + δ ∨ k.sndNxt + δ ≤ sn + δ ↔ _) ∧ _
  unfold guardPairs at h
  obtain ⟨hlap, h⟩ := level_cons.mp h
  rw [hlap.add_lt_add]
  by_cases hlt : sn < k.sndUna
  · exact ⟨by simp [hlt], fun hn => absurd (Or.inl hlt) hn⟩
  · rw [if_neg hlt] at h
    obtain ⟨hlap', h⟩ := level_cons.mp h
    rw [hlap'.add_le_add]
    refine ⟨Iff.rfl, fun hn => ?_⟩
    rwa [if_neg fun hle => hn (Or.inr hle)] at h

theorem parseAck_shift {sn : UInt32} (h : Level δ (k.ackPairs sn)) :
    (k.shift δ w).parseAck (sn + δ) = (k.parseAck sn).shift δ w := by
  obtain ⟨hguard, h⟩ := guard_shift (w := w) h
  unfold parseAck
  by_cases hout : sn < k.sndUna ∨ k.sndNxt ≤ sn
  · rw [if_pos hout, if_pos (hguard.mpr hout)]
  · have hremove : removeSn (sn + δ) (k.shift δ w).sndBuf = (removeSn sn k.sndBuf).map (Segment.shift δ) :=
      removeSn_shift (h hout)
    rw [if_neg hout, if_neg (mt hguard.mp hout), hremove]
    rfl

theorem updateAck_shift (k : Kcb) (rtt : UInt32) :
    (k.shift δ w).updateAck .release rtt = (k.updateAck .release rtt).map (Kcb.shift δ w) := by
  unfold updateAck
  by_cases h0 : k.rxSrtt = 0
  · rw [if_pos h0, if_pos (show (k.shift δ w).rxSrtt = 0 from h0)]
    rfl
  · rw [if_neg h0, if_neg (show ¬ (k.shift δ w).rxSrtt = 0 from h0)]
    by_cases hlt : k.rxSrtt < rtt
    · rw [if_pos hlt, if_pos (show (k.shift δ w).rxSrtt < rtt from hlt)]
      rfl
    · rw [if_neg hlt, if_neg (show ¬ (k.shift δ w).rxSrtt < rtt from hlt)]
      rfl

theorem bumpFastack_shift {sn : UInt32} {l : List Segment} (h : Level δ (bumpPairs sn l)) :
    bumpFastack .release (sn + δ) (l.map (Segment.shift δ)) =
      (bumpFastack .release sn l).map (List.map (Segment.shift δ)) := by
  induction l with
  | nil => rfl
  | cons seg l ih =>
    obtain ⟨hlap, h⟩ := level_cons.mp h
    rw [List.map_cons]
    unfold bumpFastack
    rw [Segment.sn_shift]
    by_cases hlt : sn < seg.sn
    · rw [if_pos hlt, if_pos (hlap.add_lt_add.mpr hlt)]
      rfl
    · rw [if_neg hlt] at h
      have hne : sn + δ ≠ seg.sn + δ ↔ sn ≠ seg.sn := not_congr (UInt32.add_left_inj δ)
      rw [if_neg hlt, if_neg fun hn => hlt (hlap.add_lt_add.mp hn), ih h]
      simp only [hne]
      by_cases hsn : sn ≠ seg.sn
      · rw [if_pos hsn, if_pos hsn]
        cases bumpFastack .release sn l <;> rfl
      · rw [if_neg hsn, if_neg hsn]
        cases bumpFastack .release sn l <;> rfl

theorem parseFastack_shift {sn : UInt32} (h : Level δ (k.fastackPairs sn)) :
    (k.shift δ w).parseFastack .release (sn + δ) = (k.parseFastack .release sn).map (Kcb.shift δ w) := by
  obtain ⟨hguard, h⟩ := guard_shift (w := w) h
  unfold parseFastack
  by_cases hout : sn < k.sndUna ∨ k.sndNxt ≤ sn
  · rw [if_pos hout, if_pos (hguard.mpr hout)]
    rfl
  · have hbump : bumpFastack .release (sn + δ) (k.shift δ w).sndBuf =
        (bumpFastack .release sn k.sndBuf).map (List.map (Segment.shift δ)) := bumpFastack_shift (h hout)
    rw [if_neg hout, if_neg (mt hguard.mp hout), hbump]
    cases bumpFastack .release sn k.sndBuf <;> rfl

theorem scanBack_shift {sn : UInt32} {l : List Segment} (h : Level δ (scanPairs sn l)) (index : ℕ) :
    scanBack .release (sn + δ) (l.map (Segment.shift δ)) index = scanBack .release sn l index := by
  induction l generalizing index with
  | nil => rfl
  | cons seg l ih =>
    rw [List.map_cons]
    unfold scanBack
    unfold scanPairs at h
    have heq : sn + δ = seg.sn + δ ↔ sn = seg.sn := UInt32.add_left_inj δ
    rw [Segment.sn_shift]
    by_cases hsn : sn = seg.sn
    · rw [if_pos hsn, if_pos (heq.mpr hsn)]
    · rw [if_neg hsn] at h
      obtain ⟨hlap, h⟩ := level_cons.mp h
      rw [if_neg hsn, if_neg (mt heq.mp hsn)]
      by_cases hlt : seg.sn < sn
      · rw [if_pos hlt, if_pos (hlap.add_lt_add.mpr hlt)]
      · rw [if_neg hlt] at h
        rw [if_neg hlt, if_neg fun hn => hlt (hlap.add_lt_add.mp hn)]
        simp only [ih h]

/-- Moving segments into `rcv_queue` tests numbers for equality only. -/
theorem countReady_shift (wnd : ℕ) (l : List Segment) (nxt : UInt32) (q : ℕ) :
    countReady .release wnd (l.map (Segment.shift δ)) (nxt + δ) q =
      (countReady .release wnd l nxt q).map fun r => (r.1, r.2 + δ) := by
  induction l generalizing nxt q with
  | nil => rfl
  | cons seg l ih =>
    rw [List.map_cons]
    unfold countReady
    rw [Segment.sn_shift]
    have heq : seg.sn + δ = nxt + δ ↔ seg.sn = nxt := UInt32.add_left_inj δ
    simp only [heq]
    by_cases hready : seg.sn = nxt ∧ q < wnd
    · rw [if_pos hready, if_pos hready]
      simp only [Profile.add_release, Option.bind_eq_bind, Option.bind_some]
      rw [add_shift, ih]
      cases countReady .release wnd l (nxt + 1) (q + 1) <;> rfl
    · rw [if_neg hready, if_neg hready]
      rfl

theorem moveData_shift (k : Kcb) :
    moveData .release (k.shift δ w) = (moveData .release k).map (Kcb.shift δ w) := by
  have hready : countReady .release (k.shift δ w).rcvWnd.toNat (k.shift δ w).rcvBuf (k.shift δ w).rcvNxt
      (k.shift δ w).rcvQueue.length =
      (countReady .release k.rcvWnd.toNat k.rcvBuf k.rcvNxt k.rcvQueue.length).map fun r => (r.1, r.2 + δ) := by
    rw [show (k.shift δ w).rcvQueue.length = k.rcvQueue.length from List.length_map _]
    exact countReady_shift _ _ _ _
  unfold moveData
  rw [hready]
  cases countReady .release k.rcvWnd.toNat k.rcvBuf k.rcvNxt k.rcvQueue.length with
  | none => rfl
  | some r =>
    simp only [Option.map_some, Option.bind_eq_bind, Option.bind_some]
    unfold Kcb.shift
    simp only [List.map_append, List.map_take, List.map_drop]

theorem edge_shift (k : Kcb) :
    (k.shift δ w).rcvNxt + (k.shift δ w).rcvWnd = k.rcvNxt + k.rcvWnd + δ := add_shift _ _ _

theorem parseData_shift {seg : Segment} (h : Level δ (k.pushPairs seg.sn)) (h1 : k.rcvNxt ≤ seg.sn)
    (h2 : seg.sn < k.rcvNxt + k.rcvWnd) :
    (k.shift δ w).parseData .release (seg.shift δ) = (k.parseData .release seg).map (Kcb.shift δ w) := by
  unfold pushPairs at h
  rw [if_pos h2, if_pos h1] at h
  obtain ⟨hedge, h⟩ := level_cons.mp h
  obtain ⟨hnxt, h⟩ := level_cons.mp h
  have hin : ¬ (k.rcvNxt + k.rcvWnd ≤ seg.sn ∨ seg.sn < k.rcvNxt) := by
    rw [not_or, UInt32.not_le, UInt32.not_lt]
    exact ⟨h2, h1⟩
  have hin' : ¬ (k.rcvNxt + k.rcvWnd + δ ≤ seg.sn + δ ∨ seg.sn + δ < (k.shift δ w).rcvNxt) := by
    rw [not_or, UInt32.not_le, UInt32.not_lt]
    exact ⟨hedge.add_lt_add.mpr h2, hnxt.add_le_add.mpr h1⟩
  have hscan : scanBack .release (seg.sn + δ) (k.shift δ w).rcvBuf.reverse (k.shift δ w).rcvBuf.length =
      scanBack .release seg.sn k.rcvBuf.reverse k.rcvBuf.length := by
    rw [show (k.shift δ w).rcvBuf = k.rcvBuf.map (Segment.shift δ) from rfl, List.length_map, ← List.map_reverse]
    exact scanBack_shift h _
  unfold parseData
  simp only [Profile.add_release, Option.bind_eq_bind, Option.bind_some, edge_shift, Segment.sn_shift]
  rw [if_neg hin, if_neg hin', hscan]
  cases scanBack .release seg.sn k.rcvBuf.reverse k.rcvBuf.length with
  | none => rfl
  | some r =>
    obtain ⟨dup, index⟩ := r
    simp only [Option.bind_some]
    cases dup with
    | true => exact moveData_shift k
    | false =>
      have hlen : (k.shift δ w).rcvBuf.length = k.rcvBuf.length := List.length_map _
      have hinsert : ({ k.shift δ w with rcvBuf := (k.shift δ w).rcvBuf.insertIdx index (seg.shift δ) } : Kcb) =
          ({ k with rcvBuf := k.rcvBuf.insertIdx index seg } : Kcb).shift δ w := by
        rw [show (k.shift δ w).rcvBuf = k.rcvBuf.map (Segment.shift δ) from rfl, ← List.map_insertIdx]
        rfl
      simp only [hlen, hinsert, moveData_shift, Bool.false_eq_true, if_false]
      cases Profile.assert .release (index ≤ k.rcvBuf.length) <;> rfl

end Helpers

/-! ### One segment -/

section Handling

variable {δ : UInt32} {w : List UInt8}

theorem onHeader_shift {k : Kcb} {h : Header} (hl : Level δ (unaPairs h.una k.sndBuf)) (sn : UInt32) :
    (k.shift δ w).onHeader { h with sn := sn, una := h.una + δ } = (k.onHeader h).shift δ w := by
  have huna := parseUna_shift (k := { k with rmtWnd := h.wnd.toUInt32 }) (w := w) hl
  unfold onHeader
  rw [← shrinkBuf_shift, ← huna]
  rfl

/-- The ACK branch of a release build, from the control block `k` with the new round trip time. -/
theorem takeAck_of {s : Scan} {h : Header} {k : Kcb}
    (hk : (if 0 ≤ s.kcb.current.toInt32 - h.ts.toInt32
      then s.kcb.updateAck .release (s.kcb.current.toInt32 - h.ts.toInt32).toUInt32 else some s.kcb) = some k) :
    s.takeAck .release h =
      if !s.flag then some ⟨(k.parseAck h.sn).shrinkBuf, true, h.sn, s.buf⟩
      else some ⟨(k.parseAck h.sn).shrinkBuf, s.flag, if s.maxack < h.sn then h.sn else s.maxack, s.buf⟩ := by
  show Option.bind (ite _ _ _) _ = _
  rw [hk]
  rfl

theorem takeAck_shift {s : Scan} {h : Header} (una : UInt32)
    (hl : Level δ (s.kcb.ackPairs h.sn ++ if s.flag then [(s.maxack, h.sn)] else [])) :
    (s.shift δ w).takeAck .release { h with sn := h.sn + δ, una := una } =
      (s.takeAck .release h).map (Scan.shift δ w) := by
  obtain ⟨hack, hmax⟩ := level_append.mp hl
  obtain ⟨k, hk, hk', hpairs⟩ : ∃ k,
      (if 0 ≤ s.kcb.current.toInt32 - h.ts.toInt32
        then s.kcb.updateAck .release (s.kcb.current.toInt32 - h.ts.toInt32).toUInt32 else some s.kcb) = some k ∧
      (if 0 ≤ s.kcb.current.toInt32 - h.ts.toInt32
        then (s.kcb.shift δ w).updateAck .release (s.kcb.current.toInt32 - h.ts.toInt32).toUInt32
        else some (s.kcb.shift δ w)) = some (k.shift δ w) ∧
      k.ackPairs h.sn = s.kcb.ackPairs h.sn := by
    by_cases h0 : 0 ≤ s.kcb.current.toInt32 - h.ts.toInt32
    · simp only [if_pos h0]
      obtain ⟨k, hk⟩ := Option.isSome_iff_exists.mp
        (updateAck_release s.kcb (s.kcb.current.toInt32 - h.ts.toInt32).toUInt32)
      refine ⟨k, hk, by rw [updateAck_shift, hk, Option.map_some], ?_⟩
      obtain ⟨srtt, rttval, rto, rfl⟩ := updateAck_eq hk
      rfl
    · simp only [if_neg h0]
      exact ⟨s.kcb, rfl, rfl, rfl⟩
  have hend : ((k.shift δ w).parseAck (h.sn + δ)).shrinkBuf = ((k.parseAck h.sn).shrinkBuf).shift δ w := by
    rw [parseAck_shift (hpairs ▸ hack), shrinkBuf_shift]
  rw [takeAck_of hk, takeAck_of (s := s.shift δ w) (h := { h with sn := h.sn + δ, una := una }) hk', hend]
  cases hflag : s.flag with
  | false => simp [Scan.shift, hflag]
  | true =>
    rw [hflag, if_pos rfl] at hmax
    obtain ⟨hlap, -⟩ := level_cons.mp hmax
    simp only [Scan.shift, hflag, if_true, hlap.add_lt_add]
    split_ifs <;> rfl

theorem takePush_shift {s : Scan} {h : Header} (hl : Level δ (s.kcb.pushPairs h.sn)) :
    (s.shift δ w).takePush .release { h with sn := h.sn + δ, una := h.una + δ } =
      (s.takePush .release h).map (Scan.shift δ w) := by
  have hlap := (level_cons.mp hl).1
  have hedge : (s.shift δ w).kcb.rcvNxt + (s.shift δ w).kcb.rcvWnd = s.kcb.rcvNxt + s.kcb.rcvWnd + δ := edge_shift _
  unfold takePush
  simp only [Profile.add_release, Option.bind_eq_bind, Option.bind_some, hedge, hlap.add_lt_add]
  by_cases hin : h.sn < s.kcb.rcvNxt + s.kcb.rcvWnd
  · have hacks : (s.shift δ w).kcb.setAcklist ((s.shift δ w).kcb.acklist ++ [(h.sn + δ, h.ts)]) =
        (s.kcb.setAcklist (s.kcb.acklist ++ [(h.sn, h.ts)])).shift δ w := by
      unfold setAcklist Kcb.shift
      simp only [List.map_append]
      rfl
    have hnxt : SameLap δ s.kcb.rcvNxt h.sn := by
      unfold pushPairs at hl
      rw [if_pos hin] at hl
      exact (level_cons.mp (level_cons.mp hl).2).1
    have hle : ((s.kcb.setAcklist (s.kcb.acklist ++ [(h.sn, h.ts)])).shift δ w).rcvNxt ≤ h.sn + δ ↔
        (s.kcb.setAcklist (s.kcb.acklist ++ [(h.sn, h.ts)])).rcvNxt ≤ h.sn := hnxt.add_le_add
    rw [if_pos hin, if_pos hin]
    simp only [hacks, hle]
    by_cases hbelow : (s.kcb.setAcklist (s.kcb.acklist ++ [(h.sn, h.ts)])).rcvNxt ≤ h.sn
    · rw [if_pos hbelow, if_pos hbelow]
      have hparse := parseData_shift (k := s.kcb.setAcklist (s.kcb.acklist ++ [(h.sn, h.ts)])) (w := w)
        (show Level δ (Kcb.pushPairs _ (segmentOf h (s.buf.take h.len.toNat)).sn) from hl) hbelow hin
      show Option.bind (parseData .release _ ((segmentOf h (s.buf.take h.len.toNat)).shift δ)) _ = _
      rw [hparse]
      cases parseData .release (s.kcb.setAcklist (s.kcb.acklist ++ [(h.sn, h.ts)]))
        (segmentOf h (s.buf.take h.len.toNat)) <;> rfl
    · rw [if_neg hbelow, if_neg hbelow]
      rfl
  · rw [if_neg hin, if_neg hin]
    rfl

/-- The loop body, from the state `t` after what it does with every header. -/
theorem takeSegment_of {p : Profile} {s t : Scan} {h : Header} (ht : ({ s with kcb := s.kcb.onHeader h } : Scan) = t) :
    s.takeSegment p h =
      if h.cmd = kcpCmdAck then t.takeAck p h
      else if h.cmd = kcpCmdPush then t.takePush p h
      else if h.cmd = kcpCmdWask then some { t with kcb := { t.kcb with probe := t.kcb.probe ||| kcpAskTell } }
      else some t := by
  subst ht
  rfl

/-- **One segment**: its handling commutes with the shift when every comparison made survives it. -/
theorem handle_shift {s : Scan} {seg seg' : Segment} (hseg : seg.Shifts δ seg') (hl : Level δ (s.pairs seg.header)) :
    (s.shift δ w).handle .release seg' = (s.handle .release seg).map (Scan.shift δ w) := by
  obtain ⟨huna, hcmd⟩ := level_append.mp hl
  obtain ⟨heq, hsn⟩ := hseg
  have hhead : seg'.header = { seg.header with sn := seg'.sn, una := seg.una + δ } := by
    rw [heq]
    rfl
  have hdata : seg'.data = seg.data := by rw [heq]
  obtain ⟨t, ht⟩ : ∃ t : Scan, t = ⟨s.kcb.onHeader seg.header, s.flag, s.maxack, seg.data⟩ := ⟨_, rfl⟩
  have ht' : (⟨(s.shift δ w).kcb.onHeader seg'.header, (s.shift δ w).flag, (s.shift δ w).maxack, seg'.data⟩ : Scan) =
      t.shift δ w := by
    rw [hhead, hdata, ht, show (s.shift δ w).kcb = s.kcb.shift δ w from rfl,
      show ({ seg.header with sn := seg'.sn, una := seg.una + δ } : Header) =
        { seg.header with sn := seg'.sn, una := seg.header.una + δ } from rfl, onHeader_shift huna]
    rfl
  have hkcb : t.kcb = s.kcb.onHeader seg.header := by rw [ht]
  have hunshifted : s.handle .release seg = _ := takeSegment_of ht.symm
  have hshifted : (s.shift δ w).handle .release seg' = _ := takeSegment_of ht'
  rw [hunshifted, hshifted, hhead]
  by_cases ha : seg.header.cmd = kcpCmdAck
  · rw [if_pos ha] at hcmd ⊢
    rw [if_pos ha, hsn (Or.inr ha)]
    refine takeAck_shift _ ?_
    rw [ht]
    exact hcmd
  · rw [if_neg ha] at hcmd ⊢
    rw [if_neg ha]
    by_cases hp : seg.header.cmd = kcpCmdPush
    · rw [if_pos hp] at hcmd ⊢
      rw [if_pos hp, hsn (Or.inl hp)]
      exact takePush_shift (hkcb ▸ hcmd)
    · rw [if_neg hp, if_neg hp]
      by_cases hw : seg.header.cmd = kcpCmdWask
      · rw [if_pos hw, if_pos hw]
        rfl
      · rw [if_neg hw, if_neg hw]
        rfl

theorem avoidCongestion_shift (k : Kcb) (mss : UInt32) :
    (k.shift δ w).avoidCongestion .release mss = (k.avoidCongestion .release mss).map (Kcb.shift δ w) := by
  unfold avoidCongestion
  simp only [Profile.mul_release, Profile.add_release, Option.bind_eq_bind, Option.bind_some]
  show Option.bind (Profile.div .release (mss * mss) (if k.incr < mss then mss else k.incr)) _ = _
  cases Profile.div .release (mss * mss) (if k.incr < mss then mss else k.incr) <;> rfl

theorem growCwnd_shift {k : Kcb} {oldUna : UInt32}
    (hl : Level δ (if k.cwnd < k.rmtWnd then [(oldUna, k.sndUna)] else [])) :
    (k.shift δ w).growCwnd .release (oldUna + δ) = (k.growCwnd .release oldUna).map (Kcb.shift δ w) := by
  have hguard : oldUna + δ < (k.shift δ w).sndUna ∧ (k.shift δ w).cwnd < (k.shift δ w).rmtWnd ↔
      oldUna < k.sndUna ∧ k.cwnd < k.rmtWnd := by
    show oldUna + δ < k.sndUna + δ ∧ k.cwnd < k.rmtWnd ↔ _
    refine and_congr_left fun hw => ?_
    rw [if_pos hw] at hl
    exact (level_cons.mp hl).1.add_lt_add
  unfold growCwnd
  by_cases hg : oldUna < k.sndUna ∧ k.cwnd < k.rmtWnd
  · rw [if_pos hg, if_pos (hguard.mpr hg)]
    have hgrow : (if (k.shift δ w).cwnd < (k.shift δ w).ssthresh
        then (k.shift δ w).slowStart .release (UInt32.ofNat (k.shift δ w).mss)
        else (k.shift δ w).avoidCongestion .release (UInt32.ofNat (k.shift δ w).mss)) =
        (if k.cwnd < k.ssthresh then k.slowStart .release (UInt32.ofNat k.mss)
          else k.avoidCongestion .release (UInt32.ofNat k.mss)).map (Kcb.shift δ w) := by
      by_cases hlt : k.cwnd < k.ssthresh
      · rw [if_pos hlt, if_pos (show (k.shift δ w).cwnd < (k.shift δ w).ssthresh from hlt)]
        rfl
      · rw [if_neg hlt, if_neg (show ¬ (k.shift δ w).cwnd < (k.shift δ w).ssthresh from hlt)]
        exact avoidCongestion_shift k _
    show Option.bind _ _ = Option.map _ (Option.bind _ _)
    rw [hgrow]
    cases (if k.cwnd < k.ssthresh then k.slowStart .release (UInt32.ofNat k.mss)
      else k.avoidCongestion .release (UInt32.ofNat k.mss)) with
    | none => rfl
    | some k1 =>
      by_cases hcap : k1.rmtWnd < k1.cwnd
      · simp only [Option.map_some, Option.bind_some, if_pos hcap,
          if_pos (show (k1.shift δ w).rmtWnd < (k1.shift δ w).cwnd from hcap)]
        rfl
      · simp only [Option.map_some, Option.bind_some, if_neg hcap,
          if_neg (show ¬ (k1.shift δ w).rmtWnd < (k1.shift δ w).cwnd from hcap)]
  · rw [if_neg hg, if_neg (mt hguard.mp hg)]
    rfl

theorem finishInput_shift {s : Scan} {oldUna : UInt32} (hl : Level δ (s.finishPairs oldUna)) (rest : List UInt8) :
    finishInput .release { s.shift δ w with buf := rest } (oldUna + δ) =
      (finishInput .release s oldUna).map (Kcb.shift δ w) := by
  obtain ⟨hfast, hgrow⟩ := level_append.mp hl
  unfold finishInput
  cases hflag : s.flag with
  | false =>
    simp only [Scan.shift, hflag, Bool.false_eq_true, if_false, Option.bind_eq_bind, Option.bind_some]
    exact growCwnd_shift hgrow
  | true =>
    rw [hflag, if_pos rfl] at hfast
    simp only [Scan.shift, hflag, if_true, Option.bind_eq_bind]
    rw [parseFastack_shift hfast]
    cases hk : s.kcb.parseFastack .release s.maxack with
    | none => rfl
    | some k =>
      obtain ⟨l, -, rfl⟩ := parseFastack_eq hk
      exact growCwnd_shift hgrow

end Handling

end NetProtocols.Kcp
