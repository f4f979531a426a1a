import NetProtocols.Lib.Framing
import NetProtocols.Kcp.RecvInv

/-!
# NetProtocols.Kcp.Fragments — cutting messages up and putting them together

In message mode `send` cuts a buffer into segments that count down to `frg = 0`, and `recv` puts the segments up to
the first `frg = 0` together again.

* `cut`: the segments of one message; `frame_cut`, `data_cut`: they are a frame, and carry the bytes of the message.
* `Kcb.room`: in stream mode the last queued segment is filled up first; `send_cases`: the ways in which `send` ends.
* `send_whole`: what `send` does in message mode.
* `headMessage_of_prefix`: `recv` finds the first message of the stream, once it is whole.
-/

namespace NetProtocols.Kcp

/-- The bytes that the last segment of the queue can still take. -/
def spare (mss : ℕ) (queue : List Segment) : ℕ :=
  match queue.getLast? with
  | none => 0
  | some seg => mss - seg.data.length

/-- The segments of the queue hold between one and `mss` bytes. -/
def Filled (mss : ℕ) (queue : List Segment) : Prop := ∀ s ∈ queue, 1 ≤ s.data.length ∧ s.data.length ≤ mss

/-- What a segment carries: its place in the message and its bytes. -/
def Segment.piece (s : Segment) : UInt8 × List UInt8 := (s.frg, s.data)

/-- How many pieces of the message follow. -/
def follow (x : UInt8 × List UInt8) : ℕ := x.1.toNat

namespace Kcb

variable {p : Profile} {k k' : Kcb}

/-! ### Cutting -/

/-- The segments that `send` cuts a message into, in message mode. -/
def cut (mss : ℕ) (buf : List UInt8) : List Segment := (fragments mss false (fragCount mss buf.length) buf).1

theorem length_fragments (mss n : ℕ) (buf : List UInt8) : (fragments mss false n buf).1.length = n := by
  induction n generalizing buf with
  | zero => rfl
  | succ n ih => simp [fragments, ih]

theorem frg_fragments {n : ℕ} (hn : n ≤ 256) (mss : ℕ) (buf : List UInt8) :
    (fragments mss false n buf).1.map (fun s => s.frg.toNat) = countdown n := by
  induction n generalizing buf with
  | zero => rfl
  | succ n ih =>
    have h : (UInt8.ofNat n).toNat = n := by
      rw [UInt8.toNat_ofNat']
      exact Nat.mod_eq_of_lt (by omega)
    simp only [fragments, countdown, List.map_cons, ih (by omega), Bool.false_eq_true, if_false, h]

/-- The fragments carry the first bytes of the buffer, in order. -/
theorem data_fragments (mss : ℕ) (stream : Bool) (n : ℕ) (buf : List UInt8) :
    (fragments mss stream n buf).1.flatMap Segment.data = buf.take (n * mss) := by
  induction n generalizing buf with
  | zero => simp [fragments]
  | succ n ih =>
    simp only [fragments, List.flatMap_cons, ih]
    rcases Nat.le_total mss buf.length with h | h
    · rw [Nat.min_eq_left h, Nat.succ_mul, Nat.add_comm, List.take_add]
    · rw [Nat.min_eq_right h, List.drop_length, List.take_nil, List.append_nil, List.take_length,
        List.take_of_length_le (by rw [Nat.succ_mul]; omega)]

theorem rest_fragments (mss : ℕ) (stream : Bool) (n : ℕ) (buf : List UInt8) :
    (fragments mss stream n buf).2 = buf.drop (n * mss) := by
  induction n generalizing buf with
  | zero => simp [fragments]
  | succ n ih =>
    simp only [fragments, ih, List.drop_drop]
    rcases Nat.le_total mss buf.length with hle | hle
    · rw [Nat.min_eq_left hle, Nat.succ_mul, Nat.add_comm]
    · rw [Nat.min_eq_right hle, List.drop_eq_nil_of_le (by omega), List.drop_eq_nil_of_le]
      rw [Nat.succ_mul]
      omega

theorem length_data_fragments {mss n : ℕ} {stream : Bool} {buf : List UInt8} {s : Segment}
    (hs : s ∈ (fragments mss stream n buf).1) : s.data.length ≤ mss := by
  induction n generalizing buf with
  | zero => simp [fragments] at hs
  | succ n ih =>
    simp only [fragments, List.mem_cons] at hs
    rcases hs with rfl | hs
    · simp only [List.length_take]
      omega
    · exact ih hs

theorem le_fragCount {mss : ℕ} (hmss : 0 < mss) (n : ℕ) : n ≤ fragCount mss n * mss := by
  unfold fragCount
  split_ifs with h
  · omega
  · have h1 := Nat.div_add_mod (n + mss - 1) mss
    have h2 := Nat.mod_lt (n + mss - 1) hmss
    rw [Nat.mul_comm] at h1
    omega

theorem fragCount_pos {mss n : ℕ} (hmss : 0 < mss) : 0 < fragCount mss n := by
  unfold fragCount
  split_ifs with h
  · exact Nat.one_pos
  · exact Nat.div_pos (by omega) hmss

/-- A window of `w` segments is enough exactly for messages of its size in bytes. -/
theorem fragCount_le_iff {mss w n : ℕ} (hmss : 0 < mss) (hw : 0 < w) : fragCount mss n ≤ w ↔ n ≤ w * mss := by
  unfold fragCount
  split_ifs with h
  · exact iff_of_true hw (h.trans (Nat.le_mul_of_pos_left mss hw))
  · rw [← Nat.lt_succ_iff, Nat.div_lt_iff_lt_mul hmss, Nat.succ_mul]
    omega

theorem length_cut (mss : ℕ) (buf : List UInt8) : (cut mss buf).length = fragCount mss buf.length :=
  length_fragments _ _ _

theorem data_cut {mss : ℕ} (hmss : 0 < mss) (buf : List UInt8) : (cut mss buf).flatMap Segment.data = buf := by
  rw [cut, data_fragments, List.take_of_length_le (le_fragCount hmss _)]

theorem frame_cut {mss : ℕ} {buf : List UInt8} (hmss : 0 < mss) (hn : fragCount mss buf.length ≤ 255) :
    Frame follow ((cut mss buf).map Segment.piece) := by
  refine ⟨?_, ?_⟩
  · rw [ne_eq, List.map_eq_nil_iff, ← List.length_eq_zero_iff, length_cut]
    exact (fragCount_pos hmss).ne'
  · rw [List.length_map, length_cut, List.map_map]
    exact frg_fragments (by omega) _ _

/-! ### `send` -/

variable {buf : List UInt8} {r : Except IoError ℕ}

/-- The bytes that `send` puts into the last queued segment at most: none in message mode. -/
def room (k : Kcb) : ℕ := if k.stream then spare k.mss k.sndQueue else 0

/-- The queue after the streaming part of `send`. -/
def toppedUp (k : Kcb) (buf : List UInt8) : List Segment :=
  if k.stream then (appendLast k.mss k.sndQueue buf).1 else k.sndQueue

/-- Filling up takes as many bytes as there is room for. -/
theorem appendLast_eq (mss : ℕ) (queue : List Segment) (buf : List UInt8) :
    (appendLast mss queue buf).2 = buf.drop (spare mss queue) ∧
      (appendLast mss queue buf).1.flatMap Segment.data =
        queue.flatMap Segment.data ++ buf.take (spare mss queue) ∧
      (Filled mss queue → Filled mss (appendLast mss queue buf).1) ∧
      (spare mss queue = 0 → (appendLast mss queue buf).1 = queue) := by
  unfold appendLast spare
  cases hlast : queue.getLast? with
  | none => exact ⟨rfl, (List.append_nil _).symm, id, fun _ => rfl⟩
  | some seg =>
    dsimp only
    obtain ⟨front, rfl⟩ := List.getLast?_eq_some_iff.mp hlast
    by_cases hl : seg.data.length < mss
    · have hmin : min (seg.data.length + buf.length) mss - seg.data.length =
          min (mss - seg.data.length) buf.length := by
        omega
      rw [if_pos hl, hmin, List.dropLast_concat, ← List.take_eq_take_min, ← List.drop_eq_drop_min]
      refine ⟨rfl, ?_, fun h s hs => ?_, fun h => by omega⟩
      · simp only [List.flatMap_append, List.flatMap_singleton, List.append_assoc]
      · rcases List.mem_append.mp hs with hs | hs
        · exact h s (List.mem_append_left _ hs)
        · obtain rfl := List.mem_singleton.mp hs
          have hseg := h seg (List.mem_append_right _ (List.mem_singleton_self _))
          have hlen := List.length_take_le (mss - seg.data.length) buf
          simp only [List.length_append]
          omega
    · rw [if_neg hl, Nat.sub_eq_zero_of_le (Nat.le_of_not_lt hl)]
      exact ⟨rfl, (List.append_nil _).symm, id, fun _ => rfl⟩

theorem toppedUp_of_no_room (h : k.room = 0) (buf : List UInt8) : k.toppedUp buf = k.sndQueue := by
  unfold toppedUp room at *
  split_ifs at h ⊢
  · exact (appendLast_eq k.mss k.sndQueue buf).2.2.2 h
  · rfl

/-- How `send` of a buffer ends: the last segment takes it whole; what is left of it is too long; or what is left of it
is cut into segments. -/
theorem send_cases (hbuf : buf ≠ []) (h : k.send p buf = some (r, k')) :
    (buf.length ≤ k.room ∧ r = .ok 1 ∧ k' = k.setSndQueue (k.toppedUp buf)) ∨
      (k.room + 255 * k.mss < buf.length ∧ r = .error ⟨.invalidInput, "data too long"⟩ ∧
        k' = k.setSndQueue (k.toppedUp buf)) ∨
      (k.room < buf.length ∧ buf.length ≤ k.room + 255 * k.mss ∧ 0 < k.mss ∧ r = .ok buf.length ∧
        k' = k.setSndQueue (k.toppedUp buf ++
          (fragments k.mss k.stream (fragCount k.mss (buf.drop k.room).length) (buf.drop k.room)).1)) := by
  have hpair : (if k.stream then appendLast k.mss k.sndQueue buf else (k.sndQueue, buf)) =
      (k.toppedUp buf, buf.drop k.room) := by
    unfold toppedUp room
    split_ifs
    · exact Prod.ext rfl (appendLast_eq k.mss k.sndQueue buf).1
    · rfl
  unfold send at h
  rw [if_neg hbuf, hpair] at h
  dsimp only at h
  by_cases hrest : buf.drop k.room = []
  · rw [if_pos hrest] at h
    simp only [Option.some.injEq, Prod.mk.injEq] at h
    obtain ⟨rfl, rfl⟩ := h
    exact Or.inl ⟨List.drop_eq_nil_iff.mp hrest, rfl, rfl⟩
  have hroom : k.room < buf.length := Nat.lt_of_not_le fun hle => hrest (List.drop_eq_nil_of_le hle)
  rw [if_neg hrest] at h
  by_cases hz : (k.setSndQueue (k.toppedUp buf)).mss = 0
  · rw [if_pos hz] at h
    cases h
  rw [if_neg hz] at h
  have hmss : 0 < k.mss := Nat.pos_of_ne_zero hz
  have hcount : fragCount k.mss (buf.drop k.room).length ≤ 255 ↔ buf.length ≤ k.room + 255 * k.mss := by
    rw [fragCount_le_iff hmss (by decide), List.length_drop]
    omega
  by_cases hc : 255 < fragCount k.mss (buf.drop k.room).length
  · rw [if_pos (show 255 < fragCount (k.setSndQueue (k.toppedUp buf)).mss (buf.drop k.room).length from hc)] at h
    simp only [Option.some.injEq, Prod.mk.injEq] at h
    obtain ⟨rfl, rfl⟩ := h
    exact Or.inr (Or.inl ⟨by omega, rfl, rfl⟩)
  · rw [if_neg (show ¬ 255 < fragCount (k.setSndQueue (k.toppedUp buf)).mss (buf.drop k.room).length from hc)] at h
    simp only [Option.bind_eq_bind, Option.bind_eq_some_iff, Option.some.injEq, Prod.mk.injEq] at h
    obtain ⟨u, -, hr, rfl⟩ := h
    -- the fragments are enough for what is left
    have hnone : (fragments k.mss k.stream (fragCount k.mss (buf.drop k.room).length) (buf.drop k.room)).2 = [] := by
      rw [rest_fragments]
      exact List.drop_eq_nil_of_le (le_fragCount hmss _)
    refine Or.inr (Or.inr ⟨hroom, hcount.mp (by omega), hmss, ?_, rfl⟩)
    rw [← hr]
    exact congrArg (fun l : List UInt8 => Except.ok (buf.length - l.length)) hnone

/-- What `send` accepts in message mode. -/
def Sendable (mss : ℕ) (buf : List UInt8) : Prop := buf ≠ [] ∧ fragCount mss buf.length ≤ 255

/-- **`send` in message mode**: a buffer is refused and nothing changes, or it is taken whole and the segments it is cut
into are queued. -/
theorem send_whole (hstream : k.stream = false) (hmss : 0 < k.mss) (h : k.send p buf = some (r, k')) :
    (¬ Sendable k.mss buf ∧ (∃ e, r = .error e) ∧ k' = k) ∨
      (Sendable k.mss buf ∧ r = .ok buf.length ∧ k' = k.setSndQueue (k.sndQueue ++ cut k.mss buf)) := by
  by_cases hbuf : buf = []
  · unfold send at h
    rw [if_pos hbuf] at h
    simp only [Option.some.injEq, Prod.mk.injEq] at h
    exact Or.inl ⟨fun hs => hs.1 hbuf, ⟨_, h.1.symm⟩, h.2.symm⟩
  have hroom : k.room = 0 := by simp [room, hstream]
  have htop : k.toppedUp buf = k.sndQueue := toppedUp_of_no_room hroom buf
  have hfew : fragCount k.mss buf.length ≤ 255 ↔ buf.length ≤ 255 * k.mss := fragCount_le_iff hmss (by decide)
  rcases send_cases hbuf h with ⟨hle, -, -⟩ | ⟨hlong, hr, hk⟩ | ⟨-, hle, -, hr, hk⟩
  · rw [hroom, Nat.le_zero, List.length_eq_zero_iff] at hle
    exact absurd hle hbuf
  · rw [htop] at hk
    exact Or.inl ⟨fun hs => absurd (hfew.mp hs.2) (by omega), ⟨_, hr⟩, hk⟩
  · rw [htop, hroom, List.drop_zero, hstream] at hk
    exact Or.inr ⟨⟨hbuf, hfew.mpr (by omega)⟩, hr, hk⟩

theorem send_message (hstream : k.stream = false) (hmss : 0 < k.mss)
    (h : k.send p buf = some (r, k')) :
    (∃ e, r = .error e ∧ k' = k) ∨
      (∃ n, r = .ok n ∧ Sendable k.mss buf ∧ k' = k.setSndQueue (k.sndQueue ++ cut k.mss buf)) := by
  rcases send_whole hstream hmss h with ⟨-, ⟨e, he⟩, hk⟩ | ⟨hs, hr, hk⟩
  · exact Or.inl ⟨e, he, hk⟩
  · exact Or.inr ⟨_, hr, hs, hk⟩

/-- `send` takes what it can, in message mode. -/
theorem send_sendable {buf : List UInt8} (hstream : k.stream = false) (hmss : 0 < k.mss) (hs : Sendable k.mss buf) :
    k.send p buf = some (.ok buf.length, k.setSndQueue (k.sndQueue ++ cut k.mss buf)) := by
  have hsome : (k.send p buf).isSome := by
    unfold send
    rw [if_neg hs.1, hstream]
    simp only [Bool.false_eq_true, if_false, if_neg hs.1]
    rw [if_neg (show (k.setSndQueue k.sndQueue).mss ≠ 0 from hmss.ne'),
      if_neg (show ¬ 255 < fragCount (k.setSndQueue k.sndQueue).mss buf.length from Nat.not_lt.mpr hs.2),
      Profile.assert_of (show 0 < fragCount (k.setSndQueue k.sndQueue).mss buf.length from fragCount_pos hmss)]
    rfl
  obtain ⟨⟨r, k'⟩, h⟩ := Option.isSome_iff_exists.mp hsome
  rcases send_whole hstream hmss h with ⟨hn, -⟩ | ⟨-, rfl, rfl⟩
  · exact absurd hs hn
  · exact h

/-! ### Putting together -/

theorem headMessage_eq (l : List Segment) : headMessage l = headFrame (fun s => s.frg.toNat) l := by
  induction l with
  | nil => rfl
  | cons a l ih =>
    have hz : a.frg = 0 ↔ a.frg.toNat = 0 := UInt8.toNat_inj.symm
    simp only [headMessage, headFrame, ih, hz]

theorem data_pieces (l : List Segment) : l.flatMap Segment.data = (l.map Segment.piece).flatMap Prod.snd := by
  rw [List.flatMap_map]
  rfl

/-- The first piece of a stream of messages counts down from 254 at most. -/
theorem follow_lt_of_prefix {mss : ℕ} (hmss : 0 < mss) {msgs : List (List UInt8)} {a : UInt8 × List UInt8}
    {q : List (UInt8 × List UInt8)} (hm : ∀ m ∈ msgs, Sendable mss m)
    (hq : (a :: q) <+: (msgs.map fun m => (cut mss m).map Segment.piece).flatten) : follow a < 255 := by
  cases msgs with
  | nil => simp at hq
  | cons m rest =>
    have hc := (hm m (by simp)).2
    have hframe := frame_cut hmss hc
    rw [List.map_cons, List.flatten_cons] at hq
    cases hcut : (cut mss m).map Segment.piece with
    | nil => exact absurd hcut hframe.1
    | cons b l =>
      rw [hcut] at hframe hq
      obtain ⟨t, ht⟩ := hq
      obtain ⟨rfl, -⟩ := List.cons.inj ht
      have hlen := hframe.length_eq
      rw [← hcut, List.length_map, length_cut] at hlen
      omega

/-- **`recv` finds the first message of the stream**, when the queue passes the test of `peeksize`. -/
theorem headMessage_of_prefix {mss : ℕ} (hmss : 0 < mss) {msgs : List (List UInt8)} {q : List Segment}
    (hm : ∀ m ∈ msgs, Sendable mss m)
    (hq : q.map Segment.piece <+: (msgs.map fun m => (cut mss m).map Segment.piece).flatten) (hw : Whole q) :
    ∃ m rest, msgs = m :: rest ∧ (headMessage q).map Segment.piece = (cut mss m).map Segment.piece ∧
      (headMessage q).flatMap Segment.data = m := by
  obtain ⟨seg, l, rfl, hw⟩ := hw
  have hframes : ∀ f ∈ msgs.map (fun m => (cut mss m).map Segment.piece), Frame follow f := by
    intro f hf
    obtain ⟨m, hm', rfl⟩ := List.mem_map.mp hf
    exact frame_cut hmss (hm m hm').2
  -- the test of `peeksize`: `frg + 1` does not wrap
  have hlen : follow seg.piece + 1 ≤ (seg.piece :: l.map Segment.piece).length := by
    have hlt := follow_lt_of_prefix hmss hm hq
    simp only [follow, Segment.piece, List.length_cons, List.length_map] at hlt ⊢
    rcases hw with h0 | hw
    · rw [h0]
      simp
    · rw [UInt8.toNat_add] at hw
      have h1 : (1 : UInt8).toNat = 1 := rfl
      simp only [List.length_cons] at hw
      omega
  obtain ⟨f, rest, hfr, hhead⟩ := headFrame_of_prefix hframes hq hlen
  cases msgs with
  | nil => simp at hfr
  | cons m msgs =>
    obtain ⟨rfl, -⟩ := List.cons.inj hfr
    have hpieces : (headMessage (seg :: l)).map Segment.piece = (cut mss m).map Segment.piece := by
      rw [headMessage_eq]
      exact (headFrame_map Segment.piece (seg :: l)).symm.trans hhead
    refine ⟨m, msgs, rfl, hpieces, ?_⟩
    rw [data_pieces, hpieces, ← data_pieces, data_cut hmss]

end Kcb

end NetProtocols.Kcp
