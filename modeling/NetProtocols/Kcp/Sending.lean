import NetProtocols.Kcp.Fragments

/-!
# NetProtocols.Kcp.Sending — what `send` answers for

Each way in which `send` ends, in message mode and in stream mode, against what its caller goes by.

* `data_toppedUp`, `filled_toppedUp`: what filling up the last queued segment does to the queue.
* `Accounted`: every byte is queued and counted, or nothing has changed.
* `send_accounted_iff`: when `send` is accounted for.
-/

namespace NetProtocols.Kcp

namespace Kcb

variable {p : Profile} {k k' : Kcb} {buf : List UInt8} {r : Except IoError ℕ}

/-! ### The streaming part -/

/-- The bytes that the streaming part of `send` takes. -/
theorem data_toppedUp (k : Kcb) (buf : List UInt8) :
    (k.toppedUp buf).flatMap Segment.data = k.sndQueue.flatMap Segment.data ++ buf.take k.room := by
  unfold toppedUp room
  split_ifs
  · exact (appendLast_eq k.mss k.sndQueue buf).2.1
  · exact (List.append_nil _).symm

theorem filled_toppedUp (h : Filled k.mss k.sndQueue) (buf : List UInt8) : Filled k.mss (k.toppedUp buf) := by
  unfold toppedUp
  split_ifs
  · exact (appendLast_eq k.mss k.sndQueue buf).2.2.1 h
  · exact h

theorem toppedUp_ne (h : 0 < k.room) (hbuf : buf ≠ []) : k.toppedUp buf ≠ k.sndQueue := by
  intro he
  have hdata := data_toppedUp k buf
  rw [he, List.self_eq_append_right, List.take_eq_nil_iff] at hdata
  rcases hdata with hz | hz
  · omega
  · exact hbuf hz

/-! ### The fragments -/

/-- No segment less would be enough. -/
theorem pred_fragCount_lt {mss n : ℕ} (hmss : 0 < mss) (hn : 0 < n) : (fragCount mss n - 1) * mss < n := by
  rcases Nat.eq_zero_or_pos (fragCount mss n - 1) with hz | hpos
  · rw [hz, Nat.zero_mul]
    exact hn
  · refine Nat.lt_of_not_le fun hle => ?_
    have hfew := (fragCount_le_iff hmss hpos).mpr hle
    omega

theorem data_fragments_ne_nil {mss n : ℕ} {stream : Bool} {s : Segment} (hmss : 0 < mss)
    (hn : (n - 1) * mss < buf.length) (hs : s ∈ (fragments mss stream n buf).1) : 1 ≤ s.data.length := by
  induction n generalizing buf with
  | zero => exact absurd hs List.not_mem_nil
  | succ n ih =>
    rw [Nat.add_sub_cancel] at hn
    simp only [fragments, List.mem_cons] at hs
    rcases hs with rfl | hs
    · simp only [List.length_take]
      omega
    · cases n with
      | zero => exact absurd hs List.not_mem_nil
      | succ n =>
        refine ih ?_ hs
        rw [Nat.succ_mul] at hn
        rw [Nat.add_sub_cancel, List.length_drop, Nat.min_eq_left (by omega)]
        omega

/-- The fragments of a buffer hold between one and `mss` bytes. -/
theorem filled_fragments {mss : ℕ} (stream : Bool) (hmss : 0 < mss) (hbuf : buf ≠ []) :
    Filled mss (fragments mss stream (fragCount mss buf.length) buf).1 := fun _ hs =>
  ⟨data_fragments_ne_nil hmss (pred_fragCount_lt hmss (List.length_pos_iff.mpr hbuf)) hs, length_data_fragments hs⟩

/-! ### What is accounted for -/

/-- What `send` answers for: a success counts every byte and queues it, in segments of one to `mss` bytes, and in
message mode leaves the queued ones as they are; a failure leaves the queue as it is. -/
structure Accounted (k : Kcb) (buf : List UInt8) (r : Except IoError ℕ) (k' : Kcb) : Prop where
  ok : ∀ n, r = .ok n → n = buf.length ∧
    k'.sndQueue.flatMap Segment.data = k.sndQueue.flatMap Segment.data ++ buf ∧ Filled k.mss k'.sndQueue ∧
    (k.stream = false → k.sndQueue <+: k'.sndQueue)
  error : ∀ e, r = .error e → k'.sndQueue = k.sndQueue

/-- **When `send` is accounted for**: the last queued segment has no room, or the buffer is a single byte, or the buffer
is longer than the room and the rest of it is at most 255 segments. -/
theorem send_accounted_iff (hq : Filled k.mss k.sndQueue) (hbuf : buf ≠ []) (h : k.send p buf = some (r, k')) :
    Accounted k buf r k' ↔
      k.room = 0 ∨ buf.length = 1 ∨ (k.room < buf.length ∧ buf.length ≤ k.room + 255 * k.mss) := by
  have hlen := List.length_pos_iff.mpr hbuf
  have htop := filled_toppedUp hq buf
  have hmode : k.stream = false → k.toppedUp buf = k.sndQueue := fun hs => toppedUp_of_no_room (by simp [room, hs]) buf
  rcases send_cases hbuf h with ⟨hle, rfl, hk⟩ | ⟨hlong, rfl, hk⟩ | ⟨hroom, hle, hmss, rfl, hk⟩
  · -- `Ok(1)`, whatever the length of the buffer
    replace hk : k'.sndQueue = k.toppedUp buf := congrArg Kcb.sndQueue hk
    refine ⟨fun ha => Or.inr (Or.inl (ha.ok 1 rfl).1.symm), fun hc => ⟨fun n hn => ?_, fun e he => absurd he (by simp)⟩⟩
    obtain rfl := Except.ok.inj hn
    refine ⟨by omega, ?_, hk ▸ htop, fun hs => ?_⟩
    · rw [hk, data_toppedUp, List.take_of_length_le hle]
    · have hsame : k'.sndQueue = k.sndQueue := hk.trans (hmode hs)
      exact hsame ▸ List.prefix_rfl
  · -- refused, but the last segment was filled up first
    replace hk : k'.sndQueue = k.toppedUp buf := congrArg Kcb.sndQueue hk
    refine ⟨fun ha => Or.inl (Nat.eq_zero_of_not_pos fun hpos => ?_),
      fun hc => ⟨fun n hn => absurd hn (by simp), fun _ _ => ?_⟩⟩
    · exact toppedUp_ne hpos hbuf (hk ▸ ha.error _ rfl)
    · rcases hc with hz | hone | ⟨-, hle⟩
      · rw [hk, toppedUp_of_no_room hz]
      · have hroom : k.room = 0 := by omega
        rw [hk, toppedUp_of_no_room hroom]
      · omega
  · replace hk := congrArg Kcb.sndQueue hk
    change k'.sndQueue = k.toppedUp buf ++ _ at hk
    refine iff_of_true ⟨fun n hn => ?_, fun e he => absurd he (by simp)⟩ (Or.inr (Or.inr ⟨hroom, hle⟩))
    obtain rfl := Except.ok.inj hn
    have hrest : buf.drop k.room ≠ [] := fun hnil => absurd (List.drop_eq_nil_iff.mp hnil) (Nat.not_le.mpr hroom)
    refine ⟨rfl, ?_, fun s hs => ?_, fun hs => ?_⟩
    · rw [hk, List.flatMap_append, data_toppedUp, data_fragments, List.take_of_length_le (le_fragCount hmss _),
        List.append_assoc, List.take_append_drop]
    · rw [hk] at hs
      rcases List.mem_append.mp hs with hs | hs
      · exact htop s hs
      · exact filled_fragments k.stream hmss hrest s hs
    · rw [hk, hmode hs]
      exact List.prefix_append _ _

/-- In stream mode, with a queued segment of two bytes and segments of four. -/
def halfFull : Kcb := { Kcb.new 7 with stream := true, mss := 4, sndQueue := [{ data := [1, 2] }] }

/-- Five bytes fill the queued segment and a new one. -/
theorem send_accounted_iff_rest :
    ∃ k', halfFull.send .release [3, 4, 5, 6, 7] = some (.ok 5, k') ∧
      k'.sndQueue.map Segment.data = [[1, 2, 3, 4], [5, 6, 7]] ∧ Accounted halfFull [3, 4, 5, 6, 7] (.ok 5) k' := by
  have hfilled : Filled halfFull.mss halfFull.sndQueue := by
    intro s hs
    obtain rfl := List.mem_singleton.mp hs
    decide
  refine ⟨_, rfl, rfl, ?_⟩
  exact (send_accounted_iff (p := .release) hfilled (List.cons_ne_nil _ _) rfl).mpr (Or.inr (Or.inr (by decide)))

/-- A buffer of two bytes is queued behind one byte in the last segment, and `send` counts one byte. -/
theorem send_counts_one :
    ¬ ∀ (p : Profile) (k k' : Kcb) (buf : List UInt8) (r : Except IoError ℕ), Filled k.mss k.sndQueue → buf ≠ [] →
      k.send p buf = some (r, k') → Accounted k buf r k' := by
  intro hall
  have hfilled : Filled 1376 [({ data := [1] } : Segment)] := by
    intro s hs
    obtain rfl := List.mem_singleton.mp hs
    decide
  have hok := (hall .release { Kcb.new 7 with stream := true, sndQueue := [{ data := [1] }] } _ [2, 3] _ hfilled
    (List.cons_ne_nil _ _) rfl).ok 1 rfl
  exact absurd hok.1 (by decide)

end Kcb

end NetProtocols.Kcp
