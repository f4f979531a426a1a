import NetProtocols.Kcp.Silent

/-!
# NetProtocols.Kcp.Datagrams — the datagrams of a flush against the MTU and the peer's receive buffer

`flush` means to write its buffer out before it would grow beyond the MTU, and the peer reads datagrams into a buffer
of 1024 bytes (`KcpListener::accept`, and `KcpStream::poll_read` of a client).  Both go wrong, and exactly when:

* `flush_within_mtu_iff`: every datagram of a flush is within the MTU and no size test overflows exactly when the
  segments never get longer, starting from what the buffer held before.
* `Received`: a flush comes to its end on a `KcpOutput`, and the peer receives every datagram of it whole.
* `received_whole`: exactly when there is nothing to write; with the method `write` that `poll_write` does not reach, it
  would be when the segments, packed by `larger`, fit 1024 bytes.
-/

namespace NetProtocols.Kcp

open Kcb Flushing

/-- The control blocks that a call flushes from `k`: `k` itself, or `k` with the clock set by `update`. -/
def FlushedFrom (k k' : Kcb) : Prop := k' = k ∨ ∃ now ts, k' = k.clocked now ts

theorem FlushedFrom.sized {k k' : Kcb} (h : FlushedFrom k k') (hk : Sized k) : Sized k' := by
  rcases h with rfl | ⟨now, ts, rfl⟩
  · exact hk
  · exact sized_clocked.mpr hk

/-! ### The MTU -/

/-- Every datagram of the flush is within the MTU, and no size test overflows `usize`. -/
def WithinMtu (f : Flushing) : Prop :=
  (∀ w ∈ f.writes, w.buffer.length ≤ kcpMtuDef) ∧ ∀ t ∈ f.tests, t.1 + t.2 < 2 ^ 64

/-- A size test stays within `usize` exactly when the segment is no longer than the buffer. -/
theorem tests_fit_iff {n : ℕ} {es : List ℕ} (hn : n ≤ maxLoad) (he : ∀ e ∈ es, e ≤ kcpMtuDef) :
    (∀ t ∈ (packTests larger n es).map (fun t => (bytesMut t.1, t.2)), t.1 + t.2 < 2 ^ 64) ↔ Descending n es := by
  rw [← packTests_descending_iff]
  simp only [List.forall_mem_map]
  refine forall₂_congr fun t ht => ?_
  have h1 : t.1 ≤ maxLoad :=
    packTests_le hn (fun e h => (he e h).trans (by decide)) (fun _ e h _ hj => larger_joins (he e h) hj) t ht
  simp only [bytesMut, maxLoad] at h1 ⊢
  omega

/-- **When a flush keeps to the MTU**: in every reachable state, exactly when the buffer was within the MTU and the
segments never get longer from there on, so that none joins another. -/
theorem flush_within_mtu_iff {conv : UInt32} {c : Config} {ops : List Op} {e : Endpoint} {k : Kcb} {f : Flushing}
    (hr : run (Endpoint.exec shipped) (Endpoint.start conv c) ops = some e) (hk : FlushedFrom e.kcb k)
    (hf : k.flush shipped = some f) :
    WithinMtu f ↔ (k.updated = true → k.buffer.length ≤ kcpMtuDef ∧ Descending k.buffer.length (emissions k)) := by
  have hs : Sized k := hk.sized (sized_run hr)
  by_cases hu : k.updated = true
  · obtain ⟨hw, ht, -⟩ := flush_emitted hu hs hf
    have hwrites : (∀ w ∈ f.writes, w.buffer.length ≤ kcpMtuDef) ↔
        ∀ l ∈ loads larger k.buffer.length (emissions k), l ≤ kcpMtuDef := by
      rw [← hw]
      simp
    rw [WithinMtu, hwrites, ht, tests_fit_iff hs.buffer (emissions_le hs)]
    simp only [hu, true_imp_iff]
    refine and_congr_left fun hd => ?_
    rw [loads_descending hd]
    simp only [List.mem_cons, forall_eq_or_imp]
    exact and_iff_left (emissions_le hs)
  · obtain rfl := flush_not_updated hu hf
    simp [WithinMtu, hu]

/-- A segment with one byte of data, as the peer sends it. -/
def byteSegment (sn : UInt32) : Segment := { conv := 7, cmd := kcpCmdPush, wnd := 32, sn := sn, data := [1] }

/-- A flush abandoned with an acknowledgement in the buffer, and one more acknowledgement due. -/
theorem flush_within_mtu_iff_acks :
    ∃ e f, run (Endpoint.exec shipped) (Endpoint.start 7 {})
        [.update 0 none, .input (byteSegment 0).encode, .flush (some 0), .input (byteSegment 1).encode] = some e ∧
      e.kcb.flush shipped = some f ∧ WithinMtu f ∧ f.writes.length = 2 := by
  have h : ((run (Endpoint.exec shipped) (Endpoint.start 7 {}) [.update 0 none, .input (byteSegment 0).encode,
      .flush (some 0), .input (byteSegment 1).encode]).bind fun e => (e.kcb.flush shipped).map fun f =>
        (e.kcb.buffer.length, emissions e.kcb, f.writes.length)) = some (24, [24], 2) := by decide +kernel
  obtain ⟨e, he, h⟩ := Option.bind_eq_some_iff.mp h
  obtain ⟨f, hf, h⟩ := Option.map_eq_some_iff.mp h
  obtain ⟨hbuf, hem, hlen⟩ : e.kcb.buffer.length = 24 ∧ emissions e.kcb = [24] ∧ f.writes.length = 2 := by
    simpa using h
  refine ⟨e, f, he, hf, (flush_within_mtu_iff he (Or.inl rfl) hf).mpr fun _ => ?_, hlen⟩
  rw [hbuf, hem]
  exact ⟨by decide, by simp [Descending]⟩

/-- An acknowledgement and a full segment go out as one datagram of 1424 bytes, and both size tests overflow. -/
theorem flush_exceeds_mtu :
    ∃ e f, run (Endpoint.exec shipped) (Endpoint.start 7 {})
        [.update 0 none, .input (byteSegment 0).encode, .send (List.replicate 1376 0)] = some e ∧
      e.kcb.flush shipped = some f ∧ (∃ w ∈ f.writes, w.buffer.length = 1424) ∧
      f.tests.map (fun t => decide (t.1 + t.2 < 2 ^ 64)) = [false, false] ∧ ¬ WithinMtu f := by
  have h : ((run (Endpoint.exec shipped) (Endpoint.start 7 {}) [.update 0 none, .input (byteSegment 0).encode,
      .send (List.replicate 1376 0)]).bind fun e => (e.kcb.flush shipped).map fun f =>
        (f.writes.map fun w => w.buffer.length, f.tests.map fun t => decide (t.1 + t.2 < 2 ^ 64))) =
          some ([1424], [false, false]) := by decide +kernel
  obtain ⟨e, he, h⟩ := Option.bind_eq_some_iff.mp h
  obtain ⟨f, hf, h⟩ := Option.map_eq_some_iff.mp h
  obtain ⟨hw, ht⟩ := Prod.mk.injEq .. ▸ h
  obtain ⟨w, hmem, hlen⟩ : ∃ w ∈ f.writes, w.buffer.length = 1424 := List.mem_map.mp (by rw [hw]; simp)
  refine ⟨e, f, he, hf, ⟨w, hmem, hlen⟩, ht, fun hin => ?_⟩
  have := hin.1 w hmem
  rw [hlen] at this
  exact absurd this (by decide)

/-! ### The peer's receive buffer -/

section Received

variable {Addr : Type} {f : Flushing}

/-- The flush, written to an output for the peer `a`, comes to its end, and the peer's buffer receives every datagram
of it whole. -/
def Received (poll : PollWrite (KcpOutput Addr)) (a : Addr) (f : Flushing) : Prop :=
  ∃ k o, f.through poll { peer := a } = some (.ready (), k, o) ∧
    o.sent.map (fun x => recvFrom recvBuf x.1) = datagrams f.writes

theorem recvFrom_eq_self_iff {cap : ℕ} {d : List UInt8} : recvFrom cap d = d ↔ d.length ≤ cap := by
  constructor
  · intro h
    rw [← h, recvFrom, List.length_take]
    exact Nat.min_le_left _ _
  · exact List.take_of_length_le

/-- Nothing that `poll_write` is called for is received. -/
theorem received_pollWrite_iff {stack : ℕ} {a : Addr} : Received (KcpOutput.pollWrite stack) a f ↔ f.Silent := by
  unfold Received
  rw [through_pollWrite]
  constructor
  · rintro ⟨k, o, h, -⟩
    obtain ⟨k', hk, -⟩ := Option.map_eq_some_iff.mp h
    exact (await_eq_some.mp hk).1
  · intro hs
    refine ⟨f.kcb, { peer := a }, by rw [await_eq_some.mpr ⟨hs, rfl⟩, Option.map_some], ?_⟩
    rw [List.map_nil, eq_comm, datagrams, List.filter_eq_nil_iff]
    intro d hd
    obtain ⟨w, hw, rfl⟩ := List.mem_map.mp hd
    simp [hs w hw]

theorem received_write_iff {a : Addr} :
    Received KcpOutput.write a f ↔ ∀ d ∈ datagrams f.writes, recvFrom recvBuf d = d := by
  have hmap : ((datagrams f.writes).map fun d => (d, a)).map (fun x => recvFrom recvBuf x.1) = datagrams f.writes ↔
      ∀ d ∈ datagrams f.writes, recvFrom recvBuf d = d := by
    rw [List.map_map, ← List.map_inj_left, List.map_id']
    rfl
  rw [← hmap, Received, through_write]
  constructor
  · rintro ⟨k, o, ho, h⟩
    simp only [Option.some.injEq, Prod.mk.injEq, true_and] at ho
    rw [← ho.2] at h
    exact h
  · intro h
    exact ⟨_, _, rfl, h⟩

end Received

theorem datagrams_whole_iff {k : Kcb} {f : Flushing} (hs : Sized k) (hf : k.flush shipped = some f) :
    (∀ d ∈ datagrams f.writes, recvFrom recvBuf d = d) ↔
      (k.updated = true → Fits recvBuf k.buffer.length (emissions k)) := by
  rw [← writes_le_iff hs hf]
  simp only [datagrams, List.mem_filter, List.mem_map, recvFrom_eq_self_iff]
  constructor
  · intro h w hw
    by_cases hb : w.buffer = []
    · simp [hb]
    · exact h _ ⟨⟨w, hw, rfl⟩, by simpa using hb⟩
  · rintro h _ ⟨⟨w, hw, rfl⟩, -⟩
    exact h w hw

/-- The flush that a call runs, if it runs one. -/
def flushOf (e : Endpoint) : Op → Option Flushing
  | .update now _ => e.kcb.update shipped now
  | .flush _ => e.kcb.flush shipped
  | _ => none

/-- The flush of the call is received. -/
def IsReceived {Addr : Type} (poll : PollWrite (KcpOutput Addr)) (a : Addr) (e : Endpoint) (op : Op) : Prop :=
  ∀ f, flushOf e op = some f → Received poll a f

/-- The flush of the call has nothing to write. -/
def NothingToWrite (e : Endpoint) : Op → Prop
  | .update now _ => e.kcb.Quiet now
  | .flush _ => e.kcb.Silent
  | _ => True

theorem isReceived_iff {Addr : Type} {stack : ℕ} {a : Addr} {e : Endpoint} {op : Op} (hs : Sized e.kcb) :
    IsReceived (KcpOutput.pollWrite stack) a e op ↔ NothingToWrite e op := by
  cases op with
  | update now cut =>
    obtain ⟨f, hf⟩ := Option.isSome_iff_exists.mp (update_release (b := shipped) rfl e.kcb now)
    rw [NothingToWrite, ← silent_update_iff hs hf]
    simp only [IsReceived, flushOf, hf, Option.some.injEq, forall_eq', received_pollWrite_iff]
  | flush cut =>
    obtain ⟨f, hf⟩ := Option.isSome_iff_exists.mp (flush_release (b := shipped) rfl e.kcb)
    rw [NothingToWrite, ← silent_iff hs hf]
    simp only [IsReceived, flushOf, hf, Option.some.injEq, forall_eq', received_pollWrite_iff]
  | send | recv | input => exact iff_of_true (fun f hf => nomatch hf) trivial

/-- **When the peer receives what is flushed to `KcpOutput`**: however deep the stack is, in a run exactly when no flush
of the run has anything to write; and from every state that the control block of a stream reaches, exactly when the
flush has nothing to write.  With the other `write` of `KcpOutput` it would be exactly when the segments of the flush
fit the peer's buffer. -/
theorem received_whole {Addr : Type} {conv : UInt32} {ops : List Op} {e : Endpoint}
    (hr : run (Endpoint.exec shipped) (Endpoint.start conv streamConfig) ops = some e) (stack : ℕ) (a : Addr) :
    (Meets (Endpoint.exec shipped) (IsReceived (KcpOutput.pollWrite stack) a) (Endpoint.start conv streamConfig) ops ↔
        Meets (Endpoint.exec shipped) NothingToWrite (Endpoint.start conv streamConfig) ops) ∧
      ∀ k f, FlushedFrom e.kcb k → k.flush shipped = some f →
        (Received (KcpOutput.pollWrite stack) a f ↔ k.Silent) ∧
          (Received KcpOutput.write a f ↔ (k.updated = true → Fits recvBuf k.buffer.length (emissions k))) := by
  constructor
  · exact meets_congr (I := fun e => SizedFrom e.kcb) (fun _ _ _ hs _ h => sizedFrom_exec hs h)
      (fun _ _ hs => isReceived_iff hs.1) (sizedFrom_start conv streamConfig)
  · intro k f hk hf
    have hs : Sized k := hk.sized (sized_run hr)
    rw [received_pollWrite_iff, received_write_iff]
    exact ⟨silent_iff hs hf, datagrams_whole_iff hs hf⟩

/-- The flush of a new stream that has nothing to send yet. -/
theorem received_whole_idle :
    ∃ e f, run (Endpoint.exec shipped) (Endpoint.start 7 streamConfig) [.update 0 none] = some e ∧
      e.kcb.updated = true ∧ e.kcb.flush shipped = some f ∧ Received (KcpOutput.pollWrite 100) () f ∧
      Received KcpOutput.write () f := by
  have h : (run (Endpoint.exec shipped) (Endpoint.start 7 streamConfig) [.update 0 none]).map (fun e =>
      (e.kcb.updated, (e.kcb.flush shipped).isSome, decide e.kcb.Silent,
        decide (Fits recvBuf e.kcb.buffer.length (emissions e.kcb)))) = some (true, true, true, true) := by
    decide +kernel
  obtain ⟨e, he, h⟩ := Option.map_eq_some_iff.mp h
  simp only [Prod.mk.injEq, decide_eq_true_eq] at h
  obtain ⟨hu, hsome, hsilent, hfits⟩ := h
  obtain ⟨f, hf⟩ := Option.isSome_iff_exists.mp hsome
  obtain ⟨hwrite, hother⟩ := (received_whole he 100 ()).2 e.kcb f (Or.inl rfl) hf
  exact ⟨e, f, he, hu, hf, hwrite.mpr hsilent, hother.mpr fun _ => hfits⟩

/-- A new client writes `buf` at the time 5: what `send` answers, and the flush that follows. -/
def firstWrite (buf : List UInt8) : Option (Except IoError ℕ × Flushing) := do
  let s ← KcpStream.connect shipped 7 () 0 0
  let (r, k) ← s.kcb.send .release buf
  let f ← (k.setClock 5).flush shipped
  some (r, f)

/-- One byte makes a datagram of 25 bytes.  It is handed to `poll_write` of `KcpOutput`, and there it stays: the peer
receives nothing, and `poll_write` of the stream does not return.  Of 1001 bytes the peer would not receive the last one
in any case. -/
theorem datagram_not_sent :
    ∃ f f', firstWrite [1] = some (.ok 1, f) ∧ (datagrams f.writes).map List.length = [25] ∧
      (∀ stack, ¬ Received (KcpOutput.pollWrite stack) () f) ∧
      ((KcpStream.connect shipped 7 () 0 0).bind fun s => s.pollWrite shipped [1] ⟨5, 5⟩) = none ∧
      firstWrite (List.replicate 1001 0) = some (.ok 1001, f') ∧ ¬ Received KcpOutput.write () f' := by
  have h₁ : (firstWrite [1]).map (fun x => (decide (x.1 = .ok 1), (datagrams x.2.writes).map List.length,
      decide x.2.Silent)) = some (true, [25], false) := by decide +kernel
  have h₂ : (firstWrite (List.replicate 1001 0)).map (fun x => (decide (x.1 = .ok 1001),
      (datagrams x.2.writes).map fun d => decide (recvFrom recvBuf d = d))) = some (true, [false]) := by decide +kernel
  have hnone : ((KcpStream.connect shipped 7 () 0 0).bind fun s => s.pollWrite shipped [1] ⟨5, 5⟩).isNone := by
    decide +kernel
  obtain ⟨⟨r, f⟩, hf, h₁⟩ := Option.map_eq_some_iff.mp h₁
  obtain ⟨⟨r', f'⟩, hf', h₂⟩ := Option.map_eq_some_iff.mp h₂
  simp only [Prod.mk.injEq, decide_eq_true_eq, decide_eq_false_iff_not] at h₁ h₂
  obtain ⟨rfl, hlen, hsilent⟩ := h₁
  obtain ⟨rfl, hcut⟩ := h₂
  refine ⟨f, f', hf, hlen, fun stack hr => hsilent (received_pollWrite_iff.mp hr), Option.isNone_iff_eq_none.mp hnone,
    hf', fun hr => ?_⟩
  have hwhole := received_write_iff.mp hr
  obtain ⟨d, hd, hlt⟩ := List.map_eq_singleton_iff.mp hcut
  rw [hd] at hwhole
  exact of_decide_eq_false hlt (hwhole d List.mem_cons_self)

end NetProtocols.Kcp
