import NetProtocols.Kcp.Silent
import NetProtocols.Kcp.Outbound

/-!
# NetProtocols.Kcp.Writer — a stream driven by `write` and `write_all`

`poll_write` calls `send` before it knows whether it will report `Ready`.  A driver repeats a poll that returned
`Pending` with the same bytes, and goes on behind the bytes that an `Ok` reports.  Behind a poll that does not return
there is nothing to go on with.

* `Writer`: the stream, the bytes still to be written, and what has become of the others.
* `WriteAct`, `Writer.act`: a write begins, `poll_write` is called, or something else is done with the control block.
* `Writer.Once`: the bytes that `send` has queued are those that the writes have reported.
* `Writer.Goes`: the flushes behind `send` come to their end; `Writer.Unsent`: they have nothing to write.
* `pollWrite_iff`: when `poll_write` of a stream returns.
* `once_iff_goes`: a run queues each byte once exactly when every poll that queues anything has nothing to write.
-/

namespace NetProtocols.Kcp

open Kcb

/-- The bytes that `send` adds to those in `snd_queue`. -/
def Kcb.queuedBy (p : Profile) (k : Kcb) (buf : List UInt8) : List UInt8 :=
  match k.send p buf with
  | some (_, k') => (k'.sndQueue.flatMap Segment.data).drop (k.sndQueue.flatMap Segment.data).length
  | none => []

/-- A stream and its driver. -/
structure Writer (Addr : Type) where
  stream : KcpStream Addr
  /-- What is left of the write under way. -/
  rest : List UInt8 := []
  /-- The bytes reported as written. -/
  written : List UInt8 := []
  /-- The bytes queued by `send`. -/
  appended : List UInt8 := []
  /-- The bytes queued by polls that have not reported them. -/
  leaked : List UInt8 := []
  /-- A poll has not returned. -/
  stopped : Bool := false

/-- `write`: the next logical write begins.  `poll`: a call of `poll_write` on what is left of it.  `other`: a call on
the control block that does not come from a write. -/
inductive WriteAct
  | write (buf : List UInt8)
  | poll (t : Tick)
  | other (op : Op)
  deriving DecidableEq

namespace Writer

variable {Addr : Type} {b : Build} {w w' : Writer Addr}

/-- A new stream. -/
def start (conv : UInt32) (c : Config) (server : Bool) (a : Addr) : Writer Addr where
  stream := { kcb := Kcb.configured conv c, server := server, frAddr := a }

/-- The writer after a poll with that outcome: `Pending` is repeated, `Ok` advances, an error ends the write, and
without an outcome everything ends. -/
def polled (b : Build) (w : Writer Addr) (x : Option (Poll (Except IoError ℕ) × KcpStream Addr)) : Writer Addr :=
  let queued := w.stream.kcb.queuedBy b.profile w.rest
  match x with
  | none => { w with appended := w.appended ++ queued, leaked := w.leaked ++ queued, stopped := true }
  | some (.pending, s) => { w with stream := s, appended := w.appended ++ queued, leaked := w.leaked ++ queued }
  | some (.ready (.ok n), s) =>
    { w with
      stream := s
      rest := w.rest.drop n
      written := w.written ++ w.rest.take n
      appended := w.appended ++ queued }
  | some (.ready (.error _), s) => { w with stream := s, rest := [], appended := w.appended ++ queued }

/-- What an action does. -/
def act (b : Build) (w : Writer Addr) : WriteAct → Option (Writer Addr)
  | .write buf => if w.rest = [] then some { w with rest := buf } else none
  | .poll t => some (w.polled b (w.stream.pollWrite b w.rest t))
  | .other (.send _) => none
  | .other op => (Endpoint.exec b { kcb := w.stream.kcb } op).map fun e => { w with stream := w.stream.setKcb e.kcb }

/-- One step; there is none behind a poll that has not returned. -/
def step (b : Build) (w : Writer Addr) (a : WriteAct) : Option (Writer Addr) := if w.stopped then none else w.act b a

/-- Each byte written is queued once, and a poll that did not report its bytes has queued nothing. -/
def Once (w : Writer Addr) : Prop := w.appended = w.written ∧ w.leaked = []

/-- `update`, `check` and the `flush` after them come to their end. -/
def FlushEnds (b : Build) (k : Kcb) (t : Tick) : Prop :=
  ∃ dur k₁ f k₂, k.tick b t = some (dur, k₁) ∧ k₁.flush b = some f ∧ f.await = some k₂

/-- The control block behind `send`, of a buffer that it accepts. -/
def queueing (w : Writer Addr) : Kcb :=
  w.stream.kcb.setSndQueue (w.stream.kcb.sndQueue ++ Kcb.cut w.stream.kcb.mss w.rest)

/-- In a poll with bytes that `send` accepts, the flushes come to their end once they are queued. -/
def Goes (b : Build) (w : Writer Addr) : WriteAct → Prop
  | .poll t => Sendable w.stream.kcb.mss w.rest → FlushEnds b w.queueing t
  | _ => True

/-- In a poll with bytes that `send` accepts, there is nothing to write once they are queued. -/
def Unsent (w : Writer Addr) : WriteAct → Prop
  | .poll t => Sendable w.stream.kcb.mss w.rest → (w.queueing.clocked t.now 0).Silent
  | _ => True

/-! ### One poll -/

theorem pollWrite_some {s s' : KcpStream Addr} {buf : List UInt8} {t : Tick} {q : Poll (Except IoError ℕ)}
    (h : s.pollWrite b buf t = some (q, s')) :
    ∃ r k dur k₁ f, s.kcb.send b.profile buf = some (r, k) ∧ k.tick b t = some (dur, k₁) ∧ k₁.flush b = some f ∧
      f.await = some s'.kcb ∧ q = .ready r := by
  simp only [KcpStream.pollWrite, Option.bind_eq_bind, Option.bind_eq_some_iff, Option.some.injEq, Prod.mk.injEq] at h
  obtain ⟨⟨r, k⟩, hsend, ⟨dur, k₁⟩, ht, f, hf, k₂, ha, rfl, rfl⟩ := h
  exact ⟨r, k, dur, k₁, f, hsend, ht, hf, ha, rfl⟩

/-- Behind `send` there is the result of `send`, or no result. -/
theorem pollWrite_ends_iff {s : KcpStream Addr} {buf : List UInt8} {r : Except IoError ℕ} {k : Kcb} {t : Tick}
    (hsend : s.kcb.send b.profile buf = some (r, k)) :
    (∃ s', s.pollWrite b buf t = some (.ready r, s')) ↔ FlushEnds b k t := by
  constructor
  · rintro ⟨s', h⟩
    obtain ⟨r', k', dur, k₁, f, hsend', ht, hf, ha, -⟩ := pollWrite_some h
    obtain ⟨-, rfl⟩ := Prod.mk.inj (Option.some.inj (hsend.symm.trans hsend'))
    exact ⟨dur, k₁, f, _, ht, hf, ha⟩
  · rintro ⟨dur, k₁, f, k₂, ht, hf, ha⟩
    refine ⟨s.setKcb k₂, ?_⟩
    simp only [KcpStream.pollWrite, hsend, ht, hf, ha, Option.bind_eq_bind, Option.bind_some]

/-- **`poll_write` returns exactly when there is nothing to write once the buffer is queued.** -/
theorem pollWrite_iff {s : KcpStream Addr} {buf : List UInt8} {r : Except IoError ℕ} {k : Kcb} {t : Tick}
    (hs : s.kcb.OfStream) (hsend : s.kcb.send .release buf = some (r, k)) :
    (∃ s', s.pollWrite shipped buf t = some (.ready r, s')) ↔ (k.clocked t.now 0).Silent :=
  (pollWrite_ends_iff (b := shipped) hsend).trans (tick_flush_iff (hs.send hsend) t)

theorem outbound_pollWrite {s s' : KcpStream Addr} {buf : List UInt8} {t : Tick} {q : Poll (Except IoError ℕ)}
    (ho : Outbound s.kcb) (h : s.pollWrite b buf t = some (q, s')) : Outbound s'.kcb := by
  obtain ⟨r, k, dur, k₁, f, hsend, ht, hf, ha, -⟩ := pollWrite_some h
  have hk : Outbound k := by
    have hexec : Endpoint.exec b { kcb := s.kcb } (.send buf) = some (Endpoint.sent _ buf (r, k)) :=
      congrArg (Option.map _) hsend
    have hsent := Outbound.exec hexec ho
    cases r <;> exact hsent
  have hk₁ : Outbound k₁ := tick_rule ht hk fun _ _ hi hs => hi.flushStep hs
  rw [(Flushing.await_eq_some.mp ha).2]
  exact hk₁.flushed (flush_follows hf rfl) none

theorem mss_pos {k : Kcb} (ho : Outbound k) : 0 < k.mss := by
  rw [ho.mss]
  decide

theorem queuedBy_of_sendable {p : Profile} {k : Kcb} {buf : List UInt8} (ho : Outbound k) (hs : Sendable k.mss buf) :
    k.queuedBy p buf = buf := by
  simp only [queuedBy, send_sendable ho.stream (mss_pos ho) hs, setSndQueue, List.flatMap_append, List.drop_left,
    data_cut (mss_pos ho)]

theorem queuedBy_of_not_sendable {p : Profile} {k : Kcb} {buf : List UInt8} (ho : Outbound k)
    (hs : ¬ Sendable k.mss buf) : k.queuedBy p buf = [] := by
  unfold queuedBy
  cases hsend : k.send p buf with
  | none => rfl
  | some x =>
    rcases send_whole ho.stream (mss_pos ho) hsend with ⟨-, -, hk⟩ | ⟨hs', -⟩
    · simp [hk]
    · exact absurd hs' hs

theorem act_of_step {a : WriteAct} (h : w.step b a = some w') : w.act b a = some w' := by
  unfold step at h
  split_ifs at h
  exact h

/-- **One step** reports `x` and queues `x` and `y`, where `y` is the leak. -/
theorem step_bytes {a : WriteAct} (ho : Outbound w.stream.kcb) (h : w.step b a = some w') :
    Outbound w'.stream.kcb ∧ ∃ x y, w'.written = w.written ++ x ∧ w'.leaked = w.leaked ++ y ∧
      (w'.appended = w.appended ++ x ∨ w'.appended = w.appended ++ y ∧ x = []) ∧ (y = [] ↔ Goes b w a) := by
  have h := act_of_step h
  cases a with
  | write buf =>
    rw [act] at h
    split_ifs at h
    obtain rfl := Option.some.inj h
    exact ⟨ho, [], [], by simp, by simp, Or.inl (by simp), iff_of_true rfl trivial⟩
  | other op =>
    cases op with
    | send buf => cases h
    | _ =>
      obtain ⟨e, he, rfl⟩ := Option.map_eq_some_iff.mp h
      exact ⟨Outbound.exec he ho, [], [], by simp, by simp, Or.inl (by simp), iff_of_true rfl trivial⟩
  | poll t =>
    obtain rfl := Option.some.inj h
    -- what `send` refuses it does not queue, so nothing can be lost then
    by_cases hs : Sendable w.stream.kcb.mss w.rest
    · have hsend := send_sendable (p := b.profile) ho.stream (mss_pos ho) hs
      have hqueued := queuedBy_of_sendable (p := b.profile) ho hs
      cases hp : w.stream.pollWrite b w.rest t with
      | none =>
        refine ⟨ho, [], w.rest, ?_, ?_, Or.inr ⟨?_, rfl⟩, iff_of_false hs.1 fun hgoes => ?_⟩
        · simp [polled]
        · simp [polled, hqueued]
        · simp [polled, hqueued]
        · obtain ⟨s', hp'⟩ := (pollWrite_ends_iff hsend).mpr (hgoes hs)
          cases hp.symm.trans hp'
      | some x =>
        obtain ⟨q, s⟩ := x
        obtain ⟨r, k, dur, k₁, f, hsend', -, -, -, rfl⟩ := pollWrite_some hp
        obtain ⟨rfl, -⟩ := Prod.mk.inj (Option.some.inj (hsend.symm.trans hsend'))
        refine ⟨outbound_pollWrite ho hp, w.rest, [], ?_, ?_, Or.inl ?_,
          iff_of_true rfl fun _ => (pollWrite_ends_iff hsend).mp ⟨s, hp⟩⟩ <;>
        simp [polled, hqueued]
    · have hqueued := queuedBy_of_not_sendable (p := b.profile) ho hs
      have hgoes : Goes b w (.poll t) := fun hs' => absurd hs' hs
      cases hp : w.stream.pollWrite b w.rest t with
      | none => refine ⟨ho, [], [], ?_, ?_, Or.inl ?_, iff_of_true rfl hgoes⟩ <;> simp [polled, hqueued]
      | some x =>
        obtain ⟨q, s⟩ := x
        obtain ⟨r, k, dur, k₁, f, hsend, -, -, -, rfl⟩ := pollWrite_some hp
        rcases send_whole ho.stream (mss_pos ho) hsend with ⟨-, ⟨e, rfl⟩, -⟩ | ⟨hs', -⟩
        · refine ⟨outbound_pollWrite ho hp, [], [], ?_, ?_, Or.inl ?_, iff_of_true rfl hgoes⟩ <;>
            simp [polled, hqueued]
        · exact absurd hs' hs

/-! ### The control block of a stream -/

theorem ofStream_start (conv : UInt32) (server : Bool) (a : Addr) :
    (start conv streamConfig server a).stream.kcb.OfStream := ofStream_configured conv

theorem outbound_ofStream {k : Kcb} (h : k.OfStream) : Outbound k := by
  obtain ⟨conv, ops, e, hr, rfl⟩ := h
  exact outbound_run hr

theorem ofStream_step {a : WriteAct} (hw : w.stream.kcb.OfStream) (h : w.step shipped a = some w') :
    w'.stream.kcb.OfStream := by
  have h := act_of_step h
  cases a with
  | write buf =>
    rw [act] at h
    split_ifs at h
    obtain rfl := Option.some.inj h
    exact hw
  | other op =>
    cases op with
    | send buf => cases h
    | _ =>
      obtain ⟨e, he, rfl⟩ := Option.map_eq_some_iff.mp h
      exact hw.exec he
  | poll t =>
    obtain rfl := Option.some.inj h
    cases hp : w.stream.pollWrite shipped w.rest t with
    | none => exact hw
    | some x =>
      obtain ⟨q, s⟩ := x
      obtain ⟨r, k, dur, k₁, f, hsend, ht, hf, ha, rfl⟩ := pollWrite_some hp
      have hs : s.kcb.OfStream := ((hw.send hsend).tick ht).await hf ha
      cases r <;> exact hs

/-- The flushes come to their end exactly when there is nothing to write. -/
theorem goes_iff_unsent {a : WriteAct} (hw : w.stream.kcb.OfStream) : Goes shipped w a ↔ Unsent w a := by
  cases a with
  | poll t =>
    have ho := outbound_ofStream hw
    exact imp_congr_right fun hs => tick_flush_iff (hw.send (send_sendable ho.stream (mss_pos ho) hs)) t
  | write buf | other op => exact Iff.rfl

/-- **Each byte is queued exactly once in a run exactly when every poll that queues anything comes to its end**: with
the configuration of a stream, when it has nothing to write. -/
theorem once_iff_goes {conv : UInt32} {c : Config} {server : Bool} {a : Addr} {acts : List WriteAct}
    (hr : run (step b) (start conv c server a) acts = some w) :
    (w.Once ↔ Meets (step b) (Goes b) (start conv c server a) acts) ∧
      (b = shipped → c = streamConfig →
        (Meets (step b) (Goes b) (start conv c server a) acts ↔
          Meets (step b) Unsent (start conv c server a) acts)) := by
  constructor
  · refine run_iff_meets (I := fun w => Outbound w.stream.kcb) (P := Once) ?_ ?_ ?_ hr (outbound_start conv c)
      ⟨rfl, rfl⟩
    · intro w a w' ho h
      exact (step_bytes ho h).1
    · intro w a w' ho hw h
      obtain ⟨-, x, y, h1, h2, h3, h4⟩ := step_bytes ho h
      rw [← h4, Once, h1, h2, hw.2, List.nil_append]
      refine and_iff_right_of_imp fun hy => ?_
      rcases h3 with h3 | ⟨h3, rfl⟩
      · rw [h3, hw.1]
      · rw [h3, hy, hw.1]
    · intro w a w' ho hw h hw'
      obtain ⟨-, x, y, h1, h2, h3, -⟩ := step_bytes ho h
      have hleak := hw'.2
      rw [h2, List.append_eq_nil_iff] at hleak
      refine hw ⟨?_, hleak.1⟩
      have heq := hw'.1
      rcases h3 with h3 | ⟨h3, rfl⟩
      · rw [h3, h1] at heq
        exact List.append_cancel_right heq
      · rwa [h3, hleak.2, h1, List.append_nil, List.append_nil] at heq
  · rintro rfl rfl
    exact meets_congr (I := fun w => w.stream.kcb.OfStream) (fun _ _ _ hw _ h => ofStream_step hw h)
      (fun _ _ hw => goes_iff_unsent hw) (ofStream_start conv server a)

/-- The peer has told a window of `0`, so that what is written waits. -/
def shut : Segment := { conv := 7, cmd := kcpCmdWins, wnd := 0 }

theorem once_iff_goes_shut :
    ∃ w, run (step shipped) (start 7 streamConfig false ()) [.other (.input shut.encode), .write [1, 2], .poll ⟨5, 5⟩] =
        some w ∧ w.written = [1, 2] ∧ w.Once ∧
      Meets (step shipped) Unsent (start 7 streamConfig false ())
        [.other (.input shut.encode), .write [1, 2], .poll ⟨5, 5⟩] := by
  have h : (run (step shipped) (start 7 streamConfig false ())
      [.other (.input shut.encode), .write [1, 2], .poll ⟨5, 5⟩]).map (fun w => (w.written, w.appended, w.leaked)) =
        some ([1, 2], [1, 2], []) := by decide +kernel
  obtain ⟨w, hw, hx⟩ := Option.map_eq_some_iff.mp h
  simp only [Prod.mk.injEq] at hx
  obtain ⟨hwritten, happended, hleaked⟩ := hx
  have honce : w.Once := ⟨happended.trans hwritten.symm, hleaked⟩
  obtain ⟨hiff, hunsent⟩ := once_iff_goes hw
  exact ⟨w, hw, hwritten, honce, (hunsent rfl rfl).mp (hiff.mp honce)⟩

/-- A new stream writes one byte: it is queued, the poll does not return, and nothing more happens. -/
theorem byte_queued_unreported :
    ∃ w, run (step shipped) (start 7 streamConfig false ()) [.write [1], .poll ⟨5, 5⟩] = some w ∧
      w.written = [] ∧ w.appended = [1] ∧ ¬ w.Once ∧ ∀ a, w.step shipped a = none := by
  have h : (run (step shipped) (start 7 streamConfig false ()) [.write [1], .poll ⟨5, 5⟩]).map
      (fun w => (w.written, w.appended, w.stopped)) = some ([], [1], true) := by decide +kernel
  obtain ⟨w, hw, hx⟩ := Option.map_eq_some_iff.mp h
  simp only [Prod.mk.injEq] at hx
  obtain ⟨hwritten, happended, hstopped⟩ := hx
  refine ⟨w, hw, hwritten, happended, fun honce => ?_, fun a => ?_⟩
  · have heq := honce.1
    rw [hwritten, happended] at heq
    cases heq
  · rw [step, if_pos hstopped]

end Writer

end NetProtocols.Kcp
