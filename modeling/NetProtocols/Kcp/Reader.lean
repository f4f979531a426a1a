import NetProtocols.Lib.Run
import NetProtocols.Kcp.TryRead

/-!
# NetProtocols.Kcp.Reader — a stream under a sequence of reads

The scratch buffer, the caller's buffer and the message have three lengths, and `recv` has taken the message off before
the last two are compared.

* `Reader`, `ReadCall`, `Reader.step`: a stream, the bytes its reads have returned, and one `try_read` as `poll_read`
  makes it: on a client with the scratch buffer of the call, on a server with the one the stream was accepted with.
* `Reader.Lossless`: one read loses nothing; `Reader.Fits`: the condition on the lengths.
* `lossless_iff_fits`: a run of reads loses nothing exactly when the lengths fit in each of them.
* `Reader.Stuck`: a message that the scratch buffer is too short for is never returned; `stuck_run`.
-/

namespace NetProtocols.Kcp

open Kcb

/-- The bytes received and not yet taken, in order. -/
def Kcb.held (k : Kcb) : List UInt8 := (k.rcvQueue ++ k.rcvBuf).flatMap Segment.data

/-- The messages complete in `rcv_queue`, one behind the other, as `recv` returns them into large buffers. -/
inductive Queued (p : Profile) : Kcb → List (List UInt8) → Prop
  | nil (k : Kcb) : Queued p k []
  | cons {k k' : Kcb} {cap : ℕ} {m : List UInt8} {ms : List (List UInt8)} (h : k.recv p cap = some (.ok m, k'))
      (hms : Queued p k' ms) : Queued p k (m :: ms)

theorem Queued.eq_nil {p : Profile} {k : Kcb} {ms : List (List UInt8)} (h : Queued p k ms)
    (hn : k.nextMessage p = none) : ms = [] := by
  cases h with
  | nil => rfl
  | cons h _ =>
    rw [nextMessage_of_recv h] at hn
    cases hn

theorem length_fillFrom (buf d : List UInt8) : (fillFrom buf d).length = buf.length := by
  simp only [fillFrom, recvFrom, List.length_append, List.length_take, List.length_drop]
  omega

/-- A stream and what its reads have returned. -/
structure Reader (Addr : Type) where
  stream : KcpStream Addr
  delivered : List (List UInt8) := []

/-- A call of `try_read`; `datagram` is what a client has received in the same `poll_read`. -/
structure ReadCall where
  datagram : List UInt8 := []
  cap : ℕ
  env : ReadEnv

namespace Reader

variable {Addr : Type} {b : Build} {r r' : Reader Addr} {c : ReadCall}

/-- The stream as `poll_read` calls `try_read` on it: a client has put a datagram into the scratch buffer and passed
it on. -/
def handed (r : Reader Addr) (c : ReadCall) : KcpStream Addr :=
  if r.stream.server then r.stream else r.stream.setBuf (fillFrom blankBuf c.datagram) none

/-- The outcome of the call. -/
def answer (b : Build) (r : Reader Addr) (c : ReadCall) :
    Option (Except IoError (List UInt8) × KcpStream Addr) := (r.handed c).tryRead b c.cap c.env

/-- The reader after a call with that outcome. -/
def after (r : Reader Addr) (x : Except IoError (List UInt8) × KcpStream Addr) : Reader Addr where
  stream := x.2
  delivered := r.delivered ++ returnedBy x.1

/-- One call. -/
def step (b : Build) (r : Reader Addr) (c : ReadCall) : Option (Reader Addr) := (r.answer b c).map r.after

/-- What has been returned, and behind it what can still be taken. -/
def bytes (r : Reader Addr) : List UInt8 := r.delivered.flatten ++ r.stream.kcb.held

/-- Later calls return the messages `ms`. -/
def Obtainable (b : Build) (r : Reader Addr) (ms : List (List UInt8)) : Prop :=
  ∃ later r', run (step b) r later = some r' ∧ r.delivered.flatten ++ ms.flatten <+: r'.delivered.flatten

/-- The call loses nothing of the bytes `all`: what has been returned is the first of them, the others follow in the
control block, and an error leaves every complete message obtainable. -/
def Lossless (b : Build) (all : List UInt8) (r : Reader Addr) (c : ReadCall) : Prop :=
  ∀ x, r.answer b c = some x → (r.after x).bytes = all ∧
    ∀ e, x.1 = .error e → ∀ ms, Queued b.profile x.2.kcb ms → (r.after x).Obtainable b ms

/-- The next message fits the scratch buffer and the caller's. -/
def Fits (b : Build) (r : Reader Addr) (c : ReadCall) : Prop :=
  ∀ s m, (r.handed c).readSocket b c.env = some s → s.kcb.nextMessage b.profile = some m →
    m.length ≤ s.buf.length ∧ m.length ≤ c.cap

/-! ### Before `recv` -/

@[simp] theorem kcb_handed (r : Reader Addr) (c : ReadCall) : (r.handed c).kcb = r.stream.kcb := by
  unfold handed
  split_ifs
  · rfl
  · exact KcpStream.setBuf_kcb _ _ _

@[simp] theorem server_handed (r : Reader Addr) (c : ReadCall) : (r.handed c).server = r.stream.server := by
  unfold handed
  split_ifs
  · rfl
  · exact KcpStream.setBuf_server _ _ _

/-- When `try_read` calls `udp_recv_and_iuc_update` there is nothing that `input` could accept: what is left of a
datagram is its length, and only a length of zero does not stop the thread. -/
theorem readSocket_cases {s s' : KcpStream Addr} {env : ReadEnv} (h : s.readSocket b env = some s') :
    ((s.toSend = none ∨ s.buf ≠ []) ∧ s' = s) ∨
      s.buf = [] ∧ ∃ a dur k', s.toSend = some (0, a) ∧ s.kcb.tick b env.udp = some (dur, k') ∧
        (s' = s.setKcb k' ∨ s' = (s.setKcb k').setBuf s.buf none) := by
  by_cases hs : s.toSend = none ∨ s.buf ≠ []
  · rw [KcpStream.readSocket_of hs] at h
    exact Or.inl ⟨hs, (Option.some.inj h).symm⟩
  · rw [not_or, not_not] at hs
    obtain ⟨⟨size, a⟩, hsend⟩ := Option.ne_none_iff_exists'.mp hs.1
    simp only [KcpStream.readSocket, KcpStream.udpRecvAndIucUpdate, hsend, hs.2, List.length_nil, or_true, if_true,
      List.take_nil, Option.bind_eq_bind, Option.bind_eq_some_iff] at h
    obtain ⟨x, ⟨u, hu, ⟨e, k⟩, hin, ⟨dur, k'⟩, ht, hx⟩, h⟩ := h
    obtain rfl : k = s.kcb := by
      simp [input, kcpOverhead] at hin
      exact hin.2.symm
    obtain rfl : size = 0 := by
      unfold Profile.assert at hu
      split_ifs at hu with hle
      exact Nat.le_zero.mp hle
    refine Or.inr ⟨hs.2, a, dur, k', hsend, ht, ?_⟩
    obtain rfl := Option.some.inj h
    cases hready : env.readiness <;>
    · rw [hready] at hx
      obtain rfl := Option.some.inj hx
      simp [hs.2]

theorem readSocket_frame {s s' : KcpStream Addr} {env : ReadEnv} (h : s.readSocket b env = some s') :
    s'.kcb.rcvQueue = s.kcb.rcvQueue ∧ s'.kcb.rcvBuf = s.kcb.rcvBuf ∧ s'.buf = s.buf ∧ s'.server = s.server := by
  rcases readSocket_cases h with ⟨-, rfl⟩ | ⟨-, a, dur, k', -, ht, hs⟩
  · exact ⟨rfl, rfl, rfl, rfl⟩
  · have hqueues := tick_queues ht
    rcases hs with rfl | rfl <;> exact ⟨hqueues.1, hqueues.2, rfl, rfl⟩

/-- The length of the scratch buffer depends on nothing but the kind of stream and the buffer of a server. -/
theorem length_handed (hs : r'.stream.server = r.stream.server)
    (hb : r.stream.server = true → r'.stream.buf = r.stream.buf) (c' c : ReadCall) :
    (r'.handed c').buf.length = (r.handed c).buf.length := by
  unfold handed
  rw [hs]
  split_ifs with h
  · rw [hb h]
  · simp only [KcpStream.setBuf, length_fillFrom]

/-! ### A message that does not fit the scratch buffer -/

/-- The first message of the queue is longer than the scratch buffer of any call. -/
def Stuck (b : Build) (r : Reader Addr) : Prop :=
  r.stream.kcb.rcvQueue ≠ [] ∧
    ∃ n, r.stream.kcb.peeksize b.profile = some (.ok n) ∧ ∀ c, (r.handed c).buf.length < n

theorem stuck_step (hs : r.Stuck b) (h : r.step b c = some r') : r'.Stuck b ∧ r'.delivered = r.delivered := by
  obtain ⟨hq, n, hp, hlen⟩ := hs
  obtain ⟨⟨res, s'⟩, ha, rfl⟩ := Option.map_eq_some_iff.mp h
  simp only [answer, KcpStream.tryRead, Option.bind_eq_bind, Option.bind_eq_some_iff] at ha
  obtain ⟨s, hsock, ha⟩ := ha
  obtain ⟨f1, -, f3, f4⟩ := readSocket_frame hsock
  rw [kcb_handed] at f1
  have hshort : s.kcb.recv b.profile s.buf.length = some (.error shortBuffer, s.kcb) := by
    refine recv_short (by rw [f1]; exact hq) ((peeksize_congr f1).trans hp) ?_
    rw [f3]
    exact hlen c
  -- the stream is what `udp_recv_and_iuc_update` leaves, and nothing is returned
  simp only [KcpStream.readKcb, hshort, Option.bind_eq_bind, Option.bind_some] at ha
  rw [if_neg (by decide)] at ha
  simp only [KcpStream.setKcb_self, Option.some.injEq, Prod.mk.injEq] at ha
  obtain ⟨rfl, rfl⟩ := ha
  have hd : (r.after (.error shortBuffer, s)).delivered = r.delivered := by
    simp only [after, returnedBy, List.append_nil]
  refine ⟨⟨?_, n, (peeksize_congr f1).trans hp, fun c' => ?_⟩, hd⟩
  · show s.kcb.rcvQueue ≠ []
    rw [f1]
    exact hq
  · rw [length_handed (r := r) (by rw [← server_handed r c]; exact f4) ?_ c' c]
    · exact hlen c
    · intro hserver
      show s.buf = r.stream.buf
      rw [f3, handed, if_pos hserver]

/-- **Nothing is returned any more** when the first message does not fit. -/
theorem stuck_run {calls : List ReadCall} (hs : r.Stuck b) (h : run (step b) r calls = some r') :
    r'.delivered = r.delivered := by
  refine (run_invariant (I := fun x => x.Stuck b ∧ x.delivered = r.delivered) ?_ h ⟨hs, rfl⟩).2
  intro x c x' hx hstep
  obtain ⟨h1, h2⟩ := stuck_step hx.1 hstep
  exact ⟨h1, h2.trans hx.2⟩

/-! ### Reads that lose nothing -/

theorem held_congr {k k' : Kcb} (h1 : k'.rcvQueue = k.rcvQueue) (h2 : k'.rcvBuf = k.rcvBuf) : k'.held = k.held := by
  unfold held
  rw [h1, h2]

theorem held_tick {k k' : Kcb} {t : Tick} {dur : UInt32} (h : k.tick b t = some (dur, k')) : k'.held = k.held :=
  held_congr (tick_queues h).1 (tick_queues h).2

theorem answer_of {s : KcpStream Addr} (h : (r.handed c).readSocket b c.env = some s) :
    r.answer b c = s.readKcb b c.cap c.env.check := by
  simp [answer, KcpStream.tryRead, h]

theorem held_readSocket {s : KcpStream Addr} (h : (r.handed c).readSocket b c.env = some s) :
    s.kcb.held = r.stream.kcb.held := by
  obtain ⟨h1, h2, -⟩ := readSocket_frame h
  rw [kcb_handed] at h1 h2
  exact held_congr h1 h2

/-- After a call that returns nothing, `bytes` differs by what the control block has lost. -/
theorem bytes_unreturned {q : Except IoError (List UInt8)} {s : KcpStream Addr} (h : returnedBy q = []) :
    (r.after (q, s)).bytes = r.delivered.flatten ++ s.kcb.held := by
  simp only [bytes, after, h, List.append_nil]

/-- A message that is taken and not returned is missing, unless it is empty. -/
theorem eq_nil_of_held {all m : List UInt8} {k k' : Kcb} {cap : ℕ} (hall : r.delivered.flatten ++ k.held = all)
    (hr : k.recv b.profile cap = some (.ok m, k')) (hlost : r.delivered.flatten ++ k'.held = all) : m = [] := by
  have hm : m ++ k'.held = k.held := recv_queues hr
  have h : r.delivered.flatten ++ (m ++ k'.held) = r.delivered.flatten ++ k'.held := by rw [hm, hall, hlost]
  exact List.append_left_eq_self.mp (List.append_cancel_left h)

theorem fits_of_lossless {all : List UInt8} (hall : r.bytes = all) (h : Lossless b all r c) : Fits b r c := by
  intro s m hsock hn
  have hans := answer_of hsock
  have hheld : r.delivered.flatten ++ s.kcb.held = all := by
    rw [held_readSocket hsock]
    exact hall
  obtain ⟨hq, hp, k, hk⟩ := recv_next hn
  -- otherwise every later read meets the same short buffer, and the message is never delivered
  have hbuf : m.length ≤ s.buf.length := by
    by_contra hlt
    rw [Nat.not_le] at hlt
    rw [KcpStream.readKcb_short hn hlt] at hans
    obtain ⟨later, r', hrun, hpre⟩ := (h _ hans).2 _ rfl [m] (.cons (by rw [hk, if_pos le_rfl]) (.nil k))
    have hstuck : (r.after (.error shortBuffer, s)).Stuck b := by
      refine ⟨hq, m.length, hp, fun c' => ?_⟩
      obtain ⟨-, -, f3, f4⟩ := readSocket_frame hsock
      rw [length_handed (r := r) (by rw [← server_handed r c]; exact f4) ?_ c' c]
      · rw [← f3]
        exact hlt
      · intro hserver
        show s.buf = r.stream.buf
        rw [f3, handed, if_pos hserver]
    rw [stuck_run hstuck hrun] at hpre
    have hlen := hpre.length_le
    simp only [List.flatten_cons, List.flatten_nil, List.append_nil, List.length_append] at hlen
    omega
  have hr : s.kcb.recv b.profile s.buf.length = some (.ok m, k) := by rw [hk, if_pos hbuf]
  -- otherwise the message is taken off the queue and dropped
  have hcap : m.length ≤ c.cap := by
    by_contra hlt
    rw [Nat.not_le] at hlt
    rw [KcpStream.readKcb_dropped hr hlt] at hans
    have hlost := (h _ hans).1
    rw [eq_nil_of_held hheld hr ((bytes_unreturned rfl).symm.trans hlost)] at hlt
    exact Nat.not_lt_zero _ hlt
  exact ⟨hbuf, hcap⟩

theorem lossless_of_fits {all : List UInt8} (hall : r.bytes = all) (h : Fits b r c) : Lossless b all r c := by
  rintro ⟨q, s'⟩ hans
  have hnothing : ∀ (q : Except IoError (List UInt8)) (s : KcpStream Addr), returnedBy q = [] →
      s.kcb.held = r.stream.kcb.held → (r.after (q, s)).bytes = all := by
    intro q s hq hs
    rw [bytes_unreturned hq, hs]
    exact hall
  simp only [answer, KcpStream.tryRead, Option.bind_eq_bind, Option.bind_eq_some_iff] at hans
  obtain ⟨s, hsock, hans⟩ := hans
  have hs := held_readSocket hsock
  cases KcpStream.readsKcb_of_readKcb hans with
  | none e hn =>
    refine ⟨hnothing _ s' rfl hs, fun e' he ms hms => ?_⟩
    rw [hms.eq_nil hn]
    exact ⟨[], _, run_nil _, by simp⟩
  | short m hn hbuf => exact absurd (h s' m hsock hn).1 (Nat.not_le.mpr hbuf)
  | dropped m k hn hbuf hr hcap => exact absurd (h s m hsock hn).2 (Nat.not_le.mpr hcap)
  | returned m k k₁ dur hn hbuf hr hcap ht =>
    refine ⟨?_, fun e he => by cases he⟩
    have hm : m ++ k.held = s.kcb.held := recv_queues hr
    simp only [bytes, after, returnedBy, List.flatten_append, List.flatten_cons, List.flatten_nil, List.append_nil,
      List.append_assoc, KcpStream.setKcb_kcb]
    rw [held_tick ht, hm, hs]
    exact hall

/-- **A run of reads loses nothing exactly when every message that is met fits**: the scratch buffer, and the caller's
buffer. -/
theorem lossless_iff_fits (b : Build) (s : KcpStream Addr) (calls : List ReadCall) :
    Meets (step b) (Lossless b s.kcb.held) { stream := s } calls ↔ Meets (step b) (Fits b) { stream := s } calls := by
  refine meets_congr (I := fun r => r.bytes = s.kcb.held) ?_ ?_ rfl
  · intro r c r' _ hl hstep
    obtain ⟨x, hx, rfl⟩ := Option.map_eq_some_iff.mp hstep
    exact (hl x hx).1
  · intro r c hr
    exact ⟨fits_of_lossless hr, lossless_of_fits hr⟩

/-- The address `127.0.0.1:8080` of a connection request, as one segment. -/
def addressSegment : Segment :=
  { conv := 7, cmd := kcpCmdPush, wnd := 128, data := [1, 127, 0, 0, 1, 31, 144] }

/-- A stream accepted with that segment. -/
def addressed : Option (KcpStream Unit) := do
  let s ← KcpStream.opened ⟨.release, bytesMut⟩ 7 () true 0 0
  let (_, s) ← s.udpRecvAndIucUpdate ⟨.release, bytesMut⟩ (some (addressSegment.encode, 31, ())) ⟨5, 5⟩ (.ok ())
  some s

/-- A read of the first byte of an address, as `Address::read_from` makes it, loses the whole address. -/
theorem one_byte_read_loses :
    ∃ s, addressed = some s ∧ s.kcb.held = addressSegment.data ∧
      ¬ Meets (step ⟨.release, bytesMut⟩) (Lossless ⟨.release, bytesMut⟩ s.kcb.held) { stream := s }
        [{ cap := 1, env := { udp := ⟨5, 5⟩, check := ⟨5, 5⟩ } }] := by
  obtain ⟨s, hs⟩ : ∃ s, addressed = some s := Option.isSome_iff_exists.mp (by decide +kernel)
  have hheld : addressed.map (fun s => s.kcb.held) = some addressSegment.data := by decide +kernel
  have hread : (addressed.bind fun s => answer ⟨.release, bytesMut⟩ { stream := s }
      { cap := 1, env := { udp := ⟨5, 5⟩, check := ⟨5, 5⟩ } }).map (fun x => (x.1, x.2.kcb.held)) =
        some (.error KcpStream.wouldBlock, []) := by decide +kernel
  simp only [hs, Option.map_some, Option.bind_some, Option.some.injEq] at hheld hread
  refine ⟨s, hs, hheld, fun hm => ?_⟩
  obtain ⟨⟨q, s'⟩, hans, hx⟩ := Option.map_eq_some_iff.mp hread
  simp only [Prod.mk.injEq] at hx
  have hall := (hm.1 _ hans).1
  rw [hx.1, bytes_unreturned rfl, hx.2, hheld] at hall
  simp [addressSegment] at hall

end Reader

end NetProtocols.Kcp
