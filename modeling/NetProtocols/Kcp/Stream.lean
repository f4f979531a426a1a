import NetProtocols.Kcp.Output

/-!
# NetProtocols.Kcp.Stream — `KcpStream`: a control block as an asynchronous byte stream

`poll_read` and `poll_write` run an `async` block to its first suspension (`async_to_poll!`).  What such a block awaits
is a flush, and a flush of a stream comes to its end without a suspension or does not come to an end at all
(`Flushing.await`); so `none` is a call that does not return, and only the results of the `poll` functions are wrapped
in `Poll`.  What the outside decides is an argument of the call: the readings of the clock, what the socket delivers,
the outcome of `set_readiness`.

* `Tick`, `Kcb.tick`: `kcb.update(clock()).await; kcb.check(clock())`, which the source has four times.
* `KcpStream`: the fields of the struct that a modelled function reads or returns, and the messages taken off
  `rcv_queue` so far.  `token` is left out: nothing polls it.
* `udpRecvAndIucUpdate`, `kcpCheck`, `tryRead`, `pollRead`, `pollWrite`, `pollFlush`: the methods.
* `readLoop`: the loop of the client's `poll_read` over the datagrams that the socket delivers during the call; when
  they are used up it goes on polling a socket that has nothing, and `res` is never returned.
-/

namespace NetProtocols.Kcp

/-- The two readings of the clock that `update(clock()).await` followed by `check(clock())` makes. -/
structure Tick where
  now : UInt32
  later : UInt32
  deriving DecidableEq, Repr

namespace Kcb

/-- `kcb.update(clock()).await; kcb.check(clock())`. -/
def tick (b : Build) (k : Kcb) (t : Tick) : Option (UInt32 × Kcb) := do
  let f ← k.update b t.now
  let k ← f.await
  let dur ← k.check b.profile t.later
  some (dur, k)

end Kcb

/-- `struct KcpStream`. -/
structure KcpStream (Addr : Type) where
  kcb : Kcb
  buf : List UInt8 := []
  server : Bool
  toSend : Option (ℕ × Addr) := none
  frAddr : Addr
  init : Bool := true
  /-- History: the messages taken off `rcv_queue`. -/
  taken : List (List UInt8) := []
  deriving DecidableEq

/-- What `try_read` meets: `udp` and `readiness` in `udp_recv_and_iuc_update`, `check` in `kcp_check`. -/
structure ReadEnv where
  udp : Tick
  readiness : Except IoError Unit := .ok ()
  check : Tick
  deriving DecidableEq

/-- One turn of the loop of `poll_read`: what `recv_from` yields, and what the calls after it meet. -/
structure Arrival (Addr : Type) where
  received : Except IoError (List UInt8 × Addr)
  udp : Tick
  readiness : Except IoError Unit := .ok ()
  read : ReadEnv
  deriving DecidableEq

/-- `recv_from` into a buffer of `cap` bytes: the rest of a longer datagram is lost. -/
def recvFrom (cap : ℕ) (d : List UInt8) : List UInt8 := d.take cap

/-- What `recv_from` makes of the buffer: the rest of it keeps what it held. -/
def fillFrom (buf d : List UInt8) : List UInt8 :=
  recvFrom buf.length d ++ buf.drop (recvFrom buf.length d).length

/-- The buffer of `KcpListener::accept` and of `KcpStream::poll_read`. -/
def recvBuf : ℕ := 1024

/-- `[0; 1024]`. -/
def blankBuf : List UInt8 := List.replicate recvBuf 0

/-- The arguments of `wndsize` and `nodelay` in `KcpStream::connect` and `KcpListener::accept`. -/
def streamConfig : Config := { sndwnd := 128, rcvwnd := 128, nodelay := 0, interval := 10, resend := 0, nc := true }

namespace KcpStream

variable {Addr : Type}

/-- The stream with another control block. -/
def setKcb (s : KcpStream Addr) (k : Kcb) : KcpStream Addr := { s with kcb := k }

/-- Assignment to `buf` and `to_send`. -/
def setBuf (s : KcpStream Addr) (buf : List UInt8) (toSend : Option (ℕ × Addr)) : KcpStream Addr :=
  { s with buf := buf, toSend := toSend }

@[simp] theorem setKcb_self (s : KcpStream Addr) : s.setKcb s.kcb = s := rfl

@[simp] theorem setKcb_kcb (s : KcpStream Addr) (k : Kcb) : (s.setKcb k).kcb = k := rfl

@[simp] theorem setKcb_buf (s : KcpStream Addr) (k : Kcb) : (s.setKcb k).buf = s.buf := rfl

@[simp] theorem setKcb_toSend (s : KcpStream Addr) (k : Kcb) : (s.setKcb k).toSend = s.toSend := rfl

@[simp] theorem setKcb_server (s : KcpStream Addr) (k : Kcb) : (s.setKcb k).server = s.server := rfl

@[simp] theorem setKcb_taken (s : KcpStream Addr) (k : Kcb) : (s.setKcb k).taken = s.taken := rfl

@[simp] theorem setBuf_kcb (s : KcpStream Addr) (buf : List UInt8) (x : Option (ℕ × Addr)) :
    (s.setBuf buf x).kcb = s.kcb := rfl

@[simp] theorem setBuf_buf (s : KcpStream Addr) (buf : List UInt8) (x : Option (ℕ × Addr)) :
    (s.setBuf buf x).buf = buf := rfl

@[simp] theorem setBuf_toSend (s : KcpStream Addr) (buf : List UInt8) (x : Option (ℕ × Addr)) :
    (s.setBuf buf x).toSend = x := rfl

@[simp] theorem setBuf_server (s : KcpStream Addr) (buf : List UInt8) (x : Option (ℕ × Addr)) :
    (s.setBuf buf x).server = s.server := rfl

@[simp] theorem setBuf_taken (s : KcpStream Addr) (buf : List UInt8) (x : Option (ℕ × Addr)) :
    (s.setBuf buf x).taken = s.taken := rfl

/-- The stream after `kcb.recv(&mut self.buf)` returned the message `out`. -/
def took (s : KcpStream Addr) (k : Kcb) (out : List UInt8) : KcpStream Addr :=
  { s with kcb := k, buf := out ++ s.buf.drop out.length, taken := s.taken ++ [out] }

@[simp] theorem took_kcb (s : KcpStream Addr) (k : Kcb) (out : List UInt8) : (s.took k out).kcb = k := rfl

@[simp] theorem took_taken (s : KcpStream Addr) (k : Kcb) (out : List UInt8) :
    (s.took k out).taken = s.taken ++ [out] := rfl

/-- `udp_recv_and_iuc_update`. -/
def udpRecvAndIucUpdate (b : Build) (s : KcpStream Addr) (pre : Option (List UInt8 × ℕ × Addr)) (t : Tick)
    (readiness : Except IoError Unit) : Option (Except IoError (Option Addr) × KcpStream Addr) :=
  let s := match pre with
    | some (buf, size, a) => s.setBuf buf (some (size, a))
    | none => s
  match s.toSend with
  | none => some (.ok none, s)
  | some (size, a) => do
    -- `self.buf[..size]`
    b.profile.assert (size ≤ s.buf.length)
    let (_, k) ← s.kcb.input b.profile (s.buf.take size)
    let (_, k) ← k.tick b t
    let s := s.setKcb k
    match readiness with
    | .error e => some (.error e, s)
    | .ok () => some (.ok (some a), s.setBuf s.buf none)

/-- `kcp_check`. -/
def kcpCheck (b : Build) (s : KcpStream Addr) (t : Tick) : Option (KcpStream Addr) := do
  let (_, k) ← s.kcb.tick b t
  some (s.setKcb k)

/-- The first statement of `try_read`; an error is only reported. -/
def readSocket (b : Build) (s : KcpStream Addr) (env : ReadEnv) : Option (KcpStream Addr) :=
  if s.toSend.isNone ∨ s.buf.length = 0 then do
    let (_, s) ← s.udpRecvAndIucUpdate b none env.udp env.readiness
    some s
  else some s

/-- The rest of `try_read`, with a caller's buffer of `cap` bytes: the bytes copied into it. -/
def readKcb (b : Build) (s : KcpStream Addr) (cap : ℕ) (t : Tick) :
    Option (Except IoError (List UInt8) × KcpStream Addr) := do
  let (r, k) ← s.kcb.recv b.profile s.buf.length
  match r with
  | .error e =>
    if e.kind = .other then some (.error ⟨.other, "try read would block wait"⟩, s.setKcb k)
    else some (.error e, s.setKcb k)
  | .ok out =>
    let s := s.took k out
    if out.length ≤ cap then do
      let s ← (s.setBuf [] s.toSend).kcpCheck b t
      some (.ok out, s)
    else some (.error ⟨.wouldBlock, "must 1024 buf!"⟩, s)

/-- `try_read`. -/
def tryRead (b : Build) (s : KcpStream Addr) (cap : ℕ) (env : ReadEnv) :
    Option (Except IoError (List UInt8) × KcpStream Addr) := do
  let s ← s.readSocket b env
  s.readKcb b cap env.check

/-- How the client's `poll_read` passes on what `try_read` returned. -/
def asEof : Except IoError (List UInt8) → Except IoError (List UInt8)
  | .error e => if e.kind = .other then .error ⟨.other, "EOF"⟩ else .error e
  | .ok out => .ok out

/-- The block `f` of the client's `poll_read`, with its `unwrap`: the number of bytes received comes with the
stream. -/
def receive (s : KcpStream Addr) (received : Except IoError (List UInt8 × Addr)) : Option (ℕ × KcpStream Addr) :=
  match received with
  | .error _ => none
  | .ok (datagram, a) =>
    let u := (recvFrom recvBuf datagram).length
    some (u, s.setBuf (fillFrom blankBuf datagram) (some (u, a)))

/-- One turn of the loop of the client's `poll_read`, behind the block `f`: `res`. -/
def turn (b : Build) (s : KcpStream Addr) (cap : ℕ) (a : Arrival Addr) :
    Option (Poll (Except IoError (List UInt8)) × KcpStream Addr) := do
  let (_, s) ← s.udpRecvAndIucUpdate b none a.udp a.readiness
  let (r, s) ← s.tryRead b cap a.read
  some (.ready (asEof r), s)

end KcpStream

/-- Where a call of `poll_read` stands when the socket has delivered everything: it has returned `res`, with the
datagrams it has not received, or it is still in its loop. -/
inductive ReadEnd (Addr : Type)
  | returned (res : Poll (Except IoError (List UInt8))) (rest : List (Arrival Addr))
  | spins
  deriving DecidableEq

namespace KcpStream

variable {Addr : Type}

/-- The loop of the client's `poll_read`; `wait_or_readed` is set by a datagram of more than 24 bytes. -/
def readLoop (b : Build) (cap : ℕ) : KcpStream Addr → List (Arrival Addr) → Option (ReadEnd Addr × KcpStream Addr)
  | s, [] => some (.spins, s)
  | s, a :: rest => do
    let (u, s) ← s.receive a.received
    let (res, s) ← s.turn b cap a
    if 24 < u then some (.returned res rest, s) else readLoop b cap s rest

/-- `poll_read`; `env` is what the server's branch meets. -/
def pollRead (b : Build) (s : KcpStream Addr) (cap : ℕ) (arrivals : List (Arrival Addr)) (env : ReadEnv) :
    Option (ReadEnd Addr × KcpStream Addr) :=
  if !s.server then readLoop b cap s arrivals
  else do
    let (r, s) ← s.tryRead b cap env
    some (.returned (.ready r) arrivals, s)

/-- `poll_write`: `send` comes first, whatever becomes of the rest. -/
def pollWrite (b : Build) (s : KcpStream Addr) (buf : List UInt8) (t : Tick) :
    Option (Poll (Except IoError ℕ) × KcpStream Addr) := do
  let (result, k) ← s.kcb.send b.profile buf
  let (_, k) ← k.tick b t
  let f ← k.flush b
  let k ← f.await
  some (.ready result, s.setKcb k)

/-- `poll_flush`. -/
def pollFlush (b : Build) (s : KcpStream Addr) : Option (Poll (Except IoError Unit) × KcpStream Addr) := do
  let f ← s.kcb.flush b
  let k ← f.await
  some (.ready (.ok ()), s.setKcb k)

/-- A stream over a new control block, as `connect` and `accept` build it, after its first `kcp_check`. -/
def opened (b : Build) (conv : UInt32) (a : Addr) (server : Bool) (now later : UInt32) : Option (KcpStream Addr) := do
  let s : KcpStream Addr := { kcb := Kcb.configured conv streamConfig, server := server, frAddr := a }
  s.kcpCheck b { now := now, later := later }

/-- `connect`, with the conversation number that `rand::random` yields. -/
def connect (b : Build) (conv : UInt32) (a : Addr) (now later : UInt32) : Option (KcpStream Addr) :=
  opened b conv a false now later

end KcpStream

end NetProtocols.Kcp
