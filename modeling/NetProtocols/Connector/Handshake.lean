import NetProtocols.Lib.Demand
import NetProtocols.Socks.Address
import NetProtocols.Kcp.Serving

/-!
# NetProtocols.Connector.Handshake — `TcpConnector::new` and the handshake of `KcpListener`

`new` reads an address off a stream and connects to it; `KcpListener` calls it on the streams that it has accepted.

* `Address.reads`: `read_from` as a computation that reads exact amounts; `onStream_reads`: on a `ByteStream` it is the
  function `readFrom`.
* `TcpConnector.new`: `new` on any stream, polled in any way.
* `new_carries`: a stream that carries bytes, in whatever pieces.
* `KcpStream.asyncRead`, `new_server`: the streams that `accept` returns.
* `Mapping`: a listener with `remote_tcps`; `never_mapped`: no handshake ever adds to it.
-/

namespace NetProtocols.Socks.Address

/-! ## `read_from` on any stream -/

/-- The branch of `read_from` for `SOCKS5_ADDR_TYPE_IPV4`; `none` is a panic of the cursor. -/
def ipv4Reads : Demand (Option (Except Error Address)) :=
  .read 6 fun buf => .done do
    let (a, cursor) ← getU8 buf
    let (b, cursor) ← getU8 cursor
    let (c, cursor) ← getU8 cursor
    let (d, cursor) ← getU8 cursor
    let (port, _) ← getU16be cursor
    some (.ok (.socketAddress (.v4 ⟨⟨a, b, c, d⟩, port⟩)))

/-- The branch for `SOCKS5_ADDR_TYPE_IPV6`. -/
def ipv6Reads : Demand (Option (Except Error Address)) :=
  .read 18 fun buf => .done do
    let (a, cursor) ← getU16be buf
    let (b, cursor) ← getU16be cursor
    let (c, cursor) ← getU16be cursor
    let (d, cursor) ← getU16be cursor
    let (e, cursor) ← getU16be cursor
    let (f, cursor) ← getU16be cursor
    let (g, cursor) ← getU16be cursor
    let (h, cursor) ← getU16be cursor
    let (port, _) ← getU16be cursor
    some (.ok (.socketAddress (.v6 ⟨⟨a, b, c, d, e, f, g, h⟩, port, 0, 0⟩)))

/-- The branch for `SOCKS5_ADDR_TYPE_DOMAIN_NAME`. -/
def domainNameReads : Demand (Option (Except Error Address)) :=
  .read 1 fun lengthBuf =>
    match getU8 lengthBuf with
    | none => .done none
    | some (len, _) => .read (len.toNat + 2) fun buf => .done
      (match utf8String (buf.take len.toNat) with
      | none => some (.error ⟨.generalFailure, "Invalid address encoding"⟩)
      | some addr => do
        let (port, _) ← getU16be (buf.drop len.toNat)
        some (.ok (.domainNameAddress addr port)))

/-- `read_from`. -/
def reads : Demand (Option (Except Error Address)) :=
  .read 1 fun addrTypeBuf =>
    match getU8 addrTypeBuf with
    | none => .done none
    | some (addrType, _) =>
      if addrType = socks5AddrTypeIpv4 then ipv4Reads
      else if addrType = socks5AddrTypeIpv6 then ipv6Reads
      else if addrType = socks5AddrTypeDomainName then domainNameReads
      else .done (some (.error ⟨.addressTypeNotSupported, "Not supported address type"⟩))

/-- The result of a computation on the bytes of a stream that fails behind them. -/
def onStream (t : Demand (Option (Except Error Address))) (s : ByteStream) :
    Option (Except Error (Address × ByteStream)) :=
  match t.onBytes s.bytes with
  | none => some (.error (.ofIo s.failure))
  | some (r, rest) => do
    match ← r with
    | .error e => some (.error e)
    | .ok a => some (.ok (a, ⟨rest, s.failure⟩))

theorem onStream_read (n : ℕ) (next : List UInt8 → Demand (Option (Except Error Address))) (s : ByteStream) :
    onStream (.read n next) s = s.readExact n fun buf s => onStream (next buf) s := by
  unfold onStream ByteStream.readExact
  rw [Demand.onBytes]
  split_ifs <;> rfl

theorem onStream_done (r : Option (Except Error Address)) (s : ByteStream) :
    onStream (.done r) s = r.bind fun r => some (r.map fun a => (a, s)) := by
  rcases r with _ | _ | a <;> rfl

/-- **The computation is `readFrom`.** -/
theorem onStream_reads (s : ByteStream) : onStream reads s = readFrom s := by
  have h4 : ∀ s, onStream ipv4Reads s = readIpv4 s := by
    intro s
    rw [ipv4Reads, onStream_read, readIpv4]
    congr 1
    funext buf s
    rw [onStream_done]
    simp [Option.bind_assoc, Except.map]
  have h6 : ∀ s, onStream ipv6Reads s = readIpv6 s := by
    intro s
    rw [ipv6Reads, onStream_read, readIpv6]
    congr 1
    funext buf s
    rw [onStream_done]
    simp [Option.bind_assoc, Except.map]
  have hd : ∀ s, onStream domainNameReads s = readDomainName s := by
    intro s
    rw [domainNameReads, onStream_read, readDomainName]
    congr 1
    funext lengthBuf s
    cases hl : getU8 lengthBuf with
    | none => rfl
    | some x =>
      simp only [Option.bind_eq_bind, Option.bind_some]
      rw [onStream_read]
      congr 1
      funext buf s
      rw [onStream_done]
      cases utf8String (buf.take x.1.toNat) with
      | none => rfl
      | some addr => simp [Option.bind_assoc, Except.map]
  rw [reads, onStream_read, readFrom]
  congr 1
  funext buf s
  cases hl : getU8 buf with
  | none => rfl
  | some x =>
    simp only [Option.bind_eq_bind, Option.bind_some]
    split_ifs
    · exact h4 s
    · exact h6 s
    · exact hd s
    · rfl

theorem needs_reads (addrTypeBuf : List UInt8) {next : List UInt8 → Demand (Option (Except Error Address))}
    (h : reads = .read 1 next) : (next addrTypeBuf).Needs fun r => ∀ a, r ≠ some (.ok a) := by
  obtain rfl := (Demand.read.inj h).2
  dsimp only
  cases getU8 addrTypeBuf with
  | none => exact fun a ha => by cases ha
  | some x =>
    dsimp only
    split_ifs
    · exact Nat.succ_pos 5
    · exact Nat.succ_pos 17
    · exact Nat.one_pos
    · exact fun a ha => by cases ha

end NetProtocols.Socks.Address

namespace NetProtocols.Connector

open NetProtocols.Kcp NetProtocols.Socks

/-! ## `TcpConnector::new` -/

/-- The error of `read_exact` at the end of a stream. -/
def earlyEof : IoError := ⟨.unexpectedEof, "early eof"⟩

/-- `Address::read_from`, awaited on the stream. -/
def readFromStream {R γ : Type} (src : Source R γ IoError) (polls : List γ) (stream : R) :
    Option (Await Error Address × R × List γ) := do
  let (r, stream, polls) ← Address.reads.await src earlyEof polls stream
  match r with
  | .done r => do
    match ← r with
    | .ok addr => some (.done addr, stream, polls)
    | .error err => some (.failed err, stream, polls)
  | .failed e => some (.failed (.ofIo e.msg), stream, polls)
  | .waiting => some (.waiting, stream, polls)

/-- What `new` fails with, boxed. -/
inductive NewError
  | address (err : Error)
  | io (err : IoError)
  deriving DecidableEq

/-- What `TcpStream::connect` answers, to a socket address and to a name with a port. -/
structure Remote (Tcp : Type) where
  byAddress : SocketAddr → Except IoError Tcp
  byName : String → UInt16 → Except IoError Tcp

/-- The connection to an address that has been read. -/
def Remote.connect {Tcp : Type} (remote : Remote Tcp) : Address → Except IoError Tcp
  | .socketAddress saddr => remote.byAddress saddr
  | .domainNameAddress dname port => remote.byName dname port

/-- `new`.  The stream comes back with the connection; here it comes back in every case, as the polls have left it. -/
def TcpConnector.new {R γ Tcp : Type} (src : Source R γ IoError) (remote : Remote Tcp) (polls : List γ) (stream : R) :
    Option (Await NewError Tcp × R × List γ) := do
  let (r, stream, polls) ← readFromStream src polls stream
  match r with
  | .done remoteAddr =>
    match remote.connect remoteAddr with
    | .ok s => some (.done s, stream, polls)
    | .error err => some (.failed (.io err), stream, polls)
  | .failed err => some (.failed (.address err), stream, polls)
  | .waiting => some (.waiting, stream, polls)

/-! ### A stream of bytes -/

section Carries

variable {R γ Tcp : Type} {src : Source R γ IoError} {e : IoError} {rest : R → List UInt8} {ready : γ → Bool}
  {remote : Remote Tcp} {polls : List γ}

/-- Reading an address off a stream that carries bytes gives what reading it off the bytes gives. -/
theorem readFromStream_carries (hc : Carries src earlyEof e rest ready) (s : R)
    (hp : (rest s).length < polls.countP ready) :
    (readFromStream src polls s = none ∧ Address.readFrom ⟨rest s, e.msg⟩ = none) ∨
      ∃ r s' polls', readFromStream src polls s = some (r, s', polls') ∧
        ((∃ err, r = .failed err ∧ Address.readFrom ⟨rest s, e.msg⟩ = some (.error err)) ∨
          ∃ a, r = .done a ∧ Address.readFrom ⟨rest s, e.msg⟩ = some (.ok (a, ⟨rest s', e.msg⟩))) := by
  obtain ⟨r, s', polls', hr, h⟩ := await_carries hc Address.reads polls s
  simp only [← Address.onStream_reads, Address.onStream, readFromStream, hr, Option.bind_eq_bind, Option.bind_some]
  rcases h with ⟨rfl, hcount⟩ | ⟨rfl, hon⟩ | ⟨x, rfl, hon⟩
  · exact absurd hp (Nat.not_lt.mpr hcount)
  · rw [hon]
    exact Or.inr ⟨_, s', polls', rfl, Or.inl ⟨_, rfl, rfl⟩⟩
  · rw [hon]
    rcases x with _ | err | a
    · exact Or.inl ⟨rfl, rfl⟩
    · exact Or.inr ⟨_, s', polls', rfl, Or.inl ⟨err, rfl, rfl⟩⟩
    · exact Or.inr ⟨_, s', polls', rfl, Or.inr ⟨a, rfl, rfl⟩⟩

/-- **`new` on a stream of bytes**, in whatever pieces and however late they come: it connects exactly when the stream
begins with the wire form of an address that can be connected to, and it leaves what stands behind that form. -/
theorem new_carries (hc : Carries src earlyEof e rest ready) (s : R) (hp : (rest s).length < polls.countP ready)
    (tcp : Tcp) (left : List UInt8) :
    (∃ s' polls', TcpConnector.new src remote polls s = some (.done tcp, s', polls') ∧ rest s' = left) ↔
      ∃ a : Address, a.Encodable ∧ rest s = a.wire ++ left ∧ remote.connect a = .ok tcp := by
  unfold TcpConnector.new
  constructor
  · rintro ⟨s', polls', hnew, rfl⟩
    rcases readFromStream_carries hc s hp with ⟨hnone, -⟩ | ⟨r, s₁, polls₁, hr, h⟩
    · simp [hnone] at hnew
    · simp only [hr, Option.bind_eq_bind, Option.bind_some] at hnew
      rcases h with ⟨err, rfl, -⟩ | ⟨a, rfl, hread⟩
      · simp at hnew
      · obtain ⟨ha, hbytes⟩ := Address.wire_of_readFrom hread
        cases hcon : remote.connect a with
        | error err => simp [hcon] at hnew
        | ok tcp' =>
          simp only [hcon, Option.some.injEq, Prod.mk.injEq, Await.done.injEq] at hnew
          obtain ⟨rfl, rfl, rfl⟩ := hnew
          exact ⟨a, ha, hbytes, hcon⟩
  · rintro ⟨a, ha, hbytes, hcon⟩
    have hwire := Address.readFrom_wire ha left e.msg
    rw [← hbytes] at hwire
    rcases readFromStream_carries hc s hp with ⟨-, hnone⟩ | ⟨r, s₁, polls₁, hr, h⟩
    · rw [hnone] at hwire
      cases hwire
    · rcases h with ⟨err, -, herr⟩ | ⟨a', rfl, hread⟩
      · rw [herr] at hwire
        cases hwire
      · rw [hread] at hwire
        simp only [Option.some.injEq, Except.ok.injEq, Prod.mk.injEq, ByteStream.mk.injEq, and_true] at hwire
        obtain ⟨rfl, rfl⟩ := hwire
        exact ⟨s₁, polls₁, by simp [hr, hcon], rfl⟩

end Carries

/-- A stream that a poll finds not ready, or with so many bytes and one more. -/
def inPieces : Source (List UInt8) (Option ℕ) IoError
  | bytes, none, _ => some (.pending, bytes)
  | bytes, some n, cap => some (.got (bytes.take (min (n + 1) cap)), bytes.drop (min (n + 1) cap))

theorem carries_inPieces : Carries inPieces earlyEof earlyEof id Option.isSome := by
  constructor
  · intro s c cap hc
    cases c with
    | none => exact ⟨s, rfl, rfl⟩
    | some n => simp at hc
  · intro s c cap hc hcap hne
    cases c with
    | none => simp at hc
    | some n =>
      have hpos : 0 < s.length := List.length_pos_iff.mpr hne
      refine ⟨_, _, rfl, ?_, ?_, (List.take_append_drop _ s).symm⟩
      · rw [← List.length_pos_iff, List.length_take]
        omega
      · rw [List.length_take]
        omega
  · intro s c cap hc hnil
    cases c with
    | none => simp at hc
    | some n =>
      obtain rfl : s = [] := hnil
      exact ⟨_, _, rfl, by simp, Or.inr ⟨by simp, rfl⟩⟩

/-- The address `127.0.0.1:8080` and a byte behind it, one byte at a poll and with a poll in vain. -/
theorem new_carries_bytewise :
    ∃ s' polls', TcpConnector.new inPieces ⟨fun a => .ok (Address.socketAddress a), fun _ _ => .error earlyEof⟩
      (none :: List.replicate 9 (some 0)) [1, 127, 0, 0, 1, 31, 144, 5] =
        some (.done (.socketAddress (.v4 ⟨⟨127, 0, 0, 1⟩, 8080⟩)), s', polls') ∧ id s' = [5] := by
  refine (new_carries carries_inPieces _ (by decide) _ _).mpr
    ⟨.socketAddress (.v4 ⟨⟨127, 0, 0, 1⟩, 8080⟩), trivial, rfl, rfl⟩

/-! ### The streams of the listener -/

section Server

variable {Addr Tcp : Type} {b : Build} {remote : Remote Tcp}

/-- A poll of a `KcpStream`: the control block as the clones of the stream have left it, the datagrams that arrive
during the poll, and what the server's branch meets. -/
structure StreamPoll (Addr : Type) where
  kcb : Kcb
  arrivals : List (Arrival Addr) := []
  env : ReadEnv

/-- `poll_read` of a `KcpStream`.  A client that is still in its loop when the datagrams are used up goes on with those
of the next poll. -/
def KcpStream.asyncRead (b : Build) : Source (KcpStream Addr) (StreamPoll Addr) IoError := fun s c cap => do
  let (r, s) ← (s.setKcb c.kcb).pollRead b cap c.arrivals c.env
  match r with
  | .spins | .returned .pending _ => some (.pending, s)
  | .returned (.ready (.error e)) _ => some (.failed e, s)
  | .returned (.ready (.ok m)) _ => some (.got m, s)

/-- On a server's stream a poll is a `try_read`. -/
theorem tryRead_of_asyncRead {s s' : KcpStream Addr} {c : StreamPoll Addr} {cap : ℕ} {r : Polled IoError}
    (hs : s.server = true) (h : KcpStream.asyncRead b s c cap = some (r, s')) :
    ∃ q, (s.setKcb c.kcb).tryRead b cap c.env = some (q, s') ∧
      ((∃ e, q = .error e ∧ r = .failed e) ∨ ∃ m, q = .ok m ∧ r = .got m) := by
  simp only [KcpStream.asyncRead, KcpStream.pollRead, KcpStream.setKcb_server, hs, Bool.not_true, Bool.false_eq_true,
    if_false, Option.bind_eq_bind, Option.bind_eq_some_iff, Option.some.injEq] at h
  obtain ⟨⟨x, s₁⟩, ⟨⟨q, s₂⟩, ht, hx⟩, h⟩ := h
  obtain ⟨rfl, rfl⟩ := Prod.mk.inj hx
  rcases q with e | m <;> simp only [Option.some.injEq, Prod.mk.injEq] at h <;> obtain ⟨rfl, rfl⟩ := h
  · exact ⟨_, ht, Or.inl ⟨e, rfl, rfl⟩⟩
  · exact ⟨_, ht, Or.inr ⟨m, rfl, rfl⟩⟩

/-- A server's stream whose scratch buffer is used up. -/
def Spent (s : KcpStream Addr) : Prop := s.server = true ∧ s.buf = []

/-- What `try_read` makes of the scratch buffer: a message that it returns has been in it, and uses it up. -/
theorem tryRead_buf {s s' : KcpStream Addr} {cap : ℕ} {env : ReadEnv} {q : Except IoError (List UInt8)}
    (h : s.tryRead b cap env = some (q, s')) :
    s'.server = s.server ∧ (∀ m, q = .ok m → s'.buf = [] ∧ m.length ≤ s.buf.length) ∧ (s.buf = [] → s'.buf = []) := by
  simp only [KcpStream.tryRead, Option.bind_eq_bind, Option.bind_eq_some_iff] at h
  obtain ⟨s₀, hsock, h⟩ := h
  obtain ⟨-, -, hbuf, hserver⟩ := Reader.readSocket_frame hsock
  rw [← hbuf, ← hserver]
  cases KcpStream.readsKcb_of_readKcb h with
  | none e hn => exact ⟨rfl, fun m hm => absurd hm (by simp), id⟩
  | short m hn hlt => exact ⟨rfl, fun m hm => absurd hm (by simp), id⟩
  | dropped m k hn hle hr hcap =>
    refine ⟨rfl, fun m hm => absurd hm (by simp), fun hnil => ?_⟩
    have hm : m = [] := by simpa [hnil] using hle
    simp [KcpStream.took, hm, hnil]
  | returned m k k₁ dur hn hle hr hcap ht =>
    refine ⟨rfl, fun m' hm => ?_, fun _ => rfl⟩
    cases hm
    exact ⟨rfl, hle⟩

theorem dry_spent : Dry (KcpStream.asyncRead b) fun s : KcpStream Addr => Spent s := by
  intro s c cap r s' hs h
  obtain ⟨q, ht, hq⟩ := tryRead_of_asyncRead hs.1 h
  obtain ⟨hserver, hok, hnil⟩ := tryRead_buf ht
  refine ⟨⟨hserver.trans hs.1, hnil hs.2⟩, ?_⟩
  rintro bytes rfl
  rcases hq with ⟨e, -, hr⟩ | ⟨m, hm, hr⟩
  · cases hr
  · cases hr
    have hlen := (hok bytes hm).2
    rw [KcpStream.setKcb_buf, hs.2] at hlen
    exact List.length_eq_zero_iff.mp (Nat.le_zero.mp hlen)

theorem driesUp_spent : DriesUp (KcpStream.asyncRead b) (fun s : KcpStream Addr => s.server = true) Spent := by
  intro s c cap r s' hs h
  obtain ⟨q, ht, hq⟩ := tryRead_of_asyncRead hs h
  obtain ⟨hserver, hok, -⟩ := tryRead_buf ht
  rcases hq with ⟨e, -, hr⟩ | ⟨m, hm, -⟩
  · exact Or.inr (Or.inr ⟨e, hr⟩)
  · exact Or.inl ⟨hserver.trans hs, (hok m hm).1⟩

/-- **On a server's stream `new` never returns a connection**: the first read of `read_from` uses up the scratch buffer
into which the control block would hand over the next bytes. -/
theorem new_server {s s' : KcpStream Addr} {polls polls' : List (StreamPoll Addr)} {tcp : Tcp}
    (hs : s.server = true) :
    TcpConnector.new (KcpStream.asyncRead b) remote polls s ≠ some (.done tcp, s', polls') := by
  intro h
  simp only [TcpConnector.new, readFromStream, Option.bind_eq_bind, Option.bind_eq_some_iff] at h
  obtain ⟨⟨r, s₁, polls₁⟩, ⟨⟨x, s₂, polls₂⟩, hr, hx⟩, h⟩ := h
  have hbad : ∀ y, x = .done y → ∀ a, y ≠ some (.ok a) := by
    rintro y rfl
    exact await_driesUp dry_spent driesUp_spent Nat.one_pos (fun buf => Address.needs_reads buf rfl) hs hr
  rcases x with (_ | err | a) | e | _
  · cases hx
  · obtain ⟨rfl, -⟩ := Prod.mk.inj (Option.some.inj hx)
    cases h
  · exact absurd rfl (hbad _ rfl a)
  · obtain ⟨rfl, -⟩ := Prod.mk.inj (Option.some.inj hx)
    cases h
  · obtain ⟨rfl, -⟩ := Prod.mk.inj (Option.some.inj hx)
    cases h

end Server

/-! ## The handshake of the listener -/

/-- `struct KcpListener` with `remote_tcps`, and the addresses for which `auto_map` has returned `Ok`. -/
structure Mapping (Addr Tcp : Type) where
  serving : Serving Addr
  remoteTcps : Addr → Option Tcp
  mapped : List Addr := []

/-- What is outside of a call of `auto_map`: the answers of `TcpStream::connect`, the polls of the stream, and what
`write_all` makes of a connection, whether it succeeds or not. -/
structure MapEnv (Addr Tcp : Type) where
  remote : Remote Tcp
  polls : List (StreamPoll Addr)
  writeAll : Tcp → List UInt8 → Tcp

/-- The calls of the listener. -/
inductive MapAct (Addr Tcp : Type)
  | serve (act : ServeAct Addr)
  | shakeHand (env : MapEnv Addr Tcp) (kStream : KcpStream Addr)
  | autoMap (env : MapEnv Addr Tcp) (kStream : KcpStream Addr)

/-- `read(&mut buf)` into a buffer of `cap` bytes. -/
def read {R γ : Type} (src : Source R γ IoError) (cap : ℕ) :
    List γ → R → Option (Await IoError (List UInt8) × R × List γ)
  | [], s => some (.waiting, s, [])
  | c :: polls, s => do
    let (r, s) ← src s c cap
    match r with
    | .pending => read src cap polls s
    | .failed e => some (.failed e, s, polls)
    | .got bytes => some (.done bytes, s, polls)

namespace Mapping

variable {Addr Tcp : Type} [DecidableEq Addr] {b : Build}

/-- `bind`. -/
def start : Mapping Addr Tcp where
  serving := .start
  remoteTcps := fun _ => none

/-- `self.remote_tcps.insert`, and writing to a connection that is there. -/
def setTcp (l : Mapping Addr Tcp) (a : Addr) (tcp : Tcp) : Mapping Addr Tcp :=
  { l with remoteTcps := Function.update l.remoteTcps a (some tcp) }

/-- `shake_hand`. -/
def shakeHand (b : Build) (l : Mapping Addr Tcp) (env : MapEnv Addr Tcp) (kStream : KcpStream Addr) :
    Option (Await NewError (KcpStream Addr) × Mapping Addr Tcp) := do
  let (r, kShakedStream, _) ← TcpConnector.new (KcpStream.asyncRead b) env.remote env.polls kStream
  match r with
  | .done remoteSocket => some (.done kShakedStream, l.setTcp kShakedStream.frAddr remoteSocket)
  | .failed err => some (.failed err, l)
  | .waiting => some (.waiting, l)

/-- `auto_map`. -/
def autoMap (b : Build) (l : Mapping Addr Tcp) (env : MapEnv Addr Tcp) (kStream : KcpStream Addr) :
    Option (Await NewError Unit × Mapping Addr Tcp) :=
  match l.remoteTcps kStream.frAddr with
  | some tcpS => do
    let (r, _, _) ← read (KcpStream.asyncRead b) 1024 env.polls kStream
    match r with
    | .done bytes => some (.done (), l.setTcp kStream.frAddr (env.writeAll tcpS bytes))
    | .failed err => some (.failed (.io err), l)
    | .waiting => some (.waiting, l)
  | none => do
    let (r, l) ← l.shakeHand b env kStream
    match r with
    | .done _ => some (.done (), l)
    | .failed err => some (.failed err, l)
    | .waiting => some (.waiting, l)

/-- One call. -/
def step (b : Build) (l : Mapping Addr Tcp) : MapAct Addr Tcp → Option (Mapping Addr Tcp)
  | .serve act => (l.serving.step b act).map fun s => { l with serving := s }
  | .shakeHand env kStream => (l.shakeHand b env kStream).map Prod.snd
  | .autoMap env kStream => (l.autoMap b env kStream).map fun x =>
    if x.1 = .done () then { x.2 with mapped := x.2.mapped ++ [kStream.frAddr] } else x.2

/-- The stream is one that `accept` has returned, as its reads and writes have left it. -/
def Known (l : Mapping Addr Tcp) (s : KcpStream Addr) : Prop :=
  ∃ x ∈ l.serving.handed, s.server = x.1.server ∧ s.frAddr = x.1.frAddr

instance (l : Mapping Addr Tcp) (s : KcpStream Addr) : Decidable (l.Known s) :=
  inferInstanceAs (Decidable (∃ x ∈ l.serving.handed, _))

/-- The streams that the listener is called with are those that it has handed out. -/
def Returns (l : Mapping Addr Tcp) : MapAct Addr Tcp → Prop
  | .serve (.updateConnection s) | .shakeHand _ s | .autoMap _ s => l.Known s
  | .serve _ => True

instance (l : Mapping Addr Tcp) : (act : MapAct Addr Tcp) → Decidable (l.Returns act)
  | .serve (.updateConnection s) | .shakeHand _ s | .autoMap _ s => inferInstanceAs (Decidable (l.Known s))
  | .serve (.accept _) | .serve (.dropStream _) | .serve (.shared _ _) => inferInstanceAs (Decidable True)

/-- No connection to a remote has been made. -/
structure Unmapped (l : Mapping Addr Tcp) : Prop where
  servers : l.serving.Servers
  remoteTcps : ∀ a, l.remoteTcps a = none
  mapped : l.mapped = []

omit [DecidableEq Addr] in
theorem Unmapped.server {l : Mapping Addr Tcp} {s : KcpStream Addr} (h : l.Unmapped) (hs : l.Known s) :
    s.server = true := by
  obtain ⟨x, hx, hserver, -⟩ := hs
  exact hserver.trans (h.servers.2 x hx)

theorem shakeHand_server {l l' : Mapping Addr Tcp} {env : MapEnv Addr Tcp} {s : KcpStream Addr}
    {r : Await NewError (KcpStream Addr)} (hs : s.server = true) (h : l.shakeHand b env s = some (r, l')) :
    l' = l ∧ ∀ x, r ≠ .done x := by
  simp only [shakeHand, Option.bind_eq_bind, Option.bind_eq_some_iff] at h
  obtain ⟨⟨q, s', polls⟩, hnew, h⟩ := h
  cases q with
  | done tcp => exact absurd hnew (new_server hs)
  | failed err =>
    obtain ⟨rfl, rfl⟩ := Prod.mk.inj (Option.some.inj h)
    exact ⟨rfl, fun x hx => by cases hx⟩
  | waiting =>
    obtain ⟨rfl, rfl⟩ := Prod.mk.inj (Option.some.inj h)
    exact ⟨rfl, fun x hx => by cases hx⟩

theorem autoMap_server {l l' : Mapping Addr Tcp} {env : MapEnv Addr Tcp} {s : KcpStream Addr} {r : Await NewError Unit}
    (hs : s.server = true) (hl : l.remoteTcps s.frAddr = none) (h : l.autoMap b env s = some (r, l')) :
    l' = l ∧ r ≠ .done () := by
  simp only [autoMap, hl, Option.bind_eq_bind, Option.bind_eq_some_iff] at h
  obtain ⟨⟨q, l₁⟩, hshake, h⟩ := h
  obtain ⟨rfl, hq⟩ := shakeHand_server hs hshake
  cases q with
  | done x => exact absurd rfl (hq x)
  | failed err =>
    obtain ⟨rfl, rfl⟩ := Prod.mk.inj (Option.some.inj h)
    exact ⟨rfl, fun hx => by cases hx⟩
  | waiting =>
    obtain ⟨rfl, rfl⟩ := Prod.mk.inj (Option.some.inj h)
    exact ⟨rfl, fun hx => by cases hx⟩

theorem unmapped_step {l l' : Mapping Addr Tcp} {act : MapAct Addr Tcp} (hl : l.Unmapped) (hact : l.Returns act)
    (h : l.step b act = some l') : l'.Unmapped := by
  cases act with
  | serve act =>
    obtain ⟨s, hs, rfl⟩ := Option.map_eq_some_iff.mp h
    refine ⟨Serving.servers_step hl.servers ?_ hs, hl.remoteTcps, hl.mapped⟩
    cases act with
    | updateConnection kcpStream => exact hl.server hact
    | accept | dropStream | shared => trivial
  | shakeHand env s =>
    obtain ⟨⟨r, l₁⟩, hshake, rfl⟩ := Option.map_eq_some_iff.mp h
    exact (shakeHand_server (hl.server hact) hshake).1 ▸ hl
  | autoMap env s =>
    obtain ⟨⟨r, l₁⟩, hmap, rfl⟩ := Option.map_eq_some_iff.mp h
    obtain ⟨rfl, hr⟩ := autoMap_server (hl.server hact) (hl.remoteTcps _) hmap
    rw [if_neg hr]
    exact hl

/-- **No handshake is ever completed**: in every run of the listener `remote_tcps` stays empty and `auto_map` never
returns `Ok`, whatever the clients send and whatever the remotes answer. -/
theorem never_mapped {acts : List (MapAct Addr Tcp)} {l : Mapping Addr Tcp}
    (hm : Meets (step b) Returns start acts) (hr : run (step b) start acts = some l) :
    (∀ a, l.remoteTcps a = none) ∧ l.mapped = [] := by
  have h : l.Unmapped := by
    refine run_invariant_of_meets ?_ hm hr ⟨Serving.servers_start, fun a => rfl, rfl⟩
    intro l act l' hl hact hstep
    exact unmapped_step hl hact hstep
  exact ⟨h.remoteTcps, h.mapped⟩

/-- Every connection succeeds, and the stream is polled three times. -/
def answering : MapEnv Unit Unit where
  remote := ⟨fun _ => .ok (), fun _ _ => .ok ()⟩
  polls := List.replicate 3 { kcb := Kcb.new 7, env := { udp := ⟨5, 5⟩, check := ⟨5, 5⟩ } }
  writeAll := fun tcp _ => tcp

/-- A client sends an address, and the listener maps its stream. -/
def mapping : List (MapAct Unit Unit) :=
  [.serve (.accept (Accepting.incoming Reader.addressSegment.encode)),
    .autoMap answering { kcb := Kcb.new 7, server := true, frAddr := () }]

theorem never_mapped_address :
    ∃ l, run (step shipped) start mapping = some l ∧ (∀ a, l.remoteTcps a = none) ∧ l.mapped = [] := by
  obtain ⟨l, hl⟩ : ∃ l, run (step shipped) start mapping = some l :=
    Option.isSome_iff_exists.mp (by decide +kernel)
  exact ⟨l, hl, never_mapped (by decide +kernel) hl⟩

end Mapping

end NetProtocols.Connector
