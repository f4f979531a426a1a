import NetProtocols.Lib.Bytes

/-!
# NetProtocols.Socks.Address — the address format of SOCKS5

`Address::read_from`, `write_to_buf` and `serialized_len` of `socks5/mod.rs`.  A stream is the bytes it delivers and
the error that `read_exact` reports when they run out; a panic is `none`.

* `Reply`, `Error`: what `read_from` fails with.
* `Address`, with the socket addresses of the standard library.
* `ByteStream.readExact`: `read_exact(&mut buf).await?` into a buffer of `n` bytes, and what follows it.
* `readFrom`, `writeToBuf`, `serializedLen`: the three functions, the writer with one definition for each address type.
* `readFrom_wire`, `wire_of_readFrom`: reading what was written, and writing what was read.
-/

namespace NetProtocols.Socks

/-! ## Constants -/

def socks5CmdTcpConnect : UInt8 := 0x01
def socks5AddrTypeIpv4 : UInt8 := 0x01
def socks5AddrTypeDomainName : UInt8 := 0x03
def socks5AddrTypeIpv6 : UInt8 := 0x04

/-! ## Errors -/

/-- `enum Reply`. -/
inductive Reply
  | succeeded
  | generalFailure
  | connectionNotAllowed
  | networkUnreachable
  | hostUnreachable
  | connectionRefused
  | ttlExpired
  | commandNotSupported
  | addressTypeNotSupported
  | otherReply (code : UInt8)
  deriving DecidableEq, Repr

/-- `struct Error`. -/
structure Error where
  reply : Reply
  message : String
  deriving DecidableEq, Repr

/-- `From<io::Error>`: of the error its description is kept. -/
def Error.ofIo (description : String) : Error := ⟨.generalFailure, description⟩

/-! ## Addresses -/

/-- `std::net::Ipv4Addr`. -/
structure Ipv4Addr where
  a : UInt8
  b : UInt8
  c : UInt8
  d : UInt8
  deriving DecidableEq, Repr

/-- `octets`. -/
def Ipv4Addr.octets (ip : Ipv4Addr) : List UInt8 := [ip.a, ip.b, ip.c, ip.d]

/-- `std::net::Ipv6Addr`. -/
structure Ipv6Addr where
  a : UInt16
  b : UInt16
  c : UInt16
  d : UInt16
  e : UInt16
  f : UInt16
  g : UInt16
  h : UInt16
  deriving DecidableEq, Repr

/-- `segments`. -/
def Ipv6Addr.segments (ip : Ipv6Addr) : List UInt16 := [ip.a, ip.b, ip.c, ip.d, ip.e, ip.f, ip.g, ip.h]

/-- `std::net::SocketAddrV4`. -/
structure SocketAddrV4 where
  ip : Ipv4Addr
  port : UInt16
  deriving DecidableEq, Repr

/-- `std::net::SocketAddrV6`. -/
structure SocketAddrV6 where
  ip : Ipv6Addr
  port : UInt16
  flowinfo : UInt32
  scopeId : UInt32
  deriving DecidableEq, Repr

/-- `std::net::SocketAddr`. -/
inductive SocketAddr
  | v4 (addr : SocketAddrV4)
  | v6 (addr : SocketAddrV6)
  deriving DecidableEq, Repr

/-- `enum Address`. -/
inductive Address
  | socketAddress (addr : SocketAddr)
  | domainNameAddress (dn : String) (port : UInt16)
  deriving DecidableEq, Repr

/-! ## Reading -/

/-- A stream: the bytes it delivers, and the description of the error of a read that finds too few. -/
structure ByteStream where
  bytes : List UInt8
  failure : String
  deriving DecidableEq, Repr

/-- `stream.read_exact(&mut buf).await?` into a buffer of `n` bytes; `next` is what follows. -/
def ByteStream.readExact {α : Type} (s : ByteStream) (n : ℕ)
    (next : List UInt8 → ByteStream → Option (Except Error α)) : Option (Except Error α) :=
  if n ≤ s.bytes.length then next (s.bytes.take n) { s with bytes := s.bytes.drop n }
  else some (.error (.ofIo s.failure))

namespace Address

/-- The branch of `read_from` for `SOCKS5_ADDR_TYPE_IPV4`. -/
def readIpv4 (s : ByteStream) : Option (Except Error (Address × ByteStream)) :=
  s.readExact 6 fun buf s => do
    let (a, cursor) ← getU8 buf
    let (b, cursor) ← getU8 cursor
    let (c, cursor) ← getU8 cursor
    let (d, cursor) ← getU8 cursor
    let (port, _) ← getU16be cursor
    some (.ok (.socketAddress (.v4 ⟨⟨a, b, c, d⟩, port⟩), s))

/-- The branch for `SOCKS5_ADDR_TYPE_IPV6`. -/
def readIpv6 (s : ByteStream) : Option (Except Error (Address × ByteStream)) :=
  s.readExact 18 fun buf s => do
    let (a, cursor) ← getU16be buf
    let (b, cursor) ← getU16be cursor
    let (c, cursor) ← getU16be cursor
    let (d, cursor) ← getU16be cursor
    let (e, cursor) ← getU16be cursor
    let (f, cursor) ← getU16be cursor
    let (g, cursor) ← getU16be cursor
    let (h, cursor) ← getU16be cursor
    let (port, _) ← getU16be cursor
    some (.ok (.socketAddress (.v6 ⟨⟨a, b, c, d, e, f, g, h⟩, port, 0, 0⟩), s))

/-- The branch for `SOCKS5_ADDR_TYPE_DOMAIN_NAME`. -/
def readDomainName (s : ByteStream) : Option (Except Error (Address × ByteStream)) :=
  s.readExact 1 fun lengthBuf s => do
    let (len, _) ← getU8 lengthBuf
    let length := len.toNat
    s.readExact (length + 2) fun buf s =>
      let rawAddr := buf.take length
      match utf8String rawAddr with
      | none => some (.error ⟨.generalFailure, "Invalid address encoding"⟩)
      | some addr => do
        let (port, _) ← getU16be (buf.drop length)
        some (.ok (.domainNameAddress addr port, s))

/-- `read_from`. -/
def readFrom (s : ByteStream) : Option (Except Error (Address × ByteStream)) :=
  s.readExact 1 fun addrTypeBuf s => do
    let (addrType, _) ← getU8 addrTypeBuf
    if addrType = socks5AddrTypeIpv4 then readIpv4 s
    else if addrType = socks5AddrTypeIpv6 then readIpv6 s
    else if addrType = socks5AddrTypeDomainName then readDomainName s
    else some (.error ⟨.addressTypeNotSupported, "Not supported address type"⟩)

end Address

/-! ## Writing -/

/-- `write_ipv4_address`, into a buffer that grows. -/
def writeIpv4Address (addr : SocketAddrV4) (buf : List UInt8) : List UInt8 :=
  buf ++ socks5AddrTypeIpv4 :: (addr.ip.octets ++ putU16be addr.port)

/-- `write_ipv6_address`. -/
def writeIpv6Address (addr : SocketAddrV6) (buf : List UInt8) : List UInt8 :=
  buf ++ socks5AddrTypeIpv6 :: (addr.ip.segments.flatMap putU16be ++ putU16be addr.port)

/-- `write_domain_name_address`, with its assertion. -/
def writeDomainNameAddress (dnaddr : String) (port : UInt16) (buf : List UInt8) : Option (List UInt8) :=
  if dnaddr.utf8ByteSize ≤ 255 then
    some (buf ++ socks5AddrTypeDomainName :: UInt8.ofNat dnaddr.utf8ByteSize :: (utf8Bytes dnaddr ++ putU16be port))
  else none

/-- `write_socket_address`. -/
def writeSocketAddress (addr : SocketAddr) (buf : List UInt8) : List UInt8 :=
  match addr with
  | .v4 addr => writeIpv4Address addr buf
  | .v6 addr => writeIpv6Address addr buf

namespace Address

/-- `write_to_buf`, which is `write_address`. -/
def writeToBuf (addr : Address) (buf : List UInt8) : Option (List UInt8) :=
  match addr with
  | .socketAddress addr => some (writeSocketAddress addr buf)
  | .domainNameAddress dnaddr port => writeDomainNameAddress dnaddr port buf

/-- `serialized_len`, which is `get_addr_len`. -/
def serializedLen (atyp : Address) : ℕ :=
  match atyp with
  | .socketAddress (.v4 _) => 1 + 4 + 2
  | .socketAddress (.v6 _) => 1 + 8 * 2 + 2
  | .domainNameAddress dmname _ => 1 + 1 + dmname.utf8ByteSize + 2

end Address

/-! ## Reading what was written, and writing what was read -/

variable {s : ByteStream}

theorem readExact_append {α : Type} {front rest : List UInt8} {n : ℕ} (hn : front.length = n) (failure : String)
    (next : List UInt8 → ByteStream → Option (Except Error α)) :
    ByteStream.readExact ⟨front ++ rest, failure⟩ n next = next front ⟨rest, failure⟩ := by
  subst hn
  simp [ByteStream.readExact]

theorem readExact_ok {α : Type} {n : ℕ} {next : List UInt8 → ByteStream → Option (Except Error α)} {x : α}
    (h : s.readExact n next = some (.ok x)) :
    ∃ front rest, s.bytes = front ++ rest ∧ front.length = n ∧ next front ⟨rest, s.failure⟩ = some (.ok x) := by
  unfold ByteStream.readExact at h
  split_ifs at h with hn
  · exact ⟨s.bytes.take n, s.bytes.drop n, (List.take_append_drop _ _).symm, List.length_take_of_le hn, h⟩
  · simp at h

theorem readExact_byte {α : Type} {next : List UInt8 → ByteStream → Option (Except Error α)} {x : α}
    (h : s.readExact 1 next = some (.ok x)) :
    ∃ b rest, s.bytes = b :: rest ∧ next [b] ⟨rest, s.failure⟩ = some (.ok x) := by
  obtain ⟨front, rest, hs, hlen, hnext⟩ := readExact_ok h
  obtain ⟨b, rfl⟩ := List.length_eq_one_iff.mp hlen
  exact ⟨b, rest, hs, hnext⟩

namespace Address

/-- What the wire format holds: an IPv6 address without flow information and scope, a name of at most 255 bytes. -/
def Encodable : Address → Prop
  | .socketAddress (.v4 _) => True
  | .socketAddress (.v6 addr) => addr.flowinfo = 0 ∧ addr.scopeId = 0
  | .domainNameAddress dn _ => dn.utf8ByteSize ≤ 255

/-- The bytes of an address on the wire. -/
def wire : Address → List UInt8
  | .socketAddress addr => writeSocketAddress addr []
  | .domainNameAddress dn port =>
    socks5AddrTypeDomainName :: UInt8.ofNat dn.utf8ByteSize :: (utf8Bytes dn ++ putU16be port)

/-- The length byte of a name that the wire format holds. -/
theorem toNat_length_byte {dn : String} (h : dn.utf8ByteSize ≤ 255) :
    (UInt8.ofNat dn.utf8ByteSize).toNat = (utf8Bytes dn).length := by
  rw [UInt8.toNat_ofNat', length_utf8Bytes]
  omega

theorem writeToBuf_wire {a : Address} (ha : a.Encodable) (buf : List UInt8) :
    a.writeToBuf buf = some (buf ++ a.wire) := by
  match a, ha with
  | .socketAddress (.v4 addr), _ => rfl
  | .socketAddress (.v6 addr), _ => rfl
  | .domainNameAddress dn port, ha => exact if_pos ha

/-- **`serialized_len` is the number of bytes written.** -/
theorem length_wire (a : Address) : a.wire.length = a.serializedLen := by
  match a with
  | .socketAddress (.v4 addr) => rfl
  | .socketAddress (.v6 addr) => rfl
  | .domainNameAddress dn port =>
    simp only [wire, List.length_cons, List.length_append, length_utf8Bytes, length_putU16be, serializedLen]
    omega

/-- **Reading what was written.** -/
theorem readFrom_wire {a : Address} (ha : a.Encodable) (rest : List UInt8) (failure : String) :
    readFrom ⟨a.wire ++ rest, failure⟩ = some (.ok (a, ⟨rest, failure⟩)) := by
  match a, ha with
  | .socketAddress (.v4 ⟨ip, port⟩), _ =>
    have htype : readFrom ⟨(Address.socketAddress (.v4 ⟨ip, port⟩)).wire ++ rest, failure⟩ =
        readIpv4 ⟨(ip.octets ++ putU16be port) ++ rest, failure⟩ := rfl
    have hlen : (ip.octets ++ putU16be port).length = 6 := rfl
    rw [htype, readIpv4, readExact_append hlen]
    simp [Ipv4Addr.octets]
  | .socketAddress (.v6 ⟨ip, port, flowinfo, scopeId⟩), ⟨hflow, hscope⟩ =>
    simp only at hflow hscope
    subst hflow hscope
    have htype : readFrom ⟨(Address.socketAddress (.v6 ⟨ip, port, 0, 0⟩)).wire ++ rest, failure⟩ =
        readIpv6 ⟨(ip.segments.flatMap putU16be ++ putU16be port) ++ rest, failure⟩ := rfl
    have hlen : (ip.segments.flatMap putU16be ++ putU16be port).length = 18 := rfl
    rw [htype, readIpv6, readExact_append hlen]
    simp [Ipv6Addr.segments]
  | .domainNameAddress dn port, hlen =>
    have hsize : (UInt8.ofNat dn.utf8ByteSize).toNat = (utf8Bytes dn).length := toNat_length_byte hlen
    have htype : readFrom ⟨(Address.domainNameAddress dn port).wire ++ rest, failure⟩ =
        readDomainName ⟨[UInt8.ofNat dn.utf8ByteSize] ++ ((utf8Bytes dn ++ putU16be port) ++ rest), failure⟩ := rfl
    have hlen : (utf8Bytes dn ++ putU16be port).length = (UInt8.ofNat dn.utf8ByteSize).toNat + 2 := by
      rw [hsize, List.length_append, length_putU16be]
    rw [htype, readDomainName, readExact_append (List.length_singleton), getU8_cons]
    simp only [Option.bind_eq_bind, Option.bind_some]
    rw [readExact_append hlen]
    simp only [hsize, List.take_left', List.drop_left', utf8String_utf8Bytes, getU16be_put_nil]
    rfl

theorem write_of_readIpv4 {a : Address} {s' : ByteStream} (h : readIpv4 s = some (.ok (a, s'))) :
    a.Encodable ∧ socks5AddrTypeIpv4 :: s.bytes = a.wire ++ s'.bytes := by
  obtain ⟨front, rest, hs, hlen, h⟩ := readExact_ok h
  simp only [Option.bind_eq_bind, Option.bind_eq_some_iff, Prod.exists, getU8_eq_some, getU16be_eq_some] at h
  obtain ⟨x1, l1, rfl, x2, l2, rfl, x3, l3, rfl, x4, l4, rfl, port, cursor, rfl, h⟩ := h
  simp only [Option.some.injEq, Except.ok.injEq, Prod.mk.injEq] at h
  obtain ⟨rfl, rfl⟩ := h
  have hc : cursor = [] := by
    simp only [List.length_cons, List.length_append, length_putU16be] at hlen
    exact List.length_eq_zero_iff.mp (by omega)
  subst hc
  refine ⟨trivial, ?_⟩
  rw [hs]
  rfl

theorem write_of_readIpv6 {a : Address} {s' : ByteStream} (h : readIpv6 s = some (.ok (a, s'))) :
    a.Encodable ∧ socks5AddrTypeIpv6 :: s.bytes = a.wire ++ s'.bytes := by
  obtain ⟨front, rest, hs, hlen, h⟩ := readExact_ok h
  simp only [Option.bind_eq_bind, Option.bind_eq_some_iff, Prod.exists, getU16be_eq_some] at h
  obtain ⟨x1, l1, rfl, x2, l2, rfl, x3, l3, rfl, x4, l4, rfl, x5, l5, rfl, x6, l6, rfl, x7, l7, rfl, x8, l8, rfl,
    port, cursor, rfl, h⟩ := h
  simp only [Option.some.injEq, Except.ok.injEq, Prod.mk.injEq] at h
  obtain ⟨rfl, rfl⟩ := h
  have hc : cursor = [] := by
    simp only [List.length_append, length_putU16be] at hlen
    exact List.length_eq_zero_iff.mp (by omega)
  subst hc
  refine ⟨⟨rfl, rfl⟩, ?_⟩
  rw [hs]
  simp [wire, writeSocketAddress, writeIpv6Address, Ipv6Addr.segments]

theorem write_of_readDomainName {a : Address} {s' : ByteStream} (h : readDomainName s = some (.ok (a, s'))) :
    a.Encodable ∧ socks5AddrTypeDomainName :: s.bytes = a.wire ++ s'.bytes := by
  obtain ⟨len, tail, hs, h⟩ := readExact_byte h
  simp only [getU8_cons, Option.bind_eq_bind, Option.bind_some] at h
  obtain ⟨front, rest, htail, hlen, h⟩ := readExact_ok h
  simp only at htail
  cases hname : utf8String (front.take len.toNat) with
  | none => simp [hname] at h
  | some dn =>
    simp only [hname, Option.bind_eq_some_iff, Prod.exists, getU16be_eq_some] at h
    obtain ⟨port, cursor, hport, h⟩ := h
    simp only [Option.some.injEq, Except.ok.injEq, Prod.mk.injEq] at h
    obtain ⟨rfl, rfl⟩ := h
    rw [utf8String_eq_some] at hname
    have hc : cursor = [] := by
      have := congrArg List.length hport
      simp only [List.length_drop, List.length_append, length_putU16be] at this
      exact List.length_eq_zero_iff.mp (by omega)
    subst hc
    have hsize : dn.utf8ByteSize = len.toNat := by
      rw [← length_utf8Bytes, ← hname, List.length_take]
      omega
    have hfront : front = utf8Bytes dn ++ putU16be port := by
      rw [← List.take_append_drop len.toNat front, hname, hport, List.append_nil]
    have hlt := len.toNat_lt
    refine ⟨show dn.utf8ByteSize ≤ 255 by omega, ?_⟩
    rw [hs, htail, hfront, wire, hsize, UInt8.ofNat_toNat]
    rfl

/-- **Writing what was read.** -/
theorem wire_of_readFrom {a : Address} {s' : ByteStream} (h : readFrom s = some (.ok (a, s'))) :
    a.Encodable ∧ s.bytes = a.wire ++ s'.bytes := by
  obtain ⟨addrType, rest, hs, h⟩ := readExact_byte h
  simp only [getU8_cons, Option.bind_eq_bind, Option.bind_some] at h
  rw [hs]
  split_ifs at h with h4 h6 hd
  · exact h4 ▸ write_of_readIpv4 h
  · exact h6 ▸ write_of_readIpv6 h
  · exact hd ▸ write_of_readDomainName h
  · simp at h

/-- **The address format, both ways.**  What the writer appends for an address that the format holds is
`serialized_len` bytes, and the reader takes exactly these off any stream and returns the address; what the reader
takes off a stream for an address it returns is what the writer appends for it. -/
theorem codec_roundtrip :
    (∀ a : Address, a.Encodable → ∃ bs, bs.length = a.serializedLen ∧ (∀ buf, a.writeToBuf buf = some (buf ++ bs)) ∧
      ∀ rest failure, readFrom ⟨bs ++ rest, failure⟩ = some (.ok (a, ⟨rest, failure⟩))) ∧
    ∀ (s s' : ByteStream) (a : Address), readFrom s = some (.ok (a, s')) →
      ∃ bs, s.bytes = bs ++ s'.bytes ∧ ∀ buf, a.writeToBuf buf = some (buf ++ bs) := by
  constructor
  · intro a ha
    exact ⟨a.wire, length_wire a, writeToBuf_wire ha, readFrom_wire ha⟩
  · intro s s' a h
    obtain ⟨ha, hs⟩ := wire_of_readFrom h
    exact ⟨a.wire, hs, writeToBuf_wire ha⟩

/-- A name of three bytes with port 443, and an IPv4 address read off a longer stream. -/
theorem codec_roundtrip_both :
    (∃ bs, bs.length = 7 ∧ (∀ buf, (domainNameAddress "a.b" 443).writeToBuf buf = some (buf ++ bs)) ∧
      readFrom ⟨bs ++ [9], "early eof"⟩ = some (.ok (domainNameAddress "a.b" 443, ⟨[9], "early eof"⟩))) ∧
    ∃ bs, [1, 127, 0, 0, 1, 31, 144, 5] = bs ++ [5] ∧
      ∀ buf, (socketAddress (.v4 ⟨⟨127, 0, 0, 1⟩, 8080⟩)).writeToBuf buf = some (buf ++ bs) := by
  constructor
  · obtain ⟨bs, hlen, hwrite, hread⟩ := codec_roundtrip.1 (domainNameAddress "a.b" 443)
      (show "a.b".utf8ByteSize ≤ 255 by decide)
    exact ⟨bs, hlen.trans (by decide), hwrite, hread _ _⟩
  · exact codec_roundtrip.2 ⟨[1, 127, 0, 0, 1, 31, 144, 5], ""⟩ ⟨[5], ""⟩ _ (by decide)

end Address

end NetProtocols.Socks
