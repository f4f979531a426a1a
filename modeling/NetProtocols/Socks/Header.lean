import NetProtocols.Lib.Text
import NetProtocols.Socks.Address

/-!
# NetProtocols.Socks.Header — `Socks5::parse_header`, the other reader of addresses

`parse_header` reads the address of a request out of a slice; it knows IPv4 and domain names.  It differs from
`Address::read_from` in the text of an IPv4 address, which it starts with a dot, and in the port, which it reads as
an `i16`.

* `parseHeader`: the function; an index or a slice out of range is `none`.
* `Address.request`: what a request with the address asks for: the textual host, the port, whether it is a name.
* `Address.handled`: what `parse_header` makes of it; `parseHeader_wire`, `parseHeader_ok`: exactly when.
* `Supported`: a complete address of a type that `parse_header` knows; `supported_iff`.
* `parseHeader_agrees_iff`: where the two readers agree.
* `handled_inj`: two addresses that come out the same are the same.
-/

namespace NetProtocols.Socks

def aIpv4 : UInt8 := 0x01
def aHost : UInt8 := 0x03

/-- `Box<dyn Error>`, by where it comes from: `err_with`, an `io::Error`, `str::from_utf8`. -/
inductive BoxError
  | errWith (msg : String)
  | io (description : String)
  | utf8
  deriving DecidableEq, Repr

/-- `struct Socks5`. -/
structure Socks5 where
  addr : String
  port : Int16
  useHost : Bool
  deriving DecidableEq

/-- `&data[a..b]`. -/
def slice {α : Type} (data : List α) (a b : ℕ) : Option (List α) :=
  if a ≤ b ∧ b ≤ data.length then some ((data.drop a).take (b - a)) else none

/-- `NetworkEndian::read_i16`. -/
def readI16 (data : List UInt8) : Option Int16 := (getU16be data).map fun x => x.1.toInt16

/-- `parse_header`. -/
def parseHeader (self : Socks5) (data : List UInt8) : Option (Except BoxError Unit × Socks5) := do
  let atyp ← data[0]?
  if atyp = aIpv4 then do
    let octets ← slice data 1 5
    let host := octets.foldl (fun acc c => acc ++ "." ++ toString c) ""
    let port ← readI16 (← slice data 5 7)
    some (.ok (), { self with addr := host, port := port })
  else if atyp = aHost then do
    let len := (← data[1]?).toNat
    match utf8String (← slice data 2 (len + 2)) with
    | none => some (.error .utf8, self)
    | some host => do
      let port ← readI16 (← slice data (len + 2) (len + 4))
      some (.ok (), { addr := host, port := port, useHost := true })
  else some (.error (.errWith "not support addr type "), self)

/-! ## What the two readers make of an address -/

/-- The four numbers with dots between them. -/
def dottedQuad (ip : Ipv4Addr) : String :=
  toString ip.a ++ "." ++ toString ip.b ++ "." ++ toString ip.c ++ "." ++ toString ip.d

namespace Address

/-- What a request with the address asks for: the textual host, the port, and whether the host is a name.  There is
nothing for IPv6, which `parse_header` does not support. -/
def request : Address → Option (String × UInt16 × Bool)
  | socketAddress (.v4 addr) => some (dottedQuad addr.ip, addr.port, false)
  | socketAddress (.v6 _) => none
  | domainNameAddress dn port => some (dn, port, true)

/-- What `parse_header` makes of the address. -/
def handled (self : Socks5) : Address → Socks5
  | socketAddress (.v4 addr) => { self with addr := "." ++ dottedQuad addr.ip, port := addr.port.toInt16 }
  | socketAddress (.v6 _) => self
  | domainNameAddress dn port => { addr := dn, port := port.toInt16, useHost := true }

end Address

theorem slice_append {α : Type} {l₁ l₂ l₃ : List α} {a b : ℕ} (ha : l₁.length = a) (hb : a + l₂.length = b) :
    slice (l₁ ++ (l₂ ++ l₃)) a b = some l₂ := by
  subst ha hb
  have hle : l₁.length ≤ l₁.length + l₂.length ∧ l₁.length + l₂.length ≤ (l₁ ++ (l₂ ++ l₃)).length := by
    simp only [List.length_append]
    omega
  rw [slice, if_pos hle, List.drop_left, Nat.add_sub_cancel_left, List.take_left]

theorem slice_eq_some {α : Type} {l data : List α} {a b : ℕ} (h : slice data a b = some l) :
    data.drop a = l ++ data.drop b ∧ a + l.length = b := by
  unfold slice at h
  split_ifs at h with hle
  obtain rfl := Option.some.inj h
  constructor
  · conv_lhs => rw [← List.take_append_drop (b - a) (data.drop a), List.drop_drop, Nat.add_sub_cancel' hle.1]
  · rw [List.length_take, List.length_drop]
    omega

theorem readI16_put (port : UInt16) : readI16 (putU16be port) = some port.toInt16 := by
  rw [readI16, getU16be_put_nil]
  rfl

theorem readI16_eq_some {l : List UInt8} {port : Int16} (hl : l.length = 2) (h : readI16 l = some port) :
    ∃ p : UInt16, l = putU16be p ∧ port = p.toInt16 := by
  obtain ⟨⟨p, rest⟩, hp, rfl⟩ := Option.map_eq_some_iff.mp h
  rw [getU16be_eq_some] at hp
  have hrest : rest = [] := by
    rw [hp, List.length_append, length_putU16be] at hl
    exact List.length_eq_zero_iff.mp (by omega)
  rw [hrest, List.append_nil] at hp
  exact ⟨p, hp, rfl⟩

variable {self self' : Socks5} {data : List UInt8}

/-- The text that the fold makes of the octets. -/
theorem fold_octets (ip : Ipv4Addr) :
    ip.octets.foldl (fun acc c => acc ++ "." ++ toString c) "" = "." ++ dottedQuad ip := by
  simp only [Ipv4Addr.octets, List.foldl_cons, List.foldl_nil, dottedQuad, String.empty_append, String.append_assoc]

/-- **`parse_header` on an address**, with anything behind it. -/
theorem parseHeader_wire {a : Address} {r : String × UInt16 × Bool} (hr : a.request = some r) (ha : a.Encodable)
    (rest : List UInt8) : parseHeader self (a.wire ++ rest) = some (.ok (), a.handled self) := by
  match a, hr, ha with
  | .socketAddress (.v4 ⟨ip, port⟩), _, _ =>
    have h1 : slice ([aIpv4] ++ (ip.octets ++ (putU16be port ++ rest))) 1 5 = some ip.octets :=
      slice_append rfl rfl
    have h2 : slice ((aIpv4 :: ip.octets) ++ (putU16be port ++ rest)) 5 7 = some (putU16be port) :=
      slice_append rfl rfl
    have hw : (Address.socketAddress (.v4 ⟨ip, port⟩)).wire ++ rest =
        aIpv4 :: (ip.octets ++ (putU16be port ++ rest)) := rfl
    rw [hw]
    rw [List.singleton_append] at h1
    rw [List.cons_append] at h2
    simp only [parseHeader, List.getElem?_cons_zero, Option.bind_eq_bind, Option.bind_some, if_true, h1, h2,
      readI16_put, fold_octets]
    rfl
  | .domainNameAddress dn port, _, ha =>
    have hsize : (UInt8.ofNat dn.utf8ByteSize).toNat = (utf8Bytes dn).length := Address.toNat_length_byte ha
    have h1 : slice ([aHost, UInt8.ofNat dn.utf8ByteSize] ++ (utf8Bytes dn ++ (putU16be port ++ rest))) 2
        ((utf8Bytes dn).length + 2) = some (utf8Bytes dn) := slice_append rfl (Nat.add_comm _ _)
    have h2 : slice ((aHost :: UInt8.ofNat dn.utf8ByteSize :: utf8Bytes dn) ++ (putU16be port ++ rest))
        ((utf8Bytes dn).length + 2) ((utf8Bytes dn).length + 4) = some (putU16be port) :=
      slice_append rfl (by rw [length_putU16be])
    have hw : (Address.domainNameAddress dn port).wire ++ rest =
        aHost :: UInt8.ofNat dn.utf8ByteSize :: (utf8Bytes dn ++ (putU16be port ++ rest)) := by
      simp [Address.wire, aHost, socks5AddrTypeDomainName]
    rw [hw]
    simp only [List.cons_append, List.nil_append] at h1 h2
    simp only [parseHeader, List.getElem?_cons_zero, List.getElem?_cons_succ, Option.bind_eq_bind, Option.bind_some,
      if_neg (show aHost ≠ aIpv4 by decide), if_true, hsize, h1, h2, utf8String_utf8Bytes, readI16_put]
    rfl

/-- **What `parse_header` accepts** starts with an address that it supports. -/
theorem parseHeader_ok (h : parseHeader self data = some (.ok (), self')) :
    ∃ a r rest, Address.request a = some r ∧ a.Encodable ∧ data = a.wire ++ rest ∧ self' = a.handled self := by
  simp only [parseHeader, Option.bind_eq_bind, Option.bind_eq_some_iff] at h
  obtain ⟨atyp, htype, h⟩ := h
  have hhead : data = atyp :: data.drop 1 := by
    cases data with
    | nil => simp at htype
    | cons b data => simpa using htype
  split_ifs at h with h4 hd
  -- an IPv4 address
  · obtain ⟨octets, hoct, h⟩ := Option.bind_eq_some_iff.mp h
    simp only [Option.bind_eq_some_iff] at h
    obtain ⟨bytes, hbytes, port, hport, h⟩ := h
    obtain ⟨d1, l1⟩ := slice_eq_some hoct
    obtain ⟨d2, l2⟩ := slice_eq_some hbytes
    obtain ⟨p, rfl, rfl⟩ := readI16_eq_some (by omega) hport
    have hfour : octets.length = 4 := by omega
    match octets, hfour with
    | [o1, o2, o3, o4], _ =>
      refine ⟨.socketAddress (.v4 ⟨⟨o1, o2, o3, o4⟩, p⟩), _, data.drop 7, rfl, trivial, ?_, ?_⟩
      · conv_lhs => rw [hhead, d1, d2, h4]
        rfl
      · rw [Address.handled, ← fold_octets]
        simp only [Option.some.injEq, Prod.mk.injEq] at h
        exact h.2.symm
  -- a name behind its length
  · obtain ⟨len, hlen, h⟩ := Option.bind_eq_some_iff.mp h
    obtain ⟨name, hname, h⟩ := Option.bind_eq_some_iff.mp h
    obtain ⟨d1, l1⟩ := slice_eq_some hname
    cases hutf : utf8String name with
    | none => simp [hutf] at h
    | some host =>
      simp only [hutf, Option.bind_eq_some_iff] at h
      obtain ⟨bytes, hbytes, port, hport, h⟩ := h
      obtain ⟨d2, l2⟩ := slice_eq_some hbytes
      obtain ⟨p, rfl, rfl⟩ := readI16_eq_some (by omega) hport
      obtain rfl := utf8String_eq_some.mp hutf
      have hlen' : data.drop 1 = len :: data.drop 2 := by
        rw [hhead] at hlen ⊢
        cases hc : data.drop 1 with
        | nil => simp [hc] at hlen
        | cons b rest =>
          simp only [hc, List.getElem?_cons_succ, List.getElem?_cons_zero, Option.some.injEq] at hlen
          simp [hlen]
      have hsize : len.toNat = host.utf8ByteSize := by
        rw [length_utf8Bytes] at l1
        omega
      have hlt := len.toNat_lt
      refine ⟨.domainNameAddress host p, _, data.drop (len.toNat + 4), rfl,
        show host.utf8ByteSize ≤ 255 by omega, ?_, ?_⟩
      · conv_lhs => rw [hhead, hlen', d1, d2, hd]
        rw [Address.wire, ← hsize, UInt8.ofNat_toNat]
        simp [aHost, socks5AddrTypeDomainName]
      · simp only [Option.some.injEq, Prod.mk.injEq] at h
        exact h.2.symm
  · simp at h

/-- A complete address of a type that `parse_header` knows is in front. -/
def Supported (data : List UInt8) : Prop := ∃ a : Address, a.request.isSome ∧ a.Encodable ∧ a.wire <+: data

/-- **What `parse_header` accepts**, by its bytes. -/
theorem supported_iff (self : Socks5) : Supported data ↔ ∃ self', parseHeader self data = some (.ok (), self') := by
  constructor
  · rintro ⟨a, hr, ha, rest, rfl⟩
    obtain ⟨r, hr⟩ := Option.isSome_iff_exists.mp hr
    exact ⟨_, parseHeader_wire hr ha rest⟩
  · rintro ⟨self', h⟩
    obtain ⟨a, r, rest, hr, ha, hdata, -⟩ := parseHeader_ok h
    exact ⟨a, by rw [hr]; rfl, ha, rest, hdata.symm⟩

/-! ## Where the two readers agree -/

/-- A 16-bit port read as an `i16` keeps its number below `2 ^ 15` only. -/
theorem toInt_toInt16 (port : UInt16) : port.toInt16.toInt = port.toNat ↔ port.toNat < 2 ^ 15 := by
  have h : port.toInt16.toInt =
      if 2 * port.toNat < 2 ^ 16 then (port.toNat : ℤ) else (port.toNat : ℤ) - (2 ^ 16 : ℕ) := rfl
  have hlt := port.toNat_lt
  rw [h]
  split_ifs <;> omega

/-- The text of an IPv4 address starts with a dot, and is not the dotted quad. -/
theorem dot_append_ne (t : String) : "." ++ t ≠ t := by
  intro h
  have hlen := congrArg String.length h
  rw [String.length_append] at hlen
  have : ".".length = 1 := rfl
  omega

/-- **Where `parse_header` agrees with `Address::read_from`**: on the bytes of a domain name with a port below
`2 ^ 15`, and on no other address that it supports. -/
theorem parseHeader_agrees_iff {failure host : String} {a : Address} {s' : ByteStream} {port : UInt16} {useHost : Bool}
    (h : Address.readFrom ⟨data, failure⟩ = some (.ok (a, s'))) (hr : a.request = some (host, port, useHost))
    (self : Socks5) :
    (∃ self', parseHeader self data = some (.ok (), self') ∧ self'.addr = host ∧ self'.port.toInt = port.toNat ∧
      self'.useHost = useHost) ↔ useHost = true ∧ port.toNat < 2 ^ 15 := by
  obtain ⟨ha, hdata⟩ := Address.wire_of_readFrom h
  have hparse : parseHeader self data = some (.ok (), a.handled self) := by
    rw [show data = a.wire ++ s'.bytes from hdata]
    exact parseHeader_wire hr ha _
  rw [hparse]
  constructor
  · rintro ⟨self', hself, haddr, hport, huse⟩
    simp only [Option.some.injEq, Prod.mk.injEq, true_and] at hself
    subst hself
    match a, hr with
    | .socketAddress (.v4 addr), hr =>
      simp only [Address.request, Option.some.injEq, Prod.mk.injEq] at hr
      exact absurd (haddr.trans hr.1.symm) (dot_append_ne _)
    | .domainNameAddress dn p, hr =>
      simp only [Address.request, Option.some.injEq, Prod.mk.injEq] at hr
      obtain ⟨rfl, rfl, rfl⟩ := hr
      exact ⟨rfl, (toInt_toInt16 p).mp hport⟩
  · rintro ⟨rfl, hport⟩
    refine ⟨_, rfl, ?_⟩
    match a, hr with
    | .domainNameAddress dn p, hr =>
      simp only [Address.request, Option.some.injEq, Prod.mk.injEq] at hr
      obtain ⟨rfl, rfl, -⟩ := hr
      exact ⟨rfl, (toInt_toInt16 p).mpr hport, rfl⟩

/-- A `Socks5` as `acceptor` makes it. -/
def Socks5.blank : Socks5 := { addr := "", port := 0, useHost := false }

/-- The name `a.b` with port 443. -/
theorem parseHeader_agrees_iff_name :
    ∃ self', parseHeader .blank [3, 3, 97, 46, 98, 1, 187] = some (.ok (), self') ∧ self'.addr = "a.b" ∧
      self'.port.toInt = (443 : UInt16).toNat ∧ self'.useHost = true := by
  have hread : Address.readFrom ⟨[3, 3, 97, 46, 98, 1, 187], ""⟩ =
      some (.ok (.domainNameAddress "a.b" 443, ⟨[], ""⟩)) := by decide
  exact (parseHeader_agrees_iff hread rfl .blank).mpr ⟨rfl, by decide⟩

/-- The IPv4 address `127.0.0.1`, port 80, comes out as `.127.0.0.1`. -/
theorem ipv4_text_differs :
    ¬ ∀ (data : List UInt8) (failure : String) (a : Address) (s' : ByteStream) (host : String) (port : UInt16)
      (useHost : Bool), Address.readFrom ⟨data, failure⟩ = some (.ok (a, s')) → a.request = some (host, port, useHost) →
        ∃ self', parseHeader .blank data = some (.ok (), self') ∧ self'.addr = host ∧
          self'.port.toInt = port.toNat ∧ self'.useHost = useHost := by
  intro h
  obtain ⟨self', hparse, haddr, -⟩ := h [1, 127, 0, 0, 1, 0, 80] "" (.socketAddress (.v4 ⟨⟨127, 0, 0, 1⟩, 80⟩))
    ⟨[], ""⟩ "127.0.0.1" 80 false (by decide) (by decide)
  have hbad : parseHeader .blank [1, 127, 0, 0, 1, 0, 80] = some (.ok (), ⟨".127.0.0.1", 80, false⟩) := by decide
  rw [hbad] at hparse
  simp only [Option.some.injEq, Prod.mk.injEq, true_and] at hparse
  rw [← hparse] at haddr
  exact absurd haddr (by decide)

/-! ## Two addresses that come out the same -/

theorem toList_octet (x : UInt8) : (toString x).toList = Nat.toDigits 10 x.toNat := Nat.toList_repr

theorem dot_notMem_octet (x : UInt8) : '.' ∉ (toString x).toList := by
  rw [toList_octet]
  intro h
  exact absurd (Nat.isDigit_of_mem_toDigits (by decide) (by decide) h) (by decide)

theorem octet_inj {x y : UInt8} (h : (toString x).toList = (toString y).toList) : x = y := by
  rw [toList_octet, toList_octet] at h
  refine UInt8.toNat_inj.mp ?_
  rw [← Nat.ofDigitChars_toDigits (b := 10) (n := x.toNat) (by decide) (by decide), h,
    Nat.ofDigitChars_toDigits (by decide) (by decide)]

theorem dottedQuad_inj {ip ip' : Ipv4Addr} (h : dottedQuad ip = dottedQuad ip') : ip = ip' := by
  have hl := congrArg String.toList h
  simp only [dottedQuad, String.toList_append, List.append_assoc, show ".".toList = ['.'] from rfl,
    List.singleton_append] at hl
  obtain ⟨ha, hl⟩ := append_cons_cut (dot_notMem_octet _) (dot_notMem_octet _) hl
  obtain ⟨hb, hl⟩ := append_cons_cut (dot_notMem_octet _) (dot_notMem_octet _) hl
  obtain ⟨hc, hd⟩ := append_cons_cut (dot_notMem_octet _) (dot_notMem_octet _) hl
  obtain ⟨a, b, c, d⟩ := ip
  obtain ⟨a', b', c', d'⟩ := ip'
  rw [Ipv4Addr.mk.injEq]
  exact ⟨octet_inj ha, octet_inj hb, octet_inj hc, octet_inj hd⟩

/-- **Two supported addresses that come out the same are the same.** -/
theorem handled_inj {a a' : Address} {r r' : String × UInt16 × Bool} (hself : self.useHost = false)
    (hr : a.request = some r) (hr' : a'.request = some r') (h : a.handled self = a'.handled self) : a = a' := by
  have hport : ∀ {p q : UInt16}, p.toInt16 = q.toInt16 → p = q := fun h => congrArg Int16.toUInt16 h
  match a, a', hr, hr' with
  | .socketAddress (.v4 ⟨ip, p⟩), .socketAddress (.v4 ⟨ip', p'⟩), _, _ =>
    simp only [Address.handled, Socks5.mk.injEq, and_true] at h
    have htext : dottedQuad ip = dottedQuad ip' := by
      refine String.toList_inj.mp ?_
      have := congrArg String.toList h.1
      simpa only [String.toList_append, List.append_cancel_left_eq] using this
    rw [dottedQuad_inj htext, hport h.2]
  | .domainNameAddress dn p, .domainNameAddress dn' p', _, _ =>
    simp only [Address.handled, Socks5.mk.injEq, and_true] at h
    rw [h.1, hport h.2]
  | .socketAddress (.v4 _), .domainNameAddress _ _, _, _ =>
    have := congrArg Socks5.useHost h
    simp [Address.handled, hself] at this
  | .domainNameAddress _ _, .socketAddress (.v4 _), _, _ =>
    have := congrArg Socks5.useHost h
    simp [Address.handled, hself] at this

end NetProtocols.Socks
