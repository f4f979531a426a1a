import NetProtocols.Socks.Acceptor

/-!
# NetProtocols.Socks.Panics — where the server side panics

The slices of `parse_header` and `acceptor` are taken by lengths that the client sends and by what a read returns.

* `Fits`: the data is as long as `parse_header` takes for granted; `parseHeader_returns_iff`.
* `HeaderSafe`, `Survives`: what is expected of `parse_header` and of `acceptor`.
* `server_survives_iff`: on which input they do as expected.
-/

namespace NetProtocols.Socks

variable {α : Type} {data : List α} {a b : ℕ}

/-! ## Slices -/

theorem slice_of_le (hab : a ≤ b) (hb : b ≤ data.length) : slice data a b = some ((data.drop a).take (b - a)) :=
  if_pos ⟨hab, hb⟩

theorem le_of_slice {l : List α} (h : slice data a b = some l) : b ≤ data.length := by
  unfold slice at h
  split_ifs at h with hle
  exact hle.2

/-- The port behind `a` bytes is there, or the slice panics. -/
theorem port_returns_iff (data : List UInt8) (a : ℕ) :
    (∃ bytes, slice data a (a + 2) = some bytes ∧ ∃ port, readI16 bytes = some port) ↔ a + 2 ≤ data.length := by
  constructor
  · rintro ⟨bytes, hbytes, -⟩
    exact le_of_slice hbytes
  · intro hle
    refine ⟨_, slice_of_le (by omega) hle, ?_⟩
    have hlen : ((data.drop a).take (a + 2 - a)).length = 2 := by
      rw [List.length_take, List.length_drop]
      omega
    match (data.drop a).take (a + 2 - a), hlen with
    | [x, y], _ => exact ⟨_, rfl⟩

/-! ## `parse_header` -/

/-- The data is as long as `parse_header` takes for granted: it has an address type; the address of IPv4 is whole, with
its port; a name is whole, and when it is UTF-8 its port is there. -/
def Fits (data : List UInt8) : Prop :=
  0 < data.length ∧ (data.getD 0 0 = aIpv4 → 7 ≤ data.length) ∧
    (data.getD 0 0 = aHost → (data.getD 1 0).toNat + 2 ≤ data.length ∧
      ((utf8String ((data.drop 2).take (data.getD 1 0).toNat)).isSome → (data.getD 1 0).toNat + 4 ≤ data.length))

instance (data : List UInt8) : Decidable (Fits data) := inferInstanceAs (Decidable (_ ∧ _ ∧ _))

section ParseHeader

variable {self self' : Socks5} {data : List UInt8}

theorem parseHeader_ipv4 (h : data[0]? = some aIpv4) : (∃ r, parseHeader self data = some r) ↔ 7 ≤ data.length := by
  simp only [parseHeader, h, Option.bind_eq_bind, Option.bind_some, if_true, Option.bind_eq_some_iff]
  constructor
  · rintro ⟨r, octets, hoct, bytes, hbytes, -⟩
    exact le_of_slice hbytes
  · intro hle
    obtain ⟨bytes, hbytes, port, hport⟩ := (port_returns_iff data 5).mpr hle
    exact ⟨_, _, slice_of_le (by decide) (by omega), bytes, hbytes, port, hport, rfl⟩

theorem parseHeader_host (h : data[0]? = some aHost) :
    (∃ r, parseHeader self data = some r) ↔ (data.getD 1 0).toNat + 2 ≤ data.length ∧
      ((utf8String ((data.drop 2).take (data.getD 1 0).toNat)).isSome → (data.getD 1 0).toNat + 4 ≤ data.length) := by
  simp only [parseHeader, h, Option.bind_eq_bind, Option.bind_some, if_neg (show aHost ≠ aIpv4 by decide), if_true]
  cases hlen : data[1]? with
  | none =>
    -- the length byte is missing
    have hshort : data.length ≤ 1 := List.getElem?_eq_none_iff.mp hlen
    exact iff_of_false (by simp) fun hfit => by omega
  | some len =>
    have hget : data.getD 1 0 = len := by rw [List.getD_eq_getElem?_getD, hlen, Option.getD_some]
    rw [hget, Option.bind_some]
    by_cases hname : len.toNat + 2 ≤ data.length
    · have hslice : slice data 2 (len.toNat + 2) = some ((data.drop 2).take len.toNat) := by
        rw [slice_of_le (by omega) hname, Nat.add_sub_cancel]
      rw [hslice, Option.bind_some, and_iff_right hname]
      cases utf8String ((data.drop 2).take len.toNat) with
      | none => exact iff_of_true ⟨_, rfl⟩ fun hsome => absurd hsome Bool.false_ne_true
      | some host =>
        have hport := port_returns_iff data (len.toNat + 2)
        simp only [Option.bind_eq_some_iff, Option.isSome_some, forall_const]
        constructor
        · rintro ⟨r, bytes, hbytes, port, hread, -⟩
          exact hport.mp ⟨bytes, hbytes, port, hread⟩
        · intro hle
          obtain ⟨bytes, hbytes, port, hread⟩ := hport.mpr hle
          exact ⟨_, bytes, hbytes, port, hread, rfl⟩
    · refine iff_of_false ?_ fun hfit => hname hfit.1
      rintro ⟨r, hr⟩
      obtain ⟨name, hslice, -⟩ := Option.bind_eq_some_iff.mp hr
      exact hname (le_of_slice hslice)

theorem parseHeader_other {atyp : UInt8} (h : data[0]? = some atyp) (h4 : atyp ≠ aIpv4) (hd : atyp ≠ aHost) :
    parseHeader self data = some (.error (.errWith "not support addr type "), self) := by
  simp only [parseHeader, h, Option.bind_eq_bind, Option.bind_some, if_neg h4, if_neg hd]

/-- **`parse_header` returns** exactly on the data that fits. -/
theorem parseHeader_returns_iff : (∃ r, parseHeader self data = some r) ↔ Fits data := by
  unfold Fits
  cases data with
  | nil => simp [parseHeader]
  | cons atyp rest =>
    have htype : (atyp :: rest)[0]? = some atyp := rfl
    rw [List.getD_cons_zero]
    by_cases h4 : atyp = aIpv4
    · have hd : atyp ≠ aHost := by
        rw [h4]
        decide
      rw [parseHeader_ipv4 (h4 ▸ htype)]
      exact ⟨fun h => ⟨Nat.succ_pos _, fun _ => h, fun e => absurd e hd⟩, fun h => h.2.1 h4⟩
    by_cases hd : atyp = aHost
    · rw [parseHeader_host (hd ▸ htype)]
      exact ⟨fun h => ⟨Nat.succ_pos _, fun e => absurd e h4, fun _ => h⟩, fun h => h.2.2 hd⟩
    · exact iff_of_true ⟨_, parseHeader_other htype h4 hd⟩
        ⟨Nat.succ_pos _, fun e => absurd e h4, fun e => absurd e hd⟩

/-- What `parse_header` refuses it leaves as it was. -/
theorem parseHeader_error {e : BoxError} (h : parseHeader self data = some (.error e, self')) : self' = self := by
  simp only [parseHeader, Option.bind_eq_bind, Option.bind_eq_some_iff] at h
  obtain ⟨atyp, -, h⟩ := h
  split_ifs at h with h4 hd
  · simp only [Option.bind_eq_some_iff, Option.some.injEq, Prod.mk.injEq, reduceCtorEq, false_and, and_false,
      exists_false] at h
  · simp only [Option.bind_eq_some_iff] at h
    obtain ⟨len, -, name, -, h⟩ := h
    cases hutf : utf8String name with
    | none =>
      simp only [hutf, Option.some.injEq, Prod.mk.injEq] at h
      exact h.2.symm
    | some host =>
      simp only [hutf, Option.bind_eq_some_iff, Option.some.injEq, Prod.mk.injEq, reduceCtorEq, false_and, and_false,
        exists_false] at h
  · simp only [Option.some.injEq, Prod.mk.injEq] at h
    exact h.2.symm

end ParseHeader

/-- What is expected of `parse_header`: it returns; it accepts a complete address only; what it refuses it leaves. -/
structure HeaderSafe (sock : Socks5) (data : List UInt8) : Prop where
  returns : ∃ r, parseHeader sock data = some r
  complete : ∀ sock', parseHeader sock data = some (.ok (), sock') → Supported data
  kept : ∀ e sock', parseHeader sock data = some (.error e, sock') → sock' = sock

theorem headerSafe_iff (sock : Socks5) (data : List UInt8) : HeaderSafe sock data ↔ Fits data := by
  refine ⟨fun h => parseHeader_returns_iff.mp h.returns, fun h => ⟨parseHeader_returns_iff.mpr h, ?_, ?_⟩⟩
  · exact fun sock' hok => (supported_iff sock).mpr ⟨sock', hok⟩
  · exact fun e sock' he => parseHeader_error he

/-! ## `acceptor` -/

/-- The greeting `g` is refused, or the byte that is taken for the command is not CONNECT, or the request `r` has its
three bytes and an address behind them that fits.  A request of less than two bytes leaves the greeting's byte there. -/
def Survives (g r : List UInt8) : Prop :=
  ¬ Greeting g ∨ (r ++ g.drop r.length).getD 1 0 ≠ socks5CmdTcpConnect ∨ (3 ≤ r.length ∧ Fits (r.drop 3))

instance (g r : List UInt8) : Decidable (Survives g r) := inferInstanceAs (Decidable (_ ∨ _ ∨ _))

theorem getD_fill_fill {g r : Chunk} (buf : List UInt8) (hg : 3 ≤ g.1.length) :
    (fill (fill buf g) r).getD 1 0 = (r.1 ++ g.1.drop r.1.length).getD 1 0 := by
  by_cases hr : 1 < r.1.length
  · rw [getD_fill hr, List.getD_append _ _ _ _ hr]
  · have hle : r.1.length ≤ g.1.length := by omega
    have hlen : 1 < (r.1 ++ g.1.drop r.1.length).length := by
      rw [List.length_append, List.length_drop]
      omega
    rw [fill, fill, List.drop_append_of_le_length hle, ← List.append_assoc, List.getD_append _ _ _ _ hlen]

/-- The request step panics when the command is CONNECT and the slice or the address is too short. -/
theorem waitConnect_returns_iff {s : Session} {r : Chunk} (hreq : s.request = .ok r) (buf : List UInt8) :
    (∃ x, (s.waitConnect buf).result = some x) ↔
      (fill buf r).getD 1 0 ≠ socks5CmdTcpConnect ∨ (3 ≤ r.1.length ∧ Fits (r.1.drop 3)) := by
  unfold Session.waitConnect
  simp only [hreq, slice_fill]
  by_cases hm : (fill buf r).getD 1 0 ≠ 1
  · rw [if_pos hm]
    exact iff_of_true ⟨_, rfl⟩ (Or.inl hm)
  · rw [if_neg hm, or_iff_right (show ¬ (fill buf r).getD 1 0 ≠ socks5CmdTcpConnect from hm)]
    by_cases hlen : 3 ≤ r.1.length
    · rw [if_pos hlen, and_iff_right hlen, ← @parseHeader_returns_iff .blank]
      dsimp only
      rcases parseHeader .blank (r.1.drop 3) with _ | ⟨_ | ⟨⟩, sock⟩
      · exact iff_of_false (by simp) (by simp)
      · exact iff_of_true ⟨_, rfl⟩ ⟨_, rfl⟩
      · cases s.replied <;> exact iff_of_true ⟨_, rfl⟩ ⟨_, rfl⟩
    · rw [if_neg hlen]
      exact iff_of_false (by simp) fun h => hlen h.1

/-- **`acceptor` returns** exactly when a write fails or a read does, or it survives what the reads bring. -/
theorem acceptor_returns_iff (s : Session) :
    (∃ x, (acceptor s).result = some x) ↔
      ∀ g r : Chunk, s.hello = .ok g → s.greeted = .ok () → s.request = .ok r → Survives g.1 r.1 := by
  cases hhello : s.hello with
  | error e => exact iff_of_true ⟨.error (.io e), by simp [acceptor, hhello]⟩ fun g r hg => nomatch hg
  | ok g =>
    by_cases hg : Greeting g.1
    · rw [acceptor_greeted hhello hg]
      cases hgreet : s.greeted with
      | error e => exact iff_of_true ⟨_, rfl⟩ fun g r _ hgreet => nomatch hgreet
      | ok u =>
        cases hreq : s.request with
        | error e =>
          exact iff_of_true ⟨.error (.io e), by simp [Session.waitConnect, hreq]⟩ fun g r _ _ hr => nomatch hr
        | ok r =>
          refine (waitConnect_returns_iff hreq _).trans ?_
          rw [getD_fill_fill _ hg.1]
          constructor
          · rintro h g' r' hg' - hr'
            obtain rfl := Except.ok.inj hg'
            obtain rfl := Except.ok.inj hr'
            exact Or.inr h
          · exact fun h => (h g r rfl rfl rfl).resolve_left (not_not.mpr hg)
    · rw [acceptor_refused hhello hg]
      refine iff_of_true ⟨_, rfl⟩ fun g' r hg' _ _ => Or.inl ?_
      exact Except.ok.inj hg' ▸ hg

/-- **Where the server side survives.**  `parse_header` does what is expected of it exactly on the data that fits;
`acceptor` returns exactly when it survives what its two reads bring, or comes to no second read. -/
theorem server_survives_iff (sock : Socks5) (data : List UInt8) (s : Session) :
    (HeaderSafe sock data ↔ Fits data) ∧
      ((∃ x, (acceptor s).result = some x) ↔
        ∀ g r : Chunk, s.hello = .ok g → s.greeted = .ok () → s.request = .ok r → Survives g.1 r.1) :=
  ⟨headerSafe_iff sock data, acceptor_returns_iff s⟩

/-- Data without a byte; and a client that closes after the greeting `05 01 00`: the command is then read from the
greeting, and `&buf[3..0]` panics. -/
theorem server_panics :
    ¬ ((∀ (sock : Socks5) (data : List UInt8), HeaderSafe sock data) ∧
      ∀ s : Session, ∃ x, (acceptor s).result = some x) ∧
      parseHeader .blank [] = none ∧
      (acceptor ⟨.ok ⟨[5, 1, 0], by decide⟩, .ok (), .ok ⟨[], by decide⟩, .ok ()⟩).result = none := by
  have hclosed : (acceptor ⟨.ok ⟨[5, 1, 0], by decide⟩, .ok (), .ok ⟨[], by decide⟩, .ok ()⟩).result = none := by
    rw [acceptor_greeted rfl (by decide)]
    rfl
  refine ⟨fun h => ?_, rfl, hclosed⟩
  obtain ⟨x, hx⟩ := h.2 ⟨.ok ⟨[5, 1, 0], by decide⟩, .ok (), .ok ⟨[], by decide⟩, .ok ()⟩
  rw [hclosed] at hx
  cases hx

end NetProtocols.Socks
