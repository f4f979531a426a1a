import NetProtocols.Socks.Acceptor

/-!
# NetProtocols.Socks.Negotiation — what `acceptor` agrees to

A greeting lists the methods that the client offers, with their number in front; `acceptor` takes that number for a
method.  Of the request it looks at the command and the address.

* `Offers`: a greeting of version 5 that offers no authentication.
* `Negotiated`: `acceptor` agrees to what the client has offered only.
* `acceptor_negotiates_iff`: on which greeting and request it does.
-/

namespace NetProtocols.Socks

def socks5Version : UInt8 := 0x05
def socks5AuthMethodNone : UInt8 := 0x00

/-- A greeting of version 5 with as many methods as it says, and no authentication among them. -/
def Offers (g : List UInt8) : Prop :=
  g.getD 0 0 = socks5Version ∧ (g.getD 1 0).toNat + 2 = g.length ∧ socks5AuthMethodNone ∈ g.drop 2

instance (g : List UInt8) : Decidable (Offers g) := inferInstanceAs (Decidable (_ ∧ _ ∧ _))

/-- `acceptor` replies to an offer only and to every one, and it succeeds only when the request is a request of
version 5 to connect, with a reserved byte of zero and a complete address. -/
structure Negotiated (g r : List UInt8) (out : Outcome) : Prop where
  replied : helloReply ∈ out.written ↔ Offers g
  accepted : ∀ sock, out.result = some (.ok sock) → Offers g ∧ r.getD 0 0 = socks5Version ∧
    r.getD 1 0 = socks5CmdTcpConnect ∧ r.getD 2 0 = 0 ∧ Supported (r.drop 3)

/-- The greeting is `05 01 00`; or it is shorter than three bytes or of another version; or it announces two methods or
more, but not as many as follow, or no authentication is not among them. -/
def Heard (g : List UInt8) : Prop :=
  g = [5, 1, 0] ∨ g.length < 3 ∨ g.getD 0 0 ≠ socks5Version ∨
    (1 < g.getD 1 0 ∧ ((g.getD 1 0).toNat + 2 ≠ g.length ∨ socks5AuthMethodNone ∉ g.drop 2))

instance (g : List UInt8) : Decidable (Heard g) := inferInstanceAs (Decidable (_ ∨ _ ∨ _ ∨ _))

/-! ## The greeting -/

theorem Offers.length_le {g : List UInt8} (h : Offers g) : 3 ≤ g.length := by
  have hpos := List.length_pos_of_mem h.2.2
  rw [List.length_drop] at hpos
  omega

/-- The only offer that `acceptor` takes for a greeting. -/
theorem greeting_offers_iff {g : List UInt8} : Greeting g ∧ Offers g ↔ g = [5, 1, 0] := by
  constructor
  · rintro ⟨⟨-, hversion, hcount⟩, hoffer⟩
    have hlen := hoffer.length_le
    obtain ⟨-, hsum, hmem⟩ := hoffer
    have hle : (g.getD 1 0).toNat ≤ 1 := UInt8.le_iff_toNat_le.mp hcount
    have hthree : g.length = 3 := by omega
    match g, hthree with
    | [v, n, m], _ =>
      obtain rfl : v = 5 := hversion
      obtain rfl : n = 1 := UInt8.toNat_inj.mp (show n.toNat = 1 by simpa using hsum)
      obtain rfl : 0 = m := List.mem_singleton.mp hmem
      rfl
  · rintro rfl
    decide

/-- **Where the test of `acceptor` tells the offers from the rest.** -/
theorem heard_iff {g : List UInt8} : (Greeting g ↔ Offers g) ↔ Heard g := by
  constructor
  · intro h
    by_cases hg : Greeting g
    · exact Or.inl (greeting_offers_iff.mp ⟨hg, h.mp hg⟩)
    · have hno : ¬ Offers g := fun ho => hg (h.mpr ho)
      by_cases hlen : g.length < 3
      · exact Or.inr (Or.inl hlen)
      by_cases hversion : g.getD 0 0 = socks5Version
      · refine Or.inr (Or.inr (Or.inr ⟨?_, ?_⟩))
        · exact UInt8.not_le.mp fun hle => hg ⟨Nat.le_of_not_lt hlen, hversion, hle⟩
        · by_contra hboth
          rw [not_or, not_not, not_not] at hboth
          exact hno ⟨hversion, hboth⟩
      · exact Or.inr (Or.inr (Or.inl hversion))
  · rintro (hg | hlen | hversion | ⟨hcount, hnot⟩)
    · have hboth := greeting_offers_iff.mpr hg
      exact iff_of_true hboth.1 hboth.2
    · exact iff_of_false (fun h => absurd h.1 (Nat.not_le.mpr hlen)) fun h => absurd h.length_le (Nat.not_le.mpr hlen)
    · exact iff_of_false (fun h => hversion h.2.1) fun h => hversion h.1
    · refine iff_of_false (fun h => absurd hcount (UInt8.not_lt.mpr h.2.2)) fun h => ?_
      rcases hnot with hnot | hnot
      · exact hnot h.2.1
      · exact hnot h.2.2

/-! ## The request -/

theorem Supported.ne_nil {data : List UInt8} (h : Supported data) : data ≠ [] := by
  obtain ⟨sock, h⟩ := (supported_iff .blank).mp h
  rintro rfl
  simp [parseHeader] at h

theorem replied_of_waitConnect {s : Session} {buf : List UInt8} {sock : Socks5}
    (h : (s.waitConnect buf).result = some (.ok sock)) : s.replied = .ok () := by
  unfold Session.waitConnect at h
  cases hrep : s.replied with
  | ok u => rfl
  | error e =>
    simp only [hrep] at h
    split at h
    · simp at h
    · split_ifs at h
      · simp at h
      · split at h
        · simp at h
        · split at h <;> simp at h

variable {g r : Chunk} {greeted replied : Except String Unit}

theorem replies_iff : helloReply ∈ (acceptor ⟨.ok g, greeted, .ok r, replied⟩).written ↔ Greeting g.1 := by
  by_cases hg : Greeting g.1
  · rw [acceptor_greeted rfl hg]
    refine iff_of_true ?_ hg
    cases greeted <;> exact List.mem_cons_self
  · rw [acceptor_refused rfl hg]
    exact iff_of_false List.not_mem_nil hg

/-- **When `acceptor` succeeds.** -/
theorem accepts_iff :
    (∃ sock, (acceptor ⟨.ok g, greeted, .ok r, replied⟩).result = some (.ok sock)) ↔
      Greeting g.1 ∧ greeted = .ok () ∧ replied = .ok () ∧ r.1.getD 1 0 = socks5CmdTcpConnect ∧
        Supported (r.1.drop 3) := by
  by_cases hg : Greeting g.1
  · rw [acceptor_greeted rfl hg, and_iff_right hg]
    cases greeted with
    | error e => exact iff_of_false (by simp) (by simp)
    | ok u =>
      rw [and_iff_right rfl]
      constructor
      · rintro ⟨sock, hok⟩
        obtain rfl : replied = .ok () := replied_of_waitConnect hok
        obtain ⟨hcmd, hlen, hparse⟩ := (waitConnect_ok_iff rfl rfl _ sock).mp hok
        refine ⟨rfl, ?_, (supported_iff .blank).mpr ⟨sock, hparse⟩⟩
        rw [List.getD_eq_getElem?_getD, hcmd, Option.getD_some]
      · rintro ⟨rfl, hcmd, haddr⟩
        obtain ⟨sock, hparse⟩ := (supported_iff .blank).mp haddr
        have hlen : 3 < r.1.length := Nat.lt_of_not_le fun hle => haddr.ne_nil (List.drop_eq_nil_of_le hle)
        refine ⟨sock, (waitConnect_ok_iff rfl rfl _ sock).mpr ⟨?_, hlen.le, hparse⟩⟩
        rw [← hcmd, List.getD_eq_getElem _ _ (by omega), List.getElem?_eq_getElem (by omega)]
  · rw [acceptor_refused rfl hg]
    exact iff_of_false (by simp) fun h => hg h.1

/-! ## What is agreed to -/

/-- **When `acceptor` agrees to what the client offered only**: its test tells whether the greeting is an offer, and
after the greeting `05 01 00`, when both replies are written, a request to connect to a supported address is of version
5 and has a reserved byte of zero. -/
theorem acceptor_negotiates_iff (g r : Chunk) (greeted replied : Except String Unit) :
    Negotiated g.1 r.1 (acceptor ⟨.ok g, greeted, .ok r, replied⟩) ↔
      Heard g.1 ∧ (g.1 = [5, 1, 0] → greeted = .ok () → replied = .ok () → r.1.getD 1 0 = socks5CmdTcpConnect →
        Supported (r.1.drop 3) → r.1.getD 0 0 = socks5Version ∧ r.1.getD 2 0 = 0) := by
  constructor
  · intro h
    refine ⟨heard_iff.mp (replies_iff.symm.trans h.replied), fun hg hgreet hrep hcmd haddr => ?_⟩
    obtain ⟨sock, hok⟩ := accepts_iff.mpr ⟨(greeting_offers_iff.mpr hg).1, hgreet, hrep, hcmd, haddr⟩
    obtain ⟨-, hversion, -, hreserved, -⟩ := h.accepted sock hok
    exact ⟨hversion, hreserved⟩
  · rintro ⟨hheard, hrequest⟩
    have htest := heard_iff.mpr hheard
    refine ⟨replies_iff.trans htest, fun sock hok => ?_⟩
    obtain ⟨hg, hgreet, hrep, hcmd, haddr⟩ := accepts_iff.mp ⟨sock, hok⟩
    obtain ⟨hversion, hreserved⟩ := hrequest (greeting_offers_iff.mp ⟨hg, htest.mp hg⟩) hgreet hrep hcmd haddr
    exact ⟨htest.mp hg, hversion, hcmd, hreserved, haddr⟩

/-- `05 02 00 01` offers no authentication, and is refused; `05 01 02` does not offer it, and is replied to. -/
theorem acceptor_mishears :
    (¬ ∀ (g r : Chunk) (greeted replied : Except String Unit),
      Negotiated g.1 r.1 (acceptor ⟨.ok g, greeted, .ok r, replied⟩)) ∧
      Offers [5, 2, 0, 1] ∧
      (acceptor ⟨.ok ⟨[5, 2, 0, 1], by decide⟩, .ok (), .ok ⟨[], by decide⟩, .ok ()⟩).written = [] ∧
      ¬ Offers [5, 1, 2] ∧
      helloReply ∈ (acceptor ⟨.ok ⟨[5, 1, 2], by decide⟩, .ok (), .ok ⟨[], by decide⟩, .ok ()⟩).written := by
  have hrefused : (acceptor ⟨.ok ⟨[5, 2, 0, 1], by decide⟩, .ok (), .ok ⟨[], by decide⟩, .ok ()⟩).written = [] := by
    rw [acceptor_refused rfl (by decide)]
  refine ⟨fun h => ?_, by decide, hrefused, by decide, replies_iff.mpr (by decide)⟩
  have hreply := (h ⟨[5, 2, 0, 1], by decide⟩ ⟨[], by decide⟩ (.ok ()) (.ok ())).replied.mpr (by decide)
  rw [hrefused] at hreply
  exact List.not_mem_nil hreply

end NetProtocols.Socks
