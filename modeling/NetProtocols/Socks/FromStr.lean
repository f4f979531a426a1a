import NetProtocols.Lib.Text
import NetProtocols.Socks.Address

/-!
# NetProtocols.Socks.FromStr — `Address::from_str`

`from_str` reads a socket address, or a name and a port with a colon between them.  The parser of the standard library
for socket addresses is a parameter.

* `fromStr`: the function; `fromStr_of_one`, `fromStr_of_more`: what it makes of the first two pieces.
* `HostPort`: a text that is a name, one colon and a port.
* `fromStr_hostPort_iff`: on which texts `from_str` accepts these and nothing else.
* `fromStr_sends_iff`: which of the accepted names can be sent.
-/

namespace NetProtocols.Socks

/-- `struct AddressError`. -/
structure AddressError where
  deriving DecidableEq, Repr

/-- `from_str`. -/
def fromStr (parseSocketAddr : String → Option SocketAddr) (s : String) : Except AddressError Address :=
  match parseSocketAddr s with
  | some addr => .ok (.socketAddress addr)
  | none =>
    let sp := split ':' s
    match sp[0]?, sp[1]? with
    | some dn, some port =>
      match parseU16 port with
      | some port => .ok (.domainNameAddress dn port)
      | none => .error ⟨⟩
    | _, _ => .error ⟨⟩

/-- What `from_str` makes of a name and a text that may be a port. -/
def namedAddress (dn port : String) : Except AddressError Address :=
  match parseU16 port with
  | some port => .ok (.domainNameAddress dn port)
  | none => .error ⟨⟩

section Pieces

variable {parseSocketAddr : String → Option SocketAddr} {s dn t : String} {p : UInt16}

theorem fromStr_of_notMem (hs : parseSocketAddr s = none) (h : ':' ∉ s.toList) :
    fromStr parseSocketAddr s = .error ⟨⟩ := by
  unfold fromStr
  rw [hs, split_of_notMem h]
  rfl

theorem fromStr_of_one (hs : parseSocketAddr (dn ++ ":" ++ t) = none) (hdn : ':' ∉ dn.toList) (ht : ':' ∉ t.toList) :
    fromStr parseSocketAddr (dn ++ ":" ++ t) = namedAddress dn t := by
  have hsplit : split ':' (dn ++ ":" ++ t) = [dn, t] := by
    rw [show ":" = String.singleton ':' from rfl, split_append hdn, split_of_notMem ht]
  unfold fromStr
  rw [hs, hsplit]
  rfl

theorem fromStr_of_more {rest : String} (hs : parseSocketAddr (dn ++ ":" ++ (t ++ ":" ++ rest)) = none)
    (hdn : ':' ∉ dn.toList) (ht : ':' ∉ t.toList) :
    fromStr parseSocketAddr (dn ++ ":" ++ (t ++ ":" ++ rest)) = namedAddress dn t := by
  have hsplit : split ':' (dn ++ ":" ++ (t ++ ":" ++ rest)) = dn :: t :: split ':' rest := by
    rw [show ":" = String.singleton ':' from rfl, split_append hdn, split_append ht]
  unfold fromStr
  rw [hs, hsplit]
  rfl

theorem namedAddress_eq_ok {a : Address} :
    namedAddress dn t = .ok a ↔ ∃ p, parseU16 t = some p ∧ a = .domainNameAddress dn p := by
  unfold namedAddress
  cases parseU16 t with
  | none => simp
  | some p => simp [eq_comm]

theorem namedAddress_eq_error : namedAddress dn t = .error ⟨⟩ ↔ parseU16 t = none := by
  unfold namedAddress
  cases parseU16 t <;> simp

theorem colons (s : String) : ':' ∉ s.toList ∨ (∃ dn t, s = dn ++ ":" ++ t ∧ ':' ∉ dn.toList ∧ ':' ∉ t.toList) ∨
    ∃ dn t rest, s = dn ++ ":" ++ (t ++ ":" ++ rest) ∧ ':' ∉ dn.toList ∧ ':' ∉ t.toList := by
  have hcut : ∀ s : String, ':' ∉ s.toList ∨ ∃ dn t, s = dn ++ ":" ++ t ∧ ':' ∉ dn.toList := by
    intro s
    by_cases h : ':' ∈ s.toList
    · obtain ⟨as, bs, hs, has⟩ := List.eq_append_cons_of_mem h
      refine Or.inr ⟨String.ofList as, String.ofList bs, ?_, by rwa [String.toList_ofList]⟩
      rw [← String.toList_inj, hs]
      simp
    · exact Or.inl h
  rcases hcut s with h | ⟨dn, t, rfl, hdn⟩
  · exact Or.inl h
  · rcases hcut t with ht | ⟨t, rest, rfl, ht⟩
    · exact Or.inr (Or.inl ⟨dn, t, rfl, hdn, ht⟩)
    · exact Or.inr (Or.inr ⟨dn, t, rest, rfl, hdn, ht⟩)

/-! ## Which texts are accepted -/

/-- The text is the name, the only colon and the port. -/
def HostPort (s dn : String) (p : UInt16) : Prop :=
  s.toList.count ':' = 1 ∧ ∃ t, s = dn ++ ":" ++ t ∧ parseU16 t = some p

/-- `from_str` accepts a name and a port, and no other text is one. -/
structure ReadsHostPort (parseSocketAddr : String → Option SocketAddr) (s : String) : Prop where
  ok : ∀ dn p, fromStr parseSocketAddr s = .ok (.domainNameAddress dn p) ↔ HostPort s dn p
  error : (∀ dn p, ¬ HostPort s dn p) → fromStr parseSocketAddr s = .error ⟨⟩

/-- If there are two colons, the text between the first two is no port. -/
def PortLast (s : String) : Prop :=
  ∀ dn t rest, s = dn ++ ":" ++ (t ++ ":" ++ rest) → ':' ∉ dn.toList → parseU16 t = none

theorem colon_notMem (h : parseU16 t = some p) : ':' ∉ t.toList := notMem_of_parseU16 h rfl (by decide)

/-- A text is cut at its first colon in one way. -/
theorem append_colon_inj {dn' t' : String} (h : dn ++ ":" ++ t = dn' ++ ":" ++ t') (hdn : ':' ∉ dn.toList)
    (hdn' : ':' ∉ dn'.toList) : dn = dn' ∧ t = t' := by
  have hlist : dn.toList ++ ':' :: t.toList = dn'.toList ++ ':' :: t'.toList := by
    simpa using congrArg String.toList h
  obtain ⟨h1, h2⟩ := append_cons_cut hdn hdn' hlist
  exact ⟨String.toList_inj.mp h1, String.toList_inj.mp h2⟩

theorem count_colon (dn t : String) :
    (dn ++ ":" ++ t).toList.count ':' = dn.toList.count ':' + t.toList.count ':' + 1 := by
  have hcolon : (":".toList).count ':' = 1 := by decide
  rw [String.toList_append, String.toList_append, List.count_append, List.count_append, hcolon]
  omega

theorem HostPort.notMem {s dn : String} (h : HostPort s dn p) : ':' ∉ dn.toList := by
  obtain ⟨hcount, t, rfl, -⟩ := h
  rw [count_colon] at hcount
  exact List.count_eq_zero.mp (by omega)

theorem hostPort_iff_of_one {dn' : String} (hdn : ':' ∉ dn.toList) (ht : ':' ∉ t.toList) :
    HostPort (dn ++ ":" ++ t) dn' p ↔ dn' = dn ∧ parseU16 t = some p := by
  constructor
  · intro h
    obtain ⟨-, t', heq, hport⟩ := id h
    obtain ⟨rfl, rfl⟩ := append_colon_inj heq hdn h.notMem
    exact ⟨rfl, hport⟩
  · rintro ⟨rfl, hport⟩
    refine ⟨?_, t, rfl, hport⟩
    rw [count_colon, List.count_eq_zero.mpr hdn, List.count_eq_zero.mpr ht]

theorem not_hostPort_of_more {dn' rest : String} : ¬ HostPort (dn ++ ":" ++ (t ++ ":" ++ rest)) dn' p := by
  intro h
  have hcount := h.1
  rw [count_colon, count_colon] at hcount
  omega

theorem portLast_iff_of_more {rest : String} (hdn : ':' ∉ dn.toList) (ht : ':' ∉ t.toList) :
    PortLast (dn ++ ":" ++ (t ++ ":" ++ rest)) ↔ parseU16 t = none := by
  refine ⟨fun h => h dn t rest rfl hdn, fun hnone dn' t' rest' heq hdn' => ?_⟩
  obtain ⟨rfl, hrest⟩ := append_colon_inj heq hdn hdn'
  cases hport : parseU16 t' with
  | none => rfl
  | some p =>
    obtain ⟨rfl, -⟩ := append_colon_inj hrest ht (colon_notMem hport)
    rw [hnone] at hport
    cases hport

/-- **Which texts `from_str` reads as they are**: those without a port between their first two colons. -/
theorem fromStr_hostPort_iff (hs : parseSocketAddr s = none) : ReadsHostPort parseSocketAddr s ↔ PortLast s := by
  rcases colons s with h | ⟨dn, t, rfl, hdn, ht⟩ | ⟨dn, t, rest, rfl, hdn, ht⟩
  · -- no colon
    have hread := fromStr_of_notMem hs h
    have hnot : ∀ dn p, ¬ HostPort s dn p := fun dn p hp => by
      rw [HostPort, List.count_eq_zero.mpr h] at hp
      exact absurd hp.1 (by decide)
    refine iff_of_true ⟨fun dn p => ?_, fun _ => hread⟩ ?_
    · rw [hread]
      exact iff_of_false (fun he => nomatch he) (hnot dn p)
    · rintro dn t rest rfl -
      exact absurd (by simp) h
  · -- one colon
    have hread := fromStr_of_one hs hdn ht
    refine iff_of_true ⟨fun dn' p => ?_, fun hnot => ?_⟩ ?_
    · rw [hread, namedAddress_eq_ok, hostPort_iff_of_one hdn ht]
      constructor
      · rintro ⟨p', hport, haddr⟩
        obtain ⟨rfl, rfl⟩ := Address.domainNameAddress.inj haddr
        exact ⟨rfl, hport⟩
      · rintro ⟨rfl, hport⟩
        exact ⟨p, hport, rfl⟩
    · rw [hread, namedAddress_eq_error]
      cases hport : parseU16 t with
      | none => rfl
      | some p => exact absurd ((hostPort_iff_of_one hdn ht).mpr ⟨rfl, hport⟩) (hnot dn p)
    · rintro dn' t' rest heq hdn'
      obtain ⟨-, rfl⟩ := append_colon_inj heq hdn hdn'
      exact absurd (by simp) ht
  · -- more colons
    have hread := fromStr_of_more hs hdn ht
    rw [portLast_iff_of_more hdn ht, ← @namedAddress_eq_error dn, ← hread]
    refine ⟨fun h => h.error fun dn' p => not_hostPort_of_more, fun herr => ⟨fun dn' p => ?_, fun _ => herr⟩⟩
    rw [herr]
    exact iff_of_false (fun he => nomatch he) not_hostPort_of_more

end Pieces

/-- A name with a port. -/
theorem fromStr_hostPort_iff_name :
    ReadsHostPort (fun _ => none) "a.b:443" ∧
      fromStr (fun _ => none) "a.b:443" = .ok (.domainNameAddress "a.b" 443) := by
  have hlast : PortLast "a.b:443" := by
    rintro dn t rest heq -
    have hcount := congrArg (fun s : String => s.toList.count ':') heq
    simp only [count_colon] at hcount
    have hone : "a.b:443".toList.count ':' = 1 := by decide
    omega
  have hread : ReadsHostPort (fun _ => none) "a.b:443" := (fromStr_hostPort_iff rfl).mpr hlast
  exact ⟨hread, (hread.ok "a.b" 443).mpr ⟨by decide, "443", by decide, by decide⟩⟩

/-- What follows the port is ignored. -/
theorem fromStr_ignores_rest :
    ¬ ∀ (parseSocketAddr : String → Option SocketAddr) (s : String), parseSocketAddr s = none →
      ReadsHostPort parseSocketAddr s := by
  intro h
  have hok : fromStr (fun _ => none) "a:1:b" = .ok (.domainNameAddress "a" 1) := by decide
  have hcount := (((h (fun _ => none) "a:1:b" rfl).ok "a" 1).mp hok).1
  exact absurd hcount (by decide)

/-! ## What can be sent -/

/-- The writer completes, with as many bytes as it says, and the reader makes the address of them. -/
def CanBeSent (a : Address) : Prop :=
  ∃ bs, (∀ buf, a.writeToBuf buf = some (buf ++ bs)) ∧ bs.length = a.serializedLen ∧
    ∀ rest failure, Address.readFrom ⟨bs ++ rest, failure⟩ = some (.ok (a, ⟨rest, failure⟩))

/-- The assertion of the writer. -/
theorem writeToBuf_of_long {dn : String} (h : ¬ dn.utf8ByteSize ≤ 255) (p : UInt16) (buf : List UInt8) :
    (Address.domainNameAddress dn p).writeToBuf buf = none := if_neg h

theorem canBeSent_iff (dn : String) (p : UInt16) : CanBeSent (.domainNameAddress dn p) ↔ dn.utf8ByteSize ≤ 255 := by
  constructor
  · rintro ⟨bs, hwrite, -⟩
    by_contra hlong
    have hpanic := writeToBuf_of_long hlong p []
    rw [hwrite] at hpanic
    cases hpanic
  · intro hle
    have ha : (Address.domainNameAddress dn p).Encodable := hle
    exact ⟨_, Address.writeToBuf_wire ha, Address.length_wire _, Address.readFrom_wire ha⟩

/-- The text in front of the first colon. -/
def hostText (s : String) : String := String.ofList (s.toList.takeWhile (· ≠ ':'))

theorem hostText_append {dn : String} (hdn : ':' ∉ dn.toList) (t : String) : hostText (dn ++ ":" ++ t) = dn := by
  have hlist : (dn ++ ":" ++ t).toList = dn.toList ++ ':' :: t.toList := by simp
  have hall : ∀ c ∈ dn.toList, decide (c ≠ ':') = true := fun c hc => decide_eq_true fun he => hdn (he ▸ hc)
  rw [hostText, hlist, List.takeWhile_append_of_pos hall, List.takeWhile_cons_of_neg (by simp), List.append_nil,
    String.ofList_toList]

theorem hostText_of_fromStr {parseSocketAddr : String → Option SocketAddr} {s dn : String} {p : UInt16}
    (h : fromStr parseSocketAddr s = .ok (.domainNameAddress dn p)) : dn = hostText s := by
  have hs : parseSocketAddr s = none := by
    unfold fromStr at h
    cases hs : parseSocketAddr s with
    | none => rfl
    | some addr => simp [hs] at h
  rcases colons s with hno | ⟨dn', t, rfl, hdn, ht⟩ | ⟨dn', t, rest, rfl, hdn, ht⟩
  · rw [fromStr_of_notMem hs hno] at h
    cases h
  · rw [fromStr_of_one hs hdn ht, namedAddress_eq_ok] at h
    obtain ⟨p', -, haddr⟩ := h
    rw [hostText_append hdn]
    exact (Address.domainNameAddress.inj haddr).1
  · rw [fromStr_of_more hs hdn ht, namedAddress_eq_ok] at h
    obtain ⟨p', -, haddr⟩ := h
    rw [hostText_append hdn]
    exact (Address.domainNameAddress.inj haddr).1

/-- **Which of the accepted names can be sent**: those whose text in front of the first colon has at most 255 bytes. -/
theorem fromStr_sends_iff {parseSocketAddr : String → Option SocketAddr} {s dn : String} {p : UInt16}
    (h : fromStr parseSocketAddr s = .ok (.domainNameAddress dn p)) :
    CanBeSent (.domainNameAddress dn p) ↔ (hostText s).utf8ByteSize ≤ 255 := by
  rw [canBeSent_iff, hostText_of_fromStr h]

/-- The name `a.b` with port 443. -/
theorem fromStr_sends_iff_name : CanBeSent (.domainNameAddress "a.b" 443) := by
  have hread : fromStr (fun _ => none) "a.b:443" = .ok (.domainNameAddress "a.b" 443) := by decide
  exact (fromStr_sends_iff hread).mpr (by decide)

/-- A name of 256 bytes is accepted, and the assertion of the writer fails. -/
theorem long_name_panics :
    (¬ ∀ (parseSocketAddr : String → Option SocketAddr) (s dn : String) (p : UInt16),
      fromStr parseSocketAddr s = .ok (.domainNameAddress dn p) → CanBeSent (.domainNameAddress dn p)) ∧
      (Address.domainNameAddress (String.ofList (List.replicate 256 'a')) 80).writeToBuf [] = none := by
  have hsize : (String.ofList (List.replicate 256 'a')).utf8ByteSize = 256 := by
    decide +kernel
  have hlong : ¬ (String.ofList (List.replicate 256 'a')).utf8ByteSize ≤ 255 := by omega
  have hdn : ':' ∉ (String.ofList (List.replicate 256 'a')).toList := by
    rw [String.toList_ofList]
    exact fun hm => absurd (List.eq_of_mem_replicate hm) (by decide)
  generalize String.ofList (List.replicate 256 'a') = dn at hlong hdn
  have hread : fromStr (fun _ => none) (dn ++ ":" ++ "80") = .ok (.domainNameAddress dn 80) := by
    rw [fromStr_of_one rfl hdn (by decide), namedAddress_eq_ok]
    exact ⟨80, by decide, rfl⟩
  exact ⟨fun h => hlong ((canBeSent_iff dn 80).mp (h _ _ dn 80 hread)), writeToBuf_of_long hlong 80 []⟩

end NetProtocols.Socks
