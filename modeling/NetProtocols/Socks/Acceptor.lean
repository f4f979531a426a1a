import Mathlib.Data.List.GetD
import NetProtocols.Socks.Header

/-!
# NetProtocols.Socks.Acceptor — `Socks5::acceptor` and the boundaries of its reads

`acceptor` reads the greeting and the request with one `read` each, into one buffer.  What it returns then depends on
where the network cuts the stream of the client; `Address::read_from` has `read_exact` for that.

* `Session`: what the two reads return and how the two writes end; `waitConnect`, `acceptor`: the function.
* `Split`: one way to deliver a greeting and a request to the two reads.
* `acceptor_ok_iff`: the cuts after which the request is accepted as it was sent.
-/

namespace NetProtocols.Socks

/-- `let mut buf = [0;4096]`. -/
def bufLen : ℕ := 4096

/-- What a `read` into the buffer returns: at most as many bytes as the buffer has, and none at the end. -/
abbrev Chunk : Type := { bytes : List UInt8 // bytes.length ≤ bufLen }

/-- The buffer after `read`: the bytes read, and behind them what was there before. -/
def fill (buf : List UInt8) (chunk : Chunk) : List UInt8 := chunk.1 ++ buf.drop chunk.1.length

/-- The socket as `acceptor` finds it: its two reads and its two `write_all`s, each with the description of the error
when it fails. -/
structure Session where
  hello : Except String Chunk
  greeted : Except String Unit
  request : Except String Chunk
  replied : Except String Unit

/-- What `acceptor` passes to `write_all`, and what it returns; a panic is `none`. -/
structure Outcome where
  written : List (List UInt8)
  result : Option (Except BoxError Socks5)
  deriving DecidableEq

def helloReply : List UInt8 := [0x05, 0x00]
def connectReply : List UInt8 := [0x05, 0x00, 0x00, 0x01, 0x00, 0x00, 0x00, 0x00, 0x10, 0x10]

/-- `acceptor` from `//step 2 wait connect` on. -/
def Session.waitConnect (s : Session) (buf : List UInt8) : Outcome :=
  match s.request with
  | .error e => ⟨[], some (.error (.io e))⟩
  | .ok chunk =>
    let n := chunk.1.length
    let buf := fill buf chunk
    let method := buf.getD 1 0
    if method ≠ 1 then ⟨[], some (.error (.errWith "no valid method for socks5"))⟩
    else
      match slice buf 3 n with
      | none => ⟨[], none⟩
      | some data =>
        match parseHeader .blank data with
        | none => ⟨[], none⟩
        | some (.error e, _) => ⟨[], some (.error e)⟩
        | some (.ok (), sock5Handle) =>
          match s.replied with
          | .error e => ⟨[connectReply], some (.error (.io e))⟩
          | .ok () => ⟨[connectReply], some (.ok sock5Handle)⟩

/-- `acceptor`. -/
def acceptor (s : Session) : Outcome :=
  let buf := List.replicate bufLen 0
  match s.hello with
  | .error e => ⟨[], some (.error (.io e))⟩
  | .ok chunk =>
    let n := chunk.1.length
    let buf := fill buf chunk
    if n < 3 ∨ buf.getD 0 0 ≠ 5 ∨ 1 < buf.getD 1 0 then
      ⟨[], some (.error (.errWith "not valid socks5 hello!"))⟩
    else
      match s.greeted with
      | .error e => ⟨[helloReply], some (.error (.io e))⟩
      | .ok () =>
        let out := s.waitConnect buf
        { out with written := helloReply :: out.written }

/-! ## The buffer -/

theorem getD_fill {buf : List UInt8} {chunk : Chunk} {i : ℕ} (h : i < chunk.1.length) :
    (fill buf chunk).getD i 0 = chunk.1.getD i 0 := by
  rw [fill, List.getD_append _ _ _ _ h]

/-- `&buf[3..n]` is the rest of what the read has brought, and nothing of an earlier one. -/
theorem slice_fill (buf : List UInt8) (chunk : Chunk) (a : ℕ) :
    slice (fill buf chunk) a chunk.1.length = if a ≤ chunk.1.length then some (chunk.1.drop a) else none := by
  have hlen : chunk.1.length ≤ (fill buf chunk).length := by
    rw [fill, List.length_append]
    omega
  unfold slice
  by_cases h : a ≤ chunk.1.length
  · rw [if_pos ⟨h, hlen⟩, if_pos h, fill, List.drop_append_of_le_length h,
      List.take_append_of_le_length (by rw [List.length_drop]), List.take_of_length_le (by rw [List.length_drop])]
  · rw [if_neg (fun hle => h hle.1), if_neg h]

/-! ## Messages and the ways to deliver them -/

/-- A greeting that `acceptor` accepts. -/
def Greeting (g : List UInt8) : Prop := 3 ≤ g.length ∧ g.getD 0 0 = 5 ∧ g.getD 1 0 ≤ 1

instance (g : List UInt8) : Decidable (Greeting g) := inferInstanceAs (Decidable (_ ∧ _ ∧ _))

theorem refuses_iff (buf : List UInt8) (chunk : Chunk) :
    (chunk.1.length < 3 ∨ (fill buf chunk).getD 0 0 ≠ 5 ∨ 1 < (fill buf chunk).getD 1 0) ↔ ¬ Greeting chunk.1 := by
  by_cases hlen : chunk.1.length < 3
  · exact iff_of_true (Or.inl hlen) fun h => absurd h.1 (Nat.not_le.mpr hlen)
  · rw [getD_fill (by omega), getD_fill (by omega), Greeting, ← UInt8.not_le]
    have h3 : 3 ≤ chunk.1.length := Nat.le_of_not_lt hlen
    simp only [hlen, h3, false_or, true_and, not_and_or]

/-- A request to connect to the address, with any version and any reserved byte. -/
def connectRequest (version reserved : UInt8) (a : Address) : List UInt8 :=
  version :: socks5CmdTcpConnect :: reserved :: a.wire

/-- One way to deliver a greeting and a request: each read returns a nonempty prefix of what remains, and the request
is not sent before the reply to the greeting. -/
structure Split (greeting request : List UInt8) where
  first : Chunk
  second : Chunk
  first_ne : first.1 ≠ []
  first_prefix : first.1 <+: greeting
  second_ne : second.1 ≠ []
  second_prefix : second.1 <+: greeting.drop first.1.length ++ request

/-- The session of a split; the two writes succeed. -/
def Split.session {greeting request : List UInt8} (split : Split greeting request) : Session where
  hello := .ok split.first
  greeted := .ok ()
  request := .ok split.second
  replied := .ok ()

/-- The first read is long enough to be a greeting, and the second holds the command and the whole address at their
places. -/
def Split.Sufficient {greeting request : List UInt8} (split : Split greeting request) (a : Address) : Prop :=
  3 ≤ split.first.1.length ∧ split.second.1[1]? = some socks5CmdTcpConnect ∧ a.wire <+: split.second.1.drop 3

/-! ## The two steps -/

/-- **The request step**: it succeeds on the reads that hold the command and a supported address at their places. -/
theorem waitConnect_ok_iff {s : Session} {chunk : Chunk} (hreq : s.request = .ok chunk) (hrep : s.replied = .ok ())
    (buf : List UInt8) (sock5Handle : Socks5) :
    (s.waitConnect buf).result = some (.ok sock5Handle) ↔
      chunk.1[1]? = some socks5CmdTcpConnect ∧ 3 ≤ chunk.1.length ∧
        parseHeader .blank (chunk.1.drop 3) = some (.ok (), sock5Handle) := by
  unfold Session.waitConnect
  simp only [hreq, hrep, slice_fill]
  by_cases hlen : 3 ≤ chunk.1.length
  · have hmethod : (fill buf chunk).getD 1 0 = socks5CmdTcpConnect ↔ chunk.1[1]? = some socks5CmdTcpConnect := by
      rw [getD_fill (by omega), List.getD_eq_getElem _ _ (by omega), List.getElem?_eq_getElem (by omega),
        Option.some.injEq]
    by_cases hm : (fill buf chunk).getD 1 0 = 1
    · have hcmd := hmethod.mp hm
      rw [if_neg (not_not.mpr hm), if_pos hlen]
      simp only [hcmd, hlen, true_and]
      rcases hparse : parseHeader .blank (chunk.1.drop 3) with _ | ⟨_ | ⟨⟩, self'⟩ <;> simp
    · have hcmd : chunk.1[1]? ≠ some socks5CmdTcpConnect := fun h => hm (hmethod.mpr h)
      rw [if_pos hm]
      simp [hcmd]
  · rw [if_neg hlen]
    split_ifs <;> simp [hlen]

/-- The request step reads nothing of what was in the buffer, when the read brings two bytes. -/
theorem waitConnect_stale {s : Session} {chunk : Chunk} (hreq : s.request = .ok chunk) (h : 2 ≤ chunk.1.length)
    (buf buf' : List UInt8) : s.waitConnect buf = s.waitConnect buf' := by
  unfold Session.waitConnect
  simp only [hreq, slice_fill, getD_fill (show 1 < chunk.1.length by omega)]

theorem acceptor_refused {s : Session} {chunk : Chunk} (hhello : s.hello = .ok chunk) (hg : ¬ Greeting chunk.1) :
    acceptor s = ⟨[], some (.error (.errWith "not valid socks5 hello!"))⟩ := by
  unfold acceptor
  simp only [hhello]
  rw [if_pos ((refuses_iff _ chunk).mpr hg)]

theorem acceptor_greeted {s : Session} {chunk : Chunk} (hhello : s.hello = .ok chunk) (hg : Greeting chunk.1) :
    acceptor s = match s.greeted with
      | .error e => ⟨[helloReply], some (.error (.io e))⟩
      | .ok () =>
        let out := s.waitConnect (fill (List.replicate bufLen 0) chunk)
        { out with written := helloReply :: out.written } := by
  unfold acceptor
  simp only [hhello]
  rw [if_neg fun h => (refuses_iff _ chunk).mp h hg]

/-- **The greeting step**, on a part of a greeting. -/
theorem acceptor_split {g r : List UInt8} (hg : Greeting g) (split : Split g r) :
    (acceptor split.session).result =
      if split.first.1.length < 3 then some (.error (.errWith "not valid socks5 hello!"))
      else (split.session.waitConnect (fill (List.replicate bufLen 0) split.first)).result := by
  have hhello : split.session.hello = .ok split.first := rfl
  split_ifs with hlen
  · rw [acceptor_refused hhello fun h => absurd h.1 (Nat.not_le.mpr hlen)]
  · have hsame : ∀ i < 3, split.first.1.getD i 0 = g.getD i 0 := by
      intro i hi
      obtain ⟨tail, htail⟩ := split.first_prefix
      have hg := congrArg (·.getD i 0) htail
      rw [← hg, List.getD_append _ _ _ _ (by omega)]
    have hfirst : Greeting split.first.1 := by
      refine ⟨Nat.le_of_not_lt hlen, ?_, ?_⟩
      · rw [hsame 0 (by omega), hg.2.1]
      · rw [hsame 1 (by omega)]
        exact hg.2.2
    rw [acceptor_greeted hhello hfirst]
    rfl

/-! ## The cuts after which the request is accepted -/

variable {g : List UInt8} {version reserved : UInt8} {a : Address} {r : String × UInt16 × Bool}

/-- **Read boundaries of the handshake**: a greeting that is accepted and a request for a supported address end in the
address that was asked for, whatever the buffer held before the second read, exactly when the cuts are such that the
first read has three bytes and the second one has the command and the whole address at their places. -/
theorem acceptor_ok_iff (hg : Greeting g) (hr : a.request = some r) (ha : a.Encodable)
    (split : Split g (connectRequest version reserved a)) :
    ((acceptor split.session).result = some (.ok (a.handled .blank)) ∧
      ∀ stale, split.session.waitConnect stale =
        split.session.waitConnect (fill (List.replicate bufLen 0) split.first)) ↔ split.Sufficient a := by
  rw [acceptor_split hg split]
  have hstep := waitConnect_ok_iff (s := split.session) (rfl : split.session.request = .ok split.second) rfl
  constructor
  · rintro ⟨hok, -⟩
    split_ifs at hok with hlen
    · simp at hok
    obtain ⟨hcmd, -, hparse⟩ := (hstep _ _).mp hok
    obtain ⟨a', r', rest, hr', -, hdata, hsame⟩ := parseHeader_ok hparse
    obtain rfl := handled_inj rfl hr hr' hsame
    exact ⟨by omega, hcmd, rest, hdata.symm⟩
  · rintro ⟨hlen, hcmd, rest, hdata⟩
    have hparse : parseHeader .blank (split.second.1.drop 3) = some (.ok (), a.handled .blank) := by
      rw [← hdata]
      exact parseHeader_wire hr ha rest
    have h3 : 3 ≤ split.second.1.length := by
      by_contra hshort
      rw [List.drop_eq_nil_of_le (by omega)] at hparse
      simp [parseHeader] at hparse
    constructor
    · rw [if_neg (by omega)]
      exact (hstep _ _).mpr ⟨hcmd, h3, hparse⟩
    · exact fun stale => waitConnect_stale rfl (by omega) stale _

/-- The greeting `05 01 00` and a request for `127.0.0.1:80`, each in one read. -/
theorem acceptor_ok_iff_whole :
    ∃ split : Split [5, 1, 0] [5, 1, 0, 1, 127, 0, 0, 1, 0, 80],
      (acceptor split.session).result = some (.ok ⟨".127.0.0.1", 80, false⟩) := by
  let split : Split [5, 1, 0] (connectRequest 5 0 (.socketAddress (.v4 ⟨⟨127, 0, 0, 1⟩, 80⟩))) :=
    ⟨⟨[5, 1, 0], by decide⟩, ⟨[5, 1, 0, 1, 127, 0, 0, 1, 0, 80], by decide⟩, by decide, by decide, by decide,
      by decide⟩
  have h := (acceptor_ok_iff (a := .socketAddress (.v4 ⟨⟨127, 0, 0, 1⟩, 80⟩)) (by decide) rfl trivial split).mpr
    ⟨by decide, rfl, by decide⟩
  exact ⟨split, h.1⟩

/-- The same request with its first byte in a read of its own: the command is then read from the greeting, and
`&buf[3..1]` panics. -/
theorem request_cut_panics :
    ¬ ∀ (g : List UInt8) (version reserved : UInt8) (a : Address) (r : String × UInt16 × Bool), Greeting g →
      a.request = some r → a.Encodable → ∀ split : Split g (connectRequest version reserved a),
        (acceptor split.session).result = some (.ok (a.handled .blank)) := by
  intro h
  let split : Split [5, 1, 0] (connectRequest 5 0 (.socketAddress (.v4 ⟨⟨127, 0, 0, 1⟩, 80⟩))) :=
    ⟨⟨[5, 1, 0], by decide⟩, ⟨[5], by decide⟩, by decide, by decide, by decide, by decide⟩
  have hok := h [5, 1, 0] 5 0 (.socketAddress (.v4 ⟨⟨127, 0, 0, 1⟩, 80⟩)) _ (by decide) rfl trivial split
  have hpanic : (acceptor split.session).result = none := by
    rw [acceptor_split (by decide)]
    rfl
  rw [hpanic] at hok
  exact absurd hok (by simp)

end NetProtocols.Socks
