import NetProtocols.Kcp.Listener
import NetProtocols.Kcp.Reader

/-!
# NetProtocols.Kcp.Serving — a `KcpListener` under all of its calls

`accept`, `drop_stream` and `update_connection` in any order, and between them whatever the streams that were handed
out do to the control blocks that they share with the map.

* `Serving`, `ServeAct`, `Serving.step`: the listener, its calls, one call.
* `serve`, `acceptTurn_eq`: a datagram is handled by what its address has, and by the first bytes of the buffer when
  it has nothing.
* `servers_step`: the streams of a listener are server's streams.
* `isolated`: what an address gets depends on what is done for that address only, when its first datagrams are long
  enough for a conversation number; `stale_conversation`: otherwise it does not.
-/

namespace NetProtocols.Kcp

variable {Addr : Type} [DecidableEq Addr] {b : Build}

namespace KcpListener

/-- `drop_stream`. -/
def dropStream (l : KcpListener Addr) (addr : Addr) : KcpListener Addr where
  connections := Function.update l.connections addr none

/-- `update_connection`. -/
def updateConnection (l : KcpListener Addr) (kcpStream : KcpStream Addr) : KcpListener Addr :=
  l.insert kcpStream.frAddr kcpStream

/-- A clone of the stream of the address leaves the control block `k`. -/
def shared (l : KcpListener Addr) (addr : Addr) (k : Kcb) : KcpListener Addr :=
  match l.connections addr with
  | some kp => l.insert addr (kp.setKcb k)
  | none => l

end KcpListener

/-- The calls of a listener; `accept` takes one datagram at a time. -/
inductive ServeAct (Addr : Type)
  | accept (i : Incoming Addr)
  | dropStream (addr : Addr)
  | updateConnection (kcpStream : KcpStream Addr)
  | shared (addr : Addr) (k : Kcb)

/-- A listener, and what its calls of `accept` have returned. -/
structure Serving (Addr : Type) where
  accepting : Accepting Addr
  handed : List (KcpStream Addr × Addr) := []

namespace Serving

open KcpListener

/-- `bind`. -/
def start : Serving Addr where
  accepting := ⟨KcpListener.bind, blankBuf⟩

/-- The stream of an address in the map. -/
def entry (s : Serving Addr) (a : Addr) : Option (KcpStream Addr) := s.accepting.listener.connections a

/-- The streams that were returned for an address. -/
def handedTo (s : Serving Addr) (a : Addr) : List (KcpStream Addr × Addr) := s.handed.filter fun x => x.2 = a

/-- The serving with another map. -/
def setListener (s : Serving Addr) (l : KcpListener Addr) : Serving Addr :=
  { s with accepting := { s.accepting with listener := l } }

/-- What a turn of `accept` returns to the caller. -/
def streamOf : Option (Except IoError (KcpStream Addr × Addr)) → List (KcpStream Addr × Addr)
  | some (.ok x) => [x]
  | _ => []

/-- One call. -/
def step (b : Build) (s : Serving Addr) : ServeAct Addr → Option (Serving Addr)
  | .accept i => do
    let (r, l, buf) ← s.accepting.listener.acceptTurn b s.accepting.buf i
    some ⟨⟨l, if r.isSome then blankBuf else buf⟩, s.handed ++ streamOf r⟩
  | .dropStream addr => some (s.setListener (s.accepting.listener.dropStream addr))
  | .updateConnection kcpStream => some (s.setListener (s.accepting.listener.updateConnection kcpStream))
  | .shared addr k => some (s.setListener (s.accepting.listener.shared addr k))

/-! ### One datagram -/

/-- What is done with a datagram: the stream that is returned, if one is, and the new entry of the address.  `front` is
what stands at the front of the buffer. -/
def serve (b : Build) (entry : Option (KcpStream Addr)) (front d : List UInt8) (a : Addr) (i : Incoming Addr) :
    Option (Option (KcpStream Addr) × KcpStream Addr) :=
  match entry with
  | some kp => do
    let s ← passOn b { kp with init := false } d a i
    some (if s.buf.length < 25 then none else some s, kp.setKcb s.kcb)
  | none => do
    let (conv, _) ← getU32le front
    let s ← KcpStream.opened b conv a true i.checkNow i.checkLater
    let s ← passOn b s d a i
    some (some s, s)

/-- **A turn of `accept`** reads nothing but the entry of the address, the datagram, and the front of the buffer. -/
theorem acceptTurn_eq {l : KcpListener Addr} {buf datagram : List UInt8} {a : Addr} {i : Incoming Addr}
    (hi : i.received = .ok (datagram, a)) :
    l.acceptTurn b buf i =
      (serve b (l.connections a) ((fillFrom buf datagram).take 4) (recvFrom buf.length datagram) a i).map
        fun x => (x.1.map fun s => .ok (s, a), l.insert a x.2, fillFrom buf datagram) := by
  unfold acceptTurn serve
  simp only [hi]
  cases l.connections a with
  | some kp =>
    simp only [Option.bind_eq_bind, Option.map_bind]
    congr 1
    funext s
    simp only [Function.comp]
    split_ifs <;> rfl
  | none =>
    simp only [openStream, Option.bind_eq_bind, Option.bind_assoc, Option.map_bind, Function.comp_def, Option.map_some]

omit [DecidableEq Addr] in
theorem passOn_eq {kp kp' : KcpStream Addr} {d : List UInt8} {a : Addr} {i : Incoming Addr}
    (h : passOn b kp d a i = some kp') :
    kp'.buf = d ∧ kp'.server = kp.server ∧ kp'.frAddr = kp.frAddr := by
  simp only [passOn, KcpStream.udpRecvAndIucUpdate, KcpStream.setBuf_toSend, Option.bind_eq_bind,
    Option.bind_eq_some_iff, Option.some.injEq] at h
  obtain ⟨⟨q, s⟩, ⟨-, -, x, -, ⟨r, k⟩, -, hs⟩, rfl⟩ := h
  split at hs <;>
  · obtain ⟨-, rfl⟩ := Prod.mk.inj (Option.some.inj hs)
    exact ⟨rfl, rfl, rfl⟩

omit [DecidableEq Addr] in
theorem opened_eq {kp : KcpStream Addr} {conv now later : UInt32} {a : Addr} {server : Bool}
    (h : KcpStream.opened b conv a server now later = some kp) : kp.server = server ∧ kp.frAddr = a := by
  simp only [KcpStream.opened, KcpStream.kcpCheck, Option.bind_eq_bind, Option.bind_eq_some_iff,
    Option.some.injEq] at h
  obtain ⟨⟨dur, k⟩, -, rfl⟩ := h
  exact ⟨rfl, rfl⟩

omit [DecidableEq Addr] in
theorem server_serve {entry : Option (KcpStream Addr)} {front d : List UInt8} {a : Addr} {i : Incoming Addr}
    {x : Option (KcpStream Addr) × KcpStream Addr} (he : ∀ kp ∈ entry, kp.server = true)
    (h : serve b entry front d a i = some x) : x.2.server = true ∧ ∀ s ∈ x.1, s.server = true := by
  cases entry with
  | some kp =>
    simp only [serve, Option.bind_eq_bind, Option.bind_eq_some_iff, Option.some.injEq] at h
    obtain ⟨s, hs, rfl⟩ := h
    have hkp := he kp rfl
    obtain ⟨-, hserver, -⟩ := passOn_eq hs
    refine ⟨hkp, fun s' hs' => ?_⟩
    dsimp only at hs'
    split_ifs at hs'
    · cases hs'
    · obtain rfl := Option.some.inj hs'
      exact hserver.trans hkp
  | none =>
    simp only [serve, Option.bind_eq_bind, Option.bind_eq_some_iff, Option.some.injEq] at h
    obtain ⟨c, -, s, ho, s', hs, rfl⟩ := h
    have hserver : s'.server = true := (passOn_eq hs).2.1.trans (opened_eq ho).1
    refine ⟨hserver, fun x hx => ?_⟩
    obtain rfl := Option.some.inj hx
    exact hserver

/-- The serving after a datagram of the address, by what was done with it. -/
def served (s : Serving Addr) (datagram : List UInt8) (a : Addr) (x : Option (KcpStream Addr) × KcpStream Addr) :
    Serving Addr where
  accepting := ⟨s.accepting.listener.insert a x.2,
    if x.1.isSome then blankBuf else fillFrom s.accepting.buf datagram⟩
  handed := s.handed ++ (x.1.map fun y => (y, a)).toList

/-- **A call of `accept` that receives a datagram.** -/
theorem step_accept {s : Serving Addr} {i : Incoming Addr} {datagram : List UInt8} {a : Addr}
    (hi : i.received = .ok (datagram, a)) :
    s.step b (.accept i) =
      (serve b (s.entry a) ((fillFrom s.accepting.buf datagram).take 4) (recvFrom s.accepting.buf.length datagram)
        a i).map (s.served datagram a) := by
  simp only [step, acceptTurn_eq hi, Option.bind_eq_bind, Option.bind_map]
  cases hx : serve b (s.accepting.listener.connections a) ((fillFrom s.accepting.buf datagram).take 4)
    (recvFrom s.accepting.buf.length datagram) a i with
  | none => simp [entry, hx]
  | some x =>
    obtain ⟨r, kp⟩ := x
    cases r <;> simp [entry, hx, served, streamOf]

theorem step_error {s : Serving Addr} {i : Incoming Addr} {e : IoError} (hi : i.received = .error e) :
    s.step b (.accept i) = some { s with accepting := { s.accepting with buf := blankBuf } } := by
  simp [step, acceptTurn, hi, streamOf]

/-! ### Server's streams -/

/-- The streams in the map and those that were handed out are server's streams. -/
def Servers (s : Serving Addr) : Prop :=
  (∀ a, ∀ kp ∈ s.entry a, kp.server = true) ∧ ∀ x ∈ s.handed, x.1.server = true

/-- A stream that is put back is a server's stream. -/
def PutsBack : ServeAct Addr → Prop
  | .updateConnection kcpStream => kcpStream.server = true
  | _ => True

theorem servers_insert {s : Serving Addr} {kp : KcpStream Addr} (a : Addr) (hs : s.Servers) (hkp : kp.server = true) :
    ∀ a', ∀ x ∈ (s.accepting.listener.insert a kp).connections a', x.server = true := by
  intro a' x hx
  by_cases ha : a' = a
  · subst ha
    rw [insert_self] at hx
    obtain rfl := Option.some.inj hx
    exact hkp
  · rw [insert_of_ne _ _ ha] at hx
    exact hs.1 a' x hx

theorem servers_step {s s' : Serving Addr} {act : ServeAct Addr} (hs : s.Servers) (hact : PutsBack act)
    (h : s.step b act = some s') : s'.Servers := by
  cases act with
  | accept i =>
    cases hi : i.received with
    | error e =>
      rw [step_error hi] at h
      obtain rfl := Option.some.inj h
      exact hs
    | ok y =>
      obtain ⟨datagram, a⟩ := y
      rw [step_accept hi] at h
      obtain ⟨x, hx, rfl⟩ := Option.map_eq_some_iff.mp h
      obtain ⟨h1, h2⟩ := server_serve (hs.1 a) hx
      refine ⟨servers_insert a hs h1, fun y hy => ?_⟩
      rcases List.mem_append.mp hy with hy | hy
      · exact hs.2 y hy
      · obtain ⟨z, hz, rfl⟩ := Option.map_eq_some_iff.mp (Option.mem_toList.mp hy)
        exact h2 z hz
  | dropStream addr =>
    obtain rfl := Option.some.inj h
    refine ⟨fun a kp hkp => ?_, hs.2⟩
    by_cases ha : a = addr
    · subst ha
      simp [entry, setListener, dropStream] at hkp
    · refine hs.1 a kp ?_
      simpa [entry, setListener, dropStream, Function.update_of_ne ha] using hkp
  | updateConnection kcpStream =>
    obtain rfl := Option.some.inj h
    exact ⟨servers_insert _ hs hact, hs.2⟩
  | shared addr k =>
    obtain rfl := Option.some.inj h
    refine ⟨?_, hs.2⟩
    simp only [setListener, KcpListener.shared, entry]
    cases hkp : s.accepting.listener.connections addr with
    | none => exact hs.1
    | some kp => exact servers_insert addr hs (hs.1 addr kp hkp)

omit [DecidableEq Addr] in
theorem servers_start : (start : Serving Addr).Servers :=
  ⟨fun a kp hkp => absurd hkp (by simp [entry, start, KcpListener.bind]), fun x hx => absurd hx (by simp [start])⟩

/-! ### Isolation -/

/-- The call concerns the address. -/
def own (a : Addr) : ServeAct Addr → Bool
  | .accept i =>
    match i.received with
    | .ok (_, a') => decide (a' = a)
    | .error _ => false
  | .dropStream addr | .shared addr _ => decide (addr = a)
  | .updateConnection kcpStream => decide (kcpStream.frAddr = a)

/-- A datagram that opens a stream for the address carries a conversation number. -/
def Numbered (a : Addr) (s : Serving Addr) : ServeAct Addr → Prop
  | .accept i => ∀ x ∈ i.received.toOption, x.2 = a → (s.entry a).isNone → 4 ≤ x.1.length
  | _ => True

instance (a : Addr) (s : Serving Addr) : (act : ServeAct Addr) → Decidable (Numbered a s act)
  | .accept i =>
    inferInstanceAs (Decidable (∀ x ∈ i.received.toOption, x.2 = a → (s.entry a).isNone → 4 ≤ x.1.length))
  | .dropStream _ | .updateConnection _ | .shared _ _ => inferInstanceAs (Decidable True)

/-- The address has the same in both. -/
structure Same (a : Addr) (s t : Serving Addr) : Prop where
  entry : s.entry a = t.entry a
  handed : s.handedTo a = t.handedTo a
  left : s.accepting.buf.length = recvBuf
  right : t.accepting.buf.length = recvBuf

theorem length_blankBuf : blankBuf.length = recvBuf := List.length_replicate

omit [DecidableEq Addr] in
theorem take_fillFrom {buf datagram : List UInt8} (hbuf : buf.length = recvBuf) (hd : 4 ≤ datagram.length) :
    (fillFrom buf datagram).take 4 = datagram.take 4 := by
  have hlen : 4 ≤ (recvFrom buf.length datagram).length := by
    rw [recvFrom, List.length_take, hbuf, recvBuf]
    omega
  rw [fillFrom, List.take_append_of_le_length hlen, recvFrom, List.take_take, hbuf]
  rfl

theorem length_served {s : Serving Addr} {datagram : List UInt8} {a : Addr}
    {x : Option (KcpStream Addr) × KcpStream Addr} (hs : s.accepting.buf.length = recvBuf) :
    (s.served datagram a x).accepting.buf.length = recvBuf := by
  simp only [served]
  split_ifs
  · exact length_blankBuf
  · rw [length_fillFrom, hs]

theorem served_other (s : Serving Addr) (datagram : List UInt8) (x : Option (KcpStream Addr) × KcpStream Addr)
    {a a' : Addr} (h : a' ≠ a) :
    (s.served datagram a' x).entry a = s.entry a ∧ (s.served datagram a' x).handedTo a = s.handedTo a := by
  refine ⟨insert_of_ne _ _ (Ne.symm h), ?_⟩
  simp only [handedTo, served, List.filter_append, List.append_right_eq_self, List.filter_eq_nil_iff]
  intro y hy
  obtain ⟨z, -, rfl⟩ := Option.map_eq_some_iff.mp (Option.mem_toList.mp hy)
  simpa using h

theorem served_own {s t : Serving Addr} {datagram : List UInt8} {a : Addr}
    {x : Option (KcpStream Addr) × KcpStream Addr} (h : Same a s t) :
    Same a (s.served datagram a x) (t.served datagram a x) := by
  constructor
  · simp only [entry, served, insert_self]
  · have hh := h.handed
    simp only [handedTo] at hh
    simp only [handedTo, served, List.filter_append, hh]
  · exact length_served h.left
  · exact length_served h.right

/-- What is done with a datagram of the address is the same in both. -/
theorem serve_same {s t : Serving Addr} {datagram : List UInt8} {a : Addr} (i : Incoming Addr) (h : Same a s t)
    (hd : s.entry a = none → 4 ≤ datagram.length) :
    serve b (s.entry a) ((fillFrom s.accepting.buf datagram).take 4) (recvFrom s.accepting.buf.length datagram) a i =
      serve b (t.entry a) ((fillFrom t.accepting.buf datagram).take 4) (recvFrom t.accepting.buf.length datagram)
        a i := by
  rw [h.left, h.right, ← h.entry]
  cases he : s.entry a with
  | some kp => rfl
  | none => rw [take_fillFrom h.left (hd he), take_fillFrom h.right (hd he)]

theorem same_other {s s' t : Serving Addr} {a : Addr} {act : ServeAct Addr} (h : Same a s t) (hact : own a act = false)
    (hs : s.step b act = some s') : Same a s' t := by
  cases act with
  | accept i =>
    cases hi : i.received with
    | error e =>
      rw [step_error hi] at hs
      obtain rfl := Option.some.inj hs
      exact ⟨h.entry, h.handed, length_blankBuf, h.right⟩
    | ok y =>
      obtain ⟨datagram, a'⟩ := y
      have ha : a' ≠ a := by simpa [own, hi] using hact
      rw [step_accept hi] at hs
      obtain ⟨x, -, rfl⟩ := Option.map_eq_some_iff.mp hs
      obtain ⟨h1, h2⟩ := served_other s datagram x ha
      exact ⟨h1.trans h.entry, h2.trans h.handed, length_served h.left, h.right⟩
  | dropStream addr =>
    have ha : a ≠ addr := Ne.symm (by simpa [own] using hact)
    obtain rfl := Option.some.inj hs
    exact ⟨(Function.update_of_ne ha _ _).trans h.entry, h.handed, h.left, h.right⟩
  | updateConnection kcpStream =>
    have ha : a ≠ kcpStream.frAddr := Ne.symm (by simpa [own] using hact)
    obtain rfl := Option.some.inj hs
    exact ⟨(insert_of_ne _ _ ha).trans h.entry, h.handed, h.left, h.right⟩
  | shared addr k =>
    have ha : a ≠ addr := Ne.symm (by simpa [own] using hact)
    obtain rfl := Option.some.inj hs
    refine ⟨?_, h.handed, h.left, h.right⟩
    simp only [entry, setListener, KcpListener.shared]
    cases s.accepting.listener.connections addr with
    | none => exact h.entry
    | some kp => exact (insert_of_ne _ _ ha).trans h.entry

theorem same_own {s s' t : Serving Addr} {a : Addr} {act : ServeAct Addr} (h : Same a s t) (hn : Numbered a s act)
    (hact : own a act = true) (hs : s.step b act = some s') : ∃ t', t.step b act = some t' ∧ Same a s' t' := by
  cases act with
  | accept i =>
    cases hi : i.received with
    | error e => simp [own, hi] at hact
    | ok y =>
      obtain ⟨datagram, a'⟩ := y
      obtain rfl : a' = a := by simpa [own, hi] using hact
      have hd : s.entry a' = none → 4 ≤ datagram.length := fun he =>
        hn (datagram, a') (by rw [hi]; rfl) rfl (by rw [he]; rfl)
      -- the two listeners hold the same for the address, so the datagram finds the same
      rw [step_accept hi, serve_same i h hd] at hs
      obtain ⟨x, hx, rfl⟩ := Option.map_eq_some_iff.mp hs
      exact ⟨_, by rw [step_accept hi, hx, Option.map_some], served_own h⟩
  | dropStream addr =>
    obtain rfl : addr = a := by simpa [own] using hact
    obtain rfl := Option.some.inj hs
    refine ⟨_, rfl, ?_, h.handed, h.left, h.right⟩
    simp [entry, setListener, dropStream]
  | updateConnection kcpStream =>
    obtain rfl : kcpStream.frAddr = a := by simpa [own] using hact
    obtain rfl := Option.some.inj hs
    refine ⟨_, rfl, ?_, h.handed, h.left, h.right⟩
    simp [entry, setListener, KcpListener.updateConnection]
  | shared addr k =>
    obtain rfl : addr = a := by simpa [own] using hact
    obtain rfl := Option.some.inj hs
    refine ⟨_, rfl, ?_, h.handed, h.left, h.right⟩
    have he := h.entry
    simp only [entry] at he
    simp only [entry, setListener, KcpListener.shared, ← he]
    cases hkp : s.accepting.listener.connections addr with
    | none => rw [← he, hkp]
    | some kp => simp

/-- **An address gets what it would get if it were alone**: the stream in the map, and the streams that `accept` returns
for it, are those of the run from which everything that concerns other addresses is left out. -/
theorem isolated {a : Addr} {acts : List (ServeAct Addr)} {s : Serving Addr}
    (hm : Meets (step b) (Numbered a) start acts) (hr : run (step b) start acts = some s) :
    ∃ t, run (step b) start (acts.filter (own a)) = some t ∧ s.entry a = t.entry a ∧
      s.handedTo a = t.handedTo a := by
  have hstart : Same a (start : Serving Addr) start := ⟨rfl, rfl, length_blankBuf, length_blankBuf⟩
  obtain ⟨t, ht, h⟩ : ∃ t, run (step b) start (acts.filter (own a)) = some t ∧ Same a s t := by
    refine run_project ?_ ?_ hm hr hstart
    · intro s t act s' h hact hs
      exact same_other h hact hs
    · intro s t act s' h hn hact hs
      exact same_own h hn hact hs
  exact ⟨t, ht, h.entry, h.handed⟩

/-- A datagram of one of two addresses. -/
def datagramOf (a : Bool) (datagram : List UInt8) : ServeAct Bool :=
  .accept { received := .ok (datagram, a), checkNow := 0, checkLater := 0, now := 5, later := 5 }

/-- The first messages of two clients. -/
theorem isolated_two :
    ∃ s t, run (step shipped) start
        [datagramOf true (KcpStream.oneByte 0 1).encode, datagramOf false (KcpStream.oneByte 0 2).encode] = some s ∧
      run (step shipped) start [datagramOf false (KcpStream.oneByte 0 2).encode] = some t ∧
      s.entry false = t.entry false ∧ s.handedTo false = t.handedTo false := by
  obtain ⟨s, hs⟩ : ∃ s, run (step shipped) start
      [datagramOf true (KcpStream.oneByte 0 1).encode, datagramOf false (KcpStream.oneByte 0 2).encode] = some s :=
    Option.isSome_iff_exists.mp (by decide +kernel)
  obtain ⟨t, ht, h⟩ := isolated (a := false) (by decide +kernel) hs
  exact ⟨s, t, hs, ht, h⟩

/-- A first datagram of one byte: three bytes of its conversation number are those that the other address has left in
the buffer. -/
theorem stale_conversation :
    ∃ s t, run (step shipped) start
        [datagramOf true (KcpStream.oneByte 0 1).encode, datagramOf true [9, 9, 9, 9], datagramOf false [1]] = some s ∧
      run (step shipped) start [datagramOf false [1]] = some t ∧ s.entry false ≠ t.entry false := by
  have h₁ : (run (step shipped) start
      [datagramOf true (KcpStream.oneByte 0 1).encode, datagramOf true [9, 9, 9, 9], datagramOf false [1]]).map
        (fun s => (s.entry false).map fun kp => kp.kcb.conv) = some (some 0x09090901) := by decide +kernel
  have h₂ : (run (step shipped) start [datagramOf false [1]]).map
      (fun s => (s.entry false).map fun kp => kp.kcb.conv) = some (some 1) := by decide +kernel
  obtain ⟨s, hs, hs'⟩ := Option.map_eq_some_iff.mp h₁
  obtain ⟨t, ht, ht'⟩ := Option.map_eq_some_iff.mp h₂
  refine ⟨s, t, hs, ht, fun heq => ?_⟩
  rw [heq, ht'] at hs'
  exact absurd hs' (by decide)

end Serving

end NetProtocols.Kcp
