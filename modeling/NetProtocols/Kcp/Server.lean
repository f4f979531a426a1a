import NetProtocols.Kcp.Calls
import NetProtocols.Kcp.ReadLoop

/-!
# NetProtocols.Kcp.Server — a `KcpListener` and the streams that it has handed out

The control blocks stand behind `Rc<RefCell<_>>`: a stream and its clones, one of which the map keeps, use one block.
Here a block is a cell and a stream names its cell.

* `Handle`, `Cell`, `Server`: a stream as it is held, a shared block, the listener with all of both.
* `Server.step`: `accept`, `drop_stream`, `update_connection`, a clone, or a method of a stream that was handed out.
* `Reached`: what a block has come to, by what was written to it, what came in for it, and what was taken off it.
* `Sound`, `sound_step`: every cell is reached by its own peer's datagrams and its own streams' writes.
* `cells_reached`: so it is in every run.
-/

namespace NetProtocols.Kcp

open Kcb

/-- A stream as the map or the application holds it; its control block is in the cell `cell`, and the one in `stream` is
not looked at. -/
structure Handle (Addr : Type) where
  cell : ℕ
  stream : KcpStream Addr

/-- `Rc<RefCell<Kcb<KcpOutput>>>`: a control block, and the peer of its output. -/
structure Cell (Addr : Type) where
  kcb : Kcb
  peer : Addr

/-- A listener, the control blocks that it has built, and the streams that the application holds. -/
structure Server (Addr : Type) where
  cells : List (Cell Addr)
  connections : Addr → Option (Handle Addr)
  held : List (Handle Addr)
  buf : List UInt8
  /-- History: what `recv_from` has yielded. -/
  heard : List (List UInt8 × Addr)
  /-- History: what was written, and to which cell. -/
  written : List (ℕ × List UInt8)
  /-- History: what was taken, and off which cell. -/
  taken : List (ℕ × List UInt8)

/-- The calls of a listener, and those of the streams by their places. -/
inductive ServerAct (Addr : Type)
  | accept (i : Incoming Addr)
  | dropStream (addr : Addr)
  | updateConnection (n : ℕ)
  | clone (n : ℕ)
  | call (n : ℕ) (c : Call Addr)

variable {Addr : Type} {b : Build}

namespace Server

/-- `bind`. -/
def start : Server Addr where
  cells := []
  connections := fun _ => none
  held := []
  buf := blankBuf
  heard := []
  written := []
  taken := []

/-- The stream of a handle with the control block that it has now. -/
def load (s : Server Addr) (h : Handle Addr) : Option (KcpStream Addr) :=
  s.cells[h.cell]?.map fun c => h.stream.setKcb c.kcb

/-- The cell `n` holds the control block `k`. -/
def store (s : Server Addr) (n : ℕ) (k : Kcb) : Server Addr :=
  { s with cells := s.cells.modify n fun c => { c with kcb := k } }

/-- The map with the control blocks that its streams have now. -/
def listener (s : Server Addr) : KcpListener Addr where
  connections a := (s.connections a).bind s.load

/-- The cell of an address, or the one that it gets. -/
def cellOf (s : Server Addr) (a : Addr) : ℕ := ((s.connections a).map Handle.cell).getD s.cells.length

/-- What is recorded for a cell. -/
def recorded (l : List (ℕ × List UInt8)) (n : ℕ) : List (List UInt8) := (l.filter fun x => x.1 = n).map Prod.snd

/-- What was written to a cell. -/
def writtenTo (s : Server Addr) (n : ℕ) : List (List UInt8) := recorded s.written n

/-- What was taken off a cell. -/
def takenFrom (s : Server Addr) (n : ℕ) : List (List UInt8) := recorded s.taken n

section

variable [DecidableEq Addr]

/-- The stream of the address is `kp` now; a new one gets a cell. -/
def put (s : Server Addr) (a : Addr) (kp : KcpStream Addr) : Server Addr :=
  match s.connections a with
  | some h => s.store h.cell kp.kcb
  | none =>
    { s with
      cells := s.cells ++ [⟨kp.kcb, a⟩]
      connections := Function.update s.connections a (some ⟨s.cells.length, kp⟩) }

/-- One call. -/
def step (b : Build) (s : Server Addr) : ServerAct Addr → Option (Server Addr)
  | .accept i => do
    let (r, l, buf) ← s.listener.acceptTurn b s.buf i
    let buf := if r.isSome then blankBuf else buf
    match i.received with
    | .error _ => some { s with buf := buf }
    | .ok (datagram, a) => do
      let kp ← l.connections a
      some { s.put a kp with
        held := s.held ++ (Serving.streamOf r).map fun x => ⟨s.cellOf a, x.1⟩
        buf := buf
        heard := s.heard ++ [(datagram, a)] }
  | .dropStream addr => some { s with connections := Function.update s.connections addr none }
  | .updateConnection n => do
    let h ← s.held[n]?
    some { s with
      connections := Function.update s.connections h.stream.frAddr (some h)
      held := s.held.eraseIdx n }
  | .clone n => do
    let h ← s.held[n]?
    some { s with held := s.held ++ [h] }
  | .call n c => do
    let h ← s.held[n]?
    let kp ← s.load h
    let kp' ← kp.call b c
    some { s.store h.cell kp'.kcb with
      held := s.held.set n ⟨h.cell, kp'⟩
      written := s.written ++ c.writes.map fun buf => (h.cell, buf)
      taken := s.taken ++ (kp'.taken.drop kp.taken.length).map fun msg => (h.cell, msg) }

/-- What came in from a peer, as far as the buffer takes it. -/
def heardFrom (s : Server Addr) (a : Addr) : List (List UInt8) :=
  (s.heard.filter fun x => x.2 = a).map fun x => recvFrom recvBuf x.1

end

/-! ### Cells -/

theorem getElem?_store (s : Server Addr) (n m : ℕ) (k : Kcb) :
    (s.store n k).cells[m]? = s.cells[m]?.map fun c => if n = m then { c with kcb := k } else c := by
  rw [store, List.getElem?_modify]
  cases s.cells[m]? with
  | none => rfl
  | some c => by_cases h : n = m <;> simp [h]

/-- No cell goes, and none gets another peer. -/
def Grows (s s' : Server Addr) : Prop :=
  ∀ (n : ℕ) (c : Cell Addr), s.cells[n]? = some c → ∃ c', s'.cells[n]? = some c' ∧ c'.peer = c.peer

theorem grows_store {s s' : Server Addr} {n : ℕ} {k : Kcb} (h : s'.cells = (s.store n k).cells) : s.Grows s' := by
  intro m c hc
  refine ⟨if n = m then { c with kcb := k } else c, ?_, ?_⟩
  · rw [h, getElem?_store, hc, Option.map_some]
  · split_ifs <;> rfl

theorem grows_append {s s' : Server Addr} {c : Cell Addr} (h : s'.cells = s.cells ++ [c]) : s.Grows s' := by
  intro n c' hc
  refine ⟨c', ?_, rfl⟩
  rw [h, List.getElem?_append_left (List.getElem?_eq_some_iff.mp hc).1]
  exact hc

/-- The handle is a server's stream over a cell of its own peer. -/
def Holds (s : Server Addr) (h : Handle Addr) : Prop :=
  ∃ c, s.cells[h.cell]? = some c ∧ h.stream.kind = (true, c.peer)

theorem Holds.grows {s s' : Server Addr} {h : Handle Addr} (hh : s.Holds h) (hs : s.Grows s') : s'.Holds h := by
  obtain ⟨c, hc, hkind⟩ := hh
  obtain ⟨c', hc', hpeer⟩ := hs h.cell c hc
  exact ⟨c', hc', by rw [hpeer, hkind]⟩

theorem recorded_append (l : List (ℕ × List UInt8)) (m : ℕ) (l' : List (List UInt8)) (n : ℕ) :
    recorded (l ++ l'.map fun x => (m, x)) n = recorded l n ++ if m = n then l' else [] := by
  rw [recorded, recorded, List.filter_append, List.map_append]
  congr 1
  by_cases hn : m = n
  · simp [hn, List.filter_map, Function.comp_def]
  · simp [hn, List.filter_map, Function.comp_def]

theorem recorded_eq_nil {l : List (ℕ × List UInt8)} {n : ℕ} (h : ∀ x ∈ l, x.1 < n) : recorded l n = [] := by
  rw [recorded, List.map_eq_nil_iff, List.filter_eq_nil_iff]
  intro x hx heq
  have hlt := h x hx
  simp only [decide_eq_true_eq] at heq
  omega

end Server

/-! ### What a control block has come to -/

/-- A fresh control block of a stream comes to `k` when `sends` are sent and some of `inputs` come in, and `msgs` are
taken off it then; nothing is written. -/
def Reached (b : Build) (sends inputs msgs : List (List UInt8)) (k : Kcb) : Prop :=
  ∃ conv e, Work b sends inputs (Endpoint.start conv streamConfig) e ∧ e.kcb = k ∧ e.received = msgs ∧ e.written = []

/-- From `k` to `k'`, whatever endpoint has the control block. -/
def Goes (b : Build) (sends inputs msgs : List (List UInt8)) (k k' : Kcb) : Prop :=
  ∀ e : Endpoint, e.kcb = k →
    ∃ e', Work b sends inputs e e' ∧ e'.kcb = k' ∧ e'.received = e.received ++ msgs ∧ e'.written = e.written

variable {sends sends' inputs inputs' msgs msgs' : List (List UInt8)} {k k' : Kcb}

theorem Reached.mono (h : Reached b sends inputs msgs k) (hi : inputs.Sublist inputs') :
    Reached b sends inputs' msgs k := by
  obtain ⟨conv, e, hw, hrest⟩ := h
  exact ⟨conv, e, hw.mono hi, hrest⟩

theorem Reached.goes (h : Reached b sends inputs msgs k) (hg : Goes b sends' inputs' msgs' k k') :
    Reached b (sends ++ sends') (inputs ++ inputs') (msgs ++ msgs') k' := by
  obtain ⟨conv, e, hfirst, hk, rfl, hw⟩ := h
  obtain ⟨e', hlast, hk', hr, hw'⟩ := hg e hk
  exact ⟨conv, e', hfirst.trans hlast, hk', hr, hw'.trans hw⟩

section

variable {s s' : KcpStream Addr} {e : Endpoint}

theorem Leaves.taken (h : Leaves b sends inputs e s s') : s'.taken = s.taken ++ s'.taken.drop s.taken.length := by
  obtain ⟨e', l, -, -, -, -, ht, -⟩ := h
  rw [ht, List.drop_left]

theorem Leaves.received (h : Leaves b sends inputs e s s') (ht : s'.taken = s.taken ++ msgs) :
    ∃ e', Work b sends inputs e e' ∧ e'.kcb = s'.kcb ∧ e'.received = e.received ++ msgs ∧ e'.written = e.written := by
  obtain ⟨e', l, hw, hk, hr, hwr, ht', -⟩ := h
  obtain rfl : l = msgs := List.append_cancel_left (ht'.symm.trans ht)
  exact ⟨e', hw, hk, hr, hwr⟩

theorem Leaves.kind (h : Leaves b sends inputs e s s') : s'.kind = s.kind := by
  obtain ⟨e', l, -, -, -, -, -, hkind⟩ := h
  exact hkind

end

/-- A datagram that `accept` has received; nothing is taken. -/
theorem work_passOn {kp kp' : KcpStream Addr} {d : List UInt8} {a : Addr} {i : Incoming Addr}
    (h : KcpListener.passOn b kp d a i = some kp') :
    kp'.taken = kp.taken ∧ ∀ e : Endpoint, e.kcb = kp.kcb → Leaves b [] [d] e kp kp' := by
  simp only [KcpListener.passOn, Option.bind_eq_bind, Option.bind_eq_some_iff, Option.some.injEq] at h
  obtain ⟨⟨q, s⟩, hu, rfl⟩ := h
  have hin : (kp.setBuf d (some (d.length, a))).udpRecvAndIucUpdate b none
      { now := i.now, later := i.later } i.readiness = some (q, s) := hu
  refine ⟨(KcpStream.udpRecv_frame hin).2.1, fun e he => ?_⟩
  have hwork := work_udpRecv (he.trans (KcpStream.setBuf_kcb kp _ _).symm) (KcpStream.setBuf_toSend _ _ _) hin
  rw [KcpStream.setBuf_buf, List.take_length] at hwork
  exact hwork.of_eq rfl rfl

theorem goes_passOn {kp kp' : KcpStream Addr} {d : List UInt8} {a : Addr} {i : Incoming Addr}
    (h : KcpListener.passOn b kp d a i = some kp') : kp'.kind = kp.kind ∧ Goes b [] [d] [] kp.kcb kp'.kcb := by
  obtain ⟨ht, hwork⟩ := work_passOn h
  refine ⟨(hwork { kcb := kp.kcb } rfl).kind, fun e he => (hwork e he).received ?_⟩
  rw [ht, List.append_nil]

theorem taken_opened {conv now later : UInt32} {a : Addr} {server : Bool} {s : KcpStream Addr}
    (h : KcpStream.opened b conv a server now later = some s) : s.taken = [] := by
  simp only [KcpStream.opened, KcpStream.kcpCheck, Option.bind_eq_bind, Option.bind_eq_some_iff,
    Option.some.injEq] at h
  obtain ⟨⟨dur, k⟩, -, rfl⟩ := h
  rfl

/-- What is done with a datagram: the stream that is returned, and the stream of the address behind it. -/
structure Handled (b : Build) (entry : Option (KcpStream Addr)) (d : List UInt8) (a : Addr)
    (x : Option (KcpStream Addr) × KcpStream Addr) : Prop where
  old : ∀ kp, entry = some kp → x.2.kind = kp.kind ∧ Goes b [] [d] [] kp.kcb x.2.kcb
  new : entry = none → x.2.kind = (true, a) ∧ Reached b [] [d] [] x.2.kcb
  clone : ∀ kp ∈ x.1, kp.kind = x.2.kind

theorem handled_serve {entry : Option (KcpStream Addr)} {front d : List UInt8} {a : Addr} {i : Incoming Addr}
    {x : Option (KcpStream Addr) × KcpStream Addr} (h : Serving.serve b entry front d a i = some x) :
    Handled b entry d a x := by
  cases entry with
  | some kp =>
    simp only [Serving.serve, Option.bind_eq_bind, Option.bind_eq_some_iff, Option.some.injEq] at h
    obtain ⟨s, hs, rfl⟩ := h
    obtain ⟨hkind, hgoes⟩ := goes_passOn hs
    refine ⟨fun kp' hkp => ?_, fun he => (Option.some_ne_none _ he).elim, fun s' hs' => ?_⟩
    · obtain rfl := Option.some.inj hkp
      exact ⟨rfl, hgoes⟩
    · dsimp only at hs'
      split_ifs at hs'
      · cases hs'
      · obtain rfl := Option.some.inj hs'
        exact hkind
  | none =>
    simp only [Serving.serve, Option.bind_eq_bind, Option.bind_eq_some_iff, Option.some.injEq] at h
    obtain ⟨c, -, s, ho, s', hs, rfl⟩ := h
    have hopened := work_opened ho
    obtain ⟨hkind, hgoes⟩ := goes_passOn hs
    have hreached : Reached b [] [] [] s.kcb := by
      obtain ⟨e, hw, hk, hr, hwr⟩ := hopened.received (taken_opened ho)
      exact ⟨c.1, e, hw, hk, hr, hwr⟩
    refine ⟨fun kp hkp => absurd hkp (by simp), fun _ => ⟨hkind.trans hopened.kind, hreached.goes hgoes⟩,
      fun s'' hs'' => ?_⟩
    obtain rfl := Option.some.inj hs''
    rfl

namespace Server

variable [DecidableEq Addr]

/-! ### One datagram -/

/-- The server after a datagram of the address, by what was done with it. -/
def served (s : Server Addr) (datagram : List UInt8) (a : Addr) (x : Option (KcpStream Addr) × KcpStream Addr) :
    Server Addr :=
  { s.put a x.2 with
    held := s.held ++ (x.1.map (Handle.mk (s.cellOf a))).toList
    buf := if x.1.isSome then blankBuf else fillFrom s.buf datagram
    heard := s.heard ++ [(datagram, a)] }

/-- **A call of `accept` that receives a datagram.** -/
theorem step_accept {s s' : Server Addr} {i : Incoming Addr} {datagram : List UInt8} {a : Addr}
    (hi : i.received = .ok (datagram, a)) (h : s.step b (.accept i) = some s') :
    ∃ x, Serving.serve b (s.listener.connections a) ((fillFrom s.buf datagram).take 4)
      (recvFrom s.buf.length datagram) a i = some x ∧ s' = s.served datagram a x := by
  simp only [step, Serving.acceptTurn_eq hi, hi, Option.bind_eq_bind, Option.bind_eq_some_iff,
    Option.map_eq_some_iff] at h
  obtain ⟨-, ⟨x, hx, rfl⟩, kp, hkp, h⟩ := h
  obtain rfl : x.2 = kp := Option.some.inj ((KcpListener.insert_self _ _ _).symm.trans hkp)
  refine ⟨x, hx, ?_⟩
  obtain ⟨r, kp⟩ := x
  obtain rfl := Option.some.inj h
  cases r <;> rfl

theorem step_error {s s' : Server Addr} {i : Incoming Addr} {e : IoError} (hi : i.received = .error e)
    (h : s.step b (.accept i) = some s') : s' = { s with buf := blankBuf } := by
  simp only [step, KcpListener.acceptTurn, hi, Option.bind_eq_bind, Option.bind_some, Option.isSome_some, if_true,
    Option.some.injEq] at h
  exact h.symm

/-! ### The invariant -/

theorem heardFrom_snoc {s s' : Server Addr} {d : List UInt8} {a : Addr} (h : s'.heard = s.heard ++ [(d, a)]) :
    s'.heardFrom a = s.heardFrom a ++ [recvFrom recvBuf d] := by
  simp [heardFrom, h]

theorem heardFrom_sublist {s s' : Server Addr} {l : List (List UInt8 × Addr)} (h : s'.heard = s.heard ++ l) (a : Addr) :
    (s.heardFrom a).Sublist (s'.heardFrom a) := by
  rw [heardFrom, heardFrom, h, List.filter_append, List.map_append]
  exact List.sublist_append_left _ _

/-- **Every control block is reached** by what was written to it and what came in from its peer, and its streams have
taken what was taken off it. -/
structure Sound (b : Build) (s : Server Addr) : Prop where
  buf : s.buf.length = recvBuf
  entries : ∀ a h, s.connections a = some h → s.Holds h ∧ h.stream.frAddr = a
  held : ∀ h ∈ s.held, s.Holds h
  written : ∀ x ∈ s.written, x.1 < s.cells.length
  taken : ∀ x ∈ s.taken, x.1 < s.cells.length
  cells : ∀ (n : ℕ) c, s.cells[n]? = some c → Reached b (s.writtenTo n) (s.heardFrom c.peer) (s.takenFrom n) c.kcb

theorem sound_start : Sound b (start : Server Addr) :=
  ⟨Serving.length_blankBuf, fun a h hc => absurd hc (by simp [start]), by simp [start], by simp [start],
    by simp [start], fun n c hc => absurd hc (by simp [start])⟩

theorem load_entry {s : Server Addr} (hs : Sound b s) {a : Addr} {h : Handle Addr} (hc : s.connections a = some h) :
    ∃ c, s.cells[h.cell]? = some c ∧ c.peer = a ∧ h.stream.kind = (true, a) ∧
      s.listener.connections a = some (h.stream.setKcb c.kcb) := by
  obtain ⟨⟨c, hcell, hkind⟩, ha⟩ := hs.entries a h hc
  have hpeer : c.peer = a := (congrArg Prod.snd hkind).symm.trans ha
  refine ⟨c, hcell, hpeer, hpeer ▸ hkind, ?_⟩
  simp only [listener, hc, Option.bind_some, load, hcell, Option.map_some]

/-- What a cell has come to stays so when more is heard. -/
theorem reached_hears {s s' : Server Addr} {n : ℕ} {c : Cell Addr} {l : List (List UInt8 × Addr)}
    (h : Reached b (s.writtenTo n) (s.heardFrom c.peer) (s.takenFrom n) c.kcb) (hw : s'.written = s.written)
    (ht : s'.taken = s.taken) (hh : s'.heard = s.heard ++ l) :
    Reached b (s'.writtenTo n) (s'.heardFrom c.peer) (s'.takenFrom n) c.kcb := by
  rw [writtenTo, takenFrom, hw, ht]
  exact h.mono (heardFrom_sublist hh c.peer)

/-- A datagram of an address that has a stream. -/
theorem sound_served_old {s : Server Addr} {datagram : List UInt8} {a : Addr} {h : Handle Addr}
    {x : Option (KcpStream Addr) × KcpStream Addr} (hs : Sound b s) (hc : s.connections a = some h)
    (hx : Handled b (s.listener.connections a) (recvFrom recvBuf datagram) a x) :
    Sound b (s.served datagram a x) := by
  obtain ⟨c, hcell, rfl, hkind, hentry⟩ := load_entry hs hc
  obtain ⟨hkind', hgoes⟩ := hx.old _ hentry
  -- the listener works on the cell that the streams of this peer hold
  have hput : s.put c.peer x.2 = s.store h.cell x.2.kcb := by rw [put, hc]
  have hcells : (s.served datagram c.peer x).cells = (s.store h.cell x.2.kcb).cells := by
    simp only [served, hput]
  have hconn : (s.served datagram c.peer x).connections = s.connections := by
    simp only [served, hput, store]
  have hwritten : (s.served datagram c.peer x).written = s.written := by
    simp only [served, hput, store]
  have htaken : (s.served datagram c.peer x).taken = s.taken := by
    simp only [served, hput, store]
  have hgrows : s.Grows (s.served datagram c.peer x) := grows_store hcells
  constructor
  · simp only [served]
    split_ifs
    · exact Serving.length_blankBuf
    · rw [length_fillFrom, hs.buf]
  · intro a' h' hc'
    rw [hconn] at hc'
    obtain ⟨hh, ha'⟩ := hs.entries a' h' hc'
    exact ⟨hh.grows hgrows, ha'⟩
  · intro h' hh'
    rcases List.mem_append.mp hh' with hh' | hh'
    · exact (hs.held h' hh').grows hgrows
    · obtain ⟨kp, hkp, rfl⟩ := Option.map_eq_some_iff.mp (Option.mem_toList.mp hh')
      have hcellOf : s.cellOf c.peer = h.cell := by rw [cellOf, hc]; rfl
      refine Holds.grows ⟨c, hcellOf ▸ hcell, ?_⟩ hgrows
      exact (hx.clone kp hkp).trans (hkind'.trans hkind)
  · rw [hwritten, hcells]
    simpa [store] using hs.written
  · rw [htaken, hcells]
    simpa [store] using hs.taken
  · intro n c' hc'
    rw [hcells, getElem?_store] at hc'
    obtain ⟨c₀, hc₀, rfl⟩ := Option.map_eq_some_iff.mp hc'
    have hold := hs.cells n c₀ hc₀
    -- its own cell has heard the datagram; the others have heard nothing new
    by_cases hn : h.cell = n
    · subst hn
      obtain rfl := Option.some.inj (hcell.symm.trans hc₀)
      rw [if_pos rfl]
      have hnew := hold.goes hgoes
      rw [List.append_nil, List.append_nil] at hnew
      have hheard : (s.served datagram c.peer x).heardFrom c.peer =
          s.heardFrom c.peer ++ [recvFrom recvBuf datagram] := heardFrom_snoc rfl
      rw [hheard, writtenTo, takenFrom, hwritten, htaken]
      exact hnew
    · rw [if_neg hn]
      exact reached_hears hold hwritten htaken rfl

/-- A datagram of an address that has none: its stream gets a new cell. -/
theorem sound_served_new {s : Server Addr} {datagram : List UInt8} {a : Addr}
    {x : Option (KcpStream Addr) × KcpStream Addr} (hs : Sound b s) (hc : s.connections a = none)
    (hx : Handled b (s.listener.connections a) (recvFrom recvBuf datagram) a x) :
    Sound b (s.served datagram a x) := by
  have hentry : s.listener.connections a = none := by
    simp only [listener, hc, Option.bind_none]
  obtain ⟨hkind, hreached⟩ := hx.new hentry
  have hcells : (s.served datagram a x).cells = s.cells ++ [⟨x.2.kcb, a⟩] := by
    simp only [served, put, hc]
  have hconn : (s.served datagram a x).connections =
      Function.update s.connections a (some ⟨s.cells.length, x.2⟩) := by
    simp only [served, put, hc]
  have hwritten : (s.served datagram a x).written = s.written := by
    simp only [served, put, hc]
  have htaken : (s.served datagram a x).taken = s.taken := by
    simp only [served, put, hc]
  have hgrows : s.Grows (s.served datagram a x) := grows_append hcells
  have hlast : (s.served datagram a x).cells[s.cells.length]? = some ⟨x.2.kcb, a⟩ := by
    rw [hcells, List.getElem?_concat_length]
  constructor
  · simp only [served]
    split_ifs
    · exact Serving.length_blankBuf
    · rw [length_fillFrom, hs.buf]
  · intro a' h' hc'
    rw [hconn] at hc'
    by_cases ha : a' = a
    · subst ha
      rw [Function.update_self] at hc'
      obtain rfl := Option.some.inj hc'
      exact ⟨⟨_, hlast, hkind⟩, congrArg Prod.snd hkind⟩
    · rw [Function.update_of_ne ha] at hc'
      obtain ⟨hh, ha'⟩ := hs.entries a' h' hc'
      exact ⟨hh.grows hgrows, ha'⟩
  · intro h' hh'
    rcases List.mem_append.mp hh' with hh' | hh'
    · exact (hs.held h' hh').grows hgrows
    · obtain ⟨kp, hkp, rfl⟩ := Option.map_eq_some_iff.mp (Option.mem_toList.mp hh')
      have hcellOf : s.cellOf a = s.cells.length := by rw [cellOf, hc]; rfl
      exact ⟨_, hcellOf ▸ hlast, (hx.clone kp hkp).trans hkind⟩
  · rw [hwritten, hcells, List.length_append]
    exact fun y hy => Nat.lt_add_right _ (hs.written y hy)
  · rw [htaken, hcells, List.length_append]
    exact fun y hy => Nat.lt_add_right _ (hs.taken y hy)
  · intro n c hcell
    rw [hcells, List.getElem?_append] at hcell
    split_ifs at hcell with hn
    · exact reached_hears (hs.cells n c hcell) hwritten htaken rfl
    · obtain ⟨hn', rfl⟩ : n = s.cells.length ∧ (⟨x.2.kcb, a⟩ : Cell Addr) = c := by
        rw [List.getElem?_singleton] at hcell
        split_ifs at hcell with hz
        exact ⟨by omega, Option.some.inj hcell⟩
      -- nothing is recorded for the new cell
      have hwnil : (s.served datagram a x).writtenTo n = [] := by
        apply recorded_eq_nil
        rw [hwritten, hn']
        exact hs.written
      have htnil : (s.served datagram a x).takenFrom n = [] := by
        apply recorded_eq_nil
        rw [htaken, hn']
        exact hs.taken
      have hheard : (s.served datagram a x).heardFrom a = s.heardFrom a ++ [recvFrom recvBuf datagram] :=
        heardFrom_snoc rfl
      rw [hwnil, htnil, hheard]
      exact hreached.mono (List.sublist_append_right _ _)

theorem sound_call {s : Server Addr} {n : ℕ} {h : Handle Addr} {kp kp' : KcpStream Addr} {c : Call Addr}
    (hs : Sound b s) (hn : s.held[n]? = some h) (hload : s.load h = some kp) (hcall : kp.call b c = some kp') :
    Sound b { s.store h.cell kp'.kcb with
      held := s.held.set n ⟨h.cell, kp'⟩
      written := s.written ++ c.writes.map fun buf => (h.cell, buf)
      taken := s.taken ++ (kp'.taken.drop kp.taken.length).map fun msg => (h.cell, msg) } := by
  obtain ⟨cell, hcell, hkind⟩ := hs.held h (List.mem_of_getElem? hn)
  obtain ⟨cell', hcell', rfl⟩ := Option.map_eq_some_iff.mp hload
  obtain rfl := Option.some.inj (hcell.symm.trans hcell')
  have hserver : (h.stream.setKcb cell.kcb).server = true := congrArg Prod.fst hkind
  have hwork : ∀ e : Endpoint, e.kcb = cell.kcb → Leaves b c.writes [] e (h.stream.setKcb cell.kcb) kp' := by
    intro e he
    have hleaves := work_call he hcall
    rwa [if_pos hserver] at hleaves
  have hfirst := hwork { kcb := cell.kcb } rfl
  have hkind' : kp'.kind = (true, cell.peer) := hfirst.kind.trans hkind
  have hlt : h.cell < s.cells.length := (List.getElem?_eq_some_iff.mp hcell).1
  have hrecords : ∀ {l : List (ℕ × List UInt8)} {l' : List (List UInt8)}, (∀ x ∈ l, x.1 < s.cells.length) →
      ∀ x ∈ l ++ l'.map fun y => (h.cell, y), x.1 < (s.store h.cell kp'.kcb).cells.length := by
    intro l l' hl x hx
    rw [store, List.length_modify]
    rcases List.mem_append.mp hx with hx | hx
    · exact hl x hx
    · obtain ⟨y, -, rfl⟩ := List.mem_map.mp hx
      exact hlt
  refine Sound.mk hs.buf ?_ ?_ (hrecords hs.written) (hrecords hs.taken) ?_
  · intro a h' hc'
    obtain ⟨hh, ha⟩ := hs.entries a h' hc'
    exact ⟨hh.grows (grows_store rfl), ha⟩
  · intro h' hh'
    rcases List.mem_or_eq_of_mem_set hh' with hh' | rfl
    · exact (hs.held h' hh').grows (grows_store rfl)
    · exact Holds.grows (h := ⟨h.cell, kp'⟩) ⟨cell, hcell, hkind'⟩ (grows_store rfl)
  · intro m c' hc'
    rw [getElem?_store] at hc'
    obtain ⟨c₀, hc₀, rfl⟩ := Option.map_eq_some_iff.mp hc'
    have hold := hs.cells m c₀ hc₀
    simp only [writtenTo, takenFrom, recorded_append]
    -- only the cell of the stream is written to, and only its records grow
    by_cases hm : h.cell = m
    · subst hm
      obtain rfl := Option.some.inj (hcell.symm.trans hc₀)
      rw [if_pos rfl, if_pos rfl, if_pos rfl]
      have hnew := hold.goes fun e he => (hwork e he).received hfirst.taken
      rw [List.append_nil] at hnew
      exact hnew
    · rw [if_neg hm, if_neg hm, if_neg hm, List.append_nil, List.append_nil]
      exact hold

/-- **One call.** -/
theorem sound_step {s s' : Server Addr} {act : ServerAct Addr} (hs : Sound b s) (h : s.step b act = some s') :
    Sound b s' := by
  cases act with
  | accept i =>
    cases hi : i.received with
    | error e =>
      obtain rfl := step_error hi h
      exact ⟨Serving.length_blankBuf, hs.entries, hs.held, hs.written, hs.taken, hs.cells⟩
    | ok y =>
      obtain ⟨datagram, a⟩ := y
      obtain ⟨x, hx, rfl⟩ := step_accept hi h
      have hhandled := handled_serve hx
      rw [hs.buf] at hhandled
      cases hc : s.connections a with
      | none => exact sound_served_new hs hc hhandled
      | some h => exact sound_served_old hs hc hhandled
  | dropStream addr =>
    obtain rfl := Option.some.inj h
    refine ⟨hs.buf, fun a h' hc => ?_, hs.held, hs.written, hs.taken, hs.cells⟩
    by_cases ha : a = addr
    · subst ha
      simp at hc
    · exact hs.entries a h' ((Function.update_of_ne ha _ _).symm.trans hc)
  | updateConnection n =>
    simp only [step, Option.bind_eq_bind, Option.bind_eq_some_iff, Option.some.injEq] at h
    obtain ⟨hd, hn, rfl⟩ := h
    -- the entry is replaced by a stream that is held, so its cell is there
    have hholds := hs.held hd (List.mem_of_getElem? hn)
    refine ⟨hs.buf, fun a h' hc => ?_, fun h' hh' => hs.held h' (List.mem_of_mem_eraseIdx hh'), hs.written, hs.taken,
      hs.cells⟩
    have hconn : Function.update s.connections hd.stream.frAddr (some hd) a = some h' := hc
    by_cases ha : a = hd.stream.frAddr
    · rw [ha, Function.update_self] at hconn
      obtain rfl := Option.some.inj hconn
      exact ⟨hholds, ha.symm⟩
    · rw [Function.update_of_ne ha] at hconn
      exact hs.entries a h' hconn
  | clone n =>
    simp only [step, Option.bind_eq_bind, Option.bind_eq_some_iff, Option.some.injEq] at h
    obtain ⟨hd, hn, rfl⟩ := h
    refine ⟨hs.buf, hs.entries, fun h' hh' => ?_, hs.written, hs.taken, hs.cells⟩
    rcases List.mem_append.mp hh' with hh' | hh'
    · exact hs.held h' hh'
    · obtain rfl := List.mem_singleton.mp hh'
      exact hs.held _ (List.mem_of_getElem? hn)
  | call n c =>
    simp only [step, Option.bind_eq_bind, Option.bind_eq_some_iff, Option.some.injEq] at h
    obtain ⟨hd, hn, kp, hload, kp', hcall, rfl⟩ := h
    exact sound_call hs hn hload hcall

theorem sound_run {acts : List (ServerAct Addr)} {s : Server Addr} (hr : run (step b) start acts = some s) :
    Sound b s :=
  run_invariant (fun _ _ _ hs h => sound_step hs h) hr sound_start

/-- **The control blocks of a listener.**  Whatever the clients send and whatever is done with the listener and the
streams that it hands out, clones included: the stream that the map has for an address uses a control block of that
address, and each control block is one that a run of its own calls brings about, which sends what was written to its
streams, once and in order, takes in datagrams of its own peer only, in order and once at most, and receives what its
streams have taken, each message once.  It hands nothing to the socket. -/
theorem cells_reached {acts : List (ServerAct Addr)} {s : Server Addr} (hr : run (step b) start acts = some s) :
    (∀ a h, s.connections a = some h → ∃ c, s.cells[h.cell]? = some c ∧ c.peer = a) ∧
      ∀ (n : ℕ) c, s.cells[n]? = some c →
        ∃ conv ops e, run (Endpoint.exec b) (Endpoint.start conv streamConfig) ops = some e ∧ e.kcb = c.kcb ∧
          e.received = s.takenFrom n ∧ e.written = [] ∧ ops.flatMap Op.sends = s.writtenTo n ∧
          (ops.flatMap Op.inputs).Sublist (s.heardFrom c.peer) := by
  have hs : Sound b s := sound_run hr
  constructor
  · intro a h hc
    obtain ⟨c, hcell, hpeer, -⟩ := load_entry hs hc
    exact ⟨c, hcell, hpeer⟩
  · intro n c hc
    obtain ⟨conv, e, ⟨ops, he, hsends, hinputs⟩, hk, ht, hw⟩ := hs.cells n c hc
    exact ⟨conv, ops, e, he, hk, ht, hw, hsends, hinputs⟩

/-- A datagram of one of two clients. -/
def incoming (a : Bool) (datagram : List UInt8) : Incoming Bool where
  received := .ok (datagram, a)
  checkNow := 0
  checkLater := 0
  now := 5
  later := 5

/-- What the first client sends: that its window is closed, and a message. -/
def closedClient : List (List UInt8) := [(closedPeer kcpCmdWins []).encode, (closedPeer kcpCmdPush [1]).encode]

/-- Two clients.  The stream of the first is written to before its message comes, and a clone of it is read from. -/
def twoClients : List (ServerAct Bool) :=
  [.accept (incoming true (closedPeer kcpCmdWins []).encode), .call 0 (.pollWrite [4] KcpStream.still),
    .accept (incoming true (closedPeer kcpCmdPush [1]).encode), .accept (incoming false (KcpStream.oneByte 0 2).encode),
    .clone 0, .call 3 (.pollRead 8 [] { udp := KcpStream.still, check := KcpStream.still })]

theorem cells_reached_two :
    ∃ (s : Server Bool) (c : Cell Bool), run (step shipped) start twoClients = some s ∧
      s.cells[0]? = some c ∧ s.heardFrom c.peer = closedClient ∧
      ∃ conv ops e, run (Endpoint.exec shipped) (Endpoint.start conv streamConfig) ops = some e ∧
        e.kcb = c.kcb ∧ e.received = [[1]] ∧ e.written = [] ∧ ops.flatMap Op.sends = [[4]] ∧
        (ops.flatMap Op.inputs).Sublist closedClient := by
  have h : (run (step shipped) start twoClients).map (fun s =>
      ((s.cells[0]?.map fun c => s.heardFrom c.peer), s.takenFrom 0, s.writtenTo 0)) =
        some (some closedClient, [[1]], [[4]]) := by decide +kernel
  obtain ⟨s, hs, hx⟩ := Option.map_eq_some_iff.mp h
  obtain ⟨hcell, hrest⟩ := Prod.mk.inj hx
  obtain ⟨htaken, hwritten⟩ := Prod.mk.inj hrest
  obtain ⟨c, hc, hheard⟩ := Option.map_eq_some_iff.mp hcell
  obtain ⟨conv, ops, e, he, hk, ht, hw, hsends, hinputs⟩ := (cells_reached hs).2 0 c hc
  rw [htaken] at ht
  rw [hwritten] at hsends
  rw [hheard] at hinputs
  exact ⟨s, c, hs, hc, hheard, conv, ops, e, he, hk, ht, hw, hsends, hinputs⟩

end Server

end NetProtocols.Kcp
