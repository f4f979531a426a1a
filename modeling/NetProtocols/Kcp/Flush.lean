import NetProtocols.Kcp.Input

/-!
# NetProtocols.Kcp.Flush — `Kcb::flush`, `update` and `check`

`flush` writes to `output` at five places; each `write_all` may leave the future pending, and a pending future is
dropped by the callers.  The outcome of a write is ignored (`let _ =`), so one run with every write completed
determines all the others: `Flushing.writes` records the control block as it stands at each `write_all`, its
`buffer` being the datagram handed out.  A `flush` abandoned at write `i` leaves `writes[i]`.

* `Build`: the build profile and `BytesMut::remaining_mut` as a function of the buffer's length (the `bytes`
  crate is outside the repository); `bytesMut` is that of `bytes` 0.5.
* `sizeTest`: "is the buffer to be written out before `need` more bytes"; `Flushing.tests` records its operands.
* `flushAcks`, `probeWindow`, `flushProbe`, `fillWindow`, `flushData`, `settleCwnd`: the phases of `flush`.
-/

namespace NetProtocols.Kcp

/-- What a build fixes: the profile, and how much room `BytesMut` claims beyond its length. -/
structure Build where
  profile : Profile
  remainingMut : ℕ → ℕ

/-- `BytesMut::remaining_mut` of `bytes` 0.5: `usize::MAX - self.len()`. -/
def bytesMut (len : ℕ) : ℕ := 2 ^ 64 - 1 - len

/-- A `flush` under way. -/
structure Flushing where
  kcb : Kcb
  /-- The control block at each `write_all`. -/
  writes : List Kcb := []
  /-- `remaining_mut()` and `need` at each size test. -/
  tests : List (ℕ × ℕ) := []
  lost : Bool := false
  change : Bool := false

namespace Flushing

/-- `output.write_all(&self.buffer).await; self.buffer.clear()`. -/
def writeAll (f : Flushing) : Flushing :=
  { f with kcb := f.kcb.setBuffer [], writes := f.writes ++ [f.kcb] }

/-- `if self.buffer.remaining_mut() + need > self.mtu` and the write it guards. -/
def sizeTest (b : Build) (f : Flushing) (need : ℕ) : Option Flushing := do
  let rem := b.remainingMut f.kcb.buffer.length
  let total ← b.profile.addUsize rem need
  let f := { f with tests := f.tests ++ [(rem, need)] }
  if f.kcb.mtu < total then some f.writeAll else some f

/-- **Relational rule** for `sizeTest`: it reads the length of the buffer and the MTU. -/
theorem sizeTest_rel {R : Flushing → Flushing → Prop} {b : Build} {f f' : Flushing}
    (hlen : f'.kcb.buffer.length = f.kcb.buffer.length) (hmtu : f'.kcb.mtu = f.kcb.mtu)
    (hnext : ∀ t, R { f with tests := f.tests ++ [t] } { f' with tests := f'.tests ++ [t] })
    (hwrite : ∀ g g', R g g' → R g.writeAll g'.writeAll) (need : ℕ) :
    Option.Rel R (f.sizeTest b need) (f'.sizeTest b need) := by
  unfold sizeTest
  rw [hlen]
  simp only [Option.bind_eq_bind]
  cases b.profile.addUsize (b.remainingMut f.kcb.buffer.length) need with
  | none => exact Option.Rel.none
  | some total =>
    simp only [Option.bind_some, hmtu]
    split_ifs
    · exact Option.Rel.some (hwrite _ _ (hnext _))
    · exact Option.Rel.some (hnext _)

/-- `seg.encode(&mut self.buffer)`. -/
def put (f : Flushing) (seg : Segment) : Flushing :=
  { f with kcb := f.kcb.setBuffer (f.kcb.buffer ++ seg.encode) }

/-- "flush acknowledges": the scratch segment `seg` keeps the last `sn` and `ts`. -/
def flushAcks (b : Build) : List (UInt32 × UInt32) → Segment → Flushing → Option (Segment × Flushing)
  | [], seg, f => some (seg, f)
  | ack :: rest, seg, f => do
    let f ← f.sizeTest b kcpOverhead
    let seg := { seg with sn := ack.1, ts := ack.2 }
    flushAcks b rest seg (f.put seg)

/-- The new `probe_wait` when a probe is due. -/
def backoff (p : Profile) (probeWait : UInt32) : Option UInt32 := do
  let wait := if probeWait < kcpProbeInit then kcpProbeInit else probeWait
  let wait ← p.add wait (wait / 2)
  some (if kcpProbeLimit < wait then kcpProbeLimit else wait)

/-- "probe window size (if remote window size equals zero)". -/
def probeWindow (p : Profile) (k : Kcb) : Option Kcb :=
  if k.rmtWnd ≠ 0 then some (k.setProbes 0 0 k.probe)
  else if k.probeWait = 0 then do
    let tsProbe ← p.add k.current kcpProbeInit
    some (k.setProbes tsProbe kcpProbeInit k.probe)
  else do
    let late ← timediff p k.current k.tsProbe
    if 0 ≤ late then do
      let wait ← backoff p k.probeWait
      let tsProbe ← p.add k.current wait
      some (k.setProbes tsProbe wait (k.probe ||| kcpAskSend))
    else some k

/-- "flush window probing commands", once for each of the two commands. -/
def flushProbe (b : Build) (ask : UInt32) (cmd : UInt8) (seg : Segment) (f : Flushing) :
    Option (Segment × Flushing) :=
  if f.kcb.probe &&& ask ≠ 0 then do
    let seg := { seg with cmd := cmd }
    let f ← f.sizeTest b kcpOverhead
    some (seg, f.put seg)
  else some (seg, f)

/-- What "move data from snd_queue to snd_buf" writes into a segment. -/
def assign (k : Kcb) (wnd : UInt32) (seg : Segment) : Segment :=
  { seg with
    conv := k.conv
    cmd := kcpCmdPush
    wnd := wnd
    ts := k.current
    sn := k.sndNxt
    una := k.rcvNxt
    resendts := k.current
    rto := k.rxRto
    fastack := 0
    xmit := 0 }

/-- One round of "move data from snd_queue to snd_buf": `rest` is the queue without `seg`. -/
def moveSegment (k : Kcb) (wnd nxt : UInt32) (seg : Segment) (rest : List Segment) : Kcb :=
  { k with sndNxt := nxt, sndBuf := k.sndBuf ++ [assign k wnd seg], sndQueue := rest }

/-- "move data from snd_queue to snd_buf", while `snd_nxt` is below `edge = snd_una + cwnd`.  The list is the
queue. -/
def fillWindow (p : Profile) (edge wnd : UInt32) : List Segment → Kcb → Option Kcb
  | [], k => some { k with sndQueue := [] }
  | seg :: rest, k =>
    if k.sndNxt < edge then do
      let nxt ← p.add k.sndNxt 1
      fillWindow p edge wnd rest (moveSegment k wnd nxt seg rest)
    else some { k with sndQueue := seg :: rest }

/-- Why a segment of `snd_buf` is sent in this flush. -/
inductive Due
  | no
  | first
  | timeout
  | fast
  deriving DecidableEq, Repr

/-- The chain of tests at the head of the loop "flush data segments". -/
def due (p : Profile) (current resent : UInt32) (seg : Segment) : Option Due :=
  if seg.xmit = 0 then some .first
  else do
    let late ← timediff p current seg.resendts
    if 0 ≤ late then some .timeout
    else if resent ≤ seg.fastack then some .fast
    else some .no

/-- The branches of that chain: the new `xmit`, `rto`, `resendts` and `fastack` of the segment, and the control
block with its own `xmit` counted. -/
def stamp (p : Profile) (k : Kcb) (rtomin : UInt32) (seg : Segment) : Due → Option (Segment × Kcb)
  | .no => some (seg, k)
  | .first => do
    let xmit ← p.add seg.xmit 1
    let at' ← p.add k.current k.rxRto
    let at' ← p.add at' rtomin
    some ({ seg with xmit := xmit, rto := k.rxRto, resendts := at' }, k)
  | .timeout => do
    let xmit ← p.add seg.xmit 1
    let total ← p.add k.xmit 1
    let rto ← p.add seg.rto (if k.nodelay = 0 then k.rxRto else k.rxRto / 2)
    let at' ← p.add k.current rto
    some ({ seg with xmit := xmit, rto := rto, resendts := at' }, k.setSndBuf k.sndBuf total)
  | .fast => do
    let xmit ← p.add seg.xmit 1
    let at' ← p.add k.current seg.rto
    some ({ seg with xmit := xmit, fastack := 0, resendts := at' }, k)

/-- The fields that every transmission of a segment rewrites. -/
def refresh (k : Kcb) (wnd : UInt32) (seg : Segment) : Segment :=
  { seg with ts := k.current, wnd := wnd, una := k.rcvNxt }

/-- "flush data segments": `done` is the part of `snd_buf` already passed. -/
def flushData (b : Build) (resent rtomin wnd : UInt32) :
    List Segment → List Segment → Flushing → Option Flushing
  | _, [], f => some f
  | done, seg :: rest, f => do
    let d ← due b.profile f.kcb.current resent seg
    let (seg, k) ← stamp b.profile f.kcb rtomin seg d
    let f := { f with lost := f.lost || d == Due.timeout, change := f.change || d == Due.fast }
    if d = .no then
      flushData b resent rtomin wnd (done ++ [seg]) rest { f with kcb := k }
    else do
      let seg := refresh k wnd seg
      let f := { f with kcb := k.setSndBuf (done ++ seg :: rest) k.xmit }
      let f ← f.sizeTest b (kcpOverhead + seg.data.length)
      flushData b resent rtomin wnd (done ++ [seg]) rest (f.put seg)

/-- "flash remain segments". -/
def writeRest (b : Build) (f : Flushing) : Flushing :=
  if 0 < b.remainingMut f.kcb.buffer.length then f.writeAll else f

/-- "update ssthresh" and what follows it; `cwnd` is the window that `flush` used. -/
def settleCwnd (p : Profile) (cwnd resent : UInt32) (lost change : Bool) (k : Kcb) : Option Kcb := do
  let mss := UInt32.ofNat k.mss
  let k ←
    (if change then do
      let inflight ← p.sub k.sndNxt k.sndUna
      let ssthresh := if inflight / 2 < kcpThreshMin then kcpThreshMin else inflight / 2
      let cwnd ← p.add ssthresh resent
      let incr ← p.mul cwnd mss
      some { k with ssthresh := ssthresh, cwnd := cwnd, incr := incr }
    else some k)
  let k :=
    if lost then
      { k with
        ssthresh := if cwnd / 2 < kcpThreshMin then kcpThreshMin else cwnd / 2
        cwnd := 1
        incr := mss }
    else k
  some (if k.cwnd < 1 then { k with cwnd := 1, incr := mss } else k)

end Flushing

namespace Kcb

open Flushing

/-- The scratch segment of `flush`. -/
def scratch (k : Kcb) : Segment where
  conv := k.conv
  cmd := kcpCmdAck
  wnd := k.wndUnused
  una := k.rcvNxt

/-- The send window that `flush` computes. -/
def flushWnd (k : Kcb) : UInt32 :=
  let cwnd := min k.sndWnd k.rmtWnd
  if !k.nocwnd then min k.cwnd cwnd else cwnd

/-- `resent` of `flush`. -/
def resent (k : Kcb) : UInt32 := if 0 < k.fastresend then k.fastresend else UInt32.ofNat (2 ^ 32 - 1)

/-- `rtomin` of `flush`. -/
def rtomin (k : Kcb) : UInt32 := if k.nodelay = 0 then k.rxRto >>> 3 else 0

/-- The phases of `flush` that send control segments: acknowledgements, window probes. -/
def flushControl (b : Build) (k : Kcb) : Option Flushing := do
  let (seg, f) ← flushAcks b k.acklist k.scratch { kcb := k }
  let k ← probeWindow b.profile (f.kcb.setAcklist [])
  let (seg, f) ← flushProbe b kcpAskSend kcpCmdWask seg { f with kcb := k }
  let (_, f) ← flushProbe b kcpAskTell kcpCmdWins seg f
  some { f with kcb := f.kcb.setProbes f.kcb.tsProbe f.kcb.probeWait 0 }

/-- `flush`. -/
def flush (b : Build) (k : Kcb) : Option Flushing :=
  if !k.updated then some { kcb := k }
  else do
    let wnd := k.wndUnused
    let f ← flushControl b k
    let cwnd := f.kcb.flushWnd
    let edge ← b.profile.add f.kcb.sndUna cwnd
    let k ← fillWindow b.profile edge wnd f.kcb.sndQueue f.kcb
    let f ← flushData b k.resent k.rtomin wnd [] k.sndBuf { f with kcb := k }
    let f := f.writeRest b
    let k ← settleCwnd b.profile cwnd k.resent f.lost f.change f.kcb
    some { f with kcb := k }

/-- The first lines of `update`. -/
def setClock (k : Kcb) (current : UInt32) : Kcb :=
  if k.updated then { k with current := current }
  else { k with current := current, updated := true, tsFlush := current }

/-- The branch `slap >= 0` of `update`. -/
def flushTick (b : Build) (k : Kcb) : Option Flushing := do
  let tsFlush ← b.profile.add k.tsFlush k.interval
  let late ← timediff b.profile k.current tsFlush
  let tsFlush ← (if 0 ≤ late then b.profile.add k.current k.interval else some tsFlush)
  flush b { k with tsFlush := tsFlush }

/-- `update`.  After the resynchronisation `slap` is `0`, so the flush is due. -/
def update (b : Build) (k : Kcb) (current : UInt32) : Option Flushing := do
  let k := k.setClock current
  let slap ← timediff b.profile k.current k.tsFlush
  if 10000 ≤ slap ∨ slap < -10000 then flushTick b { k with tsFlush := k.current }
  else if 0 ≤ slap then flushTick b k
  else some { kcb := k }

/-- The loop of `check` over `snd_buf`: `none` inside for the early `return 0`. -/
def soonest (p : Profile) (current : UInt32) : List Segment → UInt32 → Option (Option UInt32)
  | [], tmPacket => some (some tmPacket)
  | seg :: rest, tmPacket => do
    let diff ← timediff p seg.resendts current
    if diff ≤ 0 then some none
    else soonest p current rest (if diff.toUInt32 < tmPacket then diff.toUInt32 else tmPacket)

/-- `check`. -/
def check (p : Profile) (k : Kcb) (current : UInt32) : Option UInt32 :=
  if !k.updated then some 0
  else do
    let d ← timediff p current k.tsFlush
    let tsFlush := if 10000 ≤ d ∨ d < -10000 then current else k.tsFlush
    let d ← timediff p current tsFlush
    if 0 ≤ d then some 0
    else do
      let tmFlush ← timediff p tsFlush current
      match ← soonest p current k.sndBuf (UInt32.ofNat (2 ^ 32 - 1)) with
      | none => some 0
      | some tmPacket => some (min (min tmPacket tmFlush.toUInt32) k.interval)

end Kcb

end NetProtocols.Kcp
