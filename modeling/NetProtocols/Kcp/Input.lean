import NetProtocols.Kcp.Kcb

/-!
# NetProtocols.Kcp.Input — `Kcb::input` and the functions it calls

* `updateAck`, `shrinkBuf`, `parseAck`, `parseUna`, `parseFastack`, `parseData`: the helpers, one definition for
  each function of the source.
* `Scan`: what the segment loop of `input` carries from one iteration to the next.
* `inputStep`: one iteration; `takeSegment` is what it does once the header tests have passed.
* `inputLoop`, `growCwnd`, `input`: the loop, the congestion-window step after it, and the whole call.  `input`
  mutates the control block as it goes, so an error comes with the state reached so far.
-/

namespace NetProtocols.Kcp

namespace Kcb

/-- `update_ack`. -/
def updateAck (p : Profile) (k : Kcb) (rtt : UInt32) : Option Kcb := do
  let k ←
    (if k.rxSrtt = 0 then some { k with rxSrtt := rtt, rxRttval := rtt / 2 }
    else do
      let delta ← (if k.rxSrtt < rtt then p.sub rtt k.rxSrtt else p.sub k.rxSrtt rtt)
      let x ← p.mul 3 k.rxRttval
      let x ← p.add x delta
      let y ← p.mul 7 k.rxSrtt
      let y ← p.add y rtt
      let srtt := y / 8
      some { k with rxRttval := x / 4, rxSrtt := if srtt < 1 then 1 else srtt })
  let z ← p.mul 4 k.rxRttval
  let rto ← p.add k.rxSrtt (max k.interval z)
  some { k with rxRto := bound k.rxMinrto rto kcpRtoMax }

/-- `shrink_buf`. -/
def shrinkBuf (k : Kcb) : Kcb :=
  { k with sndUna := match k.sndBuf with | [] => k.sndNxt | seg :: _ => seg.sn }

/-- The scan of `parse_ack`: remove the segment numbered `sn`, stop at the first greater number. -/
def removeSn (sn : UInt32) : List Segment → List Segment
  | [] => []
  | seg :: rest =>
    if sn = seg.sn then rest
    else if sn < seg.sn then seg :: rest
    else seg :: removeSn sn rest

/-- `parse_ack`. -/
def parseAck (k : Kcb) (sn : UInt32) : Kcb :=
  if sn < k.sndUna ∨ k.sndNxt ≤ sn then k
  else { k with sndBuf := removeSn sn k.sndBuf }

/-- The counting loop of `parse_una`. -/
def countBelow (una : UInt32) : List Segment → ℕ
  | [] => 0
  | seg :: rest => if seg.sn < una then countBelow una rest + 1 else 0

/-- `parse_una`. -/
def parseUna (k : Kcb) (una : UInt32) : Kcb :=
  { k with sndBuf := k.sndBuf.drop (countBelow una k.sndBuf) }

/-- The loop of `parse_fastack`. -/
def bumpFastack (p : Profile) (sn : UInt32) : List Segment → Option (List Segment)
  | [] => some []
  | seg :: rest =>
    if sn < seg.sn then some (seg :: rest)
    else do
      let fastack ← (if sn ≠ seg.sn then p.add seg.fastack 1 else some seg.fastack)
      let rest ← bumpFastack p sn rest
      some ({ seg with fastack := fastack } :: rest)

/-- `parse_fastack`. -/
def parseFastack (p : Profile) (k : Kcb) (sn : UInt32) : Option Kcb :=
  if sn < k.sndUna ∨ k.sndNxt ≤ sn then some k
  else do
    let sndBuf ← bumpFastack p sn k.sndBuf
    some { k with sndBuf := sndBuf }

/-- The reverse scan of `parse_data` (over the reversed `rcv_buf`): `repeat`, and the index to insert at. -/
def scanBack (p : Profile) (sn : UInt32) : List Segment → ℕ → Option (Bool × ℕ)
  | [], index => some (false, index)
  | seg :: rest, index =>
    if sn = seg.sn then some (true, index)
    else if seg.sn < sn then some (false, index)
    else do
      let index ← p.subUsize index 1
      scanBack p sn rest index

/-- `parse_data`. -/
def parseData (p : Profile) (k : Kcb) (newseg : Segment) : Option Kcb := do
  let sn := newseg.sn
  let edge ← p.add k.rcvNxt k.rcvWnd
  if edge ≤ sn ∨ sn < k.rcvNxt then some k
  else do
    let (dup, index) ← scanBack p sn k.rcvBuf.reverse k.rcvBuf.length
    if dup then moveData p k
    else do
      p.assert (index ≤ k.rcvBuf.length)
      moveData p { k with rcvBuf := k.rcvBuf.insertIdx index newseg }

/-- What the loop of `input` does with every segment before it looks at the command. -/
def onHeader (k : Kcb) (h : Header) : Kcb :=
  (({ k with rmtWnd := h.wnd.toUInt32 } : Kcb).parseUna h.una).shrinkBuf

end Kcb

/-! ## The segment loop -/

/-- The state of the segment loop of `input`: the control block, `flag`, `maxack`, and the bytes after the
cursor. -/
structure Scan where
  kcb : Kcb
  flag : Bool
  maxack : UInt32
  buf : List UInt8
  deriving DecidableEq

namespace Scan

/-- The segment that the PUSH branch of `input` builds. -/
def segmentOf (h : Header) (data : List UInt8) : Segment where
  conv := h.conv
  cmd := h.cmd
  frg := h.frg
  wnd := h.wnd.toUInt32
  ts := h.ts
  sn := h.sn
  una := h.una
  data := data

/-- The ACK branch. -/
def takeAck (p : Profile) (s : Scan) (h : Header) : Option Scan := do
  let rtt ← timediff p s.kcb.current h.ts
  let k ← (if 0 ≤ rtt then s.kcb.updateAck p rtt.toUInt32 else some s.kcb)
  let k := (k.parseAck h.sn).shrinkBuf
  if !s.flag then some { s with kcb := k, flag := true, maxack := h.sn }
  else some { s with kcb := k, maxack := if s.maxack < h.sn then h.sn else s.maxack }

/-- The PUSH branch.  `read_exact` cannot fail: the header tests have compared `len` with what is left. -/
def takePush (p : Profile) (s : Scan) (h : Header) : Option Scan := do
  let edge ← p.add s.kcb.rcvNxt s.kcb.rcvWnd
  if h.sn < edge then
    let k := s.kcb.setAcklist (s.kcb.acklist ++ [(h.sn, h.ts)])
    if k.rcvNxt ≤ h.sn then do
      let data := s.buf.take h.len.toNat
      let k ← k.parseData p (segmentOf h data)
      some { s with kcb := k, buf := s.buf.drop h.len.toNat }
    else some { s with kcb := k }
  else some s

/-- The loop body after the header tests; the cursor stands behind the header. -/
def takeSegment (p : Profile) (s : Scan) (h : Header) : Option Scan :=
  let s := { s with kcb := s.kcb.onHeader h }
  if h.cmd = kcpCmdAck then s.takeAck p h
  else if h.cmd = kcpCmdPush then s.takePush p h
  else if h.cmd = kcpCmdWask then some { s with kcb := { s.kcb with probe := s.kcb.probe ||| kcpAskTell } }
  else some s

/-- One iteration of the segment loop.  The header tests change nothing, so they are made once the whole header
is read. -/
def inputStep (p : Profile) (s : Scan) : Option (Except IoError Scan) := do
  let (h, buf) ← readHeader s.buf
  if h.conv ≠ s.kcb.conv then some (.error ⟨.invalidData, "invalid data"⟩)
  else if buf.length < h.len.toNat then some (.error ⟨.unexpectedEof, "unexpected EOF"⟩)
  else if !validCmd h.cmd then some (.error ⟨.invalidData, "invalid data"⟩)
  else do
    let s ← { s with buf := buf }.takeSegment p h
    some (.ok s)

/-- The segment loop; `fuel` bounds the number of iterations. -/
def inputLoop (p : Profile) : ℕ → Scan → Option (Except IoError Unit × Scan)
  | 0, s => some (.ok (), s)
  | fuel + 1, s =>
    if s.buf.length < kcpOverhead then some (.ok (), s)
    else do
      match ← s.inputStep p with
      | .error e => some (.error e, s)
      | .ok s => inputLoop p fuel s

end Scan

namespace Kcb

/-- Congestion avoidance: the branch `cwnd >= ssthresh` of the congestion-window step. -/
def avoidCongestion (p : Profile) (k : Kcb) (mss : UInt32) : Option Kcb := do
  let incr := if k.incr < mss then mss else k.incr
  let sq ← p.mul mss mss
  let q ← p.div sq incr
  let q ← p.add q (mss / 16)
  let incr ← p.add incr q
  let next ← p.add k.cwnd 1
  let goal ← p.mul next mss
  some { k with cwnd := if goal ≤ incr then next else k.cwnd, incr := incr }

/-- Slow start: the branch `cwnd < ssthresh`. -/
def slowStart (p : Profile) (k : Kcb) (mss : UInt32) : Option Kcb := do
  let cwnd ← p.add k.cwnd 1
  let incr ← p.add k.incr mss
  some { k with cwnd := cwnd, incr := incr }

/-- The congestion-window step at the end of `input`. -/
def growCwnd (p : Profile) (k : Kcb) (oldUna : UInt32) : Option Kcb :=
  if oldUna < k.sndUna ∧ k.cwnd < k.rmtWnd then do
    let mss := UInt32.ofNat k.mss
    let k ← (if k.cwnd < k.ssthresh then k.slowStart p mss else k.avoidCongestion p mss)
    if k.rmtWnd < k.cwnd then do
      let incr ← p.mul k.rmtWnd mss
      some { k with cwnd := k.rmtWnd, incr := incr }
    else some k
  else some k

/-- The start of the segment loop on the bytes `buf`. -/
def scanOf (k : Kcb) (buf : List UInt8) : Scan := ⟨k, false, 0, buf⟩

/-- What follows the segment loop when it ended without an error. -/
def finishInput (p : Profile) (s : Scan) (oldUna : UInt32) : Option Kcb := do
  let k ← (if s.flag then s.kcb.parseFastack p s.maxack else some s.kcb)
  k.growCwnd p oldUna

/-- `input`. -/
def input (p : Profile) (k : Kcb) (buf : List UInt8) : Option (Except IoError ℕ × Kcb) :=
  if buf.length < kcpOverhead then some (.error ⟨.invalidData, "invalid data"⟩, k)
  else do
    let (r, s) ← (k.scanOf buf).inputLoop p buf.length
    match r with
    | .error e => some (.error e, s.kcb)
    | .ok () => do
      let k ← finishInput p s k.sndUna
      some (.ok (buf.length - s.buf.length), k)

end Kcb

end NetProtocols.Kcp
