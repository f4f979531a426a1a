import NetProtocols.Kcp.Segment

/-!
# NetProtocols.Kcp.Kcb — the control block: state, configuration, `send` and `recv`

`Kcb` has the fields of the struct in `kcb.rs` that some modelled function reads; `output` is left out: what is
passed to it is recorded by `flush`.  `usize` values are natural numbers, sequence
numbers and times are `UInt32`.  A function that can stop the thread (an overflow check, an assertion, a
division by zero) returns an `Option`, `none` being the panic; `io::Result` is `Except IoError`.

* `moveData` is the loop "move available data from rcv_buf -> rcv_queue", which the source has twice, in `recv`
  and in `parse_data`.
* `setNodelay` is the method `nodelay` (the field has that name).
-/

namespace NetProtocols.Kcp

/-- `io::ErrorKind`, as far as it is used. -/
inductive ErrorKind
  | other
  | unexpectedEof
  | invalidInput
  | invalidData
  | writeZero
  | wouldBlock
  deriving DecidableEq, Repr

/-- `io::Error::new(kind, msg)`. -/
structure IoError where
  kind : ErrorKind
  msg : String
  deriving DecidableEq, Repr

/-- `struct Kcb`. -/
structure Kcb where
  conv : UInt32
  mtu : ℕ
  mss : ℕ
  sndUna : UInt32
  sndNxt : UInt32
  rcvNxt : UInt32
  ssthresh : UInt32
  rxRttval : UInt32
  rxSrtt : UInt32
  rxRto : UInt32
  rxMinrto : UInt32
  sndWnd : UInt32
  rcvWnd : UInt32
  rmtWnd : UInt32
  cwnd : UInt32
  probe : UInt32
  current : UInt32
  interval : UInt32
  tsFlush : UInt32
  xmit : UInt32
  nodelay : UInt32
  updated : Bool
  tsProbe : UInt32
  probeWait : UInt32
  incr : UInt32
  sndQueue : List Segment
  rcvQueue : List Segment
  sndBuf : List Segment
  rcvBuf : List Segment
  acklist : List (UInt32 × UInt32)
  buffer : List UInt8
  fastresend : UInt32
  nocwnd : Bool
  stream : Bool
  deriving DecidableEq, Repr

/-- `timediff`. -/
def timediff (p : Profile) (later earlier : UInt32) : Option Int32 :=
  p.subI32 later.toInt32 earlier.toInt32

/-- `bound`. -/
def bound (lower v upper : UInt32) : UInt32 := min (max lower v) upper

namespace Kcb

/-- `Kcb::new`. -/
def new (conv : UInt32) : Kcb where
  conv := conv
  mtu := kcpMtuDef
  mss := kcpMtuDef - kcpOverhead
  sndUna := 0
  sndNxt := 0
  rcvNxt := 0
  ssthresh := kcpThreshInit
  rxRttval := 0
  rxSrtt := 0
  rxRto := kcpRtoDef
  rxMinrto := kcpRtoMin
  sndWnd := kcpWndSnd
  rcvWnd := kcpWndRcv
  rmtWnd := kcpWndRcv
  cwnd := 0
  probe := 0
  current := 0
  interval := kcpInterval
  tsFlush := kcpInterval
  xmit := 0
  nodelay := 0
  updated := false
  tsProbe := 0
  probeWait := 0
  incr := 0
  sndQueue := []
  rcvQueue := []
  sndBuf := []
  rcvBuf := []
  acklist := []
  buffer := []
  fastresend := 0
  nocwnd := false
  stream := false

/-- The method `nodelay`. -/
def setNodelay (k : Kcb) (nodelay interval resend : Int32) (nc : Bool) : Kcb :=
  let k :=
    if 0 ≤ nodelay then
      { k with
        nodelay := nodelay.toUInt32
        rxMinrto := if 0 < nodelay.toUInt32 then kcpRtoNdl else kcpRtoMin }
    else k
  let k :=
    if 0 ≤ interval then
      let interval := interval.toUInt32
      { k with interval := if 5000 < interval then 5000 else if interval < 10 then 10 else interval }
    else k
  let k := if 0 ≤ resend then { k with fastresend := resend.toUInt32 } else k
  { k with nocwnd := nc }

/-- `wndsize`. -/
def wndsize (k : Kcb) (sndwnd rcvwnd : Int32) : Kcb :=
  let k := if 0 < sndwnd then { k with sndWnd := sndwnd.toUInt32 } else k
  if 0 < rcvwnd then { k with rcvWnd := rcvwnd.toUInt32 } else k

/-- Assignment to `buffer`. -/
def setBuffer (k : Kcb) (buffer : List UInt8) : Kcb := { k with buffer := buffer }

/-- Assignment to `acklist`. -/
def setAcklist (k : Kcb) (acklist : List (UInt32 × UInt32)) : Kcb := { k with acklist := acklist }

/-- Assignment to `ts_probe`, `probe_wait` and `probe`. -/
def setProbes (k : Kcb) (tsProbe probeWait probe : UInt32) : Kcb :=
  { k with tsProbe := tsProbe, probeWait := probeWait, probe := probe }

/-- Assignment to `snd_buf` and `xmit`. -/
def setSndBuf (k : Kcb) (sndBuf : List Segment) (xmit : UInt32) : Kcb :=
  { k with sndBuf := sndBuf, xmit := xmit }

/-- Assignment to `snd_queue`. -/
def setSndQueue (k : Kcb) (sndQueue : List Segment) : Kcb := { k with sndQueue := sndQueue }

/-! Of two assignments to a field the later one counts; the buffer is written last. -/

@[simp] theorem setBuffer_setBuffer (k : Kcb) (buf buf' : List UInt8) :
    (k.setBuffer buf).setBuffer buf' = k.setBuffer buf' := rfl

@[simp] theorem setSndBuf_setSndBuf (k : Kcb) (l l' : List Segment) (xmit xmit' : UInt32) :
    (k.setSndBuf l xmit).setSndBuf l' xmit' = k.setSndBuf l' xmit' := rfl

@[simp] theorem setProbes_setProbes (k : Kcb) (ts ts' wait wait' probe probe' : UInt32) :
    (k.setProbes ts wait probe).setProbes ts' wait' probe' = k.setProbes ts' wait' probe' := rfl

@[simp] theorem setBuffer_setSndBuf (k : Kcb) (buf : List UInt8) (l : List Segment) (xmit : UInt32) :
    (k.setBuffer buf).setSndBuf l xmit = (k.setSndBuf l xmit).setBuffer buf := rfl

@[simp] theorem setBuffer_setProbes (k : Kcb) (buf : List UInt8) (ts wait probe : UInt32) :
    (k.setBuffer buf).setProbes ts wait probe = (k.setProbes ts wait probe).setBuffer buf := rfl

@[simp] theorem setBuffer_setAcklist (k : Kcb) (buf : List UInt8) (acks : List (UInt32 × UInt32)) :
    (k.setBuffer buf).setAcklist acks = (k.setAcklist acks).setBuffer buf := rfl

@[simp] theorem setBuffer_tsProbe (k : Kcb) (buf : List UInt8) : (k.setBuffer buf).tsProbe = k.tsProbe := rfl

@[simp] theorem setBuffer_probeWait (k : Kcb) (buf : List UInt8) : (k.setBuffer buf).probeWait = k.probeWait := rfl

@[simp] theorem setProbes_tsProbe (k : Kcb) (ts wait probe : UInt32) : (k.setProbes ts wait probe).tsProbe = ts := rfl

@[simp] theorem setProbes_probeWait (k : Kcb) (ts wait probe : UInt32) :
    (k.setProbes ts wait probe).probeWait = wait := rfl

/-- `wnd_unused`. -/
def wndUnused (k : Kcb) : UInt32 :=
  let nrcvQue := UInt32.ofNat k.rcvQueue.length
  if nrcvQue < k.rcvWnd then k.rcvWnd - nrcvQue else 0

/-! ## Receiving -/

/-- The summing loop of `peeksize`: up to and including the first segment with `frg == 0`. -/
def sumLength (p : Profile) : List Segment → ℕ → Option ℕ
  | [], length => some length
  | seg :: rest, length => do
    let length ← p.addUsize length seg.data.length
    if seg.frg = 0 then some length else sumLength p rest length

/-- `peeksize`. -/
def peeksize (p : Profile) (k : Kcb) : Option (Except Int ℕ) :=
  match k.rcvQueue with
  | [] => some (.error (-1))
  | seg :: _ =>
    if seg.frg = 0 then some (.ok seg.data.length)
    else do
      let n ← p.addU8 seg.frg 1
      if k.rcvQueue.length < n.toNat then some (.error (-1))
      else do
        let length ← sumLength p k.rcvQueue 0
        some (.ok length)

/-- The loop "merge fragment" of `recv`: the bytes written so far into a buffer of `cap` bytes, and the number
of segments visited. -/
def mergeFragments (cap : ℕ) : List Segment → List UInt8 → ℕ → Except IoError (List UInt8 × ℕ)
  | [], out, index => .ok (out, index)
  | seg :: rest, out, index =>
    if cap < out.length + seg.data.length then .error ⟨.writeZero, "failed to write whole buffer"⟩
    else if seg.frg = 0 then .ok (out ++ seg.data, index + 1)
    else mergeFragments cap rest (out ++ seg.data) (index + 1)

/-- The counting loop of "move available data": how many segments move, and the new `rcv_nxt`. -/
def countReady (p : Profile) (rcvWnd : ℕ) : List Segment → UInt32 → ℕ → Option (ℕ × UInt32)
  | [], rcvNxt, _ => some (0, rcvNxt)
  | seg :: rest, rcvNxt, nrcvQue =>
    if seg.sn = rcvNxt ∧ nrcvQue < rcvWnd then do
      let rcvNxt ← p.add rcvNxt 1
      let (index, rcvNxt) ← countReady p rcvWnd rest rcvNxt (nrcvQue + 1)
      some (index + 1, rcvNxt)
    else some (0, rcvNxt)

/-- "move available data from rcv_buf -> rcv_queue". -/
def moveData (p : Profile) (k : Kcb) : Option Kcb := do
  let (index, rcvNxt) ← countReady p k.rcvWnd.toNat k.rcvBuf k.rcvNxt k.rcvQueue.length
  some { k with
    rcvNxt := rcvNxt
    rcvQueue := k.rcvQueue ++ k.rcvBuf.take index
    rcvBuf := k.rcvBuf.drop index }

/-- `recv` into a buffer of `cap` bytes: the bytes it returns, as the first bytes of that buffer. -/
def recv (p : Profile) (k : Kcb) (cap : ℕ) : Option (Except IoError (List UInt8) × Kcb) :=
  if k.rcvQueue = [] then some (.error ⟨.other, "EOF"⟩, k)
  else do
    match ← k.peeksize p with
    | .error _ => some (.error ⟨.unexpectedEof, "unexpected EOF"⟩, k)
    | .ok peeksize =>
      if cap < peeksize then some (.error ⟨.invalidInput, "short buffer"⟩, k)
      else
        let recover := k.rcvWnd.toNat ≤ k.rcvQueue.length
        match mergeFragments cap k.rcvQueue [] 0 with
        | .error e => some (.error e, k)
        | .ok (out, index) => do
          p.assert (out.length = peeksize)
          let k ← moveData p { k with rcvQueue := k.rcvQueue.drop index }
          -- fast recover
          if k.rcvQueue.length < k.rcvWnd.toNat ∧ recover then
            some (.ok out, { k with probe := k.probe ||| kcpAskTell })
          else some (.ok out, k)

/-! ## Sending -/

/-- The loop "fragment" of `send`: the segments cut off `buf`, counting down to `frg = 0`, and what is left of
`buf`. -/
def fragments (mss : ℕ) (stream : Bool) : ℕ → List UInt8 → List Segment × List UInt8
  | 0, buf => ([], buf)
  | count + 1, buf =>
    let size := min mss buf.length
    let seg : Segment := { data := buf.take size, frg := if stream then 0 else UInt8.ofNat count }
    let (segs, rest) := fragments mss stream count (buf.drop size)
    (seg :: segs, rest)

/-- The number of segments a buffer of `remaining` bytes is cut into. -/
def fragCount (mss remaining : ℕ) : ℕ :=
  if remaining ≤ mss then 1 else (remaining + mss - 1) / mss

/-- The streaming part of `send`: fill up the last queued segment.  What is left of `buf` comes with the queue. -/
def appendLast (mss : ℕ) (queue : List Segment) (buf : List UInt8) : List Segment × List UInt8 :=
  match queue.getLast? with
  | none => (queue, buf)
  | some seg =>
    if seg.data.length < mss then
      let n := min (seg.data.length + buf.length) mss - seg.data.length
      (queue.dropLast ++ [{ seg with data := seg.data ++ buf.take n, frg := 0 }], buf.drop n)
    else (queue, buf)

/-- `send`. -/
def send (p : Profile) (k : Kcb) (buf : List UInt8) : Option (Except IoError ℕ × Kcb) :=
  if buf = [] then some (.error ⟨.invalidInput, "no data available"⟩, k)
  else
    let (queue, rest) := if k.stream then appendLast k.mss k.sndQueue buf else (k.sndQueue, buf)
    let k := k.setSndQueue queue
    if rest = [] then some (.ok 1, k)
    -- `remaining / mss`
    else if k.mss = 0 then none
    else
      let count := fragCount k.mss rest.length
      if 255 < count then some (.error ⟨.invalidInput, "data too long"⟩, k)
      else do
        p.assert (0 < count)
        let (segs, rest) := fragments k.mss k.stream count rest
        some (.ok (buf.length - rest.length), k.setSndQueue (k.sndQueue ++ segs))

end Kcb

end NetProtocols.Kcp
