import NetProtocols.Lib.Arith
import NetProtocols.Lib.Bytes

/-!
# NetProtocols.Kcp.Segment — KCP segments and their wire format

`Segment` and `Segment.encode` follow `kcb.rs`; `readHeader` is the run of `get_*` calls with which
`Kcb::input` reads the 24 header bytes back.

* `readHeader_encode`: reading an encoded segment yields its header, and leaves its data.
* `encodes`: a datagram is a concatenation of whole segments.
* `refuses`: the tests by which `input` turns down what stands at the cursor.
-/

namespace NetProtocols.Kcp

/-! ## Constants -/

def kcpRtoNdl : UInt32 := 30
def kcpRtoMin : UInt32 := 100
def kcpRtoDef : UInt32 := 200
def kcpRtoMax : UInt32 := 60000
def kcpCmdPush : UInt8 := 81
def kcpCmdAck : UInt8 := 82
def kcpCmdWask : UInt8 := 83
def kcpCmdWins : UInt8 := 84
def kcpAskSend : UInt32 := 0b01
def kcpAskTell : UInt32 := 0b10
def kcpWndSnd : UInt32 := 32
def kcpWndRcv : UInt32 := 32
def kcpMtuDef : ℕ := 1400
def kcpInterval : UInt32 := 100
def kcpOverhead : ℕ := 24
def kcpThreshInit : UInt32 := 2
def kcpThreshMin : UInt32 := 2
def kcpProbeInit : UInt32 := 7000
def kcpProbeLimit : UInt32 := 120000

/-! ## Segments -/

/-- `struct Segment`; the default values are those of `Segment::default()`. -/
structure Segment where
  conv : UInt32 := 0
  cmd : UInt8 := 0
  frg : UInt8 := 0
  wnd : UInt32 := 0
  ts : UInt32 := 0
  sn : UInt32 := 0
  una : UInt32 := 0
  resendts : UInt32 := 0
  rto : UInt32 := 0
  fastack : UInt32 := 0
  xmit : UInt32 := 0
  data : List UInt8 := []
  deriving DecidableEq, Repr

/-- The bytes `Segment::encode` appends to the buffer. -/
def Segment.encode (s : Segment) : List UInt8 :=
  putU32le s.conv ++ (s.cmd :: s.frg :: (putU16le s.wnd.toUInt16 ++ (putU32le s.ts ++ (putU32le s.sn ++
    (putU32le s.una ++ (putU32le (UInt32.ofNat s.data.length) ++ s.data))))))

/-- The segments of a list, one after the other. -/
def encodes (segs : List Segment) : List UInt8 := segs.flatMap Segment.encode

/-- The header fields as `input` reads them. -/
structure Header where
  conv : UInt32
  cmd : UInt8
  frg : UInt8
  wnd : UInt16
  ts : UInt32
  sn : UInt32
  una : UInt32
  len : UInt32
  deriving DecidableEq, Repr

/-- The header that `encode` writes. -/
def Segment.header (s : Segment) : Header :=
  ⟨s.conv, s.cmd, s.frg, s.wnd.toUInt16, s.ts, s.sn, s.una, UInt32.ofNat s.data.length⟩

/-- The `get_*` calls at the head of the segment loop of `input`. -/
def readHeader (buf : List UInt8) : Option (Header × List UInt8) := do
  let (conv, buf) ← getU32le buf
  let (cmd, buf) ← getU8 buf
  let (frg, buf) ← getU8 buf
  let (wnd, buf) ← getU16le buf
  let (ts, buf) ← getU32le buf
  let (sn, buf) ← getU32le buf
  let (una, buf) ← getU32le buf
  let (len, buf) ← getU32le buf
  return (⟨conv, cmd, frg, wnd, ts, sn, una, len⟩, buf)

@[simp] theorem length_encode (s : Segment) : s.encode.length = kcpOverhead + s.data.length := by
  simp [Segment.encode, kcpOverhead]
  omega

@[simp] theorem encodes_nil : encodes [] = [] := rfl

@[simp] theorem encodes_cons (s : Segment) (segs : List Segment) :
    encodes (s :: segs) = s.encode ++ encodes segs := rfl

theorem encodes_append (l₁ l₂ : List Segment) : encodes (l₁ ++ l₂) = encodes l₁ ++ encodes l₂ :=
  List.flatMap_append

theorem encodes_flatten (parts : List (List Segment)) : encodes parts.flatten = (parts.map encodes).flatten := by
  induction parts with
  | nil => rfl
  | cons l parts ih => rw [List.flatten_cons, encodes_append, ih, List.map_cons, List.flatten_cons]

theorem encodes_eq_nil {l : List Segment} : encodes l = [] ↔ l = [] := by
  constructor
  · intro h
    cases l with
    | nil => rfl
    | cons s l =>
      have hlen := congrArg List.length h
      rw [encodes_cons, List.length_append, length_encode, List.length_nil] at hlen
      unfold kcpOverhead at hlen
      omega
  · rintro rfl
    rfl

/-- Reading an encoded segment yields its header and leaves its data. -/
@[simp] theorem readHeader_encode (s : Segment) (rest : List UInt8) :
    readHeader (s.encode ++ rest) = some (s.header, s.data ++ rest) := by
  simp [readHeader, Segment.encode, Segment.header]

theorem readHeader_of_le {buf : List UInt8} (h : kcpOverhead ≤ buf.length) :
    ∃ hd, readHeader buf = some (hd, buf.drop kcpOverhead) := by
  unfold kcpOverhead at h
  obtain ⟨conv, h1⟩ := getU32le_of_le buf (by omega)
  obtain ⟨cmd, h2⟩ := getU8_of_le (buf.drop 4) (by simp; omega)
  obtain ⟨frg, h3⟩ := getU8_of_le (buf.drop 5) (by simp; omega)
  obtain ⟨wnd, h4⟩ := getU16le_of_le (buf.drop 6) (by simp; omega)
  obtain ⟨ts, h5⟩ := getU32le_of_le (buf.drop 8) (by simp; omega)
  obtain ⟨sn, h6⟩ := getU32le_of_le (buf.drop 12) (by simp; omega)
  obtain ⟨una, h7⟩ := getU32le_of_le (buf.drop 16) (by simp; omega)
  obtain ⟨len, h8⟩ := getU32le_of_le (buf.drop 20) (by simp; omega)
  simp only [List.drop_drop, Nat.reduceAdd] at h2 h3 h4 h5 h6 h7 h8
  refine ⟨⟨conv, cmd, frg, wnd, ts, sn, una, len⟩, ?_⟩
  simp [readHeader, h1, h2, h3, h4, h5, h6, h7, h8, kcpOverhead]

theorem readHeader_suffix {buf rest : List UInt8} {h : Header} (hr : readHeader buf = some (h, rest)) :
    rest <:+ buf := by
  simp only [readHeader, Option.bind_eq_bind, Option.bind_eq_some_iff, Option.pure_def, Option.some.injEq,
    Prod.mk.injEq] at hr
  obtain ⟨⟨conv, b1⟩, h1, ⟨cmd, b2⟩, h2, ⟨frg, b3⟩, h3, ⟨wnd, b4⟩, h4, ⟨ts, b5⟩, h5, ⟨sn, b6⟩, h6, ⟨una, b7⟩, h7,
    ⟨len, b8⟩, h8, -, rfl⟩ := hr
  have s4 : b4 <:+ buf :=
    (getU16le_suffix h4).trans ((getU8_suffix h3).trans ((getU8_suffix h2).trans (getU32le_suffix h1)))
  have s7 : b7 <:+ b4 := (getU32le_suffix h7).trans ((getU32le_suffix h6).trans (getU32le_suffix h5))
  exact (getU32le_suffix h8).trans (s7.trans s4)

/-! ## What `input` accepts at its cursor -/

/-- The four commands `input` knows. -/
def validCmd (cmd : UInt8) : Bool :=
  cmd == kcpCmdPush || cmd == kcpCmdAck || cmd == kcpCmdWask || cmd == kcpCmdWins

/-- The header tests of `input`: the conversation, the length against what is left, the command. -/
def Header.accepted (conv : UInt32) (h : Header) (rest : List UInt8) : Bool :=
  h.conv == conv && decide (h.len.toNat ≤ rest.length) && validCmd h.cmd

/-- What stands at the cursor is not read as a segment of the conversation `conv`: fewer than 24 bytes are
left, or the header tests turn it down. -/
def refuses (conv : UInt32) (buf : List UInt8) : Bool :=
  match readHeader buf with
  | none => true
  | some (h, rest) => !h.accepted conv rest

end NetProtocols.Kcp
