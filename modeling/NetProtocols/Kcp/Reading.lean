import NetProtocols.Kcp.Link

/-!
# NetProtocols.Kcp.Reading — how `input` reads a datagram of whole segments

`input` skips the data of a segment only by taking it: for a PUSH inside the receive window.  The data of any other
segment is read as the next header.

* `handle`: what is done with one segment, apart from where the cursor ends up.
* `ReadsAs`: `input` reads a datagram as the sequence of segments it is.
* `Loaded`: every segment that carries data is, when its turn comes, a PUSH inside the window.
* `readsAs_iff`: the one holds exactly when the other does.
* `readsAs_fails`: a PUSH above the window, and what follows it is lost.
-/

namespace NetProtocols.Kcp

open Kcb Scan

namespace Scan

variable {p : Profile}

/-- The handling of one segment: the loop body after the header tests, on the segment alone.  What is left of the
data in `buf` is what `input` has not skipped. -/
def handle (p : Profile) (s : Scan) (seg : Segment) : Option Scan :=
  ({ s with buf := seg.data } : Scan).takeSegment p seg.header

theorem taken_handle {s t : Scan} {seg : Segment} (h : s.handle p seg = some t) :
    Taken p { s with buf := seg.data } seg.header t := taken_of_takeSegment h

/-- What lies behind the data of the segment makes no difference to its handling. -/
theorem takeSegment_append (s : Scan) (h : Header) {data : List UInt8} (post : List UInt8)
    (hlen : h.len.toNat ≤ data.length) :
    ({ s with buf := data ++ post } : Scan).takeSegment p h =
      (({ s with buf := data } : Scan).takeSegment p h).map fun t => { t with buf := t.buf ++ post } := by
  unfold takeSegment
  dsimp only
  split_ifs
  · simp only [takeAck, Option.bind_eq_bind]
    cases timediff p (s.kcb.onHeader h).current h.ts with
    | none => rfl
    | some rtt =>
      simp only [Option.bind_some]
      cases (if 0 ≤ rtt then (s.kcb.onHeader h).updateAck p rtt.toUInt32 else some (s.kcb.onHeader h)) with
      | none => rfl
      | some k =>
        simp only [Option.bind_some]
        split_ifs <;> rfl
  · simp only [takePush, Option.bind_eq_bind]
    cases p.add (s.kcb.onHeader h).rcvNxt (s.kcb.onHeader h).rcvWnd with
    | none => rfl
    | some edge =>
      simp only [Option.bind_some]
      split_ifs
      · rw [List.take_append_of_le_length hlen, List.drop_append_of_le_length hlen]
        cases parseData p _ (segmentOf h (data.take h.len.toNat)) with
        | none => rfl
        | some k => rfl
      · rfl
      · rfl
  · rfl
  · rfl

theorem len_header_le (seg : Segment) : seg.header.len.toNat ≤ seg.data.length := by
  simp only [Segment.header, UInt32.toNat_ofNat']
  exact Nat.mod_le _ _

/-- **One iteration at a whole segment** is its handling; the cursor is left on what was not skipped. -/
theorem inputStep_handle (s : Scan) {seg : Segment} (hconv : seg.conv = s.kcb.conv) (hcmd : validCmd seg.cmd = true)
    (post : List UInt8) :
    ({ s with buf := seg.encode ++ post } : Scan).inputStep p =
      (s.handle p seg).map fun t => .ok { t with buf := t.buf ++ post } := by
  have hlen := len_header_le seg
  unfold inputStep
  simp only [readHeader_encode, Option.bind_eq_bind, Option.bind_some]
  rw [if_neg (by simp [Segment.header, hconv]), if_neg (by simp; omega),
    if_neg (by simp [Segment.header, hcmd]), takeSegment_append s seg.header post hlen]
  unfold handle
  cases ({ s with buf := seg.data } : Scan).takeSegment p seg.header <;> rfl

theorem mss_foldlM_handle {segs : List Segment} {s s' : Scan} (h : segs.foldlM (handle p) s = some s') :
    s'.kcb.mss = s.kcb.mss := by
  induction segs generalizing s with
  | nil => exact (Option.some.inj h) ▸ rfl
  | cons seg segs ih =>
    rw [List.foldlM_cons, Option.bind_eq_bind, Option.bind_eq_some_iff] at h
    obtain ⟨t, ht, h⟩ := h
    exact (ih h).trans (congrArg Settings.mss (settings_taken (taken_handle ht)).1)

/-- The header is that of a PUSH inside the receive window of `k`. -/
def InWindow (k : Kcb) (h : Header) : Prop :=
  h.cmd = kcpCmdPush ∧ k.rcvNxt ≤ h.sn ∧ h.sn < k.rcvNxt + k.rcvWnd

instance (k : Kcb) (h : Header) : Decidable (InWindow k h) := by
  unfold InWindow
  infer_instance

/-- Inside the window the cursor moves behind the data; anywhere else it stays behind the header. -/
theorem cursor_taken {s s' : Scan} {h : Header} (ht : Taken p s h s') :
    (InWindow s.kcb h ∧ s'.buf = s.buf.drop h.len.toNat) ∨ (¬ InWindow s.kcb h ∧ s'.buf = s.buf) := by
  cases ht with
  | ack hc hk => exact Or.inr ⟨fun hw => absurd (hw.1.symm.trans hc) (by decide), rfl⟩
  | above hc hsn => exact Or.inr ⟨fun hw => UInt32.not_lt.mpr hsn hw.2.2, rfl⟩
  | below hc hsn hlt => exact Or.inr ⟨fun hw => UInt32.not_lt.mpr hw.2.1 hlt, rfl⟩
  | inside hc hsn hle hk => exact Or.inl ⟨⟨hc, hle, hsn⟩, rfl⟩
  | wask hc => exact Or.inr ⟨fun hw => absurd (hw.1.symm.trans hc) (by decide), rfl⟩
  | other ha hc => exact Or.inr ⟨fun hw => hc hw.1, rfl⟩

/-- A segment is skipped as a whole if it has no data or is a PUSH inside the window, and in no other case. -/
theorem handle_buf {s t : Scan} {seg : Segment} (h : s.handle p seg = some t) :
    t.buf = [] ↔ (seg.data ≠ [] → InWindow s.kcb seg.header ∧ seg.data.length < 2 ^ 32) := by
  rcases cursor_taken (taken_handle h) with ⟨hw, e⟩ | ⟨hw, e⟩
  · replace hw : InWindow s.kcb seg.header := hw
    rw [e, List.drop_eq_nil_iff]
    simp only [Segment.header, UInt32.toNat_ofNat'] at hw ⊢
    constructor
    · intro hle hne
      have := Nat.mod_lt seg.data.length (show 0 < 2 ^ 32 by decide)
      exact ⟨hw, by omega⟩
    · intro himp
      by_cases hd : seg.data = []
      · simp [hd]
      · exact (Nat.mod_eq_of_lt (himp hd).2).symm.le
  · rw [e]
    refine ⟨fun hd hne => absurd hd hne, fun himp => ?_⟩
    by_contra hne
    exact hw (himp hne).1

/-! ### Nothing stops a release build -/

theorem updateAck_release (k : Kcb) (rtt : UInt32) : (k.updateAck .release rtt).isSome := by
  unfold updateAck
  split_ifs <;> simp

theorem countReady_release (wnd : ℕ) (l : List Segment) (nxt : UInt32) (q : ℕ) :
    (countReady .release wnd l nxt q).isSome := by
  induction l generalizing nxt q with
  | nil => rfl
  | cons seg l ih =>
    unfold countReady
    split_ifs
    · obtain ⟨x, hx⟩ := Option.isSome_iff_exists.mp (ih (nxt + 1) (q + 1))
      simp [hx]
    · rfl

theorem moveData_release (k : Kcb) : (moveData .release k).isSome := by
  obtain ⟨x, hx⟩ := Option.isSome_iff_exists.mp
    (countReady_release k.rcvWnd.toNat k.rcvBuf k.rcvNxt k.rcvQueue.length)
  simp [moveData, hx]

theorem parseData_release (k : Kcb) (seg : Segment) : (k.parseData .release seg).isSome := by
  by_cases hout : k.rcvNxt + k.rcvWnd ≤ seg.sn ∨ seg.sn < k.rcvNxt
  · simp [parseData, hout]
  · rw [not_or, UInt32.not_le, UInt32.not_lt] at hout
    obtain ⟨l, -, h⟩ := parseData_inside (p := .release) hout.2 hout.1
    rw [h]
    exact moveData_release _

theorem isSome_takeAck {s : Scan} {h : Header} (ht : (timediff p s.kcb.current h.ts).isSome)
    (hu : ∀ rtt, timediff p s.kcb.current h.ts = some rtt → 0 ≤ rtt → (s.kcb.updateAck p rtt.toUInt32).isSome) :
    (s.takeAck p h).isSome := by
  unfold takeAck
  refine Profile.isSome_bind ht fun rtt hr => Profile.isSome_bind ?_ fun k _ => ?_
  · split_ifs with h0
    · exact hu rtt hr h0
    · rfl
  · dsimp only
    split_ifs <;> rfl

/-- A PUSH goes through when the window's edge can be computed: `parse_data` does not stop inside the window. -/
theorem isSome_takePush {s : Scan} {h : Header} (he : (p.add s.kcb.rcvNxt s.kcb.rcvWnd).isSome)
    (hd : ∀ acks seg, ((s.kcb.setAcklist acks).parseData p seg).isSome) : (s.takePush p h).isSome := by
  unfold takePush
  refine Profile.isSome_bind he fun edge _ => ?_
  dsimp only
  split_ifs
  · refine Profile.isSome_bind (hd _ _) fun k _ => ?_
    rfl
  · rfl
  · rfl

theorem takeSegment_release (s : Scan) (h : Header) : (s.takeSegment .release h).isSome := by
  unfold takeSegment
  dsimp only
  split_ifs
  · exact isSome_takeAck rfl fun rtt _ _ => updateAck_release _ _
  · exact isSome_takePush rfl fun acks seg => parseData_release _ seg
  · rfl
  · rfl

theorem handle_release (s : Scan) (seg : Segment) : (s.handle .release seg).isSome := takeSegment_release _ _

theorem foldlM_handle_release (segs : List Segment) (s : Scan) : (segs.foldlM (handle .release) s).isSome := by
  induction segs generalizing s with
  | nil => rfl
  | cons seg segs ih =>
    rw [List.foldlM_cons]
    exact Profile.isSome_bind (handle_release s seg) fun t _ => ih t

theorem parseFastack_release (k : Kcb) (sn : UInt32) : (k.parseFastack .release sn).isSome := by
  have hbump : ∀ l : List Segment, (bumpFastack .release sn l).isSome := by
    intro l
    induction l with
    | nil => rfl
    | cons seg l ih =>
      unfold bumpFastack
      by_cases hlt : sn < seg.sn
      · rw [if_pos hlt]
        rfl
      · rw [if_neg hlt]
        refine Profile.isSome_bind (by split_ifs <;> rfl) fun fastack _ => Profile.isSome_bind ih fun rest _ => ?_
        rfl
  unfold parseFastack
  split_ifs
  · rfl
  · refine Profile.isSome_bind (hbump _) fun l _ => ?_
    rfl

/-- The congestion step divides by `incr`, which is at least one segment by then. -/
theorem growCwnd_release {k : Kcb} (hmss : UInt32.ofNat k.mss ≠ 0) (oldUna : UInt32) :
    (k.growCwnd .release oldUna).isSome := by
  have havoid : ∀ k' : Kcb, (k'.avoidCongestion .release (UInt32.ofNat k.mss)).isSome := by
    intro k'
    have hincr : (if k'.incr < UInt32.ofNat k.mss then UInt32.ofNat k.mss else k'.incr) ≠ 0 := by
      split_ifs with h
      · exact hmss
      · intro h0
        rw [h0, UInt32.not_lt, UInt32.le_iff_toNat_le] at h
        exact hmss (UInt32.toNat_inj.mp (Nat.le_zero.mp h))
    simp [avoidCongestion, Profile.div, hincr]
  unfold growCwnd
  by_cases hg : oldUna < k.sndUna ∧ k.cwnd < k.rmtWnd
  · rw [if_pos hg]
    refine Profile.isSome_bind (x := if k.cwnd < k.ssthresh then _ else _) ?_ fun k1 _ => ?_
    · split_ifs
      · rfl
      · exact havoid k
    · split_ifs <;> rfl
  · rw [if_neg hg]
    rfl

theorem finishInput_release {s : Scan} (hmss : UInt32.ofNat s.kcb.mss ≠ 0) (oldUna : UInt32) :
    (finishInput .release s oldUna).isSome := by
  unfold finishInput
  refine Profile.isSome_bind ?_ fun k hk => ?_
  · split_ifs
    · exact parseFastack_release _ _
    · rfl
  · refine growCwnd_release ?_ oldUna
    split_ifs at hk
    · obtain ⟨l, -, rfl⟩ := parseFastack_eq hk
      exact hmss
    · obtain rfl := Option.some.inj hk
      exact hmss

/-! ### Data that is read as a header -/

/-- The segment at the cursor is one whose data is not skipped, and what follows its header is accepted as the next
segment. -/
def misreads (s : Scan) : Bool :=
  match readHeader s.buf with
  | none => false
  | some (h, rest) =>
    h.accepted s.kcb.conv rest && h.len != 0 && !decide (InWindow s.kcb h) && !refuses s.kcb.conv rest

theorem refuses_of_not_misreads {s : Scan} {h : Header} {rest : List UInt8} (hr : readHeader s.buf = some (h, rest))
    (hacc : h.accepted s.kcb.conv rest = true) (hlen : h.len ≠ 0) (hw : ¬ InWindow s.kcb h)
    (hm : s.misreads = false) : refuses s.kcb.conv rest = true := by
  simpa [misreads, hr, hacc, hlen, hw] using hm

/-- No iteration of the segment loop misreads. -/
def aligned (p : Profile) : ℕ → Scan → Bool
  | 0, _ => true
  | fuel + 1, s =>
    !s.misreads &&
      match s.inputStep p with
      | some (.ok t) => t.aligned p fuel
      | _ => true

end Scan

/-- `input` does not read data as a header anywhere in the datagram. -/
def Kcb.aligned (p : Profile) (k : Kcb) (d : List UInt8) : Bool := (k.scanOf d).aligned p d.length

/-- **Invariant rule for `input`** on a datagram that is not misread. -/
theorem input_rule_aligned {p : Profile} {I : Scan → Prop} {J : Kcb → Prop} {k k' : Kcb} {d : List UInt8}
    {r : Except IoError ℕ} (h : k.input p d = some (r, k')) (ha : k.aligned p d = true) (h0 : I (k.scanOf d))
    (hJ : ∀ s, I s → J s.kcb)
    (hstep : ∀ s s', I s → s.misreads = false → s.inputStep p = some (.ok s') → I s')
    (hfin : ∀ s k', I s → finishInput p s k.sndUna = some k' → J k') : J k' := by
  refine input_rule_fuel (I := fun n s => I s ∧ s.aligned p n = true) (J := J) h ⟨h0, ha⟩ (fun n s hs => hJ s hs.1) ?_
    fun n s k' hs hf => hfin s k' hs.1 hf
  rintro n s s' ⟨i1, i2⟩ hs
  simp only [Scan.aligned, hs, Bool.and_eq_true, Bool.not_eq_true'] at i2
  exact ⟨hstep s s' i1 i2.1 hs, i2.2⟩

/-! ### Whole datagrams -/

/-- Every iteration of the segment loop reads exactly the next segment of the list: at its turn the cursor goes from
its header to the next header, and its handling is what is done. -/
def ReadsEach (p : Profile) : Scan → List Segment → Prop
  | _, [] => True
  | s, seg :: segs => ∃ t, s.handle p seg = some t ∧
      ({ s with buf := encodes (seg :: segs) } : Scan).inputStep p = some (.ok { t with buf := encodes segs }) ∧
      ReadsEach p t segs

/-- **`input` reads the datagram as the sequence of segments it is**: iteration by iteration, with the state the fold
of the handling over the segments gives, and all bytes consumed. -/
structure ReadsAs (p : Profile) (k : Kcb) (segs : List Segment) : Prop where
  each : ReadsEach p (k.scanOf []) segs
  result : ∃ s k', segs.foldlM (handle p) (k.scanOf []) = some s ∧ finishInput p s k.sndUna = some k' ∧
    k.input p (encodes segs) = some (.ok (encodes segs).length, k')

/-- Every segment that carries data is, when its turn comes, a PUSH inside the receive window. -/
def Loaded (p : Profile) : Scan → List Segment → Prop
  | _, [] => True
  | s, seg :: segs => (seg.data ≠ [] → InWindow s.kcb seg.header ∧ seg.data.length < 2 ^ 32) ∧
      ∀ t, s.handle p seg = some t → Loaded p t segs

section Whole

variable {p : Profile} {conv : UInt32}

/-- The segments are of the conversation, and `input` knows their commands. -/
def Valid (conv : UInt32) (segs : List Segment) : Prop :=
  ∀ seg ∈ segs, seg.conv = conv ∧ validCmd seg.cmd = true

theorem readsEach_iff {segs : List Segment} {s s' : Scan} (hv : Valid s.kcb.conv segs)
    (hf : segs.foldlM (handle p) s = some s') : ReadsEach p s segs ↔ Loaded p s segs := by
  induction segs generalizing s with
  | nil => exact Iff.rfl
  | cons seg segs ih =>
    rw [List.foldlM_cons, Option.bind_eq_bind, Option.bind_eq_some_iff] at hf
    obtain ⟨t, ht, hf⟩ := hf
    obtain ⟨hconv, hcmd⟩ := hv seg (by simp)
    have hstep := inputStep_handle (p := p) s hconv hcmd (encodes segs)
    rw [ht, Option.map_some] at hstep
    have hconv' : t.kcb.conv = s.kcb.conv := congrArg Settings.conv (settings_taken (taken_handle ht)).1
    have ih' := ih (s := t) (fun x hx => hconv' ▸ hv x (by simp [hx])) hf
    have hbuf := handle_buf ht
    constructor
    · rintro ⟨t', ht', hs, hr⟩
      obtain rfl := Option.some.inj (ht.symm.trans ht')
      rw [encodes_cons, hstep] at hs
      simp only [Option.some.injEq, Except.ok.injEq, Scan.mk.injEq, true_and, List.append_left_eq_self] at hs
      exact ⟨hbuf.mp hs, fun t' ht' => Option.some.inj (ht.symm.trans ht') ▸ ih'.mp hr⟩
    · rintro ⟨h1, h2⟩
      refine ⟨t, ht, ?_, ih'.mpr (h2 t ht)⟩
      rw [encodes_cons, hstep, hbuf.mpr h1]
      rfl

theorem inputLoop_readsEach {segs : List Segment} {s s' : Scan} {fuel : ℕ} (hfuel : segs.length ≤ fuel)
    (hr : ReadsEach p s segs) (hf : segs.foldlM (handle p) s = some s') :
    ({ s with buf := encodes segs } : Scan).inputLoop p fuel = some (.ok (), { s' with buf := [] }) := by
  induction segs generalizing s fuel with
  | nil =>
    obtain rfl := Option.some.inj hf
    cases fuel <;> simp [inputLoop, kcpOverhead]
  | cons seg segs ih =>
    obtain ⟨t, ht, hs, hr⟩ := hr
    rw [List.foldlM_cons, Option.bind_eq_bind, ht, Option.bind_some] at hf
    obtain ⟨fuel, rfl⟩ := Nat.exists_eq_succ_of_ne_zero (show fuel ≠ 0 by simp at hfuel; omega)
    have hlong : ¬ (encodes (seg :: segs)).length < kcpOverhead := by
      simp
      omega
    unfold inputLoop
    rw [if_neg hlong, hs]
    exact ih (by simpa using hfuel) hr hf

theorem length_le_encodes (segs : List Segment) : segs.length ≤ (encodes segs).length := by
  induction segs with
  | nil => exact le_rfl
  | cons seg segs ih =>
    simp only [encodes_cons, List.length_append, length_encode, List.length_cons, kcpOverhead]
    omega

/-- Where the handling does not stop the thread, the datagram is read as it should be exactly when it is `Loaded`. -/
theorem readsAs_iff_loaded {k k' : Kcb} {segs : List Segment} {s : Scan} (hv : Valid k.conv segs) (hne : segs ≠ [])
    (hf : segs.foldlM (handle p) (k.scanOf []) = some s) (hk : finishInput p s k.sndUna = some k') :
    ReadsAs p k segs ↔ Loaded p (k.scanOf []) segs := by
  have hiff := readsEach_iff hv hf
  refine ⟨fun h => hiff.mp h.each, fun h => ⟨hiff.mpr h, s, k', hf, hk, ?_⟩⟩
  have hloop := inputLoop_readsEach (length_le_encodes segs) (hiff.mpr h) hf
  have hlong : ¬ (encodes segs).length < kcpOverhead := by
    obtain ⟨seg, segs, rfl⟩ := List.exists_cons_of_ne_nil hne
    simp
    omega
  replace hloop : (k.scanOf (encodes segs)).inputLoop p (encodes segs).length = some (.ok (), { s with buf := [] }) :=
    hloop
  have hk' : finishInput p { s with buf := [] } k.sndUna = some k' := hk
  simp only [input, if_neg hlong, hloop, hk', Option.bind_eq_bind, Option.bind_some, List.length_nil, Nat.sub_zero]

end Whole

/-- **`input` reads a datagram as the sequence of segments it is exactly when every segment that carries data is, when
its turn comes, a PUSH inside the receive window**: any state, any segments of the conversation. -/
theorem readsAs_iff {k : Kcb} {segs : List Segment} (hmss : UInt32.ofNat k.mss ≠ 0) (hv : Valid k.conv segs) :
    ReadsAs .release k segs ↔ segs ≠ [] ∧ Loaded .release (k.scanOf []) segs := by
  by_cases hne : segs = []
  · subst hne
    refine ⟨fun h => ?_, fun h => absurd rfl h.1⟩
    obtain ⟨s, k', -, -, h⟩ := h.result
    simp [input, kcpOverhead] at h
  · obtain ⟨s, hf⟩ := Option.isSome_iff_exists.mp (foldlM_handle_release segs (k.scanOf []))
    have hmss' : UInt32.ofNat s.kcb.mss ≠ 0 := (mss_foldlM_handle hf) ▸ hmss
    obtain ⟨k', hk⟩ := Option.isSome_iff_exists.mp (finishInput_release hmss' k.sndUna)
    rw [readsAs_iff_loaded hv hne hf hk]
    exact (and_iff_right hne).symm

/-- A segment that is taken, and one without data. -/
theorem readsAs_iff_fresh :
    ReadsAs .release (Kcb.new 1)
      [{ conv := 1, cmd := kcpCmdPush, sn := 31, data := [9, 9] }, { conv := 1, cmd := kcpCmdAck }] := by
  refine (readsAs_iff (by decide) (by simp [Valid, Kcb.new, validCmd])).mpr ⟨by simp, ?_⟩
  exact ⟨fun _ => ⟨by decide, by decide⟩, fun t _ => ⟨by simp, fun _ _ => trivial⟩⟩

/-- A PUSH above the window in front of a window probe: its four bytes are read as the next conversation number, and
the probe is lost. -/
theorem readsAs_fails :
    ¬ ReadsAs .release (Kcb.new 1)
      [{ conv := 1, cmd := kcpCmdPush, sn := 32, data := [9, 9, 9, 9] }, { conv := 1, cmd := kcpCmdWask }] := by
  intro h
  obtain ⟨s, k', -, -, h⟩ := h.result
  have herr : (((Kcb.new 1).input .release (encodes
      [{ conv := 1, cmd := kcpCmdPush, sn := 32, data := [9, 9, 9, 9] }, { conv := 1, cmd := kcpCmdWask }])).map
      fun r => r.1.toBool) = some false := by
    decide +kernel
  rw [h] at herr
  simp [Except.toBool] at herr

end NetProtocols.Kcp
