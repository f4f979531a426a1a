import NetProtocols.Kcp.Fragments

/-!
# NetProtocols.Kcp.Reassembly — `recv` behind `send`, for any list of messages and any cut

* `recv_empty`, `recv_incomplete`, `recv_head`: `recv` with no segment in `rcv_queue`, with too few for the first
  message, with a whole message and anything behind it.
* `sendAll`, `recvAll`: successive calls.
* `reassembly`: from any beginning of what a list of messages is cut into, successive calls of `recv` return the
  messages that are wholly there, and then fail.
-/

namespace NetProtocols.Kcp

open Kcb

variable {p : Profile} {k k' : Kcb}

/-! ### One call of `recv` -/

theorem recv_empty (hq : k.rcvQueue = []) (cap : ℕ) : k.recv p cap = some (.error ⟨.other, "EOF"⟩, k) := if_pos hq

theorem addU8_one {frg : UInt8} (h : frg.toNat + (1 : UInt8).toNat < 2 ^ 8) :
    p.addU8 frg 1 = some (frg + 1) ∧ (frg + 1).toNat = frg.toNat + 1 := by
  refine ⟨Profile.checked_of_fits h _, ?_⟩
  rw [UInt8.toNat_add]
  exact Nat.mod_eq_of_lt h

/-- While the queue is shorter than its first fragment asks for, `recv` fails and changes nothing. -/
theorem recv_incomplete {seg : Segment} {rest : List Segment} (hq : k.rcvQueue = seg :: rest)
    (hfrg : seg.frg.toNat + 1 < 2 ^ 8) (hlt : k.rcvQueue.length < seg.frg.toNat + 1) (cap : ℕ) :
    k.recv p cap = some (.error ⟨.unexpectedEof, "unexpected EOF"⟩, k) := by
  have hne : k.rcvQueue ≠ [] := by simp [hq]
  have hf : seg.frg ≠ 0 := fun h => by
    rw [hq, h] at hlt
    simp at hlt
  obtain ⟨hadd, hn⟩ := addU8_one (p := p) hfrg
  have hpeek : k.peeksize p = some (.error (-1)) := by
    unfold peeksize
    rw [hq] at hlt ⊢
    dsimp only
    rw [if_neg hf, hadd, Option.bind_eq_bind, Option.bind_some, if_pos (hn ▸ hlt)]
  unfold recv
  rw [if_neg hne, hpeek]
  rfl

theorem mergeFragments_ok {cap : ℕ} {l : List Segment} {out : List UInt8} {i : ℕ}
    (h : out.length + ((headMessage l).flatMap Segment.data).length ≤ cap) :
    mergeFragments cap l out i = .ok (out ++ (headMessage l).flatMap Segment.data, i + (headMessage l).length) := by
  induction l generalizing out i with
  | nil => simp [mergeFragments, headMessage]
  | cons a l ih =>
    unfold headMessage at h ⊢
    unfold mergeFragments
    by_cases hf : a.frg = 0
    · simp only [hf, if_true, List.flatMap_cons, List.flatMap_nil, List.append_nil] at h ⊢
      rw [if_neg (Nat.not_lt.mpr h)]
      rfl
    · simp only [hf, if_false, List.flatMap_cons, List.length_append, List.length_cons] at h ⊢
      rw [if_neg (by omega), ih (by rw [List.length_append]; omega), List.append_assoc, Nat.add_assoc, Nat.add_comm 1]

section Head

variable {q t : List Segment} (hq : k.rcvQueue = q ++ t) (hf : Frame follow (q.map Segment.piece))
  (hlen : q.length ≤ 255) (hsize : (q.flatMap Segment.data).length < 2 ^ 64)

include hq hf

theorem headMessage_head : headMessage k.rcvQueue = q := by
  have hframe : Frame (fun s : Segment => s.frg.toNat) q := by
    refine ⟨fun h => hf.1 (by rw [h]; rfl), ?_⟩
    have h2 := hf.2
    rw [List.map_map, List.length_map] at h2
    exact h2
  rw [hq, headMessage_eq, headFrame_append hframe]

include hlen hsize

theorem peeksize_head : k.peeksize p = some (.ok (q.flatMap Segment.data).length) := by
  have hhead := headMessage_head hq hf
  have hsum : sumLength p k.rcvQueue 0 = some (q.flatMap Segment.data).length := by
    rw [sumLength_eq (by rw [hhead]; omega), hhead, Nat.zero_add]
  cases q with
  | nil => exact absurd rfl hf.1
  | cons seg rest =>
    have hframe := hf.length_eq
    simp only [List.length_cons, List.length_map] at hframe hlen
    have hfrg : seg.frg.toNat = rest.length := by
      have : follow seg.piece = seg.frg.toNat := rfl
      omega
    unfold peeksize
    rw [hq] at hsum ⊢
    rw [List.cons_append] at hsum ⊢
    dsimp only
    by_cases hz : seg.frg = 0
    · rw [if_pos hz]
      have hrest : rest = [] := by
        rw [hz] at hfrg
        exact List.length_eq_zero_iff.mp hfrg.symm
      simp [hrest]
    · have hfit : seg.frg.toNat + (1 : UInt8).toNat < 2 ^ 8 := by
        have : (1 : UInt8).toNat = 1 := rfl
        omega
      obtain ⟨hadd, hn⟩ := addU8_one (p := p) hfit
      have henough : ¬ (seg :: (rest ++ t)).length < (seg.frg + 1).toNat := by
        rw [hn, hfrg, List.length_cons, List.length_append]
        omega
      rw [if_neg hz, hadd, Option.bind_eq_bind, Option.bind_some, if_neg henough, hsum]
      rfl

/-- **`recv` returns the message at the head of the queue**, and leaves what is behind it. -/
theorem recv_head (hbuf : k.rcvBuf = []) {cap : ℕ} (hcap : (q.flatMap Segment.data).length ≤ cap) :
    ∃ probe, k.recv p cap =
      some (.ok (q.flatMap Segment.data), ({ k with rcvQueue := t } : Kcb).setProbe probe) := by
  have hhead := headMessage_head hq hf
  have hne : k.rcvQueue ≠ [] := by
    intro h
    rw [hq, List.append_eq_nil_iff] at h
    exact hf.1 (by rw [h.1]; rfl)
  have hmerge : mergeFragments cap k.rcvQueue [] 0 = .ok (q.flatMap Segment.data, q.length) := by
    rw [mergeFragments_ok (by rw [hhead, List.length_nil, Nat.zero_add]; exact hcap), hhead, List.nil_append,
      Nat.zero_add]
  have hmove : moveData p ({ k with rcvQueue := k.rcvQueue.drop q.length } : Kcb) = some { k with rcvQueue := t } := by
    rw [hq, List.drop_left]
    unfold moveData
    rw [show ({ k with rcvQueue := t } : Kcb).rcvBuf = [] from hbuf]
    simp [countReady]
  unfold recv
  rw [if_neg hne, peeksize_head hq hf hlen hsize]
  simp only [Option.bind_eq_bind, Option.bind_some]
  rw [if_neg (Nat.not_lt.mpr hcap), hmerge]
  dsimp only
  rw [Profile.assert_of rfl, Option.bind_some, hmove, Option.bind_some]
  split_ifs
  · exact ⟨_, rfl⟩
  · exact ⟨k.probe, rfl⟩

end Head

/-- With a proper beginning of the fragments of a message, or nothing, in the queue `recv` fails and changes
nothing. -/
theorem recv_part {f : List (UInt8 × List UInt8)} (hf : Frame follow f) (hlen : f.length ≤ 255)
    (ht : k.rcvQueue.map Segment.piece <+: f) (hlt : k.rcvQueue.length < f.length) (cap : ℕ) :
    ∃ e, k.recv p cap = some (.error e, k) := by
  cases hc : k.rcvQueue with
  | nil => exact ⟨_, recv_empty hc cap⟩
  | cons seg rest =>
    rw [hc, List.map_cons] at ht
    obtain ⟨r, rfl⟩ := ht
    rw [List.cons_append] at hf hlt hlen
    have hframe : _ = seg.frg.toNat + 1 := hf.length_eq
    exact ⟨_, recv_incomplete hc (by omega) (by omega) cap⟩

/-! ### Successive calls -/

/-- Successive calls of `send`, all of which take their buffer whole. -/
def sendAll (p : Profile) : Kcb → List (List UInt8) → Option Kcb
  | k, [] => some k
  | k, m :: msgs => do
    let (r, k) ← k.send p m
    match r with
    | .ok n => if n = m.length then sendAll p k msgs else none
    | .error _ => none

/-- Successive calls of `recv`, with buffers of the given lengths, and what they return. -/
def recvAll (p : Profile) : Kcb → List ℕ → Option (List (Except IoError (List UInt8)) × Kcb)
  | k, [] => some ([], k)
  | k, cap :: caps => do
    let (r, k) ← k.recv p cap
    let (rs, k) ← recvAll p k caps
    some (r :: rs, k)

/-- **What the messages of a list are cut into**, one behind the other. -/
theorem sendAll_eq {msgs : List (List UInt8)} (hstream : k.stream = false) (hmss : 0 < k.mss)
    (hs : ∀ m ∈ msgs, Sendable k.mss m) :
    sendAll p k msgs = some (k.setSndQueue (k.sndQueue ++ msgs.flatMap (cut k.mss))) := by
  induction msgs generalizing k with
  | nil => simp [sendAll, setSndQueue]
  | cons m msgs ih =>
    have hrest := ih (k := k.setSndQueue (k.sndQueue ++ cut k.mss m)) hstream hmss fun m' hm' => hs m' (by simp [hm'])
    simp only [sendAll, send_sendable hstream hmss (hs m (by simp)), Option.bind_eq_bind, Option.bind_some, if_true]
    rw [hrest, List.flatMap_cons, ← List.append_assoc]
    rfl

/-- **Successive calls of `recv`** return the messages whose fragments stand at the head of the queue. -/
theorem recvAll_eq {mss : ℕ} {msgs : List (List UInt8)} {t : List Segment} {caps : List ℕ} (hmss : 0 < mss)
    (hs : ∀ m ∈ msgs, Sendable mss m ∧ m.length < 2 ^ 64) (hq : k.rcvQueue = msgs.flatMap (cut mss) ++ t)
    (hbuf : k.rcvBuf = []) (hcaps : List.Forall₂ (fun m cap => m.length ≤ cap) msgs caps) :
    ∃ k', recvAll p k caps = some (msgs.map .ok, k') ∧ k'.rcvQueue = t ∧ k'.rcvBuf = [] := by
  induction hcaps generalizing k with
  | nil => exact ⟨k, rfl, hq, hbuf⟩
  | @cons m cap msgs caps hcap _ ih =>
    obtain ⟨⟨hne, hcount⟩, hsize⟩ := hs m (by simp)
    rw [List.flatMap_cons, List.append_assoc] at hq
    have hdata := data_cut hmss m
    have hcut : (cut mss m).length ≤ 255 := (length_cut mss m).trans_le hcount
    have hroom : ((cut mss m).flatMap Segment.data).length ≤ cap := by rwa [hdata]
    obtain ⟨probe, hr⟩ := recv_head (p := p) hq (frame_cut hmss hcount) hcut (by rwa [hdata]) hbuf hroom
    obtain ⟨k', hrest, hqueue⟩ := ih (k := ({ k with rcvQueue := msgs.flatMap (cut mss) ++ t } : Kcb).setProbe probe)
      (fun m' hm' => hs m' (by simp [hm'])) rfl hbuf
    refine ⟨k', ?_, hqueue⟩
    rw [hdata] at hr
    simp only [recvAll, hr, hrest, Option.bind_eq_bind, Option.bind_some, List.map_cons]

/-- **Reassembly inverts fragmentation.**  Messages of 1 to `255 * mss` bytes are all taken by `send` in message mode;
of any beginning of the segments they are cut into, in the `rcv_queue` of another control block, successive calls of
`recv` into buffers that are long enough return the messages that are wholly there, in order.  What is left is a proper
beginning of the next message, or nothing; from then on `recv` fails and changes nothing.  No call stops the thread.
(The length of a slice is a `usize`.) -/
theorem reassembly {p : Profile} {k : Kcb} {msgs : List (List UInt8)} (hstream : k.stream = false) (hmss : 1 ≤ k.mss)
    (hempty : k.sndQueue = []) (hlen : ∀ m ∈ msgs, 1 ≤ m.length ∧ m.length ≤ 255 * k.mss ∧ m.length < 2 ^ 64) :
    ∃ k₁, sendAll p k msgs = some k₁ ∧ k₁.sndQueue = msgs.flatMap (cut k.mss) ∧
      ∀ (r : Kcb), r.rcvQueue <+: k₁.sndQueue → r.rcvBuf = [] →
        ∃ n ≤ msgs.length, ∃ t, r.rcvQueue = (msgs.take n).flatMap (cut k.mss) ++ t ∧
          (msgs[n]? = none → t = []) ∧ (∀ m, msgs[n]? = some m → t <+: cut k.mss m ∧ t ≠ cut k.mss m) ∧
          ∀ caps, List.Forall₂ (fun m cap => m.length ≤ cap) (msgs.take n) caps →
            ∃ r', recvAll p r caps = some ((msgs.take n).map .ok, r') ∧ r'.rcvQueue = t ∧
              ∀ cap, ∃ e, r'.recv p cap = some (.error e, r') := by
  have hs : ∀ m ∈ msgs, Sendable k.mss m ∧ m.length < 2 ^ 64 := by
    intro m hm
    obtain ⟨h1, h2, h3⟩ := hlen m hm
    refine ⟨⟨fun h => ?_, (fragCount_le_iff hmss (by omega)).mpr h2⟩, h3⟩
    rw [h] at h1
    exact absurd h1 (by decide)
  refine ⟨_, sendAll_eq hstream hmss fun m hm => (hs m hm).1, by rw [hempty]; rfl, fun r hq hbuf => ?_⟩
  replace hq : r.rcvQueue <+: (msgs.map (cut k.mss)).flatten := by
    rw [← List.flatMap_def]
    simpa [hempty, setSndQueue] using hq
  have hne : ∀ f ∈ msgs.map (cut k.mss), f ≠ [] := by
    intro f hf h
    obtain ⟨m, -, rfl⟩ := List.mem_map.mp hf
    have hpos : 0 < fragCount k.mss m.length := fragCount_pos hmss
    rw [← length_cut, h] at hpos
    exact Nat.lt_irrefl 0 hpos
  -- what has arrived is `n` whole messages and a beginning `t` of the next one
  obtain ⟨n, hn, t, hqt, hend, hnext⟩ := prefix_flatten hne hq
  rw [List.length_map] at hn
  rw [← List.map_take, ← List.flatMap_def] at hqt
  simp only [List.getElem?_map, Option.map_eq_none_iff] at hend hnext
  have hcut : ∀ m, msgs[n]? = some m → t <+: cut k.mss m ∧ t.length < (cut k.mss m).length := by
    intro m hm
    exact hnext _ (by rw [hm]; rfl)
  refine ⟨n, hn, t, hqt, hend, fun m hm => ⟨(hcut m hm).1, fun h => ?_⟩, fun caps hcaps => ?_⟩
  · have := (hcut m hm).2
    rw [h] at this
    exact Nat.lt_irrefl _ this
  · obtain ⟨r', hr, hqueue, -⟩ := recvAll_eq (p := p) hmss (fun m hm => hs m (List.mem_of_mem_take hm)) hqt hbuf hcaps
    refine ⟨r', hr, hqueue, fun cap => ?_⟩
    -- nothing is left of the last message, or `t` is too short for `peeksize`
    cases hm : msgs[n]? with
    | none => exact ⟨_, recv_empty (hqueue.trans (hend hm)) cap⟩
    | some m =>
      obtain ⟨hpre, hlt⟩ := hcut m hm
      have hcount := (hs m (List.mem_of_getElem? hm)).1.2
      refine recv_part (frame_cut hmss hcount) ?_ (hqueue ▸ hpre.map Segment.piece) ?_ cap
      · rw [List.length_map, length_cut]
        exact hcount
      · rw [hqueue, List.length_map]
        exact hlt

/-- A control block that cuts messages into pieces of two bytes. -/
def smallMss : Kcb := { Kcb.configured 7 {} with mss := 2 }

/-- A control block that has received some segments. -/
def holding (q : List Segment) : Kcb := { Kcb.configured 7 {} with rcvQueue := q }

/-- Two messages of three bytes, cut off inside the second. -/
theorem reassembly_cutOff :
    ∃ k₁ n r', sendAll .dev smallMss [[1, 2, 3], [4, 5, 6]] = some k₁ ∧
      recvAll .dev (holding (k₁.sndQueue.take 3)) (List.replicate n 16) =
        some ((([[1, 2, 3], [4, 5, 6]] : List (List UInt8)).take n).map .ok, r') ∧
      ∀ cap, ∃ e, r'.recv .dev cap = some (.error e, r') := by
  have hlen : ∀ m ∈ ([[1, 2, 3], [4, 5, 6]] : List (List UInt8)),
      1 ≤ m.length ∧ m.length ≤ 255 * smallMss.mss ∧ m.length < 2 ^ 64 := by decide
  obtain ⟨k₁, hsend, -, hall⟩ := reassembly (p := .dev) (k := smallMss) rfl (by decide) rfl hlen
  obtain ⟨n, hn, t, -, -, -, hrecv⟩ := hall (holding (k₁.sndQueue.take 3)) (List.take_prefix _ _) rfl
  have hcaps : List.Forall₂ (fun (m : List UInt8) cap => m.length ≤ cap) ([[1, 2, 3], [4, 5, 6]].take n)
      (List.replicate n 16) := by
    simp only [List.length_cons, List.length_nil] at hn
    obtain rfl | rfl | rfl : n = 0 ∨ n = 1 ∨ n = 2 := by omega
    · exact .nil
    · exact .cons (by decide) .nil
    · exact .cons (by decide) (.cons (by decide) .nil)
  obtain ⟨r', hr, -, hend⟩ := hrecv _ hcaps
  exact ⟨k₁, n, r', hsend, hr, hend⟩

example : (recvAll .dev (holding ((cut 2 [1, 2, 3] ++ cut 2 [4, 5, 6]).take 3)) [16, 16]).map Prod.fst =
    some [.ok [1, 2, 3], .error ⟨.unexpectedEof, "unexpected EOF"⟩] := by decide

end NetProtocols.Kcp
