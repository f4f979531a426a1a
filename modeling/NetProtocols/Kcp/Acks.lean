import NetProtocols.Kcp.SendInv

/-!
# NetProtocols.Kcp.Acks — acknowledgements in any order, any number of times

What a segment acknowledges is its `una` and, in an ACK, one number (`AckEvent`).  `input` takes these in one after
the other, each guarded by the `snd_una` that the ones before it have left, and both scans of `snd_buf` stop early.

* `AckEvent`, `acknowledge`: one segment, as the loop of `input` does it: `parse_una`, `shrink_buf`, and for an ACK
  `parse_ack`, `shrink_buf`.
* `countBelow_filter`, `removeSn_filter`: on a sorted list the two scans are filters.
* `acknowledge_keep`: one event is a filter; `foldl_acknowledge`: so is a list of them, by the invariant `SendInv`.
* `input_acknowledges`: what `input` does to `snd_buf` and `snd_una`, for any byte string; after the events it counts up
  `fastack`, by one at most (`bumped_input`).
* `leaves_acknowledged`: a segment that is gone was acknowledged by a header of the datagram.
-/

namespace NetProtocols.Kcp

/-- What a segment acknowledges. -/
structure AckEvent where
  una : UInt32
  ack : Option UInt32
  deriving DecidableEq, Repr

/-- What a header acknowledges. -/
def Header.event (h : Header) : AckEvent := ⟨h.una, if h.cmd = kcpCmdAck then some h.sn else none⟩

/-- The number `sn` is not acknowledged by the event. -/
def AckEvent.spares (ev : AckEvent) (sn : UInt32) : Bool := decide (ev.una ≤ sn) && decide (ev.ack ≠ some sn)

/-- The segment is not acknowledged by any of the events. -/
def spared (evs : List AckEvent) (s : Segment) : Bool := evs.all fun ev => ev.spares s.sn

/-- The event stands in the datagram: one of the headers that `input` may read there is its. -/
def AckEvent.In (ev : AckEvent) (d : List UInt8) : Prop :=
  ∃ buf h rest, buf <:+ d ∧ readHeader buf = some (h, rest) ∧ h.event = ev

/-- The segment `s'` is `s` with `fastack` as it was, or one more. -/
def Segment.Bumped (s s' : Segment) : Prop :=
  ∃ fastack, s' = { s with fastack := fastack } ∧ (fastack = s.fastack ∨ fastack = s.fastack + 1)

theorem Segment.Bumped.refl (s : Segment) : s.Bumped s := ⟨s.fastack, rfl, Or.inl rfl⟩

namespace Kcb

variable {p : Profile} {k k' : Kcb}

/-- What the loop of `input` does with an event. -/
def acknowledge (k : Kcb) (ev : AckEvent) : Kcb :=
  let k := (k.parseUna ev.una).shrinkBuf
  match ev.ack with
  | none => k
  | some sn => (k.parseAck sn).shrinkBuf

/-- The control block with the segments of `snd_buf` that pass a test, and `snd_una` to match. -/
def keep (k : Kcb) (test : Segment → Bool) : Kcb :=
  { k with
    sndBuf := k.sndBuf.filter test
    sndUna := ((k.sndBuf.filter test).head?.map Segment.sn).getD k.sndNxt }

@[simp] theorem shrinkBuf_sndBuf (k : Kcb) : k.shrinkBuf.sndBuf = k.sndBuf := rfl

@[simp] theorem shrinkBuf_sndNxt (k : Kcb) : k.shrinkBuf.sndNxt = k.sndNxt := rfl

@[simp] theorem shrinkBuf_sndUna (k : Kcb) : k.shrinkBuf.sndUna = (k.sndBuf.head?.map Segment.sn).getD k.sndNxt := by
  unfold shrinkBuf
  cases k.sndBuf <;> rfl

@[simp] theorem parseUna_sndBuf (k : Kcb) (una : UInt32) :
    (k.parseUna una).sndBuf = k.sndBuf.drop (countBelow una k.sndBuf) := rfl

@[simp] theorem parseUna_sndNxt (k : Kcb) (una : UInt32) : (k.parseUna una).sndNxt = k.sndNxt := rfl

@[simp] theorem parseAck_sndBuf (k : Kcb) (sn : UInt32) :
    (k.parseAck sn).sndBuf = if sn < k.sndUna ∨ k.sndNxt ≤ sn then k.sndBuf else removeSn sn k.sndBuf := by
  unfold parseAck
  split_ifs <;> rfl

@[simp] theorem parseAck_sndNxt (k : Kcb) (sn : UInt32) : (k.parseAck sn).sndNxt = k.sndNxt := by
  unfold parseAck
  split_ifs <;> rfl

/-- Of the control block an event sees `snd_buf` and `snd_nxt` only. -/
theorem acknowledge_congr (hbuf : k'.sndBuf = k.sndBuf) (hnxt : k'.sndNxt = k.sndNxt) (ev : AckEvent) :
    (k'.acknowledge ev).sndBuf = (k.acknowledge ev).sndBuf ∧ (k'.acknowledge ev).sndUna = (k.acknowledge ev).sndUna ∧
      (k'.acknowledge ev).sndNxt = (k.acknowledge ev).sndNxt := by
  unfold acknowledge
  cases ev.ack <;> simp [hbuf, hnxt]

/-! ### The two scans -/

theorem sorted_segments (hi : SendInv k.sendSide) : Increasing Segment.num k.sndBuf := by
  have h : Increasing Fixed.num (k.sndBuf.map Segment.fixed) := hi.sorted
  exact h.of_map Segment.fixed fun _ _ hlt => hlt

/-- On a sorted list `parse_una` drops exactly the smaller numbers. -/
theorem countBelow_filter {l : List Segment} (h : Increasing Segment.num l) (una : UInt32) :
    l.drop (countBelow una l) = l.filter fun s => decide (una ≤ s.sn) := by
  induction l with
  | nil => rfl
  | cons a l ih =>
    obtain ⟨hlow, hl⟩ := increasing_cons.mp h
    unfold countBelow
    by_cases ha : a.sn < una
    · rw [if_pos ha, List.drop_succ_cons, ih hl, List.filter_cons_of_neg (by simpa using ha)]
    · -- the scan stops here, and everything behind is greater
      rw [if_neg ha, List.drop_zero, eq_comm, List.filter_eq_self]
      intro s hs
      have hle := UInt32.not_lt.mp ha
      rcases List.mem_cons.mp hs with rfl | hs
      · simpa using hle
      · have h1 := UInt32.le_iff_toNat_le.mp hle
        have h2 : a.sn.toNat < s.sn.toNat := hlow s hs
        refine decide_eq_true (UInt32.le_iff_toNat_le.mpr ?_)
        omega

theorem removeSn_filter {l : List Segment} (h : Increasing Segment.num l) (sn : UInt32) :
    removeSn sn l = l.filter fun s => decide (some sn ≠ some s.sn) := by
  induction l with
  | nil => rfl
  | cons a l ih =>
    obtain ⟨hlow, hl⟩ := increasing_cons.mp h
    have hrest : sn ≤ a.sn → (l.filter fun s => decide (some sn ≠ some s.sn)) = l := by
      intro hle
      refine List.filter_eq_self.mpr fun s hs => decide_eq_true fun he => ?_
      have h1 := UInt32.le_iff_toNat_le.mp hle
      have h2 : a.sn.toNat < s.sn.toNat := hlow s hs
      rw [Option.some.inj he] at h1
      omega
    unfold removeSn
    split_ifs with heq hlt
    · rw [List.filter_cons_of_neg (by simp [heq]), hrest (heq ▸ UInt32.le_refl _)]
    · rw [List.filter_cons_of_pos (by simpa using heq), hrest (UInt32.le_of_lt hlt)]
    · rw [List.filter_cons_of_pos (by simpa using heq), ih hl]

/-! ### One event -/

theorem shrinkBuf_eq (k : Kcb) : k.shrinkBuf = { k with sndUna := (k.sndBuf.head?.map Segment.sn).getD k.sndNxt } := by
  rw [← shrinkBuf_sndUna]
  rfl

theorem sendInv_keep (hi : SendInv k.sendSide) (test : Segment → Bool) : SendInv (k.keep test).sendSide := by
  have hsub : ((k.sndBuf.filter test).map Segment.fixed).Sublist (k.sndBuf.map Segment.fixed) :=
    List.filter_sublist.map _
  have hshrinks : k.sendSide.Shrinks (k.keep test).sendSide := ⟨hsub, rfl, rfl, rfl⟩
  refine (sendInv_shrinks hi hshrinks ?_).1
  show ((k.sndBuf.filter test).head?.map Segment.sn).getD k.sndNxt =
    (((k.sndBuf.filter test).map Segment.fixed).head?.map Fixed.sn).getD k.sndNxt
  rw [List.head?_map, Option.map_map]
  rfl

theorem keep_keep (k : Kcb) (f g : Segment → Bool) : (k.keep f).keep g = k.keep fun s => f s && g s := by
  have h : (k.sndBuf.filter f).filter g = k.sndBuf.filter fun s => f s && g s := by
    rw [List.filter_filter]
    exact List.filter_congr fun s _ => Bool.and_comm _ _
  simp only [keep, h]

theorem parseUna_keep (hi : SendInv k.sendSide) (una : UInt32) :
    (k.parseUna una).shrinkBuf = k.keep fun s => decide (una ≤ s.sn) := by
  rw [shrinkBuf_eq, parseUna, countBelow_filter (sorted_segments hi)]
  rfl

/-- Outside the window of `snd_una` and `snd_nxt` there is no segment that `parse_ack` could remove. -/
theorem parseAck_keep (hi : SendInv k.sendSide) (sn : UInt32) :
    (k.parseAck sn).shrinkBuf = k.keep fun s => decide (some sn ≠ some s.sn) := by
  rw [shrinkBuf_eq, parseAck]
  by_cases hout : sn < k.sndUna ∨ k.sndNxt ≤ sn
  · have hall : (k.sndBuf.filter fun s => decide (some sn ≠ some s.sn)) = k.sndBuf := by
      refine List.filter_eq_self.mpr fun s hs => decide_eq_true fun he => ?_
      obtain ⟨hlo, hhi⟩ := hi.window s.fixed (List.mem_map_of_mem hs)
      rw [Option.some.inj he] at hout
      rcases hout with h | h
      · exact UInt32.lt_irrefl _ (UInt32.lt_of_le_of_lt hlo h)
      · exact UInt32.lt_irrefl _ (UInt32.lt_of_le_of_lt h hhi)
    rw [if_pos hout, keep, hall]
  · rw [if_neg hout, removeSn_filter (sorted_segments hi)]
    rfl

/-- **One event is a filter.** -/
theorem acknowledge_keep (hi : SendInv k.sendSide) (ev : AckEvent) :
    k.acknowledge ev = k.keep fun s => ev.spares s.sn := by
  obtain ⟨una, ack⟩ := ev
  unfold acknowledge
  cases ack with
  | none =>
    simp only [AckEvent.spares, parseUna_keep hi, ne_eq, reduceCtorEq, not_false_eq_true, decide_true, Bool.and_true]
  | some sn =>
    dsimp only
    rw [parseUna_keep hi, parseAck_keep (sendInv_keep hi _), keep_keep]
    rfl

/-! ### Any list of events -/

/-- **A list of events is a filter**: each of them meets the invariant, whatever came before it. -/
theorem foldl_acknowledge (hi : SendInv k.sendSide) (evs : List AckEvent) :
    evs.foldl acknowledge k = k.keep (spared evs) := by
  induction evs generalizing k with
  | nil =>
    have hall : k.sndBuf.filter (spared []) = k.sndBuf := List.filter_eq_self.mpr fun _ _ => rfl
    have huna : (k.sndBuf.head?.map Segment.sn).getD k.sndNxt = k.sndUna := by
      refine Eq.trans ?_ hi.una.symm
      show _ = ((k.sndBuf.map Segment.fixed).head?.map Fixed.sn).getD k.sndNxt
      rw [List.head?_map, Option.map_map]
      rfl
    rw [List.foldl_nil, keep, hall, huna]
  | cons ev evs ih =>
    rw [List.foldl_cons, acknowledge_keep hi, ih (sendInv_keep hi _), keep_keep]
    rfl

/-- One segment, as `input` takes it in, is its event: nothing else touches `snd_buf` and `snd_una`. -/
theorem acknowledge_taken {s s' : Scan} {h : Header} (ht : Scan.Taken p s h s') :
    s'.kcb.sndBuf = (s.kcb.acknowledge h.event).sndBuf ∧ s'.kcb.sndUna = (s.kcb.acknowledge h.event).sndUna ∧
      s'.kcb.sndNxt = (s.kcb.acknowledge h.event).sndNxt := by
  have hplain : h.cmd ≠ kcpCmdAck → s.kcb.acknowledge h.event = (s.kcb.parseUna h.una).shrinkBuf := by
    intro hc
    simp only [acknowledge, Header.event, if_neg hc]
  have hpush : h.cmd = kcpCmdPush → h.cmd ≠ kcpCmdAck := fun hc => by
    rw [hc]
    decide
  cases ht with
  | ack hc hk =>
    simp only [acknowledge, Header.event, if_pos hc]
    rcases hk with rfl | ⟨rtt, hk⟩
    · simp [onHeader, parseUna]
    · obtain ⟨srtt, rttval, rto, rfl⟩ := updateAck_eq hk
      simp [onHeader, parseUna]
  | inside hc hsn hle hk =>
    rw [hplain (hpush hc)]
    rcases parseData_eq_moved hk with rfl | ⟨l, n, nxt, rfl⟩ <;> exact ⟨rfl, rfl, rfl⟩
  | above hc | below hc =>
    rw [hplain (hpush hc)]
    exact ⟨rfl, rfl, rfl⟩
  | wask hc =>
    rw [hplain fun ha => absurd (ha.symm.trans hc) (by decide)]
    exact ⟨rfl, rfl, rfl⟩
  | other ha hc =>
    rw [hplain ha]
    exact ⟨rfl, rfl, rfl⟩

/-! ### `input` -/

theorem bumpFastack_bumped {sn : UInt32} {l l' : List Segment} (h : bumpFastack p sn l = some l') :
    List.Forall₂ Segment.Bumped l l' := by
  induction l generalizing l' with
  | nil =>
    obtain rfl := Option.some.inj h
    exact .nil
  | cons seg rest ih =>
    unfold bumpFastack at h
    by_cases hlt : sn < seg.sn
    · rw [if_pos hlt] at h
      obtain rfl := Option.some.inj h
      exact List.forall₂_same.mpr fun s _ => .refl s
    · rw [if_neg hlt] at h
      simp only [Option.bind_eq_bind, Option.bind_eq_some_iff, Option.some.injEq] at h
      obtain ⟨fastack, hf, rest', hrest, rfl⟩ := h
      refine .cons ⟨fastack, rfl, ?_⟩ (ih hrest)
      split_ifs at hf
      · exact Or.inr (Profile.add_eq_some hf)
      · exact Or.inl (Option.some.inj hf).symm

/-- After the segment loop `input` changes nothing of the segments but their `fastack`. -/
theorem finishInput_bumped {s : Scan} {oldUna : UInt32} (h : finishInput p s oldUna = some k') :
    List.Forall₂ Segment.Bumped s.kcb.sndBuf k'.sndBuf := by
  have hsame : List.Forall₂ Segment.Bumped s.kcb.sndBuf s.kcb.sndBuf := List.forall₂_same.mpr fun s _ => .refl s
  simp only [finishInput, Option.bind_eq_bind, Option.bind_eq_some_iff] at h
  obtain ⟨k₁, h₁, h₂⟩ := h
  obtain ⟨c, i, rfl⟩ := growCwnd_eq h₂
  split_ifs at h₁
  · unfold parseFastack at h₁
    split_ifs at h₁
    · obtain rfl := Option.some.inj h₁
      exact hsame
    · simp only [Option.bind_eq_bind, Option.bind_eq_some_iff, Option.some.injEq] at h₁
      obtain ⟨l, hl, rfl⟩ := h₁
      exact bumpFastack_bumped hl
  · obtain rfl := Option.some.inj h₁
    exact hsame

theorem buf_taken {s s' : Scan} {h : Header} (ht : Scan.Taken p s h s') : s'.buf <:+ s.buf := by
  cases ht with
  | inside => exact List.drop_suffix _ _
  | ack | above | below | wask | other => exact List.suffix_refl _

/-- **What `input` does to the send side**, for any byte string: it takes in a list of events that stand there, and
counts up `fastack`. -/
theorem input_acknowledges {d : List UInt8} {r : Except IoError ℕ} (h : k.input p d = some (r, k')) :
    ∃ evs : List AckEvent, (∀ ev ∈ evs, ev.In d) ∧
      List.Forall₂ Segment.Bumped (evs.foldl acknowledge k).sndBuf k'.sndBuf ∧
      k'.sndUna = (evs.foldl acknowledge k).sndUna := by
  refine input_rule
    (I := fun s => s.buf <:+ d ∧ ∃ evs : List AckEvent, (∀ ev ∈ evs, ev.In d) ∧
      s.kcb.sndBuf = (evs.foldl acknowledge k).sndBuf ∧ s.kcb.sndUna = (evs.foldl acknowledge k).sndUna ∧
      s.kcb.sndNxt = (evs.foldl acknowledge k).sndNxt)
    (J := fun k' => ∃ evs : List AckEvent, (∀ ev ∈ evs, ev.In d) ∧
      List.Forall₂ Segment.Bumped (evs.foldl acknowledge k).sndBuf k'.sndBuf ∧
      k'.sndUna = (evs.foldl acknowledge k).sndUna) h
    ⟨List.suffix_refl d, [], fun _ hev => absurd hev List.not_mem_nil, rfl, rfl, rfl⟩ ?_ ?_ ?_
  · rintro s ⟨-, evs, hin, h1, h2, -⟩
    exact ⟨evs, hin, h1 ▸ List.forall₂_same.mpr fun s _ => .refl s, h2⟩
  · rintro s s' ⟨hbuf, evs, hin, h1, h2, h3⟩ hst
    obtain ⟨hd, rest, hread, -, ht⟩ := Scan.inputStep_ok hst
    have htaken := Scan.taken_of_takeSegment ht
    obtain ⟨t1, t2, t3⟩ := acknowledge_taken htaken
    obtain ⟨c1, c2, c3⟩ := acknowledge_congr h1 h3 hd.event
    have hrest : rest <:+ d := (readHeader_suffix hread).trans hbuf
    refine ⟨(buf_taken htaken).trans hrest, evs ++ [hd.event], ?_, ?_⟩
    · intro ev hev
      rcases List.mem_append.mp hev with hev | hev
      · exact hin ev hev
      · exact ⟨s.buf, hd, rest, hbuf, hread, (List.mem_singleton.mp hev).symm⟩
    · rw [List.foldl_append]
      exact ⟨t1.trans c1, t2.trans c2, t3.trans c3⟩
  · rintro s k' ⟨-, evs, hin, h1, h2, -⟩ hf
    have hsides := (finishInput_sides hf).2
    exact ⟨evs, hin, h1 ▸ finishInput_bumped hf, (congrArg SendSide.sndUna hsides).trans h2⟩

theorem foldl_acknowledge_sublist (evs : List AckEvent) : (evs.foldl acknowledge k).sndBuf.Sublist k.sndBuf := by
  induction evs generalizing k with
  | nil => exact List.Sublist.refl _
  | cons ev evs ih =>
    refine (ih (k := k.acknowledge ev)).trans ?_
    obtain ⟨una, ack⟩ := ev
    have huna : ((k.parseUna una).shrinkBuf).sndBuf.Sublist k.sndBuf := List.drop_sublist _ _
    unfold acknowledge
    cases ack with
    | none => exact huna
    | some sn =>
      refine List.Sublist.trans ?_ huna
      dsimp only
      rw [shrinkBuf_sndBuf, parseAck_sndBuf]
      split_ifs
      · exact List.Sublist.refl _
      · exact removeSn_sublist _ _

/-- The segments that `input` leaves are segments of before, with `fastack` counted up. -/
theorem bumped_input {d : List UInt8} {r : Except IoError ℕ} (h : k.input p d = some (r, k')) :
    ∀ s' ∈ k'.sndBuf, ∃ s ∈ k.sndBuf, Segment.Bumped s s' := by
  obtain ⟨evs, -, hbump, -⟩ := input_acknowledges h
  have hsub := (foldl_acknowledge_sublist (k := k) evs).subset
  intro s' hs'
  generalize (evs.foldl acknowledge k).sndBuf = l at hbump hsub
  generalize k'.sndBuf = l' at hbump hs'
  induction hbump with
  | nil => exact absurd hs' List.not_mem_nil
  | @cons a b l₁ l₂ hab _ ih =>
    rcases List.mem_cons.mp hs' with rfl | hs'
    · exact ⟨a, hsub (List.mem_cons_self ..), hab⟩
    · exact ih (fun x hx => hsub (List.mem_cons_of_mem a hx)) hs'

theorem leaves_acknowledged {d : List UInt8} {r : Except IoError ℕ} (hi : SendInv k.sendSide)
    (h : k.input p d = some (r, k')) {s : Segment} (hs : s ∈ k.sndBuf) :
    (∃ s' ∈ k'.sndBuf, Segment.Bumped s s') ∨ ∃ ev : AckEvent, ev.In d ∧ ev.spares s.sn = false := by
  obtain ⟨evs, hin, hbump, -⟩ := input_acknowledges h
  by_cases hall : spared evs s = true
  · have hmem : s ∈ (evs.foldl acknowledge k).sndBuf := by
      rw [foldl_acknowledge hi]
      exact List.mem_filter.mpr ⟨hs, hall⟩
    left
    generalize (evs.foldl acknowledge k).sndBuf = l at hbump hmem
    generalize k'.sndBuf = l' at hbump ⊢
    induction hbump with
    | nil => exact absurd hmem List.not_mem_nil
    | cons hab _ ih =>
      rcases List.mem_cons.mp hmem with rfl | hmem
      · exact ⟨_, List.mem_cons_self .., hab⟩
      · obtain ⟨s', hs', hb⟩ := ih hmem
        exact ⟨s', List.mem_cons_of_mem _ hs', hb⟩
  · right
    simp only [spared, List.all_eq_true, not_forall, Bool.not_eq_true] at hall
    obtain ⟨ev, hev, hno⟩ := hall
    exact ⟨ev, hin ev hev, hno⟩

/-- **Acknowledgements in any order, any number of times.**  From a state of the send side the events of a list leave
the segments that none of them acknowledges, unchanged and in order, and the first number of these, or `snd_nxt`, as
`snd_una`; nothing else changes.  Two lists of the same events leave the same. -/
theorem acknowledgements_commute (hi : SendInv k.sendSide) (evs : List AckEvent) :
    evs.foldl acknowledge k =
        { k with
          sndBuf := k.sndBuf.filter (spared evs)
          sndUna := ((k.sndBuf.filter (spared evs)).head?.map Segment.sn).getD k.sndNxt } ∧
      ∀ evs' : List AckEvent, (∀ ev, ev ∈ evs' ↔ ev ∈ evs) → evs'.foldl acknowledge k = evs.foldl acknowledge k := by
  refine ⟨foldl_acknowledge hi evs, fun evs' hsame => ?_⟩
  have htest : spared evs' = spared evs := by
    funext s
    refine Bool.eq_iff_iff.mpr ?_
    simp only [spared, List.all_eq_true, hsame]
  rw [foldl_acknowledge hi, foldl_acknowledge hi, htest]

/-- Three segments in flight. -/
def threeSent : Kcb := { Kcb.configured 7 {} with sndNxt := 3, sndBuf := [{ sn := 0 }, { sn := 1 }, { sn := 2 }] }

/-- An acknowledgement of the third segment, one of a number that was never sent, and a `una` beyond the first, taken
in twice and in another order. -/
theorem acknowledgements_commute_threeSent :
    [⟨0, some 2⟩, ⟨0, some 9⟩, ⟨1, none⟩].foldl acknowledge threeSent =
        { threeSent with sndBuf := [{ sn := 1 }], sndUna := 1 } ∧
      [⟨1, none⟩, ⟨0, some 2⟩, ⟨1, none⟩, ⟨0, some 9⟩].foldl acknowledge threeSent =
        [⟨0, some 2⟩, ⟨0, some 9⟩, ⟨1, none⟩].foldl acknowledge threeSent := by
  have hi : SendInv threeSent.sendSide := ⟨by unfold Increasing; decide, by decide, by decide, by decide⟩
  obtain ⟨h1, h2⟩ := acknowledgements_commute hi [⟨0, some 2⟩, ⟨0, some 9⟩, ⟨1, none⟩]
  refine ⟨h1.trans (by decide), h2 _ fun ev => ?_⟩
  simp only [List.mem_cons, List.not_mem_nil, or_false]
  tauto

end Kcb

end NetProtocols.Kcp
