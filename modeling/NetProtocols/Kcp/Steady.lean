import NetProtocols.Kcp.Shift

/-!
# NetProtocols.Kcp.Steady — a whole datagram on shifted sequence numbers

* `refusal`: what the header tests of `input` answer to bytes that are not read as a segment.
* `Steady`: a condition on a control block and a datagram: every comparison on the way survives the shift, and data that
  is not skipped is turned down.
* `inputLoop_shift`, `input_shift`: under this condition `input` commutes with the shift.
-/

namespace NetProtocols.Kcp

open Kcb Scan

/-! ### Where the loop stops -/

/-- How `input` goes on at bytes that it does not read as a segment: `none` when they are read; inside, `none` for the
end of the loop, at fewer than 24 bytes. -/
def refusal (conv : UInt32) (bytes : List UInt8) : Option (Option IoError) :=
  if bytes.length < kcpOverhead then some none
  else
    match readHeader bytes with
    | none => some none
    | some (h, rest) =>
      if h.conv ≠ conv then some (some ⟨.invalidData, "invalid data"⟩)
      else if rest.length < h.len.toNat then some (some ⟨.unexpectedEof, "unexpected EOF"⟩)
      else if !validCmd h.cmd then some (some ⟨.invalidData, "invalid data"⟩)
      else none

/-- The outcome of the segment loop at such bytes. -/
def outcome : Option IoError → Except IoError Unit
  | none => .ok ()
  | some e => .error e

section Refusal

variable {p : Profile}

theorem inputLoop_of_refusal {s : Scan} {r : Option IoError} {fuel : ℕ} (hfuel : s.buf.length ≤ fuel)
    (hr : refusal s.kcb.conv s.buf = some r) : s.inputLoop p fuel = some (outcome r, s) := by
  unfold refusal at hr
  by_cases hshort : s.buf.length < kcpOverhead
  · rw [if_pos hshort] at hr
    obtain rfl := Option.some.inj hr
    cases fuel <;> simp [inputLoop, hshort, outcome]
  · rw [if_neg hshort] at hr
    obtain ⟨h, hread⟩ := readHeader_of_le (Nat.le_of_not_lt hshort)
    obtain ⟨fuel, rfl⟩ : ∃ n, fuel = n + 1 := Nat.exists_eq_succ_of_ne_zero (by
      have : kcpOverhead ≤ s.buf.length := Nat.le_of_not_lt hshort
      unfold kcpOverhead at this
      omega)
    rw [hread] at hr
    dsimp only at hr
    unfold inputLoop inputStep
    rw [if_neg hshort, hread]
    simp only [Option.bind_eq_bind, Option.bind_some]
    split_ifs at hr ⊢ <;> obtain rfl := Option.some.inj hr <;> rfl

/-- A segment of another conversation, or with an unknown command, is turned down whatever follows it. -/
theorem refusal_foreign {conv : UInt32} {seg : Segment} (h : ¬ (seg.conv = conv ∧ validCmd seg.cmd = true))
    (post : List UInt8) : refusal conv (seg.encode ++ post) = some (some ⟨.invalidData, "invalid data"⟩) := by
  have hlen := len_header_le seg
  have hlong : ¬ (seg.encode ++ post).length < kcpOverhead := by
    rw [List.length_append, length_encode]
    omega
  unfold refusal
  rw [if_neg hlong, readHeader_encode]
  show (if seg.conv ≠ conv then _ else if (seg.data ++ post).length < seg.header.len.toNat then _
    else if !validCmd seg.cmd then _ else _) = _
  by_cases hconv : seg.conv = conv
  · have hcmd : (!validCmd seg.cmd) = true := by simpa using fun hv => h ⟨hconv, hv⟩
    rw [if_neg (not_not.mpr hconv), if_neg (by rw [List.length_append]; omega), if_pos hcmd]
  · rw [if_pos hconv]

end Refusal

/-- The loop stops at the bytes that follow, for the same reason in both datagrams; if without an error, then what is
compared after the loop survives the shift. -/
def Halts (δ oldUna : UInt32) (s : Scan) (bytes bytes' : List UInt8) : Prop :=
  match refusal s.kcb.conv bytes with
  | none => False
  | some r => refusal s.kcb.conv bytes' = some r ∧ (r = none → Level δ (s.finishPairs oldUna))

instance (δ oldUna : UInt32) (s : Scan) (bytes bytes' : List UInt8) : Decidable (Halts δ oldUna s bytes bytes') := by
  unfold Halts
  split <;> infer_instance

/-- **The condition on a datagram**: the segments `segs` and the bytes `tail` behind them, and the shifted segments.
For every segment of the conversation, in the state left by those before it, each comparison of its handling survives
the shift; if `input` does not skip its data, then it turns the data down, in both datagrams for the same reason. -/
def Steady (δ oldUna : UInt32) (tail : List UInt8) : Scan → List Segment → List Segment → Prop
  | s, seg :: segs, _ :: segs' =>
    if seg.conv = s.kcb.conv ∧ validCmd seg.cmd = true then
      Level δ (s.pairs seg.header) ∧
        ∀ t ∈ s.handle .release seg,
          if t.buf = [] then Steady δ oldUna tail t segs segs'
          else Halts δ oldUna t (t.buf ++ (encodes segs ++ tail)) (t.buf ++ (encodes segs' ++ tail))
    else True
  | s, _, _ => Halts δ oldUna s tail tail

instance Steady.decidable (δ oldUna : UInt32) (tail : List UInt8) :
    ∀ (s : Scan) (segs segs' : List Segment), Decidable (Steady δ oldUna tail s segs segs')
  | s, [], _ => inferInstanceAs (Decidable (Halts δ oldUna s tail tail))
  | s, _ :: _, [] => inferInstanceAs (Decidable (Halts δ oldUna s tail tail))
  | s, seg :: segs, _ :: segs' => by
    have : ∀ t, Decidable (Steady δ oldUna tail t segs segs') := fun t => Steady.decidable δ oldUna tail t segs segs'
    unfold Steady
    infer_instance

section Loop

variable {δ oldUna : UInt32} {w tail : List UInt8}

/-- What the two segment loops end with. -/
def LoopShift (δ oldUna : UInt32) (w : List UInt8) (r r' : Except IoError Unit × Scan) : Prop :=
  r'.1 = r.1 ∧ (∃ rest, rest.length = r.2.buf.length ∧ r'.2 = { r.2.shift δ w with buf := rest }) ∧
    (r.1 = .ok () → Level δ (r.2.finishPairs oldUna))

/-- The loops stop at bytes that both turn down. -/
theorem loopShift_of_halts {s : Scan} {bytes bytes' : List UInt8} {fuel : ℕ} (hlen : bytes'.length = bytes.length)
    (hfuel : bytes.length ≤ fuel) (h : Halts δ oldUna s bytes bytes') :
    Option.Rel (LoopShift δ oldUna w) (({ s with buf := bytes } : Scan).inputLoop .release fuel)
      (({ s.shift δ w with buf := bytes' } : Scan).inputLoop .release fuel) := by
  unfold Halts at h
  cases hr : refusal s.kcb.conv bytes with
  | none => simp [hr] at h
  | some r =>
    simp only [hr] at h
    rw [inputLoop_of_refusal (s := { s with buf := bytes }) hfuel hr,
      inputLoop_of_refusal (s := { s.shift δ w with buf := bytes' }) (hlen.trans_le hfuel) h.1]
    refine Option.Rel.some ⟨rfl, ⟨bytes', hlen, rfl⟩, fun hok => h.2 ?_⟩
    cases r with
    | none => rfl
    | some e => simp [outcome] at hok

theorem length_encodes_shifts {segs segs' : List Segment} (h : List.Forall₂ (Segment.Shifts δ) segs segs') :
    (encodes segs').length = (encodes segs).length := by
  induction h with
  | nil => rfl
  | cons hseg _ ih =>
    rw [encodes_cons, encodes_cons, List.length_append, List.length_append, ih, length_encode, length_encode, hseg.1]

theorem inputLoop_cons {p : Profile} {s t : Scan} {seg : Segment} {post : List UInt8} {fuel : ℕ}
    (hmine : seg.conv = s.kcb.conv ∧ validCmd seg.cmd = true) (ht : s.handle p seg = some t) :
    ({ s with buf := seg.encode ++ post } : Scan).inputLoop p (fuel + 1) =
      ({ t with buf := t.buf ++ post } : Scan).inputLoop p fuel := by
  have hlong : ¬ (seg.encode ++ post).length < kcpOverhead := by
    rw [List.length_append, length_encode]
    omega
  have hstep := inputStep_handle (p := p) s hmine.1 hmine.2 post
  unfold inputLoop
  rw [if_neg hlong, hstep, ht]
  cases fuel <;> rfl

theorem length_handle_le {p : Profile} {s t : Scan} {seg : Segment} (ht : s.handle p seg = some t) :
    t.buf.length ≤ seg.data.length := by
  rcases cursor_taken (taken_handle ht) with ⟨-, e⟩ | ⟨-, e⟩ <;> rw [e]
  exact (List.drop_sublist _ _).length_le

/-- The segment loop, by induction on the segments. -/
theorem inputLoop_shift {segs segs' : List Segment} {s : Scan} {fuel : ℕ}
    (hsegs : List.Forall₂ (Segment.Shifts δ) segs segs') (hfuel : (encodes segs ++ tail).length ≤ fuel)
    (h : Steady δ oldUna tail s segs segs') :
    Option.Rel (LoopShift δ oldUna w) (({ s with buf := encodes segs ++ tail } : Scan).inputLoop .release fuel)
      (({ s.shift δ w with buf := encodes segs' ++ tail } : Scan).inputLoop .release fuel) := by
  induction hsegs generalizing s fuel with
  | nil => exact loopShift_of_halts rfl hfuel h
  | @cons seg seg' segs segs' hseg hsegs ih =>
    have hpost : ∀ {l l' : List UInt8}, l'.length = l.length →
        (l' ++ (encodes segs' ++ tail)).length = (l ++ (encodes segs ++ tail)).length := by
      intro l l' hl
      simp only [List.length_append, hl, length_encodes_shifts hsegs]
    have hconv : seg'.conv = seg.conv := by rw [hseg.1]
    have hcmd : seg'.cmd = seg.cmd := by rw [hseg.1]
    unfold Steady at h
    rw [encodes_cons, List.append_assoc] at hfuel
    rw [encodes_cons, encodes_cons, List.append_assoc, List.append_assoc]
    -- a segment of the conversation is handled on both sides; any other ends both loops
    by_cases hmine : seg.conv = s.kcb.conv ∧ validCmd seg.cmd = true
    · rw [if_pos hmine] at h
      obtain ⟨hl, h⟩ := h
      obtain ⟨t, ht⟩ := Option.isSome_iff_exists.mp (handle_release s seg)
      have ht' : (s.shift δ w).handle .release seg' = some (t.shift δ w) := by
        rw [handle_shift hseg hl, ht, Option.map_some]
      have hmine' : seg'.conv = (s.shift δ w).kcb.conv ∧ validCmd seg'.cmd = true := by
        rw [hconv, hcmd]
        exact hmine
      have hrest := length_handle_le ht
      rw [List.length_append, length_encode] at hfuel
      unfold kcpOverhead at hfuel
      obtain ⟨fuel, rfl⟩ : ∃ n, fuel = n + 1 := Nat.exists_eq_succ_of_ne_zero (by omega)
      replace hrest : (t.buf ++ (encodes segs ++ tail)).length ≤ fuel := by
        rw [List.length_append]
        omega
      rw [inputLoop_cons hmine ht, inputLoop_cons hmine' ht']
      replace h := h t ht
      by_cases hbuf : t.buf = []
      · rw [if_pos hbuf] at h
        rw [hbuf, List.nil_append] at hrest
        have hloop := ih hrest h
        show Option.Rel _ (inputLoop _ _ { t with buf := t.buf ++ _ })
          (inputLoop _ _ { t.shift δ w with buf := t.buf ++ _ })
        rw [hbuf]
        exact hloop
      · rw [if_neg hbuf] at h
        exact loopShift_of_halts (hpost rfl) hrest h
    · have hmine' : ¬ (seg'.conv = (s.shift δ w).kcb.conv ∧ validCmd seg'.cmd = true) := by
        rw [hconv, hcmd]
        exact hmine
      -- the error depends on the header tests only, and these see no sequence number
      have hlen := hpost (show seg'.encode.length = seg.encode.length by rw [length_encode, length_encode, hseg.1])
      rw [inputLoop_of_refusal (s := { s with buf := seg.encode ++ _ }) hfuel (refusal_foreign hmine _),
        inputLoop_of_refusal (s := { s.shift δ w with buf := seg'.encode ++ _ }) (hlen.trans_le hfuel)
          (refusal_foreign hmine' _)]
      exact Option.Rel.some ⟨rfl, ⟨_, hlen, rfl⟩, fun hok => by simp [outcome] at hok⟩

end Loop

/-- **`input`** on shifted numbers. -/
theorem input_shift {δ : UInt32} {w tail : List UInt8} {k : Kcb} {segs segs' : List Segment}
    (hsegs : List.Forall₂ (Segment.Shifts δ) segs segs') (h : Steady δ k.sndUna tail (k.scanOf []) segs segs') :
    (k.shift δ w).input .release (encodes segs' ++ tail) =
      (k.input .release (encodes segs ++ tail)).map fun r => (r.1, r.2.shift δ w) := by
  have hlen : (encodes segs' ++ tail).length = (encodes segs ++ tail).length := by
    simp only [List.length_append, length_encodes_shifts hsegs]
  unfold input
  rw [hlen]
  by_cases hshort : (encodes segs ++ tail).length < kcpOverhead
  · rw [if_pos hshort, if_pos hshort]
    rfl
  · rw [if_neg hshort, if_neg hshort]
    have hloop := inputLoop_shift (w := w) hsegs (Nat.le_refl _) h
    replace hloop : Option.Rel (LoopShift δ k.sndUna w)
        ((k.scanOf (encodes segs ++ tail)).inputLoop .release (encodes segs ++ tail).length)
        (((k.shift δ w).scanOf (encodes segs' ++ tail)).inputLoop .release (encodes segs ++ tail).length) := hloop
    generalize (k.scanOf (encodes segs ++ tail)).inputLoop .release (encodes segs ++ tail).length = x at hloop ⊢
    generalize ((k.shift δ w).scanOf (encodes segs' ++ tail)).inputLoop .release (encodes segs ++ tail).length = y
      at hloop ⊢
    cases hloop with
    | none => rfl
    | @some r r' hr =>
      obtain ⟨res, t⟩ := r
      obtain ⟨res', t'⟩ := r'
      obtain ⟨hres, ⟨rest, hrest, ht⟩, hfin⟩ : res' = res ∧
          (∃ rest : List UInt8, rest.length = t.buf.length ∧ t' = { t.shift δ w with buf := rest }) ∧
          (res = .ok () → Level δ (t.finishPairs k.sndUna)) := hr
      subst hres ht
      cases res' with
      | error e => rfl
      | ok u =>
        have hfinish := finishInput_shift (w := w) (hfin rfl) rest
        simp only [Option.bind_eq_bind, Option.bind_some]
        rw [show (k.shift δ w).sndUna = k.sndUna + δ from rfl, hfinish]
        simp only [hrest]
        cases finishInput .release t k.sndUna <;> rfl

end NetProtocols.Kcp
