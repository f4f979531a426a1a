import Mathlib.Algebra.Order.Ring.Int
import Mathlib.Data.List.Basic
import Mathlib.Tactic.Common

/-!
# NetProtocols.Lib.Bytes — fields on byte lists

`leBytes w n` is the field of `w` bytes holding `n`; `getLE w buf` reads such a field off the front of a
byte list and hands back the rest, `none` when the list is too short.

* `getLE_leBytes`: reading what was written gives the number back (modulo `256 ^ w`) and leaves the rest.
* `getLE_of_le`: a list of at least `w` bytes is read, and exactly `w` bytes are consumed.
* `putU16le`, `putU32le`, `getU8`, `getU16le`, `getU32le`: the fixed-width instances.
* `putU16be`, `getU16be`: a big-endian field of two bytes; `utf8Bytes`, `utf8String`: the bytes of a string.  Each pair
  is inverse in both directions.
-/

namespace NetProtocols

/-- The `w` little-endian bytes of `n`. -/
def leBytes : ℕ → ℕ → List UInt8
  | 0, _ => []
  | w + 1, n => UInt8.ofNat n :: leBytes w (n / 256)

/-- Read `w` little-endian bytes. -/
def getLE : ℕ → List UInt8 → Option (ℕ × List UInt8)
  | 0, buf => some (0, buf)
  | _ + 1, [] => none
  | w + 1, b :: buf =>
    match getLE w buf with
    | some (n, rest) => some (b.toNat + 256 * n, rest)
    | none => none

@[simp] theorem length_leBytes (w n : ℕ) : (leBytes w n).length = w := by
  induction w generalizing n with
  | zero => rfl
  | succ w ih => simp [leBytes, ih]

theorem getLE_leBytes (w n : ℕ) (rest : List UInt8) :
    getLE w (leBytes w n ++ rest) = some (n % 256 ^ w, rest) := by
  induction w generalizing n with
  | zero => simp [getLE, leBytes, Nat.mod_one]
  | succ w ih =>
    have h : n % 256 ^ (w + 1) = n % 256 + 256 * (n / 256 % 256 ^ w) := by
      rw [Nat.pow_succ', Nat.mod_mul]
    simp only [leBytes, List.cons_append, getLE, ih, UInt8.toNat_ofNat', h]

theorem getLE_of_le {w : ℕ} {buf : List UInt8} (h : w ≤ buf.length) :
    ∃ n, n < 256 ^ w ∧ getLE w buf = some (n, buf.drop w) := by
  induction w generalizing buf with
  | zero => exact ⟨0, by simp, rfl⟩
  | succ w ih =>
    cases buf with
    | nil => simp at h
    | cons b buf =>
      have hw : w ≤ buf.length := by simpa using h
      obtain ⟨n, hn, hg⟩ := ih hw
      refine ⟨b.toNat + 256 * n, ?_, by simp [getLE, hg]⟩
      have hb := b.toNat_lt
      rw [Nat.pow_succ']
      omega

theorem getLE_suffix {w n : ℕ} {buf rest : List UInt8} (h : getLE w buf = some (n, rest)) : rest <:+ buf := by
  induction w generalizing buf n with
  | zero =>
    simp only [getLE, Option.some.injEq, Prod.mk.injEq] at h
    exact h.2 ▸ List.suffix_refl _
  | succ w ih =>
    cases buf with
    | nil => cases h
    | cons b buf =>
      rw [getLE] at h
      cases hg : getLE w buf with
      | none =>
        rw [hg] at h
        cases h
      | some x =>
        rw [hg] at h
        simp only [Option.some.injEq, Prod.mk.injEq] at h
        obtain ⟨-, rfl⟩ := h
        exact (ih hg).trans (List.suffix_cons b buf)

/-- A field that is read stands in front of what it leaves. -/
theorem getLE_eq_append {w n : ℕ} {buf rest : List UInt8} (h : getLE w buf = some (n, rest)) :
    n < 256 ^ w ∧ buf = leBytes w n ++ rest := by
  induction w generalizing buf n with
  | zero =>
    simp only [getLE, Option.some.injEq, Prod.mk.injEq] at h
    obtain ⟨rfl, rfl⟩ := h
    exact ⟨Nat.one_pos, rfl⟩
  | succ w ih =>
    cases buf with
    | nil => cases h
    | cons b buf =>
      rw [getLE] at h
      cases hg : getLE w buf with
      | none =>
        rw [hg] at h
        cases h
      | some x =>
        rw [hg] at h
        simp only [Option.some.injEq, Prod.mk.injEq] at h
        obtain ⟨rfl, rfl⟩ := h
        obtain ⟨hlt, hbuf⟩ := ih hg
        have hb := b.toNat_lt
        have hdiv : (b.toNat + 256 * x.1) / 256 = x.1 := by omega
        have hmod : UInt8.ofNat (b.toNat + 256 * x.1) = b := by
          apply UInt8.toNat_inj.mp
          rw [UInt8.toNat_ofNat']
          omega
        refine ⟨by rw [Nat.pow_succ']; omega, ?_⟩
        rw [leBytes, hdiv, hmod, List.cons_append, ← hbuf]

/-! ### Fixed widths -/

/-- `put_u16_le`. -/
def putU16le (v : UInt16) : List UInt8 := leBytes 2 v.toNat

/-- `put_u32_le`. -/
def putU32le (v : UInt32) : List UInt8 := leBytes 4 v.toNat

/-- `get_u8`. -/
def getU8 (buf : List UInt8) : Option (UInt8 × List UInt8) :=
  (getLE 1 buf).map fun x => (UInt8.ofNat x.1, x.2)

/-- `get_u16_le`. -/
def getU16le (buf : List UInt8) : Option (UInt16 × List UInt8) :=
  (getLE 2 buf).map fun x => (UInt16.ofNat x.1, x.2)

/-- `get_u32_le`. -/
def getU32le (buf : List UInt8) : Option (UInt32 × List UInt8) :=
  (getLE 4 buf).map fun x => (UInt32.ofNat x.1, x.2)

@[simp] theorem length_putU16le (v : UInt16) : (putU16le v).length = 2 := length_leBytes _ _

@[simp] theorem length_putU32le (v : UInt32) : (putU32le v).length = 4 := length_leBytes _ _

@[simp] theorem getU8_cons (v : UInt8) (rest : List UInt8) : getU8 (v :: rest) = some (v, rest) := by
  simp [getU8, getLE]

@[simp] theorem getU16le_put (v : UInt16) (rest : List UInt8) :
    getU16le (putU16le v ++ rest) = some (v, rest) := by
  have hv : v.toNat % 256 ^ 2 = v.toNat := Nat.mod_eq_of_lt v.toNat_lt
  rw [getU16le, putU16le, getLE_leBytes, hv]
  simp

@[simp] theorem getU32le_put (v : UInt32) (rest : List UInt8) :
    getU32le (putU32le v ++ rest) = some (v, rest) := by
  have hv : v.toNat % 256 ^ 4 = v.toNat := Nat.mod_eq_of_lt v.toNat_lt
  rw [getU32le, putU32le, getLE_leBytes, hv]
  simp

theorem getU8_of_le (buf : List UInt8) (h : 1 ≤ buf.length) : ∃ v, getU8 buf = some (v, buf.drop 1) := by
  obtain ⟨n, -, hn⟩ := getLE_of_le h
  exact ⟨_, by rw [getU8, hn]; rfl⟩

theorem getU16le_of_le (buf : List UInt8) (h : 2 ≤ buf.length) :
    ∃ v, getU16le buf = some (v, buf.drop 2) := by
  obtain ⟨n, -, hn⟩ := getLE_of_le h
  exact ⟨_, by rw [getU16le, hn]; rfl⟩

theorem getU32le_of_le (buf : List UInt8) (h : 4 ≤ buf.length) :
    ∃ v, getU32le buf = some (v, buf.drop 4) := by
  obtain ⟨n, -, hn⟩ := getLE_of_le h
  exact ⟨_, by rw [getU32le, hn]; rfl⟩

theorem getU8_suffix {buf rest : List UInt8} {v : UInt8} (h : getU8 buf = some (v, rest)) : rest <:+ buf := by
  obtain ⟨x, hx, hr⟩ := Option.map_eq_some_iff.mp h
  exact (Prod.mk.inj hr).2 ▸ getLE_suffix hx

theorem getU16le_suffix {buf rest : List UInt8} {v : UInt16} (h : getU16le buf = some (v, rest)) : rest <:+ buf := by
  obtain ⟨x, hx, hr⟩ := Option.map_eq_some_iff.mp h
  exact (Prod.mk.inj hr).2 ▸ getLE_suffix hx

theorem getU32le_suffix {buf rest : List UInt8} {v : UInt32} (h : getU32le buf = some (v, rest)) : rest <:+ buf := by
  obtain ⟨x, hx, hr⟩ := Option.map_eq_some_iff.mp h
  exact (Prod.mk.inj hr).2 ▸ getLE_suffix hx

/-! ### Reading and writing as inverses -/

theorem getU8_eq_some {buf rest : List UInt8} {v : UInt8} : getU8 buf = some (v, rest) ↔ buf = v :: rest := by
  cases buf with
  | nil => simp [getU8, getLE]
  | cons b buf => simp

theorem getU32le_eq_some {buf rest : List UInt8} {v : UInt32} :
    getU32le buf = some (v, rest) ↔ buf = putU32le v ++ rest := by
  constructor
  · intro h
    obtain ⟨⟨n, rest'⟩, hg, he⟩ := Option.map_eq_some_iff.mp h
    obtain ⟨rfl, rfl⟩ := Prod.mk.inj he
    obtain ⟨hlt, hbuf⟩ := getLE_eq_append hg
    have hn : (UInt32.ofNat n).toNat = n := by
      rw [UInt32.toNat_ofNat']
      exact Nat.mod_eq_of_lt hlt
    rw [putU32le, hn]
    exact hbuf
  · rintro rfl
    exact getU32le_put v rest

/-- `put_u16`. -/
def putU16be (v : UInt16) : List UInt8 := [UInt8.ofNat (v.toNat / 256), UInt8.ofNat v.toNat]

/-- `get_u16`. -/
def getU16be : List UInt8 → Option (UInt16 × List UInt8)
  | a :: b :: rest => some (UInt16.ofNat (256 * a.toNat + b.toNat), rest)
  | _ => none

@[simp] theorem length_putU16be (v : UInt16) : (putU16be v).length = 2 := rfl

@[simp] theorem getU16be_put (v : UInt16) (rest : List UInt8) : getU16be (putU16be v ++ rest) = some (v, rest) := by
  have hv := v.toNat_lt
  have h : 256 * (UInt8.ofNat (v.toNat / 256)).toNat + (UInt8.ofNat v.toNat).toNat = v.toNat := by
    rw [UInt8.toNat_ofNat', UInt8.toNat_ofNat']
    omega
  show some (UInt16.ofNat _, rest) = _
  rw [h, UInt16.ofNat_toNat]

@[simp] theorem getU16be_put_nil (v : UInt16) : getU16be (putU16be v) = some (v, []) := by
  rw [← List.append_nil (putU16be v), getU16be_put]

theorem toNat_getU16be (a b : UInt8) : (UInt16.ofNat (256 * a.toNat + b.toNat)).toNat = 256 * a.toNat + b.toNat := by
  have ha := a.toNat_lt
  have hb := b.toNat_lt
  rw [UInt16.toNat_ofNat']
  omega

theorem getU16be_eq_some {buf rest : List UInt8} {v : UInt16} :
    getU16be buf = some (v, rest) ↔ buf = putU16be v ++ rest := by
  constructor
  · intro h
    match buf, h with
    | a :: b :: tail, h =>
      obtain ⟨rfl, rfl⟩ := Prod.mk.inj (Option.some.inj h)
      have ha := a.toNat_lt
      have hb := b.toNat_lt
      have h1 : UInt8.ofNat ((256 * a.toNat + b.toNat) / 256) = a := by
        refine UInt8.toNat_inj.mp ?_
        rw [UInt8.toNat_ofNat']
        omega
      have h2 : UInt8.ofNat (256 * a.toNat + b.toNat) = b := by
        refine UInt8.toNat_inj.mp ?_
        rw [UInt8.toNat_ofNat']
        omega
      rw [putU16be, toNat_getU16be, h1, h2]
      rfl
  · rintro rfl
    exact getU16be_put v rest

/-- `as_bytes` of a string. -/
def utf8Bytes (s : String) : List UInt8 := s.toUTF8.data.toList

/-- `String::from_utf8`. -/
def utf8String (bytes : List UInt8) : Option String := String.fromUTF8? ⟨bytes.toArray⟩

theorem length_utf8Bytes (s : String) : (utf8Bytes s).length = s.utf8ByteSize := rfl

theorem utf8String_eq_some {bytes : List UInt8} {s : String} : utf8String bytes = some s ↔ bytes = utf8Bytes s := by
  unfold utf8String String.fromUTF8? utf8Bytes
  constructor
  · intro h
    split_ifs at h with hv
    rw [← Option.some.inj h]
    rfl
  · rintro rfl
    exact dif_pos s.isValidUTF8

@[simp] theorem utf8String_utf8Bytes (s : String) : utf8String (utf8Bytes s) = some s := utf8String_eq_some.mpr rfl

end NetProtocols
