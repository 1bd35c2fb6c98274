import TraxMania.Constraints.PairScan
import Mathlib.Data.Int.Bitwise

/-
  A packed grammar key and its fields. `packStages` are the values of `_pack_keys` one operation
  after the other; while the key space fits into 63 bits none of them leaves the range of `int64`,
  and `_unpack_key` gets the fields back.
-/

namespace TraxMania.Constraints

open Lib.Numpy

/-! ## Packing and unpacking -/

/-- The fields of a key over `nOff` offsets. -/
structure KeyFields (nOff : Nat) where
  ta : Fin maxTypes
  tb : Fin maxTypes
  relRot : Fin 4
  storedOi : Fin nOff
deriving DecidableEq

/-- The values of `_pack_keys` in the order in which they are computed. -/
def packStages (ta tb : Nat) (relRot : Int) (storedOi nOff : Nat) : List Int :=
  let shifted := ta <<< typeBits
  let types := shifted ||| tb
  let scaled := (types : Int) * 4
  let code := scaled + relRot
  let high := code * nOff
  [shifted, types, scaled, code, high, high + storedOi]

/-- `_unpack_key(key, n_off)`. -/
def unpackKey (key : Int) (nOff : Nat) : Int × Int × Int × Int :=
  let storedOi := key % nOff
  let rest := key / nOff
  let relRot := rest.land 3
  let rest := rest >>> (2 : Nat)
  let tb := rest.land (maxTypes - 1 : Nat)
  let ta := rest >>> typeBits
  (ta, tb, relRot, storedOi)

namespace KeyFields

variable {nOff : Nat} (f : KeyFields nOff)

/-- The key of the fields. -/
def pack : Int := packKeys f.ta f.tb f.relRot.val f.storedOi nOff

/-- `(ta, tb, rel_rot, stored_oi)`. -/
def toTuple : Int × Int × Int × Int := (f.ta, f.tb, f.relRot.val, f.storedOi)

/-- The values on the way to the key. -/
def stages : List Int := packStages f.ta f.tb f.relRot.val f.storedOi nOff

/-- Both types and the relative rotation in one number. -/
def code : Nat := (f.ta * 2 ^ 17 + f.tb) * 4 + f.relRot

/-- The last of the stages. -/
def plain : Nat := f.code * nOff + f.storedOi

theorem plain_eq : (f.plain : Int) = plainKey f.ta f.tb f.relRot.val f.storedOi nOff := by
  unfold plain code plainKey
  push_cast
  rfl

theorem plain_lt : f.plain < 2 ^ 36 * nOff := by
  have hrel : 0 ≤ (f.relRot.val : Int) ∧ (f.relRot.val : Int) < 4 := by omega
  have hbounds := plainKey_bounds f.ta.isLt f.tb.isLt hrel f.storedOi.isLt
  rw [← f.plain_eq] at hbounds
  exact_mod_cast hbounds.2

theorem or_eq : f.ta.val <<< typeBits ||| f.tb.val = f.ta * 2 ^ 17 + f.tb := by
  unfold typeBits
  rw [← Nat.shiftLeft_add_eq_or_of_lt f.tb.isLt, Nat.shiftLeft_eq]

theorem stages_eq : f.stages = ([f.ta * 2 ^ 17, f.ta * 2 ^ 17 + f.tb,
    (f.ta * 2 ^ 17 + f.tb) * 4, f.code, f.code * nOff, f.plain] : List Nat).map Nat.cast := by
  unfold stages packStages plain code
  dsimp only
  rw [f.or_eq, Nat.shiftLeft_eq]
  simp only [List.map_cons, List.map_nil]
  push_cast
  rfl

/-! ## No overflow -/

/-- While the key space fits, no operation leaves the range of `int64`. -/
theorem stages_fit (hfit : 2 ^ 36 * nOff ≤ 2 ^ 63) :
    ∀ v ∈ f.stages, -2 ^ 63 ≤ v ∧ v < 2 ^ 63 := by
  have hplain : f.plain < 2 ^ 63 := Nat.lt_of_lt_of_le f.plain_lt hfit
  have hpos : 0 < nOff := Nat.lt_of_le_of_lt (Nat.zero_le _) f.storedOi.isLt
  have hhigh : f.code * nOff ≤ f.plain := Nat.le_add_right _ _
  have hcode : f.code ≤ f.code * nOff := Nat.le_mul_of_pos_right _ hpos
  have hscaled : (f.ta * 2 ^ 17 + f.tb) * 4 ≤ f.code := Nat.le_add_right _ _
  have hall : ∀ n ∈ ([f.ta * 2 ^ 17, f.ta * 2 ^ 17 + f.tb, (f.ta * 2 ^ 17 + f.tb) * 4, f.code,
      f.code * nOff, f.plain] : List Nat), n ≤ f.plain := by
    simp only [List.forall_mem_cons]
    exact ⟨by omega, by omega, by omega, by omega, by omega, le_refl _, fun n hn => by cases hn⟩
  intro v hv
  rw [f.stages_eq] at hv
  obtain ⟨n, hn, rfl⟩ := List.mem_map.mp hv
  have hle := hall n hn
  omega

/-! ## Back to the fields -/

theorem pack_eq (hfit : 2 ^ 36 * nOff ≤ 2 ^ 63) : f.pack = f.plain := by
  have hplain : f.plain < 2 ^ 63 := Nat.lt_of_lt_of_le f.plain_lt hfit
  unfold pack
  rw [packKeys_eq f.tb.isLt, ← f.plain_eq]
  exact int64_eq_self (by omega) (by omega)

theorem plain_mod : f.plain % nOff = f.storedOi := by
  unfold plain
  rw [Nat.mul_add_mod_of_lt f.storedOi.isLt]

theorem plain_div : f.plain / nOff = f.code := by
  have hpos : 0 < nOff := Nat.lt_of_le_of_lt (Nat.zero_le _) f.storedOi.isLt
  unfold plain
  rw [Nat.mul_comm, Nat.mul_add_div hpos, Nat.div_eq_of_lt f.storedOi.isLt, Nat.add_zero]

/-- The masks and shifts take the code apart. -/
theorem code_fields : f.code &&& 3 = f.relRot ∧ f.code >>> 2 &&& (maxTypes - 1) = f.tb ∧
    f.code >>> 2 >>> typeBits = f.ta := by
  have htb := f.tb.isLt
  have hrel := f.relRot.isLt
  have hthree : f.code &&& 3 = f.code % 2 ^ 2 := Nat.and_two_pow_sub_one_eq_mod f.code 2
  have hmask : f.code >>> 2 &&& (maxTypes - 1) = f.code >>> 2 % 2 ^ 17 :=
    Nat.and_two_pow_sub_one_eq_mod (f.code >>> 2) 17
  rw [hthree, hmask, Nat.shiftRight_eq_div_pow, Nat.shiftRight_eq_div_pow]
  unfold code typeBits
  unfold maxTypes at htb
  exact ⟨by omega, by omega, by omega⟩

theorem unpackKey_plain : unpackKey f.plain nOff = f.toTuple := by
  obtain ⟨hrel, htb, hta⟩ := f.code_fields
  unfold unpackKey toTuple
  dsimp only
  rw [← Int.natCast_mod, ← Int.natCast_div, f.plain_mod, f.plain_div]
  show (((f.code >>> 2 >>> typeBits : Nat) : Int), ((f.code >>> 2 &&& (maxTypes - 1) : Nat) : Int),
    ((f.code &&& 3 : Nat) : Int), ((f.storedOi : Nat) : Int)) = _
  rw [hrel, htb, hta]

theorem unpackKey_pack (hfit : 2 ^ 36 * nOff ≤ 2 ^ 63) : unpackKey f.pack nOff = f.toTuple := by
  rw [f.pack_eq hfit, f.unpackKey_plain]

/-- The last stage is the key: nothing was cut off. -/
theorem getLast?_stages (hfit : 2 ^ 36 * nOff ≤ 2 ^ 63) : f.stages.getLast? = some f.pack := by
  rw [f.stages_eq, f.pack_eq hfit]
  rfl

end KeyFields

theorem KeyFields.toTuple_inj {nOff : Nat} {f g : KeyFields nOff} (h : f.toTuple = g.toTuple) :
    f = g := by
  obtain ⟨ta, tb, rel, oi⟩ := f
  obtain ⟨ta', tb', rel', oi'⟩ := g
  unfold KeyFields.toTuple at h
  simp only [Prod.mk.injEq, Int.natCast_inj, Fin.val_inj] at h
  obtain ⟨rfl, rfl, rfl, rfl⟩ := h
  rfl

/-- While the key space of the neighbourhood fits into 63 bits: a key gives back its fields,
    different fields have different keys, and no operation of `_pack_keys` overflows. -/
theorem keys_lossless (t : OffsetTable) (hfit : 2 ^ 36 * t.size ≤ 2 ^ 63) :
    (∀ f : KeyFields t.size, unpackKey f.pack t.size = f.toTuple ∧
      f.stages.getLast? = some f.pack ∧ ∀ v ∈ f.stages, -2 ^ 63 ≤ v ∧ v < 2 ^ 63) ∧
    ∀ f g : KeyFields t.size, f ≠ g → f.pack ≠ g.pack := by
  constructor
  · intro f
    exact ⟨f.unpackKey_pack hfit, f.getLast?_stages hfit, f.stages_fit hfit⟩
  · intro f g hne heq
    have htuple : f.toTuple = g.toTuple := by
      rw [← f.unpackKey_pack hfit, ← g.unpackKey_pack hfit, heq]
    exact hne (KeyFields.toTuple_inj htuple)

theorem keys_lossless_default :
    (∀ f : KeyFields (OffsetTable.size ⟨3, 2⟩), unpackKey f.pack (OffsetTable.size ⟨3, 2⟩) =
        f.toTuple ∧ f.stages.getLast? = some f.pack ∧ ∀ v ∈ f.stages, -2 ^ 63 ≤ v ∧ v < 2 ^ 63) ∧
      ∀ f g : KeyFields (OffsetTable.size ⟨3, 2⟩), f ≠ g → f.pack ≠ g.pack := by
  refine keys_lossless ⟨3, 2⟩ ?_
  rw [OffsetTable.size_eq]
  decide

end TraxMania.Constraints
