import TxnPath.Digest

/-!
# `TxnPath.Proofs.Digest`: digests and their text

A digest is told by its hexadecimal digits (`Digest.hex_inj`). Two texts of one digest are the same
text, unless their bytes are different and have the same digest (`Digest.eq_or_collide`).
-/

set_option autoImplicit false

namespace TxnPath.Digest

open Text (hexDigit hexDigit_inj)

/-- A byte is told by its two digits. -/
theorem byte_inj {b b' : UInt8} (hhigh : hexDigit (b.toNat / 16) = hexDigit (b'.toNat / 16))
    (hlow : hexDigit (b.toNat % 16) = hexDigit (b'.toNat % 16)) : b = b' := by
  have hb := b.toNat_lt
  have hb' := b'.toNat_lt
  have hquotient := hexDigit_inj _ (by omega) _ (by omega) hhigh
  have hremainder := hexDigit_inj _ (Nat.mod_lt _ (by decide)) _ (Nat.mod_lt _ (by decide)) hlow
  exact UInt8.toNat_inj.mp (by omega)

/-- A digest is told by its digits. This is an induction on the bytes, each of which has exactly two
of them. -/
theorem hex_inj {d d' : Digest} (h : d.hex = d'.hex) : d = d' := by
  obtain ⟨bytes⟩ := d
  obtain ⟨bytes'⟩ := d'
  replace h := String.ofList_inj.mp h
  dsimp only at h
  refine congrArg Digest.mk ?_
  -- Every byte has two digits, so the bytes are compared from the front.
  induction bytes generalizing bytes' with
  | nil =>
    cases bytes' with
    | nil => rfl
    | cons => cases h
  | cons b bytes ih =>
    cases bytes' with
    | nil => cases h
    | cons b' bytes' =>
      simp only [List.flatMap_cons, List.cons_append, List.nil_append, List.cons.injEq] at h
      obtain ⟨hhigh, hlow, hrest⟩ := h
      rw [byte_inj hhigh hlow, ih bytes' hrest]

/-- Two byte strings collide if they are different and have the same digest. -/
def Collide (x y : ByteArray) : Prop := x ≠ y ∧ ofBytes x = ofBytes y

/-- Texts of one digest are the same, or their bytes collide. -/
theorem eq_or_collide {s t : String} (h : (ofText s).hex = (ofText t).hex) :
    s = t ∨ Collide s.toUTF8 t.toUTF8 := by
  by_cases hst : s = t
  · exact .inl hst
  · exact .inr ⟨fun hbytes => hst (String.toByteArray_inj.mp hbytes), hex_inj h⟩

/-- Up to 1024 bytes are one chunk, and need no tree. -/
theorem ofBytes_chunk {bytes : ByteArray} (h : bytes.size ≤ 1024) :
    ofBytes bytes = ⟨((chunk bytes 0 bytes.size 0).compress root).toList.flatMap wordBytes⟩ := by
  rw [ofBytes, tree, dif_pos h]

end TxnPath.Digest
