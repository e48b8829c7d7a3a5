/-! Words of sixteen bits in two halves of eight. -/

namespace PeerHealth.Number

theorem toNat_halves (high low : UInt8) :
    (high.toUInt16 * 256 + low.toUInt16).toNat = high.toNat * 256 + low.toNat := by
  have hhigh := high.toNat_lt
  have hlow := low.toNat_lt
  simp only [UInt16.toNat_add, UInt16.toNat_mul, UInt8.toNat_toUInt16, UInt16.reduceToNat]
  omega

/-- A word is put together again from its halves. -/
theorem halves_eq (w : UInt16) : (w / 256).toUInt8.toUInt16 * 256 + w.toUInt8.toUInt16 = w := by
  have hw := w.toNat_lt
  rw [← UInt16.toNat_inj, toNat_halves]
  simp only [UInt16.toNat_toUInt8, UInt16.toNat_div, UInt16.reduceToNat]
  omega

end PeerHealth.Number
