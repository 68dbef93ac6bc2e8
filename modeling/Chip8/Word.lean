/-!
Sixteen-bit words: two bytes, high byte first, or four hexadecimal digits, most
significant first.
-/

namespace Chip8.Word

def ofBytes (high low : UInt8) : UInt16 :=
  UInt16.ofNat (256 * high.toNat + low.toNat)

def high (word : UInt16) : UInt8 :=
  UInt8.ofNat (word.toNat / 256)

def low (word : UInt16) : UInt8 :=
  UInt8.ofNat word.toNat

def digits (word : UInt16) : List Nat :=
  [word.toNat / 4096, word.toNat / 256 % 16, word.toNat / 16 % 16, word.toNat % 16]

def ofDigits (digits : List Nat) : UInt16 :=
  UInt16.ofNat (digits.foldl (fun value digit => 16 * value + digit) 0)

theorem ofBytes_high_low (word : UInt16) : ofBytes (high word) (low word) = word := by
  have bound := word.toNat_lt
  apply UInt16.toNat.inj
  simp only [ofBytes, high, low, UInt16.toNat_ofNat', UInt8.toNat_ofNat']
  omega

theorem toNat_ofBytes (first second : UInt8) :
    (ofBytes first second).toNat = 256 * first.toNat + second.toNat := by
  have firstBound := first.toNat_lt
  have secondBound := second.toNat_lt
  simp only [ofBytes, UInt16.toNat_ofNat']
  omega

theorem ofDigits_digits (word : UInt16) : ofDigits (digits word) = word := by
  have bound := word.toNat_lt
  apply UInt16.toNat.inj
  simp only [ofDigits, digits, List.foldl, UInt16.toNat_ofNat']
  omega

end Chip8.Word
