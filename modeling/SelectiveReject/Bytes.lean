/-!
# Byte strings

A datagram, a payload and a file are lists of bytes.  Numbers travel with their most significant
byte first:

```
bigEndian16 0x0102     = [1, 2]
bigEndian32 0x01020304 = [1, 2, 3, 4]
```

`readBigEndian16` and `readBigEndian32` put the bytes together again; each undoes the other.
-/

namespace SelectiveReject

/-- A string of bytes. -/
abbrev Bytes := List UInt8

/-- One more than the greatest number of 16 bits. -/
def limit16 : Nat := 65536

/-- One more than the greatest number of 32 bits. -/
def limit32 : Nat := 4294967296

/-- One more than the greatest number of 64 bits. -/
def limit64 : Nat := 18446744073709551616

/-- The two bytes of a 16-bit word, high byte first. -/
def bigEndian16 (n : UInt16) : Bytes :=
  [UInt8.ofNat (n.toNat / 256), UInt8.ofNat n.toNat]

/-- The four bytes of a 32-bit word, highest byte first. -/
def bigEndian32 (n : UInt32) : Bytes :=
  [UInt8.ofNat (n.toNat / 16777216), UInt8.ofNat (n.toNat / 65536),
   UInt8.ofNat (n.toNat / 256), UInt8.ofNat n.toNat]

/-- The 16-bit word whose high and low bytes are `a` and `b`. -/
def readBigEndian16 (a b : UInt8) : UInt16 :=
  UInt16.ofNat (a.toNat * 256 + b.toNat)

/-- The 32-bit word with the bytes `a`, `b`, `c`, `d` from the highest to the lowest. -/
def readBigEndian32 (a b c d : UInt8) : UInt32 :=
  UInt32.ofNat (a.toNat * 16777216 + b.toNat * 65536 + c.toNat * 256 + d.toNat)

theorem length_bigEndian32 (n : UInt32) : (bigEndian32 n).length = 4 := rfl

/-- Reading the bytes of a word gives the word. -/
theorem readBigEndian16_bytes (n : UInt16) :
    readBigEndian16 (UInt8.ofNat (n.toNat / 256)) (UInt8.ofNat n.toNat) = n := by
  apply UInt16.toNat.inj
  have := n.toNat_lt
  simp only [readBigEndian16, UInt16.toNat_ofNat', UInt8.toNat_ofNat']
  omega

/-- Reading the bytes of a word gives the word. -/
theorem readBigEndian32_bytes (n : UInt32) :
    readBigEndian32 (UInt8.ofNat (n.toNat / 16777216)) (UInt8.ofNat (n.toNat / 65536))
      (UInt8.ofNat (n.toNat / 256)) (UInt8.ofNat n.toNat) = n := by
  apply UInt32.toNat.inj
  have := n.toNat_lt
  simp only [readBigEndian32, UInt32.toNat_ofNat', UInt8.toNat_ofNat']
  omega

/-- The bytes of the word that two bytes make up are these two bytes. -/
theorem bigEndian16_read (a b : UInt8) : bigEndian16 (readBigEndian16 a b) = [a, b] := by
  have ha := a.toNat_lt
  have hb := b.toNat_lt
  simp only [bigEndian16, readBigEndian16, UInt16.toNat_ofNat', List.cons.injEq, and_true]
  refine ⟨?_, ?_⟩ <;>
    apply UInt8.toNat.inj <;> simp only [UInt8.toNat_ofNat'] <;> omega

/-- The bytes of the word that four bytes make up are these four bytes. -/
theorem bigEndian32_read (a b c d : UInt8) :
    bigEndian32 (readBigEndian32 a b c d) = [a, b, c, d] := by
  have ha := a.toNat_lt
  have hb := b.toNat_lt
  have hc := c.toNat_lt
  have hd := d.toNat_lt
  simp only [bigEndian32, readBigEndian32, UInt32.toNat_ofNat', List.cons.injEq, and_true]
  refine ⟨?_, ?_, ?_, ?_⟩ <;>
    apply UInt8.toNat.inj <;> simp only [UInt8.toNat_ofNat'] <;> omega

theorem bigEndian16_inj {m n : UInt16} (h : bigEndian16 m = bigEndian16 n) : m = n := by
  simp only [bigEndian16, List.cons.injEq, and_true] at h
  rw [← readBigEndian16_bytes m, ← readBigEndian16_bytes n, h.1, h.2]

theorem bigEndian32_inj {m n : UInt32} (h : bigEndian32 m = bigEndian32 n) : m = n := by
  simp only [bigEndian32, List.cons.injEq, and_true] at h
  obtain ⟨ha, hb, hc, hd⟩ := h
  rw [← readBigEndian32_bytes m, ← readBigEndian32_bytes n, ha, hb, hc, hd]

end SelectiveReject
