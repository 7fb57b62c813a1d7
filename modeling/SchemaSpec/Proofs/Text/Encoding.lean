import Mathlib.Tactic.Common
import SchemaSpec.Text.Utf8

/-!
# Bytes read and written

Bytes that are the UTF-8 form of a text are its bytes: reading refuses all other forms.

* `exists_next`: one byte more of a character that is partly read.
* `encodeChar_one`, `encodeChar_two`, `encodeChar_three`, `encodeChar_four`: the bytes of a character
  by its bits.
* `leadByte_eq_ok`: what a leading byte says about the bytes behind it.
* `exists_encodeChar_append`: what is read first are the bytes of a character.
* `encode_of_decode`: the bytes of what is read are the bytes read.
* `mem_encode_iff`: an ASCII character is in a text exactly if its byte is in the bytes of the text.
-/

namespace SchemaSpec
namespace Text

section Reading

variable {position place count bits missing : Nat} {lead least greatest : UInt8}
variable {bs : Bytes} {t : Text}

/-- A partly read character takes a byte in its range. -/
theorem exists_next
    (h : decodeFrom position (some ⟨place, lead, count, missing, least, greatest, bits⟩) bs
      = .ok t) :
    ∃ b rest, bs = b :: rest ∧ least.toNat ≤ b.toNat ∧ b.toNat ≤ greatest.toNat
      ∧ if missing ≤ 1 then
          ∃ r, t = Char.ofNat (bits * 64 + (b.toNat - 0x80)) :: r
            ∧ decodeFrom (position + 1) none rest = .ok r
        else decodeFrom (position + 1) (some ⟨place, lead, count + 1, missing - 1, 0x80, 0xBF,
          bits * 64 + (b.toNat - 0x80)⟩) rest = .ok t := by
  cases bs with
  | nil =>
      simp [decodeFrom] at h
  | cons b rest =>
      rw [decodeFrom] at h
      split at h
      · rename_i hrange
        refine ⟨b, rest, rfl, UInt8.le_iff_toNat_le.1 hrange.1, UInt8.le_iff_toNat_le.1 hrange.2,
          ?_⟩
        dsimp only at h
        split at h
        · rename_i hlast
          rw [if_pos hlast]
          cases hrest : decodeFrom (position + 1) none rest with
          | error e =>
              simp [hrest, Except.map] at h
          | ok r =>
              rw [hrest] at h
              exact ⟨r, (Except.ok.inj h).symm, rfl⟩
        · rename_i hmore
          rwa [if_neg hmore]
      · cases h

end Reading

section Characters

variable {n : Nat} {b c d e : UInt8}

theorem toNat_ofNat_of_isValid
    (h : n.isValidChar) :
    (Char.ofNat n).toNat = n := by
  unfold Char.ofNat
  rw [dif_pos h]
  rfl

theorem toUInt8_eq
    (h : b.toNat = n) :
    n.toUInt8 = b := by
  rw [← h]
  exact UInt8.ofNat_toNat

theorem encodeChar_one
    (hn : n < 0x80)
    (hb : b.toNat = n) :
    encodeChar (Char.ofNat n) = [b] := by
  unfold encodeChar
  rw [toNat_ofNat_of_isValid (Or.inl (by omega)), if_pos hn, toUInt8_eq hb]

theorem encodeChar_two
    (hn : 0x80 ≤ n ∧ n < 0x800)
    (hb : b.toNat = 0xC0 + n / 64)
    (hc : c.toNat = 0x80 + n % 64) :
    encodeChar (Char.ofNat n) = [b, c] := by
  unfold encodeChar
  dsimp only
  rw [toNat_ofNat_of_isValid (Or.inl (by omega)), if_neg (by omega), if_pos hn.2, toUInt8_eq hb,
    toUInt8_eq hc]

theorem encodeChar_three
    (hvalid : n.isValidChar)
    (hn : 0x800 ≤ n ∧ n < 0x10000)
    (hb : b.toNat = 0xE0 + n / 4096)
    (hc : c.toNat = 0x80 + n / 64 % 64)
    (hd : d.toNat = 0x80 + n % 64) :
    encodeChar (Char.ofNat n) = [b, c, d] := by
  unfold encodeChar
  dsimp only
  rw [toNat_ofNat_of_isValid hvalid, if_neg (by omega), if_neg (by omega), if_pos hn.2,
    toUInt8_eq hb, toUInt8_eq hc, toUInt8_eq hd]

theorem encodeChar_four
    (hn : 0x10000 ≤ n ∧ n < 0x110000)
    (hb : b.toNat = 0xF0 + n / 262144)
    (hc : c.toNat = 0x80 + n / 4096 % 64)
    (hd : d.toNat = 0x80 + n / 64 % 64)
    (he : e.toNat = 0x80 + n % 64) :
    encodeChar (Char.ofNat n) = [b, c, d, e] := by
  unfold encodeChar
  dsimp only
  rw [toNat_ofNat_of_isValid (Or.inr ⟨by omega, hn.2⟩), if_neg (by omega), if_neg (by omega),
    if_neg (by omega), toUInt8_eq hb, toUInt8_eq hc, toUInt8_eq hd, toUInt8_eq he]

end Characters

section Decoding

variable {position : Nat} {bs : Bytes} {t : Text} {b : UInt8}

/-- A leading byte fixes how many bytes follow, the range of the next one, and the first bits. -/
theorem leadByte_eq_ok
    {s : Char ⊕ Utf8Partial}
    (h : leadByte position b = .ok s) :
    (b.toNat < 0x80 ∧ s = .inl (Char.ofNat b.toNat))
      ∨ (0xC2 ≤ b.toNat ∧ b.toNat < 0xE0
        ∧ s = .inr ⟨position, b, 1, 1, 0x80, 0xBF, b.toNat - 0xC0⟩)
      ∨ (∃ least greatest : UInt8, 0xE0 ≤ b.toNat ∧ b.toNat < 0xF0
        ∧ s = .inr ⟨position, b, 1, 2, least, greatest, b.toNat - 0xE0⟩
        ∧ 0x80 ≤ least.toNat ∧ greatest.toNat ≤ 0xBF ∧ (b.toNat = 0xE0 → 0xA0 ≤ least.toNat)
        ∧ (b.toNat = 0xED → greatest.toNat ≤ 0x9F))
      ∨ (∃ least greatest : UInt8, 0xF0 ≤ b.toNat ∧ b.toNat < 0xF5
        ∧ s = .inr ⟨position, b, 1, 3, least, greatest, b.toNat - 0xF0⟩
        ∧ 0x80 ≤ least.toNat ∧ greatest.toNat ≤ 0xBF ∧ (b.toNat = 0xF0 → 0x90 ≤ least.toNat)
        ∧ (b.toNat = 0xF4 → greatest.toNat ≤ 0x8F)) := by
  unfold leadByte at h
  dsimp only at h
  by_cases hone : b.toNat < 0x80
  · rw [if_pos hone] at h
    exact Or.inl ⟨hone, (Except.ok.inj h).symm⟩
  · rw [if_neg hone] at h
    by_cases hlow : b.toNat < 0xC2
    · rw [if_pos hlow] at h
      cases h
    · rw [if_neg hlow] at h
      by_cases htwo : b.toNat < 0xE0
      · rw [if_pos htwo] at h
        exact Or.inr (Or.inl ⟨by omega, htwo, (Except.ok.inj h).symm⟩)
      · rw [if_neg htwo] at h
        by_cases hthree : b.toNat < 0xF0
        · rw [if_pos hthree] at h
          refine Or.inr (Or.inr (Or.inl ⟨_, _, by omega, hthree, (Except.ok.inj h).symm,
            ?_, ?_, fun heq => ?_, fun heq => ?_⟩))
          · split <;> decide
          · split <;> decide
          · rw [if_pos heq]
            decide
          · rw [if_pos heq]
            decide
        · rw [if_neg hthree] at h
          by_cases hfour : b.toNat < 0xF5
          · rw [if_pos hfour] at h
            refine Or.inr (Or.inr (Or.inr ⟨_, _, by omega, hfour, (Except.ok.inj h).symm,
              ?_, ?_, fun heq => ?_, fun heq => ?_⟩))
            · split <;> decide
            · split <;> decide
            · rw [if_pos heq]
              decide
            · rw [if_pos heq]
              decide
          · rw [if_neg hfour] at h
            cases h

/-- What is read first of bytes are the bytes of a character. -/
theorem exists_encodeChar_append
    (h : decodeFrom position none (b :: bs) = .ok t) :
    ∃ c r rest position', t = c :: r ∧ b :: bs = encodeChar c ++ rest
      ∧ decodeFrom position' none rest = .ok r := by
  rw [decodeFrom] at h
  cases hlead : leadByte position b with
  | error e =>
      rw [hlead] at h
      cases h
  | ok s =>
      rw [hlead] at h
      -- One case for each number of bytes; the ranges of the second byte keep overlong forms and
      -- surrogates out.
      obtain ⟨hn, rfl⟩ | ⟨hlow, hhigh, rfl⟩ |
        ⟨least, greatest, hlow, hhigh, rfl, hleast, hgreatest, hover, hsurrogate⟩ |
        ⟨least, greatest, hlow, hhigh, rfl, hleast, hgreatest, hover, hlast⟩ :=
          leadByte_eq_ok hlead
      · dsimp only at h
        cases hrest : decodeFrom (position + 1) none bs with
        | error e =>
            simp [hrest, Except.map] at h
        | ok r =>
            rw [hrest] at h
            exact ⟨_, r, bs, _, (Except.ok.inj h).symm, by rw [encodeChar_one hn rfl]; rfl, hrest⟩
      · obtain ⟨c, rest, rfl, hc, hc', r, rfl, hrest⟩ := exists_next h
        simp only [UInt8.reduceToNat] at hc hc'
        refine ⟨_, r, rest, _, rfl, ?_, hrest⟩
        rw [encodeChar_two (b := b) (c := c) (by omega) (by omega) (by omega)]
        rfl
      · obtain ⟨c, rest, rfl, hc, hc', h⟩ := exists_next h
        obtain ⟨d, rest, rfl, hd, hd', r, rfl, hrest⟩ := exists_next h
        simp only [UInt8.reduceToNat] at hd hd'
        refine ⟨_, r, rest, _, rfl, ?_, hrest⟩
        rw [encodeChar_three (b := b) (c := c) (d := d) ?_ (by omega) (by omega) (by omega)
          (by omega)]
        · rfl
        · unfold Nat.isValidChar
          omega
      · obtain ⟨c, rest, rfl, hc, hc', h⟩ := exists_next h
        obtain ⟨d, rest, rfl, hd, hd', h⟩ := exists_next h
        obtain ⟨e, rest, rfl, he, he', r, rfl, hrest⟩ := exists_next h
        simp only [UInt8.reduceToNat] at hd hd' he he'
        refine ⟨_, r, rest, _, rfl, ?_, hrest⟩
        rw [encodeChar_four (b := b) (c := c) (d := d) (e := e) (by omega) (by omega) (by omega)
          (by omega) (by omega)]
        rfl

/-- The bytes of what is read are the bytes read. -/
theorem encode_of_decodeFrom
    (h : decodeFrom position none bs = .ok t) :
    encode t = bs := by
  induction t generalizing position bs with
  | nil =>
      cases bs with
      | nil =>
          rfl
      | cons b bs =>
          obtain ⟨c, r, rest, position', ht, -, -⟩ := exists_encodeChar_append h
          cases ht
  | cons c r ih =>
      cases bs with
      | nil =>
          cases h
      | cons b bs =>
          obtain ⟨c', r', rest, position', ht, hbytes, hrest⟩ := exists_encodeChar_append h
          cases ht
          rw [hbytes, ← ih hrest]
          rfl

theorem encode_of_decode
    (h : decode bs = .ok t) :
    encode t = bs :=
  encode_of_decodeFrom h

end Decoding

section Ascii

variable {c : Char} {t : Text} {b : UInt8}

theorem encode_append
    (t u : Text) :
    encode (t ++ u) = encode t ++ encode u :=
  List.flatMap_append

theorem encodeChar_of_ascii
    (hc : c.toNat < 0x80) :
    encodeChar c = [c.toNat.toUInt8] := by
  unfold encodeChar
  dsimp only
  rw [if_pos hc]

theorem eq_toUInt8_iff
    (n : Nat) :
    b = n.toUInt8 ↔ b.toNat = n % 256 := by
  constructor
  · rintro rfl
    rfl
  · intro h
    apply UInt8.toNat.inj
    exact h

/-- A byte below 128 is the whole of a character. -/
theorem mem_encodeChar_iff
    (hb : b.toNat < 0x80) :
    b ∈ encodeChar c ↔ b.toNat = c.toNat := by
  have hvalid : c.toNat < 0x110000 := by
    rcases c.valid with h | h
    · exact Nat.lt_trans h (by decide)
    · exact h.2
  unfold encodeChar
  dsimp only
  split
  · rw [List.mem_singleton, eq_toUInt8_iff]
    omega
  · split
    · simp only [List.mem_cons, List.not_mem_nil, or_false, eq_toUInt8_iff]
      omega
    · split
      · simp only [List.mem_cons, List.not_mem_nil, or_false, eq_toUInt8_iff]
        omega
      · simp only [List.mem_cons, List.not_mem_nil, or_false, eq_toUInt8_iff]
        omega

/-- An ASCII character is in a text exactly if its byte is in the bytes of the text. -/
theorem mem_encode_iff
    (hc : c.toNat < 0x80) :
    c.toNat.toUInt8 ∈ encode t ↔ c ∈ t := by
  have hbyte : c.toNat.toUInt8.toNat = c.toNat :=
    Nat.mod_eq_of_lt (Nat.lt_trans hc (by decide))
  unfold encode
  rw [List.mem_flatMap]
  constructor
  · rintro ⟨d, hd, hmem⟩
    rw [mem_encodeChar_iff (by rwa [hbyte]), hbyte] at hmem
    rwa [Char.toNat_inj.1 hmem]
  · intro hmem
    exact ⟨c, hmem, by rw [encodeChar_of_ascii hc]; exact List.mem_singleton.2 rfl⟩

end Ascii

end Text
end SchemaSpec
