import ExecutionContext.Files.Path

/-! # Texts that bytes keep

Encoding a text and decoding it again gives the text, whatever characters it has. So the
lossy text of bytes loses nothing exactly when they are the encoding of some text.
-/

namespace ExecutionContext

namespace Utf8

variable {byte : Nat}

theorem lead_one (h : byte < 0x80) : lead byte = some { due := 0, code := byte } := by
  simp [lead, h]

theorem lead_two (hlow : 0xc2 ≤ byte) (hhigh : byte < 0xe0) :
    lead byte = some { due := 1, code := byte - 0xc0 } := by
  have hone : ¬ byte < 0x80 := by omega
  have hnone : ¬ byte < 0xc2 := by omega
  simp [lead, hone, hnone, hhigh]

theorem lead_three (hlow : 0xe0 ≤ byte) (hhigh : byte < 0xf0) :
    lead byte = some
      { due := 2
        low := if byte = 0xe0 then 0xa0 else 0x80
        high := if byte = 0xed then 0x9f else 0xbf
        code := byte - 0xe0 } := by
  have hone : ¬ byte < 0x80 := by omega
  have hnone : ¬ byte < 0xc2 := by omega
  have htwo : ¬ byte < 0xe0 := by omega
  simp [lead, hone, hnone, htwo, hhigh]

theorem lead_four (hlow : 0xf0 ≤ byte) (hhigh : byte < 0xf5) :
    lead byte = some
      { due := 3
        low := if byte = 0xf0 then 0x90 else 0x80
        high := if byte = 0xf4 then 0x8f else 0xbf
        code := byte - 0xf0 } := by
  have hone : ¬ byte < 0x80 := by omega
  have hnone : ¬ byte < 0xc2 := by omega
  have htwo : ¬ byte < 0xe0 := by omega
  have hthree : ¬ byte < 0xf0 := by omega
  simp [lead, hone, hnone, htwo, hthree, hhigh]

theorem toNat_ofNat_of_lt {n : Nat} (h : n < 256) : (UInt8.ofNat n).toNat = n := by
  rw [UInt8.toNat_ofNat']
  exact Nat.mod_eq_of_lt h

/-- A byte that begins a character of more bytes leaves them due. -/
theorem decodeFrom_lead {n : Nat} {begun : Begun} (hn : n < 256) (hlead : lead n = some begun)
    (hdue : begun.due ≠ 0) (rest : Bytes) :
    decodeFrom none (UInt8.ofNat n :: rest) = decodeFrom (some begun) rest := by
  simp [decodeFrom, step, first, settle, toNat_ofNat_of_lt hn, hlead, hdue]

section Digits

variable {begun : Begun} {digits : Nat}

theorem step_digits (hdigits : digits < 64) (hlow : begun.low ≤ digits + 128)
    (hhigh : digits + 128 ≤ begun.high) :
    step (some begun) (UInt8.ofNat (digits + 128)).toNat =
      settle { due := begun.due - 1, code := begun.code * 64 + digits } := by
  have hcode : digits + 128 - 0x80 = digits := Nat.add_sub_cancel digits 128
  rw [toNat_ofNat_of_lt (by omega), step, if_pos ⟨hlow, hhigh⟩, hcode]

/-- A byte of six digits goes on with a character of which more bytes are due. -/
theorem decodeFrom_digits (hdigits : digits < 64) (hlow : begun.low ≤ digits + 128)
    (hhigh : digits + 128 ≤ begun.high) (hdue : 1 < begun.due) (rest : Bytes) :
    decodeFrom (some begun) (UInt8.ofNat (digits + 128) :: rest) =
      decodeFrom (some { due := begun.due - 1, code := begun.code * 64 + digits }) rest := by
  have hmore : begun.due - 1 ≠ 0 := by omega
  rw [decodeFrom, step_digits hdigits hlow hhigh]
  simp [settle, hmore]

theorem decodeFrom_last (hdigits : digits < 64) (hlow : begun.low ≤ digits + 128)
    (hhigh : digits + 128 ≤ begun.high) (hdue : begun.due = 1) (rest : Bytes) :
    decodeFrom (some begun) (UInt8.ofNat (digits + 128) :: rest) =
      Char.ofNat (begun.code * 64 + digits) :: decodeFrom none rest := by
  rw [decodeFrom, step_digits hdigits hlow hhigh]
  simp [settle, hdue]

end Digits

/-- The bytes of a character are read as that character. -/
theorem decodeFrom_encodeChar (c : Char) (rest : Bytes) :
    decodeFrom none (String.utf8EncodeChar c ++ rest) = c :: decodeFrom none rest := by
  have hchar : Char.ofNat c.val.toNat = c := Char.ofNat_toNat c
  have hvalid : c.val.toNat < 0xd800 ∨ 0xdfff < c.val.toNat ∧ c.val.toNat < 0x110000 := c.valid
  unfold String.utf8EncodeChar
  generalize c.val.toNat = n at hchar hvalid ⊢
  dsimp only
  have hlast : n % 64 < 64 := Nat.mod_lt n (by omega)
  have hmiddle : n / 64 % 64 < 64 := Nat.mod_lt _ (by omega)
  by_cases hone : n ≤ 0x7f
  · rw [if_pos hone]
    have hlead : lead n = some { due := 0, code := n } := lead_one (by omega)
    simp [decodeFrom, step, first, settle, toNat_ofNat_of_lt (n := n) (by omega), hlead, hchar]
  by_cases htwo : n ≤ 0x7ff
  · have hcode : (n / 64 % 32 + 192 - 192) * 64 + n % 64 = n := by omega
    rw [if_neg hone, if_pos htwo, List.cons_append,
      decodeFrom_lead (by omega) (lead_two (by omega) (by omega)) Nat.one_ne_zero,
      List.cons_append, decodeFrom_last hlast (Nat.le_add_left _ _) (by dsimp only; omega) rfl,
      hcode, hchar, List.nil_append]
  by_cases hthree : n ≤ 0xffff
  · have hcode : ((n / 4096 % 16 + 224 - 224) * 64 + n / 64 % 64) * 64 + n % 64 = n := by omega
    rw [if_neg hone, if_neg htwo, if_pos hthree, List.cons_append,
      decodeFrom_lead (by omega) (lead_three (by omega) (by omega)) (Nat.succ_ne_zero 1),
      List.cons_append, decodeFrom_digits hmiddle (by dsimp only; split <;> omega)
        (by dsimp only; split <;> omega) Nat.one_lt_two,
      List.cons_append, decodeFrom_last hlast (Nat.le_add_left _ _) (by dsimp only; omega) rfl,
      hcode, hchar, List.nil_append]
  · have hcode : (((n / 262144 % 8 + 240 - 240) * 64 + n / 4096 % 64) * 64 + n / 64 % 64) * 64 +
        n % 64 = n := by omega
    have hsecond : n / 4096 % 64 < 64 := Nat.mod_lt _ (by omega)
    rw [if_neg hone, if_neg htwo, if_neg hthree, List.cons_append,
      decodeFrom_lead (by omega) (lead_four (by omega) (by omega)) (Nat.succ_ne_zero 2),
      List.cons_append, decodeFrom_digits hsecond (by dsimp only; split <;> omega)
        (by dsimp only; split <;> omega) (Nat.lt_of_sub_eq_succ rfl),
      List.cons_append, decodeFrom_digits hmiddle (Nat.le_add_left _ _) (by dsimp only; omega)
        Nat.one_lt_two,
      List.cons_append, decodeFrom_last hlast (Nat.le_add_left _ _) (by dsimp only; omega) rfl,
      hcode, hchar, List.nil_append]

/-- A text is read back from its encoding. -/
theorem lossy_encode (text : String) : lossy (encode text) = text := by
  have hread : ∀ chars : List Char,
      decodeFrom none (chars.flatMap String.utf8EncodeChar) = chars := by
    intro chars
    induction chars with
    | nil => rfl
    | cons c chars ih => rw [List.flatMap_cons, decodeFrom_encodeChar, ih]
  rw [lossy, encode, hread, String.ofList_toList]

end Utf8

theorem Path.lossy_ofText (text : String) : (Path.ofText text).lossy = text :=
  Utf8.lossy_encode text

/-- The lossy text of a path names the path exactly when the path is UTF-8. -/
theorem Path.ofText_lossy_iff (path : Path) :
    Path.ofText path.lossy = path ↔ ∃ text, path = Path.ofText text := by
  constructor
  · exact fun h => ⟨path.lossy, h.symm⟩
  · rintro ⟨text, rfl⟩
    rw [Path.lossy_ofText]

end ExecutionContext
