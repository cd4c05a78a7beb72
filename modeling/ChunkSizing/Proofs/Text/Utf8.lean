import ChunkSizing.Text.Utf8

/-!
# ChunkSizing.Proofs.Text.Utf8 — text that is written is read back.

A character is written in one of four forms by the size of its code point. In each form the reader
rejects the shorter forms by the first byte, so it takes exactly the bytes of the character
(`decodeFrom_utf8EncodeChar`), and a whole text follows by induction (`decode_encode`). The other
way round, the bytes of a text are the only ones that it is read from (`decode_eq_ok_iff`).
-/

namespace ChunkSizing.Utf8

/-! ## Writing -/

theorem encode_cons (c : Char) (text : List Char) :
    encode (c :: text) = String.utf8EncodeChar c ++ encode text := rfl

@[simp]
theorem encode_append (front back : List Char) :
    encode (front ++ back) = encode front ++ encode back :=
  List.flatMap_append

/-! ## The four forms of a character -/

section Forms

variable {c : Char}

theorem utf8EncodeChar_one (h : c.toNat ≤ 0x7f) :
    String.utf8EncodeChar c = [UInt8.ofNat c.toNat] :=
  if_pos h

theorem utf8EncodeChar_two (h1 : 0x7f < c.toNat) (h2 : c.toNat ≤ 0x7ff) :
    String.utf8EncodeChar c =
      [UInt8.ofNat (c.toNat / 64 % 0x20 + 0xc0), UInt8.ofNat (c.toNat % 0x40 + 0x80)] :=
  (if_neg (Nat.not_le.2 h1)).trans (if_pos h2)

theorem utf8EncodeChar_three (h1 : 0x7ff < c.toNat) (h2 : c.toNat ≤ 0xffff) :
    String.utf8EncodeChar c =
      [UInt8.ofNat (c.toNat / 4096 % 0x10 + 0xe0), UInt8.ofNat (c.toNat / 64 % 0x40 + 0x80),
        UInt8.ofNat (c.toNat % 0x40 + 0x80)] :=
  ((if_neg (show ¬ c.toNat ≤ 0x7f by omega)).trans (if_neg (Nat.not_le.2 h1))).trans (if_pos h2)

theorem utf8EncodeChar_four (h : 0xffff < c.toNat) :
    String.utf8EncodeChar c =
      [UInt8.ofNat (c.toNat / 262144 % 0x08 + 0xf0), UInt8.ofNat (c.toNat / 4096 % 0x40 + 0x80),
        UInt8.ofNat (c.toNat / 64 % 0x40 + 0x80), UInt8.ofNat (c.toNat % 0x40 + 0x80)] :=
  ((if_neg (show ¬ c.toNat ≤ 0x7f by omega)).trans
    (if_neg (show ¬ c.toNat ≤ 0x7ff by omega))).trans (if_neg (Nat.not_le.2 h))

theorem toNat_byte {n : Nat} (h : n < 0x100) : (UInt8.ofNat n).toNat = n :=
  UInt8.toNat_ofNat_of_lt' h

/-- Every byte of a character outside ASCII has its high bit set. -/
theorem le_of_mem_utf8EncodeChar (h : 0x7f < c.toNat) {b : UInt8}
    (hb : b ∈ String.utf8EncodeChar c) : 0x80 ≤ b.toNat := by
  have hbyte {n : Nat} (hlow : 0x80 ≤ n) (hhigh : n < 0x100) : 0x80 ≤ (UInt8.ofNat n).toNat := by
    rwa [toNat_byte hhigh]
  by_cases h2 : c.toNat ≤ 0x7ff
  · simp only [utf8EncodeChar_two h h2, List.mem_cons, List.not_mem_nil, or_false] at hb
    rcases hb with rfl | rfl <;> exact hbyte (by omega) (by omega)
  by_cases h3 : c.toNat ≤ 0xffff
  · simp only [utf8EncodeChar_three (Nat.not_le.1 h2) h3, List.mem_cons, List.not_mem_nil,
      or_false] at hb
    rcases hb with rfl | rfl | rfl <;> exact hbyte (by omega) (by omega)
  · simp only [utf8EncodeChar_four (Nat.not_le.1 h3), List.mem_cons, List.not_mem_nil,
      or_false] at hb
    rcases hb with rfl | rfl | rfl | rfl <;> exact hbyte (by omega) (by omega)

end Forms

/-- ASCII is one byte for each character. -/
theorem encode_eq_map {text : List Char} (h : ∀ c ∈ text, c.toNat ≤ 0x7f) :
    encode text = text.map Char.toUInt8 := by
  induction text with
  | nil => rfl
  | cons c text ih =>
    rw [encode_cons, utf8EncodeChar_one (h c List.mem_cons_self),
      ih fun d hd => h d (List.mem_cons_of_mem c hd)]
    rfl

/-! ## Reading one form -/

/-- The code point of a character, in the form of at least `least`. -/
theorem scalar?_toNat {c : Char} {least n : Nat} (hleast : least ≤ c.toNat) (hn : n = c.toNat) :
    scalar? least n = some c := by
  unfold scalar?
  rw [hn, if_pos ⟨hleast, c.valid⟩, Char.ofNat_toNat]

theorem isTail_byte {n : Nat} (h : n < 0x40) : isTail (UInt8.ofNat (n + 0x80)) = true := by
  unfold isTail
  rw [toNat_byte (by omega), beq_iff_eq]
  omega

theorem one?_of_le {a : UInt8} (h : 0x80 ≤ a.toNat) : one? a = none :=
  if_neg (Nat.not_lt.2 h)

theorem two?_of_le {a : UInt8} (h : 0xe0 ≤ a.toNat) (b : UInt8) : two? a b = none := by
  unfold two?
  rw [if_neg]
  omega

theorem three?_of_le {a : UInt8} (h : 0xf0 ≤ a.toNat) (b c : UInt8) : three? a b c = none := by
  unfold three?
  rw [if_neg]
  omega

section Reading

variable {c : Char} (good : Nat) (read : List Char) (rest : List UInt8)

theorem decodeFrom_one (h : c.toNat ≤ 0x7f) :
    decodeFrom good read (UInt8.ofNat c.toNat :: rest) =
      decodeFrom (good + 1) (c :: read) rest := by
  have hone : one? (UInt8.ofNat c.toNat) = some c := by
    unfold one?
    rw [toNat_byte (by omega), if_pos (by omega), Char.ofNat_toNat]
  rw [decodeFrom.eq_def]
  simp only [hone]

theorem decodeFrom_two (h1 : 0x7f < c.toNat) (h2 : c.toNat ≤ 0x7ff) :
    decodeFrom good read (UInt8.ofNat (c.toNat / 64 % 0x20 + 0xc0) ::
      UInt8.ofNat (c.toNat % 0x40 + 0x80) :: rest) = decodeFrom (good + 2) (c :: read) rest := by
  have hfirst := toNat_byte (show c.toNat / 64 % 0x20 + 0xc0 < 0x100 by omega)
  have hlast := toNat_byte (show c.toNat % 0x40 + 0x80 < 0x100 by omega)
  have htwo : two? (UInt8.ofNat (c.toNat / 64 % 0x20 + 0xc0))
      (UInt8.ofNat (c.toNat % 0x40 + 0x80)) = some c := by
    unfold two?
    rw [hfirst, hlast, if_pos ⟨by omega, isTail_byte (by omega)⟩]
    exact scalar?_toNat (by omega) (by omega)
  have hlarge : 0x80 ≤ (UInt8.ofNat (c.toNat / 64 % 0x20 + 0xc0)).toNat := by omega
  rw [decodeFrom.eq_def]
  simp only [one?_of_le hlarge, htwo]

theorem decodeFrom_three (h1 : 0x7ff < c.toNat) (h2 : c.toNat ≤ 0xffff) :
    decodeFrom good read (UInt8.ofNat (c.toNat / 4096 % 0x10 + 0xe0) ::
      UInt8.ofNat (c.toNat / 64 % 0x40 + 0x80) :: UInt8.ofNat (c.toNat % 0x40 + 0x80) :: rest) =
      decodeFrom (good + 3) (c :: read) rest := by
  have hfirst := toNat_byte (show c.toNat / 4096 % 0x10 + 0xe0 < 0x100 by omega)
  have hsecond := toNat_byte (show c.toNat / 64 % 0x40 + 0x80 < 0x100 by omega)
  have hlast := toNat_byte (show c.toNat % 0x40 + 0x80 < 0x100 by omega)
  have hthree : three? (UInt8.ofNat (c.toNat / 4096 % 0x10 + 0xe0))
      (UInt8.ofNat (c.toNat / 64 % 0x40 + 0x80)) (UInt8.ofNat (c.toNat % 0x40 + 0x80)) =
      some c := by
    unfold three?
    rw [hfirst, hsecond, hlast,
      if_pos ⟨by omega, isTail_byte (by omega), isTail_byte (by omega)⟩]
    exact scalar?_toNat (by omega) (by omega)
  have hlarge : 0xe0 ≤ (UInt8.ofNat (c.toNat / 4096 % 0x10 + 0xe0)).toNat := by omega
  rw [decodeFrom.eq_def]
  simp only [one?_of_le (Nat.le_trans (by decide) hlarge), two?_of_le hlarge, hthree]

theorem decodeFrom_four (h : 0xffff < c.toNat) :
    decodeFrom good read (UInt8.ofNat (c.toNat / 262144 % 0x08 + 0xf0) ::
      UInt8.ofNat (c.toNat / 4096 % 0x40 + 0x80) :: UInt8.ofNat (c.toNat / 64 % 0x40 + 0x80) ::
      UInt8.ofNat (c.toNat % 0x40 + 0x80) :: rest) = decodeFrom (good + 4) (c :: read) rest := by
  have hlt : c.toNat < 0x110000 := by
    have hvalid := c.valid
    unfold UInt32.isValidChar Nat.isValidChar at hvalid
    show c.val.toNat < _
    omega
  have hfirst := toNat_byte (show c.toNat / 262144 % 0x08 + 0xf0 < 0x100 by omega)
  have hsecond := toNat_byte (show c.toNat / 4096 % 0x40 + 0x80 < 0x100 by omega)
  have hthird := toNat_byte (show c.toNat / 64 % 0x40 + 0x80 < 0x100 by omega)
  have hlast := toNat_byte (show c.toNat % 0x40 + 0x80 < 0x100 by omega)
  have hfour : four? (UInt8.ofNat (c.toNat / 262144 % 0x08 + 0xf0))
      (UInt8.ofNat (c.toNat / 4096 % 0x40 + 0x80)) (UInt8.ofNat (c.toNat / 64 % 0x40 + 0x80))
      (UInt8.ofNat (c.toNat % 0x40 + 0x80)) = some c := by
    unfold four?
    rw [hfirst, hsecond, hthird, hlast,
      if_pos ⟨by omega, isTail_byte (by omega), isTail_byte (by omega), isTail_byte (by omega)⟩]
    exact scalar?_toNat (by omega) (by omega)
  have hlarge : 0xf0 ≤ (UInt8.ofNat (c.toNat / 262144 % 0x08 + 0xf0)).toNat := by omega
  rw [decodeFrom.eq_def]
  simp only [one?_of_le (Nat.le_trans (by decide) hlarge),
    two?_of_le (Nat.le_trans (by decide) hlarge), three?_of_le hlarge, hfour]

/-- **One character.** The reader takes its bytes and no more. -/
theorem decodeFrom_utf8EncodeChar (c : Char) :
    decodeFrom good read (String.utf8EncodeChar c ++ rest) =
      decodeFrom (good + (String.utf8EncodeChar c).length) (c :: read) rest := by
  rcases Nat.lt_or_ge 0x7f c.toNat with h1 | h1
  · rcases Nat.lt_or_ge 0x7ff c.toNat with h2 | h2
    · rcases Nat.lt_or_ge 0xffff c.toNat with h3 | h3
      · rw [utf8EncodeChar_four h3]
        exact decodeFrom_four good read rest h3
      · rw [utf8EncodeChar_three h2 h3]
        exact decodeFrom_three good read rest h2 h3
    · rw [utf8EncodeChar_two h1 h2]
      exact decodeFrom_two good read rest h1 h2
  · rw [utf8EncodeChar_one h1]
    exact decodeFrom_one good read rest h1

end Reading

/-! ## A whole text -/

theorem decodeFrom_encode (good : Nat) (read text : List Char) :
    decodeFrom good read (encode text) = .ok (read.reverse ++ text) := by
  induction text generalizing good read with
  | nil =>
    rw [List.append_nil]
    rfl
  | cons c text ih =>
    rw [encode_cons, decodeFrom_utf8EncodeChar, ih, List.reverse_cons, List.append_assoc]
    rfl

/-- **Reading undoes writing.** -/
theorem decode_encode (text : List Char) : decode (encode text) = .ok text :=
  decodeFrom_encode 0 [] text

/-! ## What is read was written -/

section Sound

variable {a b c d : UInt8} {ch : Char}

theorem ofNat_eq_of_toNat {n : Nat} (h : n = a.toNat) : UInt8.ofNat n = a := by
  rw [h, UInt8.ofNat_toNat]

theorem toNat_ofNat {n : Nat} (h : n.isValidChar) : (Char.ofNat n).toNat = n := by
  unfold Char.ofNat
  rw [dif_pos h]
  rfl

theorem toNat_of_scalar?_eq {least n : Nat} (h : scalar? least n = some ch) :
    least ≤ n ∧ ch.toNat = n := by
  unfold scalar? at h
  split at h
  · rename_i hvalid
    obtain rfl := Option.some.inj h
    exact ⟨hvalid.1, toNat_ofNat hvalid.2⟩
  · cases h

theorem isTail_iff : isTail a = true ↔ a.toNat / 64 = 2 := beq_iff_eq

theorem utf8EncodeChar_of_one? (h : one? a = some ch) : String.utf8EncodeChar ch = [a] := by
  unfold one? at h
  split at h
  · rename_i hlt
    obtain rfl := Option.some.inj h
    have hvalue : (Char.ofNat a.toNat).toNat = a.toNat := toNat_ofNat (.inl (by omega))
    rw [utf8EncodeChar_one (by omega), hvalue, UInt8.ofNat_toNat]
  · cases h

theorem utf8EncodeChar_of_two? (h : two? a b = some ch) : String.utf8EncodeChar ch = [a, b] := by
  have ha := a.toNat_lt
  have hb := b.toNat_lt
  unfold two? at h
  split at h
  · rename_i hform
    simp only [isTail_iff] at hform
    obtain ⟨hleast, hvalue⟩ := toNat_of_scalar?_eq h
    rw [utf8EncodeChar_two (by omega) (by omega), ofNat_eq_of_toNat (show _ = a.toNat by omega),
      ofNat_eq_of_toNat (show _ = b.toNat by omega)]
  · cases h

theorem utf8EncodeChar_of_three? (h : three? a b c = some ch) :
    String.utf8EncodeChar ch = [a, b, c] := by
  have ha := a.toNat_lt
  have hb := b.toNat_lt
  have hc := c.toNat_lt
  unfold three? at h
  split at h
  · rename_i hform
    simp only [isTail_iff] at hform
    obtain ⟨hleast, hvalue⟩ := toNat_of_scalar?_eq h
    rw [utf8EncodeChar_three (by omega) (by omega),
      ofNat_eq_of_toNat (show _ = a.toNat by omega),
      ofNat_eq_of_toNat (show _ = b.toNat by omega),
      ofNat_eq_of_toNat (show _ = c.toNat by omega)]
  · cases h

theorem utf8EncodeChar_of_four? (h : four? a b c d = some ch) :
    String.utf8EncodeChar ch = [a, b, c, d] := by
  have ha := a.toNat_lt
  have hb := b.toNat_lt
  have hc := c.toNat_lt
  have hd := d.toNat_lt
  unfold four? at h
  split at h
  · rename_i hform
    simp only [isTail_iff] at hform
    obtain ⟨hleast, hvalue⟩ := toNat_of_scalar?_eq h
    rw [utf8EncodeChar_four (by omega), ofNat_eq_of_toNat (show _ = a.toNat by omega),
      ofNat_eq_of_toNat (show _ = b.toNat by omega),
      ofNat_eq_of_toNat (show _ = c.toNat by omega),
      ofNat_eq_of_toNat (show _ = d.toNat by omega)]
  · cases h

end Sound

/-- Every character that is read has the bytes it was read from. -/
theorem decodeFrom_sound {good : Nat} {read text : List Char} {bytes : List UInt8}
    (h : decodeFrom good read bytes = .ok text) :
    ∃ chars, text = read.reverse ++ chars ∧ bytes = encode chars := by
  have hnext {ch : Char} {read text : List Char} {front rest : List UInt8}
      (hch : String.utf8EncodeChar ch = front)
      (hrest : ∃ chars, text = (ch :: read).reverse ++ chars ∧ rest = encode chars) :
      ∃ chars, text = read.reverse ++ chars ∧ front ++ rest = encode chars := by
    obtain ⟨chars, rfl, rfl⟩ := hrest
    refine ⟨ch :: chars, ?_, ?_⟩
    · rw [List.reverse_cons, List.append_assoc, List.singleton_append]
    · rw [encode_cons, hch]
  fun_induction decodeFrom good read bytes with
  | case1 good read =>
    obtain rfl := Except.ok.inj h
    exact ⟨[], (List.append_nil _).symm, rfl⟩
  | case2 good read a afterA ch hone ih => exact hnext (utf8EncodeChar_of_one? hone) (ih h)
  | case3 => cases h
  | case4 good read a b afterB hone ch htwo ih => exact hnext (utf8EncodeChar_of_two? htwo) (ih h)
  | case5 => cases h
  | case6 good read a b c afterC hone htwo ch hthree ih =>
    exact hnext (utf8EncodeChar_of_three? hthree) (ih h)
  | case7 => cases h
  | case8 good read a b c d afterD hone htwo hthree ch hfour ih =>
    exact hnext (utf8EncodeChar_of_four? hfour) (ih h)
  | case9 => cases h

/-- **Writing undoes reading**: the bytes of a text are the only ones it is read from. -/
theorem decode_eq_ok_iff {bytes : List UInt8} {text : List Char} :
    decode bytes = .ok text ↔ bytes = encode text := by
  constructor
  · intro h
    obtain ⟨chars, rfl, rfl⟩ := decodeFrom_sound h
    rfl
  · rintro rfl
    exact decode_encode text

theorem decodeFrom_error_lt {good found : Nat} {read : List Char} {bytes : List UInt8}
    (h : decodeFrom good read bytes = .error found) : found < good + bytes.length := by
  fun_induction decodeFrom good read bytes with
  | case1 => cases h
  | case2 good read a afterA ch hone ih =>
    have := ih h
    rw [List.length_cons]
    omega
  | case4 good read a b afterB hone ch htwo ih =>
    have := ih h
    simp only [List.length_cons]
    omega
  | case6 good read a b c afterC hone htwo ch hthree ih =>
    have := ih h
    simp only [List.length_cons]
    omega
  | case8 good read a b c d afterD hone htwo hthree ch hfour ih =>
    have := ih h
    simp only [List.length_cons]
    omega
  | case3 | case5 | case7 | case9 =>
    obtain rfl := Except.error.inj h
    simp

/-- **A good beginning** of bytes that are no text is not all of them. -/
theorem decode_error_lt {bytes : List UInt8} {good : Nat} (h : decode bytes = .error good) :
    good < bytes.length := by
  have hlt := decodeFrom_error_lt h
  rwa [Nat.zero_add] at hlt

end ChunkSizing.Utf8
