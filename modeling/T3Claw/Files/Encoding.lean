import T3Claw.Files.EditGuard

/-!
# Encodings of a file

What is read of the bytes that were written, and written of the characters that were read.
-/

namespace T3Claw.Files

/-! ### UTF-8 -/

/-- No encoding of a character begins another one's. -/
theorem utf8EncodeChar_append_inj {c c' : Char} {rest rest' : List UInt8}
    (h : String.utf8EncodeChar c ++ rest = String.utf8EncodeChar c' ++ rest') :
    c = c' ∧ rest = rest' := by
  have hchar (c : Char) (rest : List UInt8) :
      (String.utf8EncodeChar c ++ rest).toByteArray.utf8DecodeChar? 0 = some c := by
    rw [List.toByteArray_append]
    exact ByteArray.utf8DecodeChar?_utf8EncodeChar_append
  have hc := hchar c rest
  rw [h, hchar c' rest'] at hc
  obtain rfl := Option.some.inj hc
  exact ⟨rfl, List.append_cancel_left h⟩

/-- The bits of the bytes are the character's. -/
theorem ofNat_leadBits (c : Char) : ∃ b more, String.utf8EncodeChar c = b :: more ∧
    Char.ofNat (more.foldl (fun code b => 64 * code + b.toNat % 64)
      (leadBits c.utf8Size b)) = c := by
  have hlt : c.toNat < 1114112 := by
    have hvalid := c.valid
    rw [UInt32.isValidChar, Nat.isValidChar] at hvalid
    change c.val.toNat < 1114112
    omega
  have hof : Char.ofNat c.toNat = c := Char.ofNat_toNat c
  have hsize : c.utf8Size = (String.utf8EncodeChar c).length :=
    (String.length_utf8EncodeChar c).symm
  rw [hsize]
  rw [String.utf8EncodeChar]
  change c.val.toNat < 1114112 at hlt
  change Char.ofNat c.val.toNat = c at hof
  generalize c.val.toNat = v at *
  split_ifs with h1 h2 h3
  · refine ⟨_, _, rfl, ?_⟩
    rw [← hof]
    refine congrArg Char.ofNat ?_
    simp [leadBits]
    omega
  · refine ⟨_, _, rfl, ?_⟩
    rw [← hof]
    refine congrArg Char.ofNat ?_
    simp [leadBits]
    omega
  · refine ⟨_, _, rfl, ?_⟩
    rw [← hof]
    refine congrArg Char.ofNat ?_
    simp [leadBits]
    omega
  · refine ⟨_, _, rfl, ?_⟩
    rw [← hof]
    refine congrArg Char.ofNat ?_
    simp [leadBits]
    omega

theorem utf8Char?_eq_some {width : ℕ} {bytes rest : List UInt8} {c : Char}
    (h : utf8Char? width bytes = some (c, rest)) : bytes = String.utf8EncodeChar c ++ rest := by
  rw [utf8Char?] at h
  cases htake : bytes.take width with
  | nil => simp [htake] at h
  | cons b more =>
    simp only [htake] at h
    split at h
    case isFalse => cases h
    case isTrue hencode =>
      obtain ⟨rfl, rfl⟩ := Prod.mk.inj (Option.some.inj h)
      rw [hencode, ← htake, List.take_append_drop]

theorem utf8Char?_encode (c : Char) (rest : List UInt8) :
    utf8Char? c.utf8Size (String.utf8EncodeChar c ++ rest) = some (c, rest) := by
  obtain ⟨b, more, hencode, hchar⟩ := ofNat_leadBits c
  have hlength : (String.utf8EncodeChar c).length = c.utf8Size := String.length_utf8EncodeChar c
  rw [utf8Char?, List.take_left' hlength, List.drop_left' hlength, hencode]
  simp only [hchar]
  rw [if_pos hencode]

/-- The first character is found, whatever widths are tried before its own. -/
theorem findSome_utf8Char? (c : Char) (rest : List UInt8) :
    ([1, 2, 3, 4].findSome? fun width => utf8Char? width (String.utf8EncodeChar c ++ rest)) =
      some (c, rest) := by
  have hwidth : c.utf8Size ∈ [1, 2, 3, 4] := by
    have hpos := c.utf8Size_pos
    have hle := c.utf8Size_le_four
    simp
    omega
  have hsome : ([1, 2, 3, 4].findSome? fun width =>
      utf8Char? width (String.utf8EncodeChar c ++ rest)).isSome = true :=
    List.findSome?_isSome_iff.mpr ⟨_, hwidth, by rw [utf8Char?_encode]; rfl⟩
  obtain ⟨⟨c', rest'⟩, hfound⟩ := Option.isSome_iff_exists.mp hsome
  obtain ⟨width, -, hchar⟩ := List.exists_of_findSome?_eq_some hfound
  obtain ⟨rfl, rfl⟩ := utf8EncodeChar_append_inj (utf8Char?_eq_some hchar)
  exact hfound

theorem decodeUtf8From_encodeUtf8 {fuel : ℕ} {cs : List Char} (h : cs.length ≤ fuel) :
    decodeUtf8From fuel (encodeUtf8 cs) = some cs := by
  induction cs generalizing fuel with
  | nil => cases fuel <;> rfl
  | cons c cs ih =>
    obtain ⟨fuel, rfl⟩ := Nat.exists_eq_succ_of_ne_zero (Nat.ne_zero_of_lt h)
    have hcons : encodeUtf8 (c :: cs) = String.utf8EncodeChar c ++ encodeUtf8 cs :=
      List.flatMap_cons
    have hfound := findSome_utf8Char? c (encodeUtf8 cs)
    obtain ⟨b, more, hencode, -⟩ := ofNat_leadBits c
    rw [hcons]
    rw [hencode, List.cons_append] at hfound ⊢
    rw [decodeUtf8From, hfound]
    simp only [ih (Nat.le_of_succ_le_succ h), Option.map_some]
    exact List.cons_ne_nil _ _

/-- Reading back what was written. -/
theorem decodeUtf8_encodeUtf8 (cs : List Char) : decodeUtf8 (encodeUtf8 cs) = some cs := by
  refine decodeUtf8From_encodeUtf8 ?_
  induction cs with
  | nil => exact Nat.le_refl _
  | cons c cs ih =>
    have hcons : encodeUtf8 (c :: cs) = String.utf8EncodeChar c ++ encodeUtf8 cs :=
      List.flatMap_cons
    have hpos := c.utf8Size_pos
    rw [hcons, List.length_append, String.length_utf8EncodeChar, List.length_cons]
    omega

/-- Writing what was read. -/
theorem encodeUtf8_of_decode {fuel : ℕ} {bytes : List UInt8} {cs : List Char}
    (h : decodeUtf8From fuel bytes = some cs) : encodeUtf8 cs = bytes := by
  induction fuel generalizing bytes cs with
  | zero =>
    cases bytes with
    | nil => rw [← Option.some.inj h]; rfl
    | cons => cases h
  | succ fuel ih =>
    cases bytes with
    | nil => rw [← Option.some.inj h]; rfl
    | cons b bytes =>
      rw [decodeUtf8From] at h
      · cases hfound : [1, 2, 3, 4].findSome? fun width => utf8Char? width (b :: bytes) with
        | none => simp [hfound] at h
        | some found =>
          obtain ⟨width, -, hchar⟩ := List.exists_of_findSome?_eq_some hfound
          simp only [hfound] at h
          obtain ⟨rest, hrest, rfl⟩ := Option.map_eq_some_iff.mp h
          rw [utf8Char?_eq_some hchar, ← ih hrest]
          rfl
      · exact List.cons_ne_nil _ _

/-! ### UTF-16 -/

theorem toNat_ofNat {n : ℕ} (h : n < 0xD800 ∨ 0xE000 ≤ n ∧ n < 0x110000) :
    (Char.ofNat n).toNat = n := by
  have hvalid : n.isValidChar := by
    rw [Nat.isValidChar]
    omega
  rw [Char.ofNat, dif_pos hvalid]
  rfl

/-- A character is no surrogate. -/
theorem toNat_range (c : Char) : c.toNat < 0xD800 ∨ 0xE000 ≤ c.toNat ∧ c.toNat < 0x110000 := by
  have hvalid := c.valid
  rw [UInt32.isValidChar, Nat.isValidChar] at hvalid
  change c.val.toNat < _ ∨ _ ≤ c.val.toNat ∧ c.val.toNat < _
  omega

theorem decodeUtf16_cons {u : ℕ} (h : ¬(0xD800 ≤ u ∧ u < 0xE000)) (rest : List ℕ) :
    decodeUtf16 (u :: rest) = (decodeUtf16 rest).map (Char.ofNat u :: ·) := by
  cases rest with
  | nil => simp [decodeUtf16, h]
  | cons v rest =>
    have hhigh : ¬(0xD800 ≤ u ∧ u < 0xDC00) := by omega
    have hlow : ¬(0xDC00 ≤ u ∧ u < 0xE000) := by omega
    rw [decodeUtf16, if_neg hhigh, if_neg hlow]

theorem decodeUtf16_pair {u v : ℕ} (hu : 0xD800 ≤ u ∧ u < 0xDC00) (hv : 0xDC00 ≤ v ∧ v < 0xE000)
    (rest : List ℕ) : decodeUtf16 (u :: v :: rest) = (decodeUtf16 rest).map
      (Char.ofNat (0x10000 + 0x400 * (u - 0xD800) + (v - 0xDC00)) :: ·) := by
  rw [decodeUtf16, if_pos hu, if_pos hv]

/-- Reading back what was written. -/
theorem decodeUtf16_encodeUtf16 (cs : List Char) :
    decodeUtf16 (cs.flatMap encodeUtf16) = some cs := by
  induction cs with
  | nil => rfl
  | cons c cs ih =>
    have hrange := toNat_range c
    have hchar := Char.ofNat_toNat c
    rw [List.flatMap_cons, encodeUtf16]
    generalize c.toNat = n at hrange hchar ⊢
    split_ifs with hplane
    · rw [List.singleton_append, decodeUtf16_cons (by omega), ih, Option.map_some, hchar]
    · have hsum : 0x10000 + 0x400 * (0xD800 + (n - 0x10000) / 0x400 - 0xD800) +
          (0xDC00 + (n - 0x10000) % 0x400 - 0xDC00) = n := by omega
      rw [List.cons_append, List.cons_append, List.nil_append,
        decodeUtf16_pair (by omega) (by omega), ih, Option.map_some, hsum, hchar]

/-- A character of the basic plane, and one of another plane. -/
theorem encodeUtf16_ofNat {u : ℕ} (hu : u < 0x10000) (h : ¬(0xD800 ≤ u ∧ u < 0xE000)) :
    encodeUtf16 (Char.ofNat u) = [u] := by
  rw [encodeUtf16, toNat_ofNat (by omega), if_pos hu]

theorem encodeUtf16_pair {u v : ℕ} (hu : 0xD800 ≤ u ∧ u < 0xDC00)
    (hv : 0xDC00 ≤ v ∧ v < 0xE000) :
    encodeUtf16 (Char.ofNat (0x10000 + 0x400 * (u - 0xD800) + (v - 0xDC00))) = [u, v] := by
  have hchar := toNat_ofNat (n := 0x10000 + 0x400 * (u - 0xD800) + (v - 0xDC00)) (by omega)
  have hhigh : 0xD800 + (0x10000 + 0x400 * (u - 0xD800) + (v - 0xDC00) - 0x10000) / 0x400 = u := by
    omega
  have hlow : 0xDC00 + (0x10000 + 0x400 * (u - 0xD800) + (v - 0xDC00) - 0x10000) % 0x400 = v := by
    omega
  rw [encodeUtf16, hchar, if_neg (by omega), hhigh, hlow]

/-- Writing what was read. -/
theorem encodeUtf16_of_decode {us : List ℕ} {cs : List Char} (hus : ∀ u ∈ us, u < 0x10000)
    (h : decodeUtf16 us = some cs) : cs.flatMap encodeUtf16 = us := by
  fun_induction decodeUtf16 us generalizing cs with
  | case1 => rw [← Option.some.inj h, List.flatMap_nil]
  | case2 => cases h
  | case3 u hu =>
    rw [← Option.some.inj h, List.flatMap_singleton,
      encodeUtf16_ofNat (hus u List.mem_cons_self) hu]
  | case4 u v rest hu hv ih =>
    obtain ⟨cs, hcs, rfl⟩ := Option.map_eq_some_iff.mp h
    have hrest := (List.forall_mem_cons.mp (List.forall_mem_cons.mp hus).2).2
    rw [List.flatMap_cons, encodeUtf16_pair hu hv, ih hrest hcs]
    rfl
  | case5 => cases h
  | case6 => cases h
  | case7 u v rest hhigh hlow ih =>
    obtain ⟨cs, hcs, rfl⟩ := Option.map_eq_some_iff.mp h
    obtain ⟨hu, hrest⟩ := List.forall_mem_cons.mp hus
    rw [List.flatMap_cons, encodeUtf16_ofNat hu (by omega), ih hrest hcs]
    rfl

/-- `u16::to_le_bytes`, of each. -/
def leBytes (us : List ℕ) : List UInt8 :=
  us.flatMap fun u => [UInt8.ofNat (u % 256), UInt8.ofNat (u / 256)]

theorem u16s_leBytes {us : List ℕ} (h : ∀ u ∈ us, u < 0x10000) : u16s (leBytes us) = us := by
  induction us with
  | nil => rfl
  | cons u us ih =>
    obtain ⟨hu, hus⟩ := List.forall_mem_cons.mp h
    have hcons : leBytes (u :: us) =
        UInt8.ofNat (u % 256) :: UInt8.ofNat (u / 256) :: leBytes us := rfl
    have hlow : (UInt8.ofNat (u % 256)).toNat = u % 256 := by
      rw [UInt8.toNat_ofNat']
      omega
    have hhigh : (UInt8.ofNat (u / 256)).toNat = u / 256 := by
      rw [UInt8.toNat_ofNat']
      omega
    rw [hcons, u16s, ih hus, hlow, hhigh, Nat.mod_add_div]

/-- The byte that is left over of pairs. -/
def oddByte : List UInt8 → List UInt8
  | _ :: _ :: rest => oddByte rest
  | bytes => bytes

/-- The pairs are written back, without a byte that is left over. -/
theorem leBytes_u16s (bytes : List UInt8) : bytes = leBytes (u16s bytes) ++ oddByte bytes := by
  fun_induction u16s bytes with
  | case1 low high rest ih =>
    have hlow := low.toNat_lt
    have hhigh := high.toNat_lt
    have hlow' : (low.toNat + 256 * high.toNat) % 256 = low.toNat := by omega
    have hhigh' : (low.toNat + 256 * high.toNat) / 256 = high.toNat := by omega
    have hcons : leBytes ((low.toNat + 256 * high.toNat) :: u16s rest) =
        low :: high :: leBytes (u16s rest) := by
      rw [leBytes, List.flatMap_cons, hlow', hhigh', UInt8.ofNat_toNat, UInt8.ofNat_toNat]
      rfl
    rw [hcons, oddByte, List.cons_append, List.cons_append, ← ih]
  | case2 bytes h =>
    cases bytes with
    | nil => rfl
    | cons low bytes =>
      cases bytes with
      | nil => rfl
      | cons high rest => exact absurd rfl (h low high rest)

theorem u16s_lt (bytes : List UInt8) : ∀ u ∈ u16s bytes, u < 0x10000 := by
  fun_induction u16s bytes with
  | case1 low high rest ih =>
    have hlow := low.toNat_lt
    have hhigh := high.toNat_lt
    exact List.forall_mem_cons.mpr ⟨by omega, ih⟩
  | case2 => exact List.forall_mem_nil _

end T3Claw.Files
