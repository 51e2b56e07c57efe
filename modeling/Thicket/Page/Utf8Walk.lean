import Mathlib.Data.Nat.Bitwise
import Thicket.Page.Callbacks

/-! # Three readers of UTF-8

Layout steps over a run with `seq_len`, drawing steps over the chunk of one cell with `next_cp`, and
the heading ladder decodes the chunk by itself. They agree on a chunk whose continuation bytes are
all there, up to overlong sequences of four bytes; on the others `next_cp` stops early and draws the
rest of the chunk again, or the ladder looks up a codepoint that is not drawn. -/

namespace Thicket.Page

open Thicket.Lcd Thicket.Page.Span PageRenderer

/-! ## Bytes as numbers -/

/-- A continuation byte, as `next_cp` tests it. -/
def IsTail (b : UInt8) : Prop := b &&& 0xC0 = 0x80

instance (b : UInt8) : Decidable (IsTail b) := inferInstanceAs (Decidable (_ = _))

/-- The masks of the first byte and of continuation bytes, on numbers. -/
theorem mask_ranges : ∀ n < 256, (n &&& 0xE0 = 0xC0 ↔ 192 ≤ n ∧ n < 224) ∧
    (n &&& 0xF0 = 0xE0 ↔ 224 ≤ n ∧ n < 240) ∧ (n &&& 0xF8 = 0xF0 ↔ 240 ≤ n ∧ n < 248) ∧
    (n &&& 0xC0 = 0x80 ↔ 128 ≤ n ∧ n < 192) := by
  decide +kernel

/-- The first byte of two. -/
theorem isLead2_iff (c : UInt8) : c &&& 0xE0 = 0xC0 ↔ 192 ≤ c.toNat ∧ c.toNat < 224 := by
  rw [← UInt8.toNat_inj, UInt8.toNat_and]
  exact (mask_ranges c.toNat c.toNat_lt).1

/-- The first byte of three. -/
theorem isLead3_iff (c : UInt8) : c &&& 0xF0 = 0xE0 ↔ 224 ≤ c.toNat ∧ c.toNat < 240 := by
  rw [← UInt8.toNat_inj, UInt8.toNat_and]
  exact (mask_ranges c.toNat c.toNat_lt).2.1

/-- The first byte of four. -/
theorem isLead4_iff (c : UInt8) : c &&& 0xF8 = 0xF0 ↔ 240 ≤ c.toNat ∧ c.toNat < 248 := by
  rw [← UInt8.toNat_inj, UInt8.toNat_and]
  exact (mask_ranges c.toNat c.toNat_lt).2.2.1

/-- A continuation byte. -/
theorem isTail_iff (c : UInt8) : IsTail c ↔ 128 ≤ c.toNat ∧ c.toNat < 192 := by
  rw [IsTail, ← UInt8.toNat_inj, UInt8.toNat_and]
  exact (mask_ranges c.toNat c.toNat_lt).2.2.2

/-- One byte is ASCII, or no first byte at all. -/
theorem of_seqLen_one {c : UInt8} (h : seqLen c = 1) :
    c < 0x80 ∨ (¬ c < 0x80 ∧ ¬ c &&& 0xE0 = 0xC0 ∧ ¬ c &&& 0xF0 = 0xE0 ∧ ¬ c &&& 0xF8 = 0xF0) := by
  rw [seqLen] at h
  split_ifs at h <;> simp_all

/-- The first byte of two. -/
theorem of_seqLen_two {c : UInt8} (h : seqLen c = 2) : ¬ c < 0x80 ∧ c &&& 0xE0 = 0xC0 := by
  rw [seqLen] at h
  split_ifs at h <;> simp_all

/-- The first byte of three. -/
theorem of_seqLen_three {c : UInt8} (h : seqLen c = 3) :
    ¬ c < 0x80 ∧ ¬ c &&& 0xE0 = 0xC0 ∧ c &&& 0xF0 = 0xE0 := by
  rw [seqLen] at h
  split_ifs at h <;> simp_all

/-- The first byte of four. -/
theorem of_seqLen_four {c : UInt8} (h : seqLen c = 4) :
    ¬ c < 0x80 ∧ ¬ c &&& 0xE0 = 0xC0 ∧ ¬ c &&& 0xF0 = 0xE0 ∧ c &&& 0xF8 = 0xF0 := by
  rw [seqLen] at h
  split_ifs at h <;> simp_all

/-- A sequence has one to four bytes. -/
theorem seqLen_cases (c : UInt8) : seqLen c = 1 ∨ seqLen c = 2 ∨ seqLen c = 3 ∨ seqLen c = 4 := by
  rw [seqLen]
  split_ifs <;> simp

/-- Six more bits. -/
theorem toNat_push6 {a b : UInt32} (ha : a.toNat < 2 ^ 26) (hb : b.toNat < 64) :
    (a <<< 6 ||| b).toNat = a.toNat * 64 + b.toNat := by
  have hsix : (6 : UInt32).toNat % 32 = 6 := rfl
  rw [UInt32.toNat_or, UInt32.toNat_shiftLeft, hsix,
    Nat.mod_eq_of_lt (by rw [Nat.shiftLeft_eq]; omega),
    ← Nat.shiftLeft_add_eq_or_of_lt (by omega), Nat.shiftLeft_eq]

/-- The payload of a continuation byte. -/
theorem toNat_tailBits (b : UInt8) : (b &&& 0x3F).toUInt32.toNat = b.toNat % 64 := by
  rw [UInt8.toNat_toUInt32, UInt8.toNat_and]
  exact Nat.and_two_pow_sub_one_eq_mod b.toNat 6

/-- The payload of a first byte of two. -/
theorem toNat_lead2Bits (c : UInt8) : (c &&& 0x1F).toUInt32.toNat = c.toNat % 32 := by
  rw [UInt8.toNat_toUInt32, UInt8.toNat_and]
  exact Nat.and_two_pow_sub_one_eq_mod c.toNat 5

/-- The payload of a first byte of three. -/
theorem toNat_lead3Bits (c : UInt8) : (c &&& 0x0F).toUInt32.toNat = c.toNat % 16 := by
  rw [UInt8.toNat_toUInt32, UInt8.toNat_and]
  exact Nat.and_two_pow_sub_one_eq_mod c.toNat 4

/-- The payload of a first byte of four. -/
theorem toNat_lead4Bits (c : UInt8) : (c &&& 0x07).toUInt32.toNat = c.toNat % 8 := by
  rw [UInt8.toNat_toUInt32, UInt8.toNat_and]
  exact Nat.and_two_pow_sub_one_eq_mod c.toNat 3

/-! ## `next_cp` on one chunk -/

/-- A chunk is drawn as one glyph when the first step of `next_cp` ends at its terminator. -/
theorem length_codepoints_eq_one_iff {g : List UInt8} (h : peek g ≠ 0) :
    (codepoints g).length = 1 ↔ peek (nextCp g).2 = 0 := by
  rw [codepoints_eq, if_neg h, List.length_cons, Nat.add_eq_right, List.length_eq_zero_iff,
    codepoints_eq]
  split <;> simp [*]

/-- One byte: itself, or the replacement character. -/
theorem nextCp_one {c : UInt8} (h : seqLen c = 1) :
    nextCp [c] = (if c < 0x80 then c.toUInt32 else 0xFFFD, []) := by
  rcases of_seqLen_one h with h1 | ⟨h1, h2, h3, h4⟩
  · simp [nextCp, peek, h1]
  · simp [nextCp, peek, h1, h2, h3, h4]

/-- Two bytes: the step takes the continuation byte if it is one. -/
theorem nextCp_two {c : UInt8} (h : seqLen c = 2) (b : UInt8) :
    nextCp [c, b] = if IsTail b then ((c &&& 0x1F).toUInt32 <<< 6 ||| (b &&& 0x3F).toUInt32, [])
      else (0xFFFD, [b]) := by
  obtain ⟨h1, h2⟩ := of_seqLen_two h
  by_cases hb : b &&& 0xC0 = 0x80 <;> simp [IsTail, nextCp, nextCpExtra, peek, h1, h2, hb]

/-- Three bytes. -/
theorem nextCp_three {c : UInt8} (h : seqLen c = 3) (b d : UInt8) :
    nextCp [c, b, d] =
      if IsTail b then
        if IsTail d then (((c &&& 0x0F).toUInt32 <<< 6 ||| (b &&& 0x3F).toUInt32) <<< 6
          ||| (d &&& 0x3F).toUInt32, [])
        else (0xFFFD, [d])
      else (0xFFFD, [b, d]) := by
  obtain ⟨h1, h2, h3⟩ := of_seqLen_three h
  by_cases hb : b &&& 0xC0 = 0x80 <;> by_cases hd : d &&& 0xC0 = 0x80 <;>
    simp [IsTail, nextCp, nextCpExtra, peek, h1, h2, h3, hb, hd]

/-- Four bytes. -/
theorem nextCp_four {c : UInt8} (h : seqLen c = 4) (b d e : UInt8) :
    nextCp [c, b, d, e] =
      if IsTail b then
        if IsTail d then
          if IsTail e then ((((c &&& 0x07).toUInt32 <<< 6 ||| (b &&& 0x3F).toUInt32) <<< 6
            ||| (d &&& 0x3F).toUInt32) <<< 6 ||| (e &&& 0x3F).toUInt32, [])
          else (0xFFFD, [e])
        else (0xFFFD, [d, e])
      else (0xFFFD, [b, d, e]) := by
  obtain ⟨h1, h2, h3, h4⟩ := of_seqLen_four h
  by_cases hb : b &&& 0xC0 = 0x80 <;> by_cases hd : d &&& 0xC0 = 0x80 <;>
    by_cases he : e &&& 0xC0 = 0x80 <;>
    simp [IsTail, nextCp, nextCpExtra, peek, h1, h2, h3, h4, hb, hd, he]

/-! ## Coverage of the heading faces -/

/-- Printable ASCII and Latin-1, which is what the large heading face carries. -/
def Latin1 (cp : Nat) : Prop := (0x20 ≤ cp ∧ cp ≤ 0x7E) ∨ (0xA0 ≤ cp ∧ cp ≤ 0xFF)

instance (cp : Nat) : Decidable (Latin1 cp) := inferInstanceAs (Decidable (_ ∨ _))

/-- The generated heading tables: `BIGFONT` holds Latin-1, `BOLD7` and `BOLD8` a part of it. -/
structure LatinFaces (o : Options) : Prop where
  /-- The face of depth 1. -/
  big : ∀ cp, headHas o .h1 cp = true ↔ Latin1 cp.toNat
  /-- Every face. -/
  part : ∀ want cp, headHas o want cp = true → Latin1 cp.toNat

/-- A codepoint that no face carries is covered alike with the codepoints that none carries. -/
theorem LatinFaces.alike_iff {o : Options} (ho : LatinFaces o) {cp cp' : UInt32}
    (h : ¬ Latin1 cp'.toNat) :
    (∀ want, headHas o want cp = headHas o want cp') ↔ ¬ Latin1 cp.toNat := by
  have hno : ∀ want, headHas o want cp' = false := by
    intro want
    rw [← Bool.not_eq_true]
    exact fun hhas => h (ho.part want cp' hhas)
  constructor
  · intro hall hlatin
    have hbig := (ho.big cp).mpr hlatin
    rw [hall .h1, hno .h1] at hbig
    cases hbig
  · intro hlatin want
    rw [hno want, ← Bool.not_eq_true]
    exact fun hhas => hlatin (ho.part want cp hhas)

/-! ## One chunk -/

/-- The three readers agree on the chunk of a cell: `next_cp` draws it in one step, and every
heading face carries what the ladder decodes exactly when it carries what is drawn. -/
structure ReadAlike (o : Options) (t : Span) (k : Nat) : Prop where
  /-- One glyph. -/
  one : (codepoints (t.glyph k)).length = 1
  /-- One coverage. -/
  covered : ∀ want, headHas o want (headCodepoint t k) = headHas o want (codepointOf (t.glyph k))

/-- **Where the readers agree**, by the bytes of the chunk. One byte: not a stray byte that is a
letter in Latin-1. More bytes: all continuation bytes are there, and four do not spell a Latin-1
letter; or the first that is not there is a terminator behind the run, and what the ladder puts
together over it is not in Latin-1. -/
def ChunkAgrees (t : Span) (k : Nat) : Prop :=
  let c := t.byte k
  let b := t.byte (k + 1)
  let d := t.byte (k + 2)
  let e := t.byte (k + 3)
  match t.seqLenAt k with
  | 1 => c < 0xA0
  | 2 => IsTail b ∨ (b = 0 ∧ c ≠ 0xC1 ∧ c ≠ 0xC3)
  | 3 =>
      (IsTail b ∧ IsTail d) ∨ (b = 0 ∧ ¬ (c = 0xE0 ∧ 0x20 ≤ d &&& 0x3F)) ∨
        (IsTail b ∧ d = 0 ∧ ¬ (c = 0xE0 ∧ (b = 0x81 ∨ b = 0x83)))
  | _ =>
      (IsTail b ∧ IsTail d ∧ IsTail e ∧ ¬ (c = 0xF0 ∧ b = 0x80 ∧
        ((d = 0x80 ∧ 0xA0 ≤ e) ∨ (d = 0x81 ∧ e ≠ 0xBF) ∨ (d = 0x82 ∧ 0xA0 ≤ e) ∨ d = 0x83))) ∨
        b = 0 ∨ (IsTail b ∧ d = 0) ∨ (IsTail b ∧ IsTail d ∧ e = 0)

/-- The glyph of a chunk, byte by byte. -/
theorem glyph_eq (t : Span) (k : Nat) :
    (t.seqLenAt k = 1 → t.glyph k = [t.byte k]) ∧
      (t.seqLenAt k = 2 → t.glyph k = [t.byte k, t.byte (k + 1)]) ∧
      (t.seqLenAt k = 3 → t.glyph k = [t.byte k, t.byte (k + 1), t.byte (k + 2)]) ∧
      (t.seqLenAt k = 4 →
        t.glyph k = [t.byte k, t.byte (k + 1), t.byte (k + 2), t.byte (k + 3)]) := by
  refine ⟨?_, ?_, ?_, ?_⟩ <;> intro h <;> simp [glyph, h, List.range_succ]

/-- The replacement character is in no heading face. -/
theorem not_latin1_replacement : ¬ Latin1 (0xFFFD : UInt32).toNat := by decide

/-- What the ladder decodes from two bytes. -/
theorem toNat_head_two (c b : UInt8) :
    ((c &&& 0x1F).toUInt32 <<< 6 ||| (b &&& 0x3F).toUInt32).toNat
      = c.toNat % 32 * 64 + b.toNat % 64 := by
  have hc := toNat_lead2Bits c
  have hb := toNat_tailBits b
  rw [toNat_push6 (by omega) (by omega), hc, hb]

/-- What the ladder decodes from three bytes is what `next_cp` decodes from whole ones. -/
theorem head_three_eq (c b d : UInt8) :
    (c &&& 0x0F).toUInt32 <<< 12 ||| (b &&& 0x3F).toUInt32 <<< 6 ||| (d &&& 0x3F).toUInt32
      = ((c &&& 0x0F).toUInt32 <<< 6 ||| (b &&& 0x3F).toUInt32) <<< 6
        ||| (d &&& 0x3F).toUInt32 := by
  have htwelve (a : UInt32) : a <<< 6 <<< 6 = a <<< 12 :=
    (UInt32.shiftLeft_add (by decide) (by decide) (by decide)).symm
  rw [UInt32.shiftLeft_or, htwelve]

/-- What three bytes spell. -/
theorem toNat_head_three (c b d : UInt8) :
    (((c &&& 0x0F).toUInt32 <<< 6 ||| (b &&& 0x3F).toUInt32) <<< 6
        ||| (d &&& 0x3F).toUInt32).toNat
      = (c.toNat % 16 * 64 + b.toNat % 64) * 64 + d.toNat % 64 := by
  have hc := toNat_lead3Bits c
  have hb := toNat_tailBits b
  have hd := toNat_tailBits d
  have hcb : ((c &&& 0x0F).toUInt32 <<< 6 ||| (b &&& 0x3F).toUInt32).toNat
      = c.toNat % 16 * 64 + b.toNat % 64 := by
    rw [toNat_push6 (by omega) (by omega), hc, hb]
  rw [toNat_push6 (by omega) (by omega), hcb, hd]

/-- What four bytes spell. -/
theorem toNat_four (c b d e : UInt8) :
    ((((c &&& 0x07).toUInt32 <<< 6 ||| (b &&& 0x3F).toUInt32) <<< 6
        ||| (d &&& 0x3F).toUInt32) <<< 6 ||| (e &&& 0x3F).toUInt32).toNat
      = ((c.toNat % 8 * 64 + b.toNat % 64) * 64 + d.toNat % 64) * 64 + e.toNat % 64 := by
  have hc := toNat_lead4Bits c
  have hb := toNat_tailBits b
  have hd := toNat_tailBits d
  have he := toNat_tailBits e
  have hcb : ((c &&& 0x07).toUInt32 <<< 6 ||| (b &&& 0x3F).toUInt32).toNat
      = c.toNat % 8 * 64 + b.toNat % 64 := by
    rw [toNat_push6 (by omega) (by omega), hc, hb]
  have hcbd : (((c &&& 0x07).toUInt32 <<< 6 ||| (b &&& 0x3F).toUInt32) <<< 6
      ||| (d &&& 0x3F).toUInt32).toNat
      = (c.toNat % 8 * 64 + b.toNat % 64) * 64 + d.toNat % 64 := by
    rw [toNat_push6 (by omega) (by omega), hcb, hd]
  rw [toNat_push6 (by omega) (by omega), hcbd, he]

variable {o : Options} {t : Span} {k : Nat}

/-- A chunk that begins with a byte is read alike when the step of `next_cp` ends at the terminator
and the coverage is the same. -/
theorem readAlike_iff (h0 : t.byte k ≠ 0) :
    ReadAlike o t k ↔ peek (nextCp (t.glyph k)).2 = 0 ∧
      ∀ want, headHas o want (headCodepoint t k) = headHas o want (nextCp (t.glyph k)).1 := by
  have hpeek : peek (t.glyph k) = t.byte k := by
    obtain ⟨n, hn⟩ := Nat.exists_eq_succ_of_ne_zero (t.seqLenAt_pos k).ne'
    simp [glyph, hn, List.range_succ_eq_map, peek]
  rw [← length_codepoints_eq_one_iff (hpeek ▸ h0)]
  exact ⟨fun h => ⟨h.one, h.covered⟩, fun h => ⟨h.1, h.2⟩⟩

/-- One byte. -/
theorem readAlike_one (ho : LatinFaces o) (h0 : t.byte k ≠ 0) (h : t.seqLenAt k = 1) :
    ReadAlike o t k ↔ t.byte k < 0xA0 := by
  have hhead : headCodepoint t k = (t.byte k).toUInt32 := by simp [headCodepoint, h]
  rw [readAlike_iff h0, (glyph_eq t k).1 h, nextCp_one h, hhead]
  have hlt : t.byte k < 0xA0 ↔ (t.byte k).toNat < 160 := UInt8.lt_iff_toNat_lt
  have hsmall : t.byte k < 0x80 ↔ (t.byte k).toNat < 128 := UInt8.lt_iff_toNat_lt
  by_cases hascii : t.byte k < 0x80
  · simp only [if_pos hascii, implies_true, and_true]
    exact ⟨fun _ => hlt.mpr (by have := hsmall.mp hascii; omega), fun _ => rfl⟩
  · simp only [if_neg hascii]
    rw [ho.alike_iff not_latin1_replacement, UInt8.toNat_toUInt32, hlt, Latin1]
    have hbig := (t.byte k).toNat_lt
    have hnot : ¬ (t.byte k).toNat < 128 := fun hc => hascii (hsmall.mpr hc)
    constructor
    · rintro ⟨-, hno⟩
      omega
    · intro hno
      exact ⟨rfl, by omega⟩

/-- Two bytes. -/
theorem readAlike_two (ho : LatinFaces o) (h0 : t.byte k ≠ 0) (h : t.seqLenAt k = 2) :
    ReadAlike o t k ↔ IsTail (t.byte (k + 1)) ∨
      (t.byte (k + 1) = 0 ∧ t.byte k ≠ 0xC1 ∧ t.byte k ≠ 0xC3) := by
  have hhead : headCodepoint t k
      = (t.byte k &&& 0x1F).toUInt32 <<< 6 ||| (t.byte (k + 1) &&& 0x3F).toUInt32 := by
    simp [headCodepoint, h]
  have hlead := (isLead2_iff _).mp (of_seqLen_two h).2
  rw [readAlike_iff h0, (glyph_eq t k).2.1 h, nextCp_two h, hhead]
  generalize t.byte k = c at hlead
  generalize t.byte (k + 1) = b
  by_cases hb : IsTail b
  · simp [hb, peek]
  · rw [if_neg hb, ho.alike_iff not_latin1_replacement, toNat_head_two, Latin1]
    simp only [hb, false_or, peek, List.headD_cons, ne_eq, ← UInt8.toNat_inj, UInt8.reduceToNat]
    omega

/-- Three bytes. -/
theorem readAlike_three (ho : LatinFaces o) (h0 : t.byte k ≠ 0) (h : t.seqLenAt k = 3) :
    ReadAlike o t k ↔
      (IsTail (t.byte (k + 1)) ∧ IsTail (t.byte (k + 2))) ∨
        (t.byte (k + 1) = 0 ∧ ¬ (t.byte k = 0xE0 ∧ 0x20 ≤ t.byte (k + 2) &&& 0x3F)) ∨
        (IsTail (t.byte (k + 1)) ∧ t.byte (k + 2) = 0 ∧
          ¬ (t.byte k = 0xE0 ∧ (t.byte (k + 1) = 0x81 ∨ t.byte (k + 1) = 0x83))) := by
  have hhead : headCodepoint t k
      = ((t.byte k &&& 0x0F).toUInt32 <<< 6 ||| (t.byte (k + 1) &&& 0x3F).toUInt32) <<< 6
        ||| (t.byte (k + 2) &&& 0x3F).toUInt32 := by
    rw [← head_three_eq]
    simp [headCodepoint, h]
  have hlead := (isLead3_iff _).mp (of_seqLen_three h).2.2
  rw [readAlike_iff h0, (glyph_eq t k).2.2.1 h, nextCp_three h, hhead]
  generalize t.byte k = c at hlead
  generalize t.byte (k + 1) = b
  generalize t.byte (k + 2) = d
  have hbits : 0x20 ≤ d &&& 0x3F ↔ 32 ≤ d.toNat % 64 := by
    rw [UInt8.le_iff_toNat_le, UInt8.toNat_and]
    exact iff_of_eq (congrArg _ (Nat.and_two_pow_sub_one_eq_mod d.toNat 6))
  have hbt := isTail_iff b
  by_cases hb : IsTail b
  · by_cases hd : IsTail d
    · simp [hb, hd, peek]
    · -- the third byte is a terminator, or it is drawn again
      have hb' := hbt.mp hb
      rw [if_pos hb, if_neg hd, ho.alike_iff not_latin1_replacement, toNat_head_three, Latin1]
      simp only [hb, hd, hbits, peek, List.headD_cons, ← UInt8.toNat_inj, UInt8.reduceToNat,
        and_false, true_and, false_or]
      omega
  · rw [if_neg hb, ho.alike_iff not_latin1_replacement, toNat_head_three, Latin1]
    simp only [hb, hbits, peek, List.headD_cons, ← UInt8.toNat_inj, UInt8.reduceToNat, false_and,
      or_false, false_or]
    omega

/-- Four bytes: the ladder takes a codepoint that no face carries. -/
theorem readAlike_four (ho : LatinFaces o) (h0 : t.byte k ≠ 0) (h : t.seqLenAt k = 4) :
    ReadAlike o t k ↔
      (IsTail (t.byte (k + 1)) ∧ IsTail (t.byte (k + 2)) ∧ IsTail (t.byte (k + 3)) ∧
        ¬ (t.byte k = 0xF0 ∧ t.byte (k + 1) = 0x80 ∧
          ((t.byte (k + 2) = 0x80 ∧ 0xA0 ≤ t.byte (k + 3)) ∨
            (t.byte (k + 2) = 0x81 ∧ t.byte (k + 3) ≠ 0xBF) ∨
            (t.byte (k + 2) = 0x82 ∧ 0xA0 ≤ t.byte (k + 3)) ∨ t.byte (k + 2) = 0x83))) ∨
        t.byte (k + 1) = 0 ∨ (IsTail (t.byte (k + 1)) ∧ t.byte (k + 2) = 0) ∨
        (IsTail (t.byte (k + 1)) ∧ IsTail (t.byte (k + 2)) ∧ t.byte (k + 3) = 0) := by
  have hhead : headCodepoint t k = 0xFFFF := by simp [headCodepoint, h]
  have hno : ¬ Latin1 (0xFFFF : UInt32).toNat := by decide
  have hlead := (isLead4_iff _).mp (of_seqLen_four h).2.2.2
  rw [readAlike_iff h0, (glyph_eq t k).2.2.2 h, nextCp_four h, hhead]
  generalize t.byte k = c at hlead
  generalize t.byte (k + 1) = b
  generalize t.byte (k + 2) = d
  generalize t.byte (k + 3) = e
  have hbt := isTail_iff b
  have hdt := isTail_iff d
  have het := isTail_iff e
  by_cases hb : IsTail b
  · have hb' := hbt.mp hb
    by_cases hd : IsTail d
    · have hd' := hdt.mp hd
      by_cases he : IsTail e
      · -- a whole sequence: the faces carry what it spells only if it is overlong
        have he' := het.mp he
        have hsym : ∀ cp, (∀ want, headHas o want 0xFFFF = headHas o want cp) ↔
            ¬ Latin1 cp.toNat := fun cp =>
          (forall_congr' fun want => eq_comm).trans (ho.alike_iff hno)
        rw [if_pos hb, if_pos hd, if_pos he, hsym, toNat_four, Latin1]
        simp only [hb, hd, he, peek, List.headD_nil, ne_eq, UInt8.le_iff_toNat_le,
          ← UInt8.toNat_inj, UInt8.reduceToNat, true_and]
        omega
      · rw [if_pos hb, if_pos hd, if_neg he, ho.alike_iff not_latin1_replacement]
        simp only [hb, hd, he, hno, peek, List.headD_cons, ← UInt8.toNat_inj, UInt8.reduceToNat,
          false_and, and_false, true_and, false_or, not_false_eq_true, and_true]
        omega
    · rw [if_pos hb, if_neg hd, ho.alike_iff not_latin1_replacement]
      simp only [hb, hd, hno, peek, List.headD_cons, ← UInt8.toNat_inj, UInt8.reduceToNat,
        false_and, and_false, true_and, false_or, or_false, not_false_eq_true, and_true]
      omega
  · rw [if_neg hb, ho.alike_iff not_latin1_replacement]
    simp only [hb, hno, peek, List.headD_cons, false_and, false_or, or_false, not_false_eq_true,
      and_true]

/-- **Where the readers agree on a chunk.** -/
theorem readAlike_iff_chunkAgrees (ho : LatinFaces o) (h0 : t.byte k ≠ 0) :
    ReadAlike o t k ↔ ChunkAgrees t k := by
  unfold ChunkAgrees
  rcases seqLen_cases (t.byte k) with h | h | h | h
  · have h' : t.seqLenAt k = 1 := h
    simp only [h']
    exact readAlike_one ho h0 h
  · have h' : t.seqLenAt k = 2 := h
    simp only [h']
    exact readAlike_two ho h0 h
  · have h' : t.seqLenAt k = 3 := h
    simp only [h']
    exact readAlike_three ho h0 h
  · have h' : t.seqLenAt k = 4 := h
    simp only [h']
    exact readAlike_four ho h0 h

/-- **The ladder decodes as the drawing does** up to three bytes, where the continuation bytes are
there. -/
theorem headCodepoint_of_tails (hascii : t.seqLenAt k = 1 → t.byte k < 0x80)
    (htails : ∀ b < t.seqLenAt k, 0 < b → IsTail (t.byte (k + b))) (hlen : t.seqLenAt k ≠ 4) :
    headCodepoint t k = codepointOf (t.glyph k) := by
  rcases seqLen_cases (t.byte k) with h | h | h | h
  · have h' : t.seqLenAt k = 1 := h
    rw [codepointOf, (glyph_eq t k).1 h, nextCp_one h, if_pos (hascii h)]
    simp [headCodepoint, h']
  · have h' : t.seqLenAt k = 2 := h
    rw [codepointOf, (glyph_eq t k).2.1 h, nextCp_two h,
      if_pos (htails 1 (by rw [h']; decide) Nat.one_pos)]
    simp [headCodepoint, h']
  · have h' : t.seqLenAt k = 3 := h
    rw [codepointOf, (glyph_eq t k).2.2.1 h, nextCp_three h,
      if_pos (htails 1 (by rw [h']; decide) Nat.one_pos),
      if_pos (htails 2 (by rw [h']; decide) (by decide)), ← head_three_eq]
    simp [headCodepoint, h']
  · exact absurd h hlen

/-! ## A whole string -/

/-- **Layout and drawing walk a string alike**: as many cells as glyphs, every chunk in one step,
and the ladder looks up what is drawn. -/
structure WalkedAlike (o : Options) (t : Span) : Prop where
  /-- The cells of the layout are the glyphs of the drawing. -/
  cells : t.cells 0 t.len = ((t.steps 0 t.len).flatMap fun k => codepoints (t.glyph k)).length
  /-- Every chunk is read alike. -/
  chunks : ∀ k ∈ t.steps 0 t.len, ReadAlike o t k

/-- Chunks of one glyph each are as many cells as glyphs. -/
theorem length_flatMap_codepoints (ks : List Nat)
    (h : ∀ k ∈ ks, (codepoints (t.glyph k)).length = 1) :
    (ks.flatMap fun k => codepoints (t.glyph k)).length = ks.length := by
  induction ks with
  | nil => rfl
  | cons k ks ih =>
    rw [List.flatMap_cons, List.length_append, h k List.mem_cons_self,
      ih fun j hj => h j (List.mem_cons_of_mem k hj), List.length_cons, Nat.add_comm]

/-- **Layout and drawing walk a string without a NUL alike** exactly when the readers agree on each
of its chunks. -/
theorem walkedAlike_iff (ho : LatinFaces o) (hnul : ∀ k < t.len, t.byte k ≠ 0) :
    WalkedAlike o t ↔ ∀ k ∈ t.steps 0 t.len, ChunkAgrees t k := by
  have hchunk : ∀ k ∈ t.steps 0 t.len, (ReadAlike o t k ↔ ChunkAgrees t k) := fun k hk =>
    readAlike_iff_chunkAgrees ho (hnul k (mem_positions hk).2)
  constructor
  · intro h k hk
    exact (hchunk k hk).mp (h.chunks k hk)
  · intro h
    have hall : ∀ k ∈ t.steps 0 t.len, ReadAlike o t k := fun k hk => (hchunk k hk).mpr (h k hk)
    exact ⟨(length_flatMap_codepoints _ fun k hk => (hall k hk).one).symm, hall⟩

/-- What `BOLD7` and `BOLD8` carry. -/
def boldLatin (cp : Nat) : Bool :=
  (0x20 ≤ cp && cp ≤ 0x7E) || (0xA0 ≤ cp && cp ≤ 0xA6) ||
    [0xA8, 0xA9, 0xAB, 0xAD, 0xB0, 0xB4, 0xB8, 0xBB].contains cp || (0xBF ≤ cp && cp ≤ 0xFF)

/-- Fonts with the coverage of the generated heading tables. -/
def latinFonts : Fonts :=
  { Display.blankFonts with
    big := fun cp => if Latin1 cp.toNat then some fun _ => 0 else none
    bold := fun _ cp => if boldLatin cp.toNat then some fun _ => 0 else none }

/-- They are Latin-1. -/
theorem latinFaces_latinFonts : LatinFaces { fonts := latinFonts } where
  big cp := by
    by_cases h : Latin1 cp.toNat <;> simp [headHas, latinFonts, h]
  part want cp := by
    intro h
    cases want with
    | h1 =>
      by_contra hno
      simp [headHas, latinFonts, hno] at h
    | none | h2 | h3 =>
      have hbold : boldLatin cp.toNat = true := by
        by_contra hno
        simp [headHas, latinFonts, hno] at h
      simp [boldLatin] at hbold
      rw [Latin1]
      omega

/-- A letter of two bytes is walked alike. -/
theorem walkedAlike_e_acute : WalkedAlike { fonts := latinFonts } (.ofList [0xC3, 0xA9]) := by
  refine (walkedAlike_iff latinFaces_latinFonts (by decide)).mpr ?_
  have hsteps : (Span.ofList [0xC3, 0xA9]).steps 0 (Span.ofList [0xC3, 0xA9]).len = [0] := rfl
  rw [hsteps, List.forall_mem_singleton]
  exact Or.inl (by decide)

/-- A first byte of two in front of a letter is one cell and two glyphs. -/
theorem lone_lead_byte_shears :
    ¬ ∀ (o : Options) (t : Span), LatinFaces o → (∀ k < t.len, t.byte k ≠ 0) →
      WalkedAlike o t := by
  intro hall
  have h := hall _ (.ofList [0xC3, 0x41]) latinFaces_latinFonts (by decide)
  have hone := (h.chunks 0 (by decide)).one
  exact absurd hone (by decide)

end Thicket.Page
