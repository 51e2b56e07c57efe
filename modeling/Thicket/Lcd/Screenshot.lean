import Mathlib.Data.List.TakeWhile
import Thicket.Lcd.VirtualPanel

/-! # Pictures of the screen

`VirtualPanel::write_pbm` and `write_pbm` of `desktop/browser.cpp` write the screen as a plain PBM,
each pixel blown up to a square; `scripts/pbm2png.py` reads such a file back, with its comments, and
makes the scan lines of a PNG of it. Compression and checksums are `zlib`'s, and opening the files
is taken to succeed. -/

namespace Thicket.Lcd

/-! ## Writing -/

/-- `if (scale == 0) scale = 1;`. -/
def pbmScale (scale : UInt8) : Nat := if scale = 0 then 1 else scale.toNat

/-- `%u`. -/
def unsigned (n : Nat) : List Char := Nat.toDigits 10 n

/-- A pixel: `1` is black. -/
def pbmDigit (black : Bool) : Char := if black then '1' else '0'

/-- The inner two loops: a line of the picture. -/
def pbmLine (pixel : UInt16 → UInt16 → Bool) (k y : Nat) : List Char :=
  (List.range lcdWidth).flatMap fun x =>
    List.replicate k (pbmDigit (pixel (UInt16.ofNat x) (UInt16.ofNat y)))

/-- **A P1 PBM** of a picture, with a comment. -/
def pbm (comment : String) (pixel : UInt16 → UInt16 → Bool) (scale : UInt8) : List Char :=
  let k := pbmScale scale
  "P1\n".toList ++ ("# ".toList ++ comment.toList ++ ['\n'])
    ++ (unsigned (lcdWidth * k) ++ ' ' :: unsigned (lcdHeight * k) ++ ['\n'])
    ++ (List.range lcdHeight).flatMap fun y =>
      (List.replicate k (pbmLine pixel k y ++ ['\n'])).flatten

/-- `VirtualPanel::write_pbm`. -/
def VirtualPanel.writePbm (p : VirtualPanel) (scale : UInt8) : List Char :=
  pbm "LS027B7DH01 virtual panel" p.pixel scale

/-- `write_pbm` of the browser. -/
def SharpLcd.writePbm (s : SharpLcd) (scale : UInt8) : List Char :=
  pbm "thicket browser frame" s.getPixel scale

/-! ## Reading -/

/-- `for raw in fh`: the lines of a file, with their ends. -/
def rawLines : List Char → List (List Char)
  | [] => []
  | '\n' :: rest => ['\n'] :: rawLines rest
  | c :: rest =>
      match rawLines rest with
      | [] => [[c]]
      | line :: lines => (c :: line) :: lines

/-- White space, for `bytes`. -/
def isSpaceByte (c : Char) : Bool :=
  c == ' ' || c == '\t' || c == '\n' || c == '\r' || c.toNat == 0x0B || c.toNat == 0x0C

/-- `bytes.strip`. -/
def stripBytes (s : List Char) : List Char :=
  ((s.dropWhile isSpaceByte).reverse.dropWhile isSpaceByte).reverse

/-- `raw.split(b"#", 1)[0].strip()`. -/
def pbmToken (raw : List Char) : List Char := stripBytes (raw.takeWhile (· ≠ '#'))

/-- `bytes.split`. -/
def splitBytes (s : List Char) : List (List Char) := (s.splitOnP isSpaceByte).filter (· ≠ [])

/-- The digits of an `int`, with single underscores between them. -/
def pyDigits (s : List Char) : Option Nat :=
  let groups := s.splitOn '_'
  if groups.all fun g => g ≠ [] && g.all Char.isDigit then
    some (Nat.ofDigitChars 10 groups.flatten 0)
  else none

/-- `int(v)`; nothing for a `ValueError`. -/
def pyInt (s : List Char) : Option Int :=
  match s with
  | '-' :: digits => (pyDigits digits).map fun n => -(n : Int)
  | '+' :: digits => (pyDigits digits).map Int.ofNat
  | digits => (pyDigits digits).map Int.ofNat

/-- **`read_pbm`**: width, height and pixels; nothing when it does not return. -/
def readPbm (file : List Char) : Option (Int × Int × List Char) :=
  match ((rawLines file).map pbmToken).filter (· ≠ []) with
  | magic :: size :: rest =>
      if magic ≠ "P1".toList then none
      else
        match (splitBytes size).map pyInt with
        | [some w, some h] =>
            let bits := rest.flatten.filter fun c => c == '0' || c == '1'
            if (bits.length : Int) ≠ w * h then none else some (w, h, bits)
        | _ => none
  | _ => none

/-- The scan lines that `write_png` compresses: each with no filter, black is zero. -/
def pngRows (w h : Nat) (bits : List Char) : List UInt8 :=
  (List.range h).flatMap fun y =>
    0 :: ((bits.drop (y * w)).take w).map fun c => if c = '1' then 0 else 255

/-! ## Lists of lists of one length -/

/-- An element of lists of one length that are joined. -/
theorem getElem?_flatMap_of_length {α β : Type} {l : List α} {f : α → List β} {n : Nat}
    (hf : ∀ a ∈ l, (f a).length = n) (i : Nat) {j : Nat} (hj : j < n) :
    (l.flatMap f)[i * n + j]? = l[i]?.bind fun a => (f a)[j]? := by
  induction l generalizing i with
  | nil => simp
  | cons a l ih =>
    have hlen := hf a List.mem_cons_self
    rw [List.flatMap_cons]
    cases i with
    | zero =>
      rw [Nat.zero_mul, Nat.zero_add, List.getElem?_append_left (by omega)]
      rfl
    | succ i =>
      have hskip : (i + 1) * n + j - (f a).length = i * n + j := by
        rw [hlen, Nat.succ_mul]
        omega
      have hle : (f a).length ≤ (i + 1) * n + j := by
        rw [hlen, Nat.succ_mul]
        omega
      rw [List.getElem?_append_right hle, hskip,
        ih (fun b hb => hf b (List.mem_cons_of_mem a hb)), List.getElem?_cons_succ]

/-- Joined, they are as long as all of them. -/
theorem length_flatMap_of_length {α β : Type} {l : List α} {f : α → List β} {n : Nat}
    (hf : ∀ a ∈ l, (f a).length = n) : (l.flatMap f).length = l.length * n := by
  induction l with
  | nil => simp
  | cons a l ih =>
    rw [List.flatMap_cons, List.length_append, hf a List.mem_cons_self,
      ih fun b hb => hf b (List.mem_cons_of_mem a hb), List.length_cons, Nat.succ_mul]
    omega

/-- **Blowing up**: an element of a list each of whose elements is repeated. -/
theorem getElem?_flatMap_replicate {α β : Type} (l : List α) (f : α → β) {k : Nat} (hk : 0 < k)
    (i : Nat) : (l.flatMap fun a => List.replicate k (f a))[i]? = l[i / k]?.map f := by
  have h := getElem?_flatMap_of_length (l := l) (f := fun a => List.replicate k (f a)) (n := k)
    (fun a _ => List.length_replicate) (i / k) (Nat.mod_lt i hk)
  rw [Nat.div_add_mod'] at h
  rw [h]
  cases l[i / k]? with
  | none => rfl
  | some a => simp [Nat.mod_lt i hk]

/-! ## Reading back -/

/-- The first line of a file. -/
theorem rawLines_append {l : List Char} (hl : '\n' ∉ l) (rest : List Char) :
    rawLines (l ++ '\n' :: rest) = (l ++ ['\n']) :: rawLines rest := by
  induction l with
  | nil => rfl
  | cons c l ih =>
    rw [List.mem_cons, not_or] at hl
    rw [List.cons_append, rawLines, ih hl.2]
    · rfl
    · exact fun h => hl.1 h.symm

/-- Lines that are written are read. -/
theorem rawLines_flatMap {ls : List (List Char)} (hls : ∀ l ∈ ls, '\n' ∉ l) :
    rawLines (ls.flatMap (· ++ ['\n'])) = ls.map (· ++ ['\n']) := by
  induction ls with
  | nil => rfl
  | cons l ls ih =>
    rw [List.flatMap_cons, List.append_assoc, List.singleton_append,
      rawLines_append (hls l List.mem_cons_self),
      ih fun l' hl' => hls l' (List.mem_cons_of_mem l hl'),
      List.map_cons]

/-- The token of a line whose first and last characters are not white space. -/
theorem pbmToken_line {l : List Char} (hhash : '#' ∉ l)
    (hfirst : ∀ c ∈ l.head?, isSpaceByte c = false)
    (hlast : ∀ c ∈ l.getLast?, isSpaceByte c = false) : pbmToken (l ++ ['\n']) = l := by
  have htake : (l ++ ['\n']).takeWhile (· ≠ '#') = l ++ ['\n'] := by
    refine List.takeWhile_eq_self_iff.mpr fun c hc => ?_
    have hne : c ≠ '#' := by
      rintro rfl
      simp [hhash] at hc
    simpa using hne
  have hdrop (l : List Char) (h : ∀ c ∈ l.head?, isSpaceByte c = false) :
      l.dropWhile isSpaceByte = l := by
    cases l with
    | nil => rfl
    | cons c l => rw [List.dropWhile_cons, h c rfl]; rfl
  rw [pbmToken, htake, stripBytes]
  cases l with
  | nil => rfl
  | cons c l =>
    rw [hdrop (c :: l ++ ['\n']) (by simpa using hfirst), List.reverse_append,
      List.reverse_singleton,
      List.singleton_append, List.dropWhile_cons]
    have hspace : isSpaceByte '\n' = true := by decide
    rw [hspace, if_pos rfl, hdrop _ (fun d hd => hlast d (by rwa [List.head?_reverse] at hd)),
      List.reverse_reverse]

/-- A digit is neither white space nor any of the characters that mean something else. -/
theorem of_isDigit {c : Char} (h : c.isDigit = true) :
    isSpaceByte c = false ∧ c ∉ ['#', '\n', '_', '-', '+', ' '] := by
  have hrange : 48 ≤ c.toNat ∧ c.toNat ≤ 57 := by
    simpa [Char.isDigit, UInt32.le_iff_toNat_le] using h
  have hne (d : Char) (hd : d.toNat < 48 ∨ 57 < d.toNat) : c ≠ d := by
    rintro rfl
    omega
  constructor
  · simp only [isSpaceByte, Bool.or_eq_false_iff, beq_eq_false_iff_ne]
    exact ⟨⟨⟨⟨⟨hne _ (by decide), hne _ (by decide)⟩, hne _ (by decide)⟩, hne _ (by decide)⟩,
      by omega⟩, by omega⟩
  · simp only [List.mem_cons, List.not_mem_nil, or_false, not_or]
    exact ⟨hne _ (by decide), hne _ (by decide), hne _ (by decide), hne _ (by decide),
      hne _ (by decide), hne _ (by decide)⟩

/-- The digits of a number. -/
theorem isDigit_of_mem_unsigned {n : Nat} {c : Char} (h : c ∈ unsigned n) : c.isDigit = true :=
  Nat.isDigit_of_mem_toDigits (by decide) (by decide) h

/-- **A number is read as it was written.** -/
theorem pyInt_unsigned (n : Nat) : pyInt (unsigned n) = some (n : Int) := by
  have hne : unsigned n ≠ [] := Nat.toDigits_ne_nil
  have hnot (d : Char) (hd : d ∈ ['#', '\n', '_', '-', '+', ' ']) : d ∉ unsigned n := fun h =>
    (of_isDigit (isDigit_of_mem_unsigned h)).2 hd
  have hdigits : pyDigits (unsigned n) = some n := by
    rw [pyDigits, List.splitOn_eq_singleton (hnot '_' (by decide)), if_pos]
    · rw [List.flatten_singleton, unsigned, Nat.ofDigitChars_ten_toDigits]
    · simp only [List.all_cons, List.all_nil, Bool.and_true, Bool.and_eq_true, decide_eq_true_iff]
      exact ⟨hne, List.all_eq_true.mpr fun c hc => isDigit_of_mem_unsigned hc⟩
  unfold pyInt
  split
  next hminus => exact absurd (hminus ▸ List.mem_cons_self) (hnot '-' (by decide))
  next hplus => exact absurd (hplus ▸ List.mem_cons_self) (hnot '+' (by decide))
  next => rw [hdigits]; rfl

/-- The two numbers of the size line. -/
theorem splitBytes_size (w h : Nat) :
    splitBytes (unsigned w ++ ' ' :: unsigned h) = [unsigned w, unsigned h] := by
  have hspace (n : Nat) : ∀ c ∈ unsigned n, isSpaceByte c = false := fun c hc =>
    (of_isDigit (isDigit_of_mem_unsigned hc)).1
  have hne (n : Nat) : unsigned n ≠ [] := Nat.toDigits_ne_nil
  rw [splitBytes, List.splitOnP_append_cons _ _ (by decide), List.splitOnP_eq_singleton (hspace w),
    List.splitOnP_eq_singleton (hspace h)]
  simp [hne]

/-! ## The round trip -/

variable {comment : String} {pixel : UInt16 → UInt16 → Bool}

/-- The scale is not zero. -/
theorem pbmScale_pos (scale : UInt8) : 0 < pbmScale scale := by
  rw [pbmScale]
  split
  · exact Nat.one_pos
  next hne => exact Nat.pos_of_ne_zero fun h => hne (UInt8.toNat_inj.mp h)

/-- The lines of the picture. -/
def pbmLines (pixel : UInt16 → UInt16 → Bool) (k : Nat) : List (List Char) :=
  (List.range lcdHeight).flatMap fun y => List.replicate k (pbmLine pixel k y)

/-- A line has only digits. -/
theorem mem_pbmLine {k y : Nat} {c : Char} (h : c ∈ pbmLine pixel k y) : c = '0' ∨ c = '1' := by
  obtain ⟨x, -, hc⟩ := List.mem_flatMap.mp h
  rw [(List.mem_replicate.mp hc).2, pbmDigit]
  split <;> simp

/-- The length of a line. -/
theorem length_pbmLine (k y : Nat) : (pbmLine pixel k y).length = lcdWidth * k := by
  rw [pbmLine, length_flatMap_of_length fun _ _ => List.length_replicate, List.length_range]

/-- The length of the picture. -/
theorem length_pbmLines (k : Nat) : (pbmLines pixel k).length = lcdHeight * k := by
  rw [pbmLines, length_flatMap_of_length fun _ _ => List.length_replicate, List.length_range]

/-- Every line of the picture is one of the screen's. -/
theorem mem_pbmLines {k : Nat} {l : List Char} (h : l ∈ pbmLines pixel k) :
    ∃ y, l = pbmLine pixel k y := by
  obtain ⟨y, -, hl⟩ := List.mem_flatMap.mp h
  exact ⟨y, (List.mem_replicate.mp hl).2⟩

/-- **A pixel of the picture** is the one of the screen that it is blown up from. -/
theorem getElem?_flatten_pbmLines {k : Nat} (hk : 0 < k) {x y : Nat} (hx : x < lcdWidth * k)
    (hy : y < lcdHeight * k) : (pbmLines pixel k).flatten[y * (lcdWidth * k) + x]?
      = some (pbmDigit (pixel (UInt16.ofNat (x / k)) (UInt16.ofNat (y / k)))) := by
  have hline : (pbmLines pixel k)[y]? = some (pbmLine pixel k (y / k)) := by
    have hrow : (List.range lcdHeight)[y / k]? = some (y / k) :=
      List.getElem?_range (Nat.div_lt_of_lt_mul (by rwa [Nat.mul_comm] at hy))
    rw [pbmLines, getElem?_flatMap_replicate _ _ hk, hrow, Option.map_some]
  have hcol : (List.range lcdWidth)[x / k]? = some (x / k) :=
    List.getElem?_range (Nat.div_lt_of_lt_mul (by rwa [Nat.mul_comm] at hx))
  have hlen : ∀ l ∈ pbmLines pixel k, (id l).length = lcdWidth * k := by
    intro l hl
    obtain ⟨y', rfl⟩ := mem_pbmLines hl
    exact length_pbmLine k y'
  have h := getElem?_flatMap_of_length hlen y hx
  rw [List.flatMap_id] at h
  rw [h, hline, Option.bind_some, id_eq, pbmLine, getElem?_flatMap_replicate _ _ hk, hcol,
    Option.map_some]

/-- It has all its pixels. -/
theorem length_flatten_pbmLines (k : Nat) :
    (pbmLines pixel k).flatten.length = lcdHeight * k * (lcdWidth * k) := by
  rw [← List.flatMap_id, length_flatMap_of_length (n := lcdWidth * k), length_pbmLines]
  intro l hl
  obtain ⟨y, rfl⟩ := mem_pbmLines hl
  exact length_pbmLine k y

/-- The file, line by line. -/
theorem pbm_eq (comment : String) (pixel : UInt16 → UInt16 → Bool) (scale : UInt8) :
    pbm comment pixel scale = (['P', '1'] :: ('#' :: ' ' :: comment.toList)
      :: (unsigned (lcdWidth * pbmScale scale) ++ ' ' :: unsigned (lcdHeight * pbmScale scale))
      :: pbmLines pixel (pbmScale scale)).flatMap (· ++ ['\n']) := by
  have hbody : (pbmLines pixel (pbmScale scale)).flatMap (· ++ ['\n'])
      = (List.range lcdHeight).flatMap fun y =>
        (List.replicate (pbmScale scale) (pbmLine pixel (pbmScale scale) y ++ ['\n'])).flatten := by
    rw [pbmLines, List.flatMap_assoc]
    refine List.flatMap_congr fun y _ => ?_
    rw [List.flatMap_def, List.map_replicate]
  rw [List.flatMap_cons, List.flatMap_cons, List.flatMap_cons, hbody, pbm]
  simp

/-- The token of the size line is the size line. -/
theorem pbmToken_size (w h : Nat) : pbmToken ((unsigned w ++ ' ' :: unsigned h) ++ ['\n'])
    = unsigned w ++ ' ' :: unsigned h := by
  have hdigit (n : Nat) (c : Char) (hc : c ∈ unsigned n) := of_isDigit (isDigit_of_mem_unsigned hc)
  have hne (n : Nat) : unsigned n ≠ [] := Nat.toDigits_ne_nil
  refine pbmToken_line (fun hhash => ?_) (fun c hc => ?_) (fun c hc => ?_)
  · rw [List.mem_append, List.mem_cons] at hhash
    obtain hw | hw | hh := hhash
    · exact (hdigit w _ hw).2 (by decide)
    · exact absurd hw (by decide)
    · exact (hdigit h _ hh).2 (by decide)
  · rw [List.head?_append_of_ne_nil _ (hne w)] at hc
    exact (hdigit w c (List.mem_of_mem_head? hc)).1
  · rw [List.getLast?_append_of_ne_nil _ (List.cons_ne_nil _ _),
      List.getLast?_cons_of_ne_nil (hne h)]
      at hc
    exact (hdigit h c (List.mem_of_mem_getLast? hc)).1

/-- The token of a line of the picture is the line, which is not blank. -/
theorem pbmToken_pbmLine {k : Nat} (hk : 0 < k) (y : Nat) :
    pbmToken (pbmLine pixel k y ++ ['\n']) = pbmLine pixel k y ∧ pbmLine pixel k y ≠ [] := by
  have hdigit (c : Char) (hc : c ∈ pbmLine pixel k y) : isSpaceByte c = false := by
    obtain rfl | rfl := mem_pbmLine hc <;> decide
  refine ⟨pbmToken_line (fun hhash => ?_) (fun c hc => hdigit c (List.mem_of_mem_head? hc))
    (fun c hc => hdigit c (List.mem_of_mem_getLast? hc)), ?_⟩
  · obtain h | h := mem_pbmLine hhash <;> cases h
  · refine List.ne_nil_of_length_pos ?_
    rw [length_pbmLine]
    exact Nat.mul_pos (by decide) hk

/-- The tokens of the file. -/
theorem tokens_pbm (hcomment : '\n' ∉ comment.toList) (scale : UInt8) :
    ((rawLines (pbm comment pixel scale)).map pbmToken).filter (· ≠ [])
      = ['P', '1'] :: (unsigned (lcdWidth * pbmScale scale) ++ ' '
        :: unsigned (lcdHeight * pbmScale scale)) :: pbmLines pixel (pbmScale scale) := by
  have hnoEnd : ∀ l ∈ ['P', '1'] :: ('#' :: ' ' :: comment.toList)
      :: (unsigned (lcdWidth * pbmScale scale) ++ ' ' :: unsigned (lcdHeight * pbmScale scale))
      :: pbmLines pixel (pbmScale scale), '\n' ∉ l := by
    have hdigits (n : Nat) : '\n' ∉ unsigned n := fun hc =>
      (of_isDigit (isDigit_of_mem_unsigned hc)).2 (by decide)
    intro l hl
    simp only [List.mem_cons] at hl
    obtain rfl | rfl | rfl | hl := hl
    · decide
    · simpa using hcomment
    · simp [hdigits]
    · obtain ⟨y, rfl⟩ := mem_pbmLines hl
      intro hc
      obtain h | h := mem_pbmLine hc <;> cases h
  have hrows : ((pbmLines pixel (pbmScale scale)).map fun l => pbmToken (l ++ ['\n']))
      = pbmLines pixel (pbmScale scale) := by
    refine (List.map_congr_left fun l hl => ?_).trans (List.map_id _)
    obtain ⟨y, rfl⟩ := mem_pbmLines hl
    exact (pbmToken_pbmLine (pbmScale_pos scale) y).1
  have hkept : (pbmLines pixel (pbmScale scale)).filter (· ≠ [])
      = pbmLines pixel (pbmScale scale) := by
    rw [List.filter_eq_self]
    intro l hl
    obtain ⟨y, rfl⟩ := mem_pbmLines hl
    exact decide_eq_true (pbmToken_pbmLine (pbmScale_pos scale) y).2
  have hmagic : pbmToken (['P', '1'] ++ ['\n']) = ['P', '1'] := by decide
  have hcommentToken : pbmToken (('#' :: ' ' :: comment.toList) ++ ['\n']) = [] := rfl
  rw [pbm_eq, rawLines_flatMap hnoEnd, List.map_map]
  simp only [List.map_cons, Function.comp_apply, hmagic, hcommentToken, pbmToken_size]
  rw [List.filter_cons_of_pos (by decide), List.filter_cons_of_neg (by decide),
    List.filter_cons_of_pos (by simp)]
  exact congrArg _ (congrArg _ ((congrArg _ hrows).trans hkept))

/-- **What is written is read back**: the size of the blown-up screen and its pixels. -/
theorem readPbm_pbm (hcomment : '\n' ∉ comment.toList) (scale : UInt8) :
    readPbm (pbm comment pixel scale) = some (((lcdWidth * pbmScale scale : Nat) : Int),
      ((lcdHeight * pbmScale scale : Nat) : Int), (pbmLines pixel (pbmScale scale)).flatten) := by
  have hbits : (pbmLines pixel (pbmScale scale)).flatten.filter (fun c => c == '0' || c == '1')
      = (pbmLines pixel (pbmScale scale)).flatten := by
    rw [List.filter_eq_self]
    intro c hc
    obtain ⟨l, hl, hc⟩ := List.mem_flatten.mp hc
    obtain ⟨y, rfl⟩ := mem_pbmLines hl
    obtain rfl | rfl := mem_pbmLine hc <;> decide
  rw [readPbm, tokens_pbm hcomment]
  dsimp only
  rw [if_neg (by decide), splitBytes_size, List.map_cons, List.map_cons, List.map_nil,
    pyInt_unsigned, pyInt_unsigned]
  dsimp only
  rw [hbits, if_neg]
  rw [length_flatten_pbmLines, Nat.cast_mul]
  exact not_not.mpr (Int.mul_comm _ _)

/-! ## The PNG -/

/-- A scan line: its filter byte, and a grey for each pixel. -/
theorem getElem?_pngRows {w h : Nat} {bits : List Char} (hbits : bits.length = h * w) {y : Nat}
    (hy : y < h) : (pngRows w h bits)[y * (w + 1)]? = some 0 ∧
      ∀ x < w, (pngRows w h bits)[y * (w + 1) + (x + 1)]?
        = bits[y * w + x]?.map fun c => if c = '1' then 0 else 255 := by
  have hlen : ∀ y ∈ List.range h, (0 :: ((bits.drop (y * w)).take w).map
      fun c => if c = '1' then (0 : UInt8) else 255).length = w + 1 := by
    intro y hy
    have hmul : y * w + w ≤ h * w := by
      rw [← Nat.succ_mul]
      exact Nat.mul_le_mul_right w (List.mem_range.mp hy)
    simp only [List.length_cons, List.length_map, List.length_take, List.length_drop, hbits]
    omega
  have hline : (List.range h)[y]? = some y := List.getElem?_range hy
  constructor
  · have h0 := getElem?_flatMap_of_length hlen y (Nat.succ_pos w)
    rw [hline, Option.bind_some, List.getElem?_cons_zero, Nat.add_zero] at h0
    exact h0
  · intro x hx
    have hx' := getElem?_flatMap_of_length hlen y (Nat.succ_lt_succ hx)
    rw [hline, Option.bind_some, List.getElem?_cons_succ, List.getElem?_map, List.getElem?_take,
      if_pos hx, List.getElem?_drop] at hx'
    exact hx'

/-- **A file that shows a screen**: `pbm2png.py` reads it as the screen with each pixel blown up to
`k` by `k`, and its scan lines have black where the screen has. -/
structure Shows (file : List Char) (pixel : UInt16 → UInt16 → Bool) (k : Nat)
    (bits : List Char) : Prop where
  /-- The file is read. -/
  read : readPbm file
    = some (((lcdWidth * k : Nat) : Int), ((lcdHeight * k : Nat) : Int), bits)
  /-- The pixels of the PBM. -/
  digit : ∀ x < lcdWidth * k, ∀ y < lcdHeight * k, bits[y * (lcdWidth * k) + x]?
    = some (pbmDigit (pixel (UInt16.ofNat (x / k)) (UInt16.ofNat (y / k))))
  /-- The scan lines of the PNG have no filter. -/
  filter : ∀ y < lcdHeight * k,
    (pngRows (lcdWidth * k) (lcdHeight * k) bits)[y * (lcdWidth * k + 1)]? = some 0
  /-- Its pixels. -/
  grey : ∀ x < lcdWidth * k, ∀ y < lcdHeight * k,
    (pngRows (lcdWidth * k) (lcdHeight * k) bits)[y * (lcdWidth * k + 1) + (x + 1)]?
      = some (if pixel (UInt16.ofNat (x / k)) (UInt16.ofNat (y / k)) then 0 else 255)

/-- A file with a comment of one line shows its picture. -/
theorem shows_pbm (hcomment : '\n' ∉ comment.toList) (scale : UInt8) :
    Shows (pbm comment pixel scale) pixel (pbmScale scale)
      (pbmLines pixel (pbmScale scale)).flatten := by
  have hpos := pbmScale_pos scale
  refine ⟨readPbm_pbm hcomment scale, fun x hx y hy => getElem?_flatten_pbmLines hpos hx hy,
    fun y hy => (getElem?_pngRows (length_flatten_pbmLines _) hy).1, fun x hx y hy => ?_⟩
  rw [(getElem?_pngRows (length_flatten_pbmLines _) hy).2 x hx,
    getElem?_flatten_pbmLines hpos hx hy, Option.map_some, pbmDigit]
  cases pixel (UInt16.ofNat (x / pbmScale scale)) (UInt16.ofNat (y / pbmScale scale)) <;> rfl

/-- **Screenshots are faithful.** At every scale, the file that the panel writes and the one that
the browser writes are read back as their screens, and the PNG made of it shows them. -/
theorem screenshots_show_the_screen (p : VirtualPanel) (s : SharpLcd) (scale : UInt8) :
    (∃ bits, Shows (p.writePbm scale) p.pixel (pbmScale scale) bits) ∧
      ∃ bits, Shows (s.writePbm scale) s.getPixel (pbmScale scale) bits :=
  ⟨⟨_, shows_pbm (by decide) scale⟩, ⟨_, shows_pbm (by decide) scale⟩⟩

end Thicket.Lcd
