import Thicket.Page.Collect

/-! # Splitting a row undoes joining it

Cells are joined with bars and blanks; `onTableRow` trims the row, splits it at the bars and trims
each cell. What it stores are the cells from the first that is not empty on. -/

namespace Thicket.Page

namespace Span

/-! ## Loops over a list -/

/-- The byte behind a part of a list. -/
theorem byte_ofList (pre rest : List UInt8) (x : UInt8) :
    (ofList (pre ++ x :: rest)).byte pre.length = x := by
  simp [ofList]

/-- The bytes of a part of a list. -/
theorem map_byte_ofList (pre mid rest : List UInt8) :
    (List.range' pre.length mid.length).map (ofList (pre ++ (mid ++ rest))).byte = mid := by
  induction mid generalizing pre with
  | nil => rfl
  | cons x mid ih =>
    have hnext := ih (pre ++ [x])
    rw [List.length_append, List.append_assoc] at hnext
    rw [List.length_cons, List.range'_succ, List.map_cons, List.cons_append, byte_ofList]
    exact congrArg (x :: ·) hnext

/-- A forward loop passes over what meets its condition. -/
theorem scan_ofList {q : UInt8 → Bool} (pre mid rest : List UInt8) {n : Nat}
    (hall : ∀ x ∈ mid, q x = true) (hn : pre.length + mid.length ≤ n)
    (hstop : n = pre.length + mid.length ∨ ∃ x ∈ rest.head?, q x = false) :
    scan (fun k => q ((ofList (pre ++ (mid ++ rest))).byte k)) (fun _ => 1) n pre.length
      = pre.length + mid.length := by
  induction mid generalizing pre with
  | nil =>
    -- the byte behind `mid`, if there is one, ends the loop
    rw [scan_eq (fun _ => Nat.one_pos), if_neg]
    · rfl
    · rintro ⟨hlt, hq⟩
      rcases hstop with hend | ⟨x, hx, hno⟩
      · exact absurd hlt (by simp [hend])
      · obtain ⟨rest, rfl⟩ := List.head?_eq_some_iff.mp hx
        rw [List.nil_append, byte_ofList, hno] at hq
        cases hq
  | cons x mid ih =>
    have hlen : (pre ++ [x]).length = pre.length + 1 := by simp
    have hlist : pre ++ [x] ++ (mid ++ rest) = pre ++ (x :: mid ++ rest) := by simp
    have hnext := ih (pre ++ [x]) fun y hy => hall y (List.mem_cons_of_mem x hy)
    rw [hlen, hlist] at hnext
    rw [List.length_cons] at hn hstop ⊢
    rw [scan_eq (fun _ => Nat.one_pos), if_pos]
    · rw [hnext (by omega) (hstop.imp_left fun h => by omega)]
      omega
    · rw [List.cons_append, byte_ofList]
      exact ⟨by omega, hall x List.mem_cons_self⟩

/-- A backward loop passes over what meets its condition. -/
theorem backWhile_ofList {q : UInt8 → Bool} (pre mid rest : List UInt8) {a : Nat}
    (hall : ∀ x ∈ mid, q x = true) (ha : a ≤ pre.length)
    (hstop : a = pre.length ∨ ∃ x ∈ pre.getLast?, q x = false) :
    backWhile (fun k => q ((ofList (pre ++ (mid ++ rest))).byte k)) a (pre.length + mid.length)
      = pre.length := by
  induction mid using List.reverseRecOn generalizing rest with
  | nil =>
    rw [List.nil_append, List.length_nil, Nat.add_zero]
    cases hlen : pre.length with
    | zero => rfl
    | succ n =>
      rw [backWhile, if_neg]
      rintro ⟨hlt, hq⟩
      rcases hstop with hend | ⟨x, hx, hno⟩
      · omega
      · obtain ⟨pre, rfl⟩ := List.getLast?_eq_some_iff.mp hx
        have hn : pre.length = n := by simpa using hlen
        rw [List.append_assoc, List.singleton_append, ← hn, byte_ofList, hno] at hq
        cases hq
  | append_singleton mid x ih =>
    have hlen : pre.length + (mid ++ [x]).length = (pre ++ mid).length + 1 := by
      simp only [List.length_append, List.length_cons, List.length_nil]
      omega
    have hbyte : pre ++ (mid ++ [x] ++ rest) = (pre ++ mid) ++ x :: rest := by simp
    rw [hlen, backWhile, if_pos]
    · have hnext := ih (x :: rest) fun y hy => hall y (List.mem_append_left _ hy)
      rw [List.append_assoc mid, List.singleton_append, List.length_append]
      exact hnext
    · rw [hbyte, byte_ofList, List.length_append]
      exact ⟨by omega, hall x (by simp)⟩

end Span

namespace TableState

open Thicket.Page.Span

/-! ## Cells of a row -/

/-- A cell that can be joined into a row: no bar, no markup, no blank at either end, and within the
bytes of a cell. -/
structure PlainCell (c : List UInt8) : Prop where
  /-- No bar. -/
  noBar : ∀ x ∈ c, x ≠ 0x7C
  /-- No backtick. -/
  noMarkup : ∀ x ∈ c, x ≠ 0x60
  /-- No blank in front. -/
  head : ∀ x ∈ c.head?, isSpace x = false
  /-- No blank behind. -/
  last : ∀ x ∈ c.getLast?, isSpace x = false
  /-- The bytes. -/
  length_le : c.length ≤ 254

/-- The empty cell. -/
theorem plainCell_nil : PlainCell [] where
  noBar _ hx := absurd hx List.not_mem_nil
  noMarkup _ hx := absurd hx List.not_mem_nil
  head _ hx := nomatch hx
  last _ hx := nomatch hx
  length_le := Nat.zero_le _

/-- A cell of one byte. -/
theorem plainCell_singleton {x : UInt8} (hbar : x ≠ 0x7C) (hmark : x ≠ 0x60)
    (hspace : isSpace x = false) : PlainCell [x] where
  noBar := List.forall_mem_singleton.mpr hbar
  noMarkup := List.forall_mem_singleton.mpr hmark
  head y hy := Option.some.inj hy ▸ hspace
  last y hy := Option.some.inj hy ▸ hspace
  length_le := by rw [List.length_singleton]; omega

/-- **`| c_1 | c_2 | ... | c_m |`**. -/
def joinRow (cells : List (List UInt8)) : List UInt8 :=
  0x7C :: cells.flatMap fun c => 0x20 :: c ++ [0x20, 0x7C]

/-- Blanks are neither bars nor the text of a cell. -/
theorem ne_bar_of_isSpace {x : UInt8} (h : isSpace x = true) : (x != 0x7C) = true := by
  have hx : x = 0x20 ∨ x = 0x09 := by simpa [isSpace] using h
  rcases hx with rfl | rfl <;> rfl

/-- A cell with blanks around it ends at a bar or at the end of the row. -/
theorem cellEnd_ofList (pre trail rest : List UInt8) {lead c : List UInt8} {b : Nat}
    (hc : PlainCell c) (hlead : ∀ x ∈ lead, isSpace x = true)
    (htrail : ∀ x ∈ trail, isSpace x = true)
    (hb : pre.length + (lead ++ (c ++ trail)).length ≤ b)
    (hstop : b = pre.length + (lead ++ (c ++ trail)).length ∨ rest.head? = some 0x7C) :
    cellEnd (ofList (pre ++ (lead ++ (c ++ trail) ++ rest))) b pre.length
      = pre.length + (lead ++ (c ++ trail)).length := by
  have hbar : ∀ x ∈ lead ++ (c ++ trail), (x != 0x7C) = true := by
    intro x hx
    rcases List.mem_append.mp hx with hx | hx
    · exact ne_bar_of_isSpace (hlead x hx)
    · rcases List.mem_append.mp hx with hx | hx
      · simpa using hc.noBar x hx
      · exact ne_bar_of_isSpace (htrail x hx)
  exact scan_ofList (q := fun x => x != 0x7C) _ _ _ hbar hb
    (hstop.imp_right fun h => ⟨0x7C, h, rfl⟩)

/-- Nothing but blanks: the cell begins where it ends, and shows nothing. -/
theorem visibleText_blank (pre rest : List UInt8) {blank : List UInt8}
    (hblank : ∀ x ∈ blank, isSpace x = true) :
    Strip.visibleText (ofList (pre ++ (blank ++ rest)))
      (scan (fun k => isSpace ((ofList (pre ++ (blank ++ rest))).byte k)) (fun _ => 1)
        (pre.length + blank.length) pre.length)
      (backWhile (fun k => isSpace ((ofList (pre ++ (blank ++ rest))).byte k))
        (scan (fun k => isSpace ((ofList (pre ++ (blank ++ rest))).byte k)) (fun _ => 1)
          (pre.length + blank.length) pre.length)
        (pre.length + blank.length)) = [] := by
  have hcs := scan_ofList pre blank rest hblank (Nat.le_refl _) (.inl rfl)
  have hce := backWhile_le (p := fun k => isSpace ((ofList (pre ++ (blank ++ rest))).byte k))
    (pre.length + blank.length) (pre.length + blank.length)
  rw [hcs, Strip.visibleText, Nat.sub_eq_zero_of_le hce]
  rfl

/-- Bytes without a backtick are shown as they are. -/
theorem visibleText_ofList (pre c rest : List UInt8) (hmark : ∀ x ∈ c, x ≠ 0x60) :
    Strip.visibleText (ofList (pre ++ (c ++ rest))) pre.length (pre.length + c.length) = c := by
  have hbytes := map_byte_ofList pre c rest
  rw [Strip.visibleText, Strip.visible_of_plain _ (Nat.le_refl _), Nat.add_sub_cancel_left, hbytes]
  intro j hj hlt
  -- a byte of the cell is no backtick
  have hrange : j ∈ List.range' pre.length c.length := List.mem_range'_1.mpr ⟨hj, hlt⟩
  have hmem := List.mem_map_of_mem (f := (ofList (pre ++ (c ++ rest))).byte) hrange
  rw [hbytes] at hmem
  exact hmark _ hmem

/-- The blanks in front of a cell end where its text begins. -/
theorem scan_lead_ofList (pre trail rest : List UInt8) {lead c : List UInt8} (hc : PlainCell c)
    (hne : c ≠ []) (hlead : ∀ x ∈ lead, isSpace x = true) :
    scan (fun k => isSpace ((ofList (pre ++ (lead ++ (c ++ trail) ++ rest))).byte k)) (fun _ => 1)
        (pre.length + (lead ++ (c ++ trail)).length) pre.length
      = pre.length + lead.length := by
  have hsplit : pre ++ (lead ++ (c ++ trail) ++ rest)
      = pre ++ (lead ++ (c ++ (trail ++ rest))) := by simp
  obtain ⟨x, hx⟩ : ∃ x, c.head? = some x := ⟨_, List.head?_eq_some_head hne⟩
  rw [hsplit]
  refine scan_ofList _ _ _ hlead ?_ (.inr ⟨x, ?_, hc.head x hx⟩)
  · simp only [List.length_append]
    omega
  · rw [List.head?_append_of_ne_nil _ hne]
    exact hx

/-- The blanks behind a cell begin where its text ends. -/
theorem backWhile_trail_ofList (pre rest : List UInt8) {lead c trail : List UInt8}
    (hc : PlainCell c) (hne : c ≠ []) (htrail : ∀ x ∈ trail, isSpace x = true) :
    backWhile (fun k => isSpace ((ofList (pre ++ (lead ++ (c ++ trail) ++ rest))).byte k))
        (pre.length + lead.length) (pre.length + (lead ++ (c ++ trail)).length)
      = (pre ++ lead).length + c.length := by
  have hsplit : pre ++ (lead ++ (c ++ trail) ++ rest)
      = (pre ++ lead ++ c) ++ (trail ++ rest) := by simp
  have hlen : pre.length + (lead ++ (c ++ trail)).length
      = (pre ++ lead ++ c).length + trail.length := by
    simp only [List.length_append]
    omega
  obtain ⟨y, hy⟩ : ∃ y, c.getLast? = some y := ⟨_, List.getLast?_eq_getLast_of_ne_nil hne⟩
  have htext : (pre ++ lead).length + c.length = (pre ++ lead ++ c).length :=
    List.length_append.symm
  rw [hsplit, hlen, htext]
  refine backWhile_ofList _ _ _ htrail ?_ (.inr ⟨y, ?_, hc.last y hy⟩)
  · simp only [List.length_append]
    omega
  · rw [List.getLast?_append_of_ne_nil _ hne]
    exact hy

/-- **One cell**: with blanks around it, up to a bar or the end of the row. -/
theorem cellSpan_ofList (pre trail rest : List UInt8) {lead c : List UInt8} {b : Nat}
    (hc : PlainCell c) (hlead : ∀ x ∈ lead, isSpace x = true)
    (htrail : ∀ x ∈ trail, isSpace x = true)
    (hb : pre.length + (lead ++ (c ++ trail)).length ≤ b)
    (hstop : b = pre.length + (lead ++ (c ++ trail)).length ∨ rest.head? = some 0x7C) :
    cellEnd (ofList (pre ++ (lead ++ (c ++ trail) ++ rest))) b pre.length
        = pre.length + (lead ++ (c ++ trail)).length ∧
      shown (ofList (pre ++ (lead ++ (c ++ trail) ++ rest)))
          (cellSpan (ofList (pre ++ (lead ++ (c ++ trail) ++ rest))) b pre.length) = c := by
  have hend := cellEnd_ofList pre trail rest hc hlead htrail hb hstop
  refine ⟨hend, ?_⟩
  rw [shown, cellSpan, hend]
  -- an empty cell is all blanks: there is no byte at which the trimming stops
  by_cases hne : c = []
  · subst hne
    have hblank : ∀ x ∈ lead ++ ([] ++ trail), isSpace x = true := by
      intro x hx
      rcases List.mem_append.mp hx with hx | hx
      · exact hlead x hx
      · exact htrail x hx
    exact visibleText_blank pre rest hblank
  · have hsplit : pre ++ (lead ++ (c ++ trail) ++ rest)
        = (pre ++ lead) ++ (c ++ (trail ++ rest)) := by simp
    have hshown := visibleText_ofList (pre ++ lead) c (trail ++ rest) hc.noMarkup
    rw [scan_lead_ofList pre trail rest hc hne hlead,
      backWhile_trail_ofList pre rest hc hne htrail, hsplit, ← List.length_append]
    exact hshown

/-- The text of a row between its first byte and its last: cells with bars between them. -/
def joinCells (c : List UInt8) (cells : List (List UInt8)) : List UInt8 :=
  c ++ cells.flatMap fun d => [0x20, 0x7C, 0x20] ++ d

/-- **The cells of a row**, from the first one on. -/
theorem shown_splitFrom (pre lead rest : List UInt8) (fuel : Nat) {c : List UInt8}
    {cells : List (List UInt8)} (hc : PlainCell c) (hcells : ∀ d ∈ cells, PlainCell d)
    (hlead : ∀ x ∈ lead, isSpace x = true)
    (hfuel : (lead ++ joinCells c cells).length + 1 ≤ fuel) :
    (splitFrom (ofList (pre ++ (lead ++ joinCells c cells ++ rest)))
        (pre.length + (lead ++ joinCells c cells).length) fuel pre.length).map
          (shown (ofList (pre ++ (lead ++ joinCells c cells ++ rest)))) = c :: cells := by
  -- on the cells behind the first; what has been split moves into `pre`
  induction cells generalizing c pre lead fuel with
  | nil =>
    obtain ⟨fuel, rfl⟩ : ∃ j, fuel = j + 1 := ⟨fuel - 1, by omega⟩
    have htext : lead ++ joinCells c [] = lead ++ (c ++ []) := by simp [joinCells]
    obtain ⟨hend, hshown⟩ := cellSpan_ofList pre [] rest hc hlead
      (by simp) (Nat.le_refl _) (.inl rfl)
    rw [htext] at hfuel ⊢
    rw [splitFrom, if_pos (Nat.le_add_right _ _), List.map_cons, hshown, hend]
    congr 1
    cases fuel with
    | zero => rfl
    | succ fuel => rw [splitFrom, if_neg (by omega), List.map_nil]
  | cons d cells ih =>
    obtain ⟨fuel, rfl⟩ : ∃ j, fuel = j + 1 := ⟨fuel - 1, by omega⟩
    -- the cell with the blank behind it, the bar, and the cells after the bar
    have htext : lead ++ joinCells c (d :: cells)
        = lead ++ (c ++ [0x20]) ++ (0x7C :: ([0x20] ++ joinCells d cells)) := by
      simp [joinCells]
    have hwhole : pre ++ (lead ++ joinCells c (d :: cells) ++ rest)
        = pre ++ (lead ++ (c ++ [0x20]) ++ (0x7C :: ([0x20] ++ joinCells d cells) ++ rest)) := by
      rw [htext]
      simp
    have hnext : pre ++ (lead ++ joinCells c (d :: cells) ++ rest)
        = (pre ++ (lead ++ (c ++ [0x20])) ++ [0x7C]) ++ ([0x20] ++ joinCells d cells ++ rest) := by
      rw [htext]
      simp
    have hlen : pre.length + (lead ++ joinCells c (d :: cells)).length
        = (pre ++ (lead ++ (c ++ [0x20])) ++ [0x7C]).length
          + ([0x20] ++ joinCells d cells).length := by
      rw [htext]
      simp only [List.length_append, List.length_cons, List.length_nil]
      omega
    obtain ⟨hend, hshown⟩ := cellSpan_ofList pre [0x20]
      (0x7C :: ([0x20] ++ joinCells d cells) ++ rest)
      (b := pre.length + (lead ++ joinCells c (d :: cells)).length) hc hlead
      (by intro x hx; rw [List.mem_singleton.mp hx]; rfl)
      (by rw [htext]; simp only [List.length_append]; omega) (.inr rfl)
    rw [← hwhole] at hend hshown
    rw [splitFrom, if_pos (Nat.le_add_right _ _), List.map_cons, hshown, hend]
    congr 1
    have hih := ih (pre ++ (lead ++ (c ++ [0x20])) ++ [0x7C]) [0x20] fuel
      (hcells d List.mem_cons_self) (fun e he => hcells e (List.mem_cons_of_mem d he))
      (by intro x hx; rw [List.mem_singleton.mp hx]; rfl)
      (by rw [htext] at hfuel; simp only [List.length_append, List.length_cons] at hfuel ⊢; omega)
    have hpre : pre.length + (lead ++ (c ++ [0x20])).length + 1
        = (pre ++ (lead ++ (c ++ [0x20])) ++ [0x7C]).length := by
      simp only [List.length_append, List.length_cons, List.length_nil]
    rw [hnext, hlen, hpre]
    exact hih

/-! ## The row around the cells -/

/-- The cell of a row with what `joinRow` puts around it. -/
def joinCell (c : List UInt8) : List UInt8 := 0x20 :: c ++ [0x20, 0x7C]

/-- The row of nothing but empty cells. -/
theorem isEdge_of_mem_empties {cells : List (List UInt8)} (h : ∀ c ∈ cells, c = []) :
    ∀ x ∈ cells.flatMap joinCell, isEdge x = true := by
  intro x hx
  obtain ⟨c, hc, hxc⟩ := List.mem_flatMap.mp hx
  rw [h c hc] at hxc
  have hcases : x = 0x20 ∨ x = 0x20 ∨ x = 0x7C := by simpa [joinCell] using hxc
  rcases hcases with rfl | rfl | rfl <;> rfl

/-- Cells with bars between them, and the bar behind the last. -/
theorem joinCells_append (c : List UInt8) (cells : List (List UInt8)) :
    joinCells c cells ++ [0x20, 0x7C] = c ++ [0x20, 0x7C] ++ cells.flatMap joinCell := by
  induction cells generalizing c with
  | nil => simp [joinCells]
  | cons d cells ih =>
    have hnext := ih d
    simp only [joinCells, joinCell, List.flatMap_cons, List.append_assoc, List.cons_append,
      List.nil_append] at hnext ⊢
    rw [hnext]

/-- **A row of which the first and the last cells are empty.** -/
theorem joinRow_eq (front back cells : List (List UInt8)) (c : List UInt8) :
    joinRow (front ++ c :: cells ++ back)
      = (0x7C :: front.flatMap joinCell ++ [0x20]) ++
        (joinCells c cells ++ ([0x20, 0x7C] ++ back.flatMap joinCell)) := by
  have hbody : joinCells c cells ++ ([0x20, 0x7C] ++ back.flatMap joinCell)
      = c ++ [0x20, 0x7C] ++ cells.flatMap joinCell ++ back.flatMap joinCell := by
    rw [← List.append_assoc, joinCells_append]
  rw [hbody]
  show 0x7C :: (front ++ c :: cells ++ back).flatMap joinCell = _
  simp [List.flatMap_append, List.flatMap_cons, joinCell]

/-- A byte of a cell is no bar; at its ends it is no blank either. -/
theorem PlainCell.isEdge_head {c : List UInt8} (hc : PlainCell c) {x : UInt8}
    (hx : x ∈ c.head?) : isEdge x = false := by
  have hbar := hc.noBar x (List.mem_of_mem_head? hx)
  simp [isEdge, hc.head x hx, hbar]

/-- The same at its end. -/
theorem PlainCell.isEdge_last {c : List UInt8} (hc : PlainCell c) {x : UInt8}
    (hx : x ∈ c.getLast?) : isEdge x = false := by
  have hbar := hc.noBar x (List.mem_of_getLast? hx)
  simp [isEdge, hc.last x hx, hbar]

/-- **The text of the cells ends with the last cell.** -/
theorem isEdge_getLast_joinCells {c : List UInt8} {cells : List (List UInt8)} (hc : PlainCell c)
    (hcells : ∀ d ∈ cells, PlainCell d) (hlast : ∀ d ∈ cells.getLast?, d ≠ []) {x : UInt8}
    (hx : x ∈ (joinCells c cells).getLast?) : isEdge x = false := by
  induction cells using List.reverseRecOn with
  | nil =>
    rw [joinCells, List.flatMap_nil, List.append_nil] at hx
    exact hc.isEdge_last hx
  | append_singleton cells d =>
    have hd : d ≠ [] := hlast d (by simp)
    have htext : joinCells c (cells ++ [d]) = joinCells c cells ++ [0x20, 0x7C, 0x20] ++ d := by
      simp [joinCells]
    rw [htext, List.getLast?_append_of_ne_nil _ hd] at hx
    exact (hcells d (by simp)).isEdge_last hx

/-- **The trimming of a row** takes the empty cells at its ends. -/
theorem trimmed_ofList (front body back : List UInt8) (hfront : ∀ x ∈ front, isEdge x = true)
    (hback : ∀ x ∈ back, isEdge x = true) (hne : body ≠ [])
    (hhead : ∀ x ∈ body.head?, isEdge x = false) (hlast : ∀ x ∈ body.getLast?, isEdge x = false) :
    trimmed (ofList (front ++ (body ++ back)))
      = (front.length, front.length + body.length) := by
  have hlen : (ofList (front ++ (body ++ back))).len
      = (front ++ body).length + back.length := by
    show (front ++ (body ++ back)).length = _
    simp only [List.length_append]
    omega
  have ha : scan (fun k => isEdge ((ofList (front ++ (body ++ back))).byte k)) (fun _ => 1)
      (ofList (front ++ (body ++ back))).len 0 = front.length := by
    obtain ⟨x, hx⟩ : ∃ x, body.head? = some x := ⟨_, List.head?_eq_some_head hne⟩
    have hscan := scan_ofList (q := isEdge) [] front (body ++ back)
      (n := (ofList (front ++ (body ++ back))).len) hfront
      (by rw [hlen, List.length_append, List.length_nil]; omega)
      (.inr ⟨x, by rw [List.head?_append_of_ne_nil _ hne]; exact hx, hhead x hx⟩)
    rwa [List.length_nil, Nat.zero_add] at hscan
  have hb : backWhile (fun k => isEdge ((ofList (front ++ (body ++ back))).byte k)) front.length
      (ofList (front ++ (body ++ back))).len = front.length + body.length := by
    obtain ⟨x, hx⟩ : ∃ x, body.getLast? = some x := ⟨_, List.getLast?_eq_getLast_of_ne_nil hne⟩
    have hback := backWhile_ofList (q := isEdge) (front ++ body) back []
      (a := front.length) hback (by rw [List.length_append]; omega)
      (.inr ⟨x, by rw [List.getLast?_append_of_ne_nil _ hne]; exact hx, hlast x hx⟩)
    rw [List.append_nil, List.append_assoc] at hback
    rw [hlen, hback, List.length_append]
  rw [trimmed, ha, hb]

/-- The bars and blanks in front of the first text of a joined row. -/
def frontOf (front : List (List UInt8)) : List UInt8 := 0x7C :: front.flatMap joinCell ++ [0x20]

/-- The bars and blanks behind its last text. -/
def backOf (back : List (List UInt8)) : List UInt8 := [0x20, 0x7C] ++ back.flatMap joinCell

/-- The trimming of a joined row ends at its first text and at its last. -/
theorem trimmed_joinRow {front back cells : List (List UInt8)} {c : List UInt8}
    (hfront : ∀ e ∈ front, e = []) (hback : ∀ e ∈ back, e = []) (hc : PlainCell c) (hne : c ≠ [])
    (hcells : ∀ d ∈ cells, PlainCell d) (hlast : ∀ d ∈ cells.getLast?, d ≠ []) :
    trimmed (ofList (joinRow (front ++ c :: cells ++ back)))
      = ((frontOf front).length, (frontOf front).length + (joinCells c cells).length) := by
  have hbody : joinCells c cells ≠ [] := by simp [joinCells, hne]
  -- empty cells leave only bars and blanks, and the trimming takes those with the ends
  have hedge : ∀ x ∈ frontOf front, isEdge x = true := by
    intro x hx
    have hcases : x = 0x7C ∨ x ∈ front.flatMap joinCell ∨ x = 0x20 := by
      simpa [frontOf] using hx
    rcases hcases with rfl | hmem | rfl
    · rfl
    · exact isEdge_of_mem_empties hfront x hmem
    · rfl
  have hedge' : ∀ x ∈ backOf back, isEdge x = true := by
    intro x hx
    have hcases : x = 0x20 ∨ x = 0x7C ∨ x ∈ back.flatMap joinCell := by simpa [backOf] using hx
    rcases hcases with rfl | rfl | hmem
    · rfl
    · rfl
    · exact isEdge_of_mem_empties hback x hmem
  have hhead : ∀ x ∈ (joinCells c cells).head?, isEdge x = false := by
    intro x hx
    rw [joinCells, List.head?_append_of_ne_nil _ hne] at hx
    exact hc.isEdge_head hx
  have hrow : joinRow (front ++ c :: cells ++ back)
      = frontOf front ++ (joinCells c cells ++ backOf back) := joinRow_eq front back cells c
  rw [hrow]
  exact trimmed_ofList (frontOf front) (joinCells c cells) (backOf back) hedge hedge' hbody hhead
    fun x hx => isEdge_getLast_joinCells hc hcells hlast hx

/-- **The cells of a joined row**, from the first that is not empty to the last. -/
theorem rowCells_joinRow {front back cells : List (List UInt8)} {c : List UInt8}
    (hfront : ∀ e ∈ front, e = []) (hback : ∀ e ∈ back, e = []) (hc : PlainCell c) (hne : c ≠ [])
    (hcells : ∀ d ∈ cells, PlainCell d) (hlast : ∀ d ∈ cells.getLast?, d ≠ []) :
    (rowCells (ofList (joinRow (front ++ c :: cells ++ back)))).map
        (shown (ofList (joinRow (front ++ c :: cells ++ back)))) = c :: cells := by
  have hrow : joinRow (front ++ c :: cells ++ back)
      = frontOf front ++ (joinCells c cells ++ backOf back) := joinRow_eq front back cells c
  have hsplit := shown_splitFrom (frontOf front) [] (backOf back) _ hc hcells (by simp)
    (Nat.le_refl _)
  rw [List.nil_append, ← hrow] at hsplit
  rw [rowCells, trimmed_joinRow hfront hback hc hne hcells hlast]
  convert hsplit using 3
  omega

/-- A joined row with text in its cells is no separator. -/
theorem not_separator_joinRow {front back cells : List (List UInt8)} {c : List UInt8}
    (hfront : ∀ e ∈ front, e = []) (hback : ∀ e ∈ back, e = []) (hc : PlainCell c) (hne : c ≠ [])
    (hcells : ∀ d ∈ cells, PlainCell d) (hlast : ∀ d ∈ cells.getLast?, d ≠ [])
    {d : List UInt8} (hd : d ∈ c :: cells) {x : UInt8} (hx : x ∈ d) (hsep : isSeparator x = false) :
    ¬ Separator (ofList (joinRow (front ++ c :: cells ++ back))) := by
  rintro ⟨-, hall⟩
  have hrow : joinRow (front ++ c :: cells ++ back)
      = frontOf front ++ (joinCells c cells ++ backOf back) := joinRow_eq front back cells c
  have hmem : x ∈ joinCells c cells := by
    rcases List.mem_cons.mp hd with rfl | hd
    · exact List.mem_append_left _ hx
    · exact List.mem_append_right _ (List.mem_flatMap.mpr ⟨d, hd, List.mem_append_right _ hx⟩)
  rw [trimmed_joinRow hfront hback hc hne hcells hlast, Nat.add_sub_cancel_left] at hall
  have hbytes := map_byte_ofList (frontOf front) (joinCells c cells) (backOf back)
  rw [← hrow] at hbytes
  rw [← hbytes] at hmem
  -- the byte stands somewhere between the ends that are left
  obtain ⟨k, hk, rfl⟩ := List.mem_map.mp hmem
  have hyes := List.all_eq_true.mp hall k hk
  rw [hsep] at hyes
  cases hyes

/-! ## What is stored -/

/-- The text stored in a column of a row. -/
def stored (t : TableState) (r j : Nat) : List UInt8 :=
  (List.range (t.cellLen r j)).map (t.cell r j).byte

/-- What is stored depends on the bytes of the cell alone. -/
theorem stored_congr {t u : TableState} {r j : Nat} (hlen : t.cellLen r j = u.cellLen r j)
    (hbytes : ∀ k < u.cellLen r j, (t.cell r j).byte k = (u.cell r j).byte k) :
    stored t r j = stored u r j := by
  rw [stored, stored, hlen]
  exact List.map_congr_left fun k hk => hbytes k (List.mem_range.mp hk)

variable (row : Span)

/-- The bytes of the cells of a row. -/
def bytesOf (cells : List (Nat × Nat)) : Nat := (cells.map fun cell => (shown row cell).length).sum

/-- A cell for which there is room is kept whole. -/
theorem kept_eq {tlen len : Nat} (hlen : len ≤ 254) (hroom : tlen + len ≤ tBytes) :
    Strip.kept tlen 0 len = len := by
  rw [Strip.kept]
  omega

/-- **One cell is stored as it is shown.** -/
theorem stored_addCell (r col : Nat) {cell : Nat × Nat} (t : TableState)
    (hlen : (shown row cell).length ≤ 254) (hroom : t.tlen + (shown row cell).length ≤ tBytes) :
    stored (t.addCell row r col cell.1 cell.2) r col = shown row cell ∧
      (t.addCell row r col cell.1 cell.2).tlen = t.tlen + (shown row cell).length ∧
      (t.addCell row r col cell.1 cell.2).cellOff r col
        + (t.addCell row r col cell.1 cell.2).cellLen r col
          = t.tlen + (shown row cell).length := by
  obtain ⟨-, hcellLen, hcellOff, htlen, hbytes⟩ := addCell_spec row r col cell.1 cell.2 t
  have hkept : Strip.kept t.tlen 0 (Strip.visibleText row cell.1 cell.2).length
      = (shown row cell).length := kept_eq hlen hroom
  rw [hkept] at hcellLen htlen hbytes
  have hoff : (t.addCell row r col cell.1 cell.2).cellOff r col = t.tlen := by
    rw [hcellOff, Function.update_self, Function.update_self]
  have hcell : (t.addCell row r col cell.1 cell.2).cellLen r col = (shown row cell).length := by
    rw [hcellLen, Function.update_self, Function.update_self]
  refine ⟨?_, ?_, by rw [hoff, hcell]⟩
  · refine List.ext_getElem ?_ fun k hk hk' => ?_
    · rw [stored, List.length_map, List.length_range, hcell]
    · simp only [stored, List.getElem_map, List.getElem_range, TableState.cell]
      rw [hoff, hbytes, if_pos ⟨by omega, by omega⟩, Nat.add_sub_cancel_left]
      exact (List.getElem_eq_getD 0).symm
  · rw [htlen]
    have hbound : tBytes = 1024 := rfl
    exact Nat.mod_eq_of_lt (by omega)

/-- **A cell leaves the others**, as their bytes are in front of it. -/
theorem stored_addCell_of_ne (r : Nat) (cell : Nat × Nat) {col j : Nat} {t : TableState}
    (hj : j ≠ col) (hfits : t.cellOff r j + t.cellLen r j ≤ t.tlen) :
    stored (t.addCell row r col cell.1 cell.2) r j = stored t r j ∧
      (t.addCell row r col cell.1 cell.2).cellOff r j = t.cellOff r j ∧
      (t.addCell row r col cell.1 cell.2).cellLen r j = t.cellLen r j := by
  obtain ⟨-, hcellLen, hcellOff, -, hbytes⟩ := addCell_spec row r col cell.1 cell.2 t
  have hoff : (t.addCell row r col cell.1 cell.2).cellOff r j = t.cellOff r j := by
    rw [hcellOff, Function.update_self, Function.update_of_ne hj]
  have hlen : (t.addCell row r col cell.1 cell.2).cellLen r j = t.cellLen r j := by
    rw [hcellLen, Function.update_self, Function.update_of_ne hj]
  refine ⟨stored_congr hlen fun k hk => ?_, hoff, hlen⟩
  show (t.addCell row r col cell.1 cell.2).tbuf _ = t.tbuf _
  rw [hoff, hbytes, if_neg (by omega)]

/-- The cells of a row leave those in front of them. -/
theorem stored_storeCells_of_lt {r : Nat} {cells : List (Nat × Nat)} {col j : Nat}
    {t : TableState} (hj : j < col) (hlen : ∀ cell ∈ cells, (shown row cell).length ≤ 254)
    (hroom : t.tlen + bytesOf row cells ≤ tBytes)
    (hfits : t.cellOff r j + t.cellLen r j ≤ t.tlen) :
    stored (storeCells row r cells col t) r j = stored t r j := by
  induction cells generalizing col t with
  | nil => rfl
  | cons cell cells ih =>
    rw [bytesOf, List.map_cons, List.sum_cons, ← bytesOf] at hroom
    obtain ⟨-, htlen, -⟩ := stored_addCell row r col t
      (hlen cell List.mem_cons_self) (by omega)
    obtain ⟨hsame, hoff, hcellLen⟩ := stored_addCell_of_ne row r cell (Nat.ne_of_lt hj) hfits
    rw [storeCells, ih (Nat.lt_succ_of_lt hj) (fun c hc => hlen c (List.mem_cons_of_mem cell hc))
      (by omega) (by omega), hsame]

/-- **The cells of a row are stored**, one in each column. -/
theorem stored_storeCells {cells : List (Nat × Nat)} (r col : Nat) {t : TableState}
    (hlen : ∀ cell ∈ cells, (shown row cell).length ≤ 254)
    (hroom : t.tlen + bytesOf row cells ≤ tBytes) {j : Nat} {cell : Nat × Nat}
    (hj : cells[j]? = some cell) :
    stored (storeCells row r cells col t) r (col + j) = shown row cell := by
  induction cells generalizing col t j with
  | nil => cases hj
  | cons head cells ih =>
    rw [bytesOf, List.map_cons, List.sum_cons, ← bytesOf] at hroom
    obtain ⟨hstored, htlen, hend⟩ := stored_addCell row r col t
      (hlen head List.mem_cons_self) (by omega)
    have hrest : ∀ c ∈ cells, (shown row c).length ≤ 254 :=
      fun c hc => hlen c (List.mem_cons_of_mem head hc)
    -- the first cell is stored now, and the cells behind it leave it alone
    cases j with
    | zero =>
      cases hj
      rw [Nat.add_zero, storeCells, ← hstored]
      exact stored_storeCells_of_lt row (Nat.lt_succ_self col) hrest (by omega) (by omega)
    | succ j =>
      rw [storeCells, Nat.add_comm j, ← Nat.add_assoc]
      exact ih (col + 1) hrest (by omega) hj

/-- Columns behind the cells of a row stay as they are. -/
theorem stored_storeCells_of_le {r : Nat} (cells : List (Nat × Nat)) {col j : Nat}
    {t : TableState} (hj : col + cells.length ≤ j) (hempty : t.cellLen r j = 0) :
    stored (storeCells row r cells col t) r j = [] := by
  induction cells generalizing col t with
  | nil => rw [storeCells, stored, hempty, List.range_zero, List.map_nil]
  | cons cell cells ih =>
    rw [List.length_cons] at hj
    refine ih (by omega) ?_
    rw [(addCell_spec row r col cell.1 cell.2 t).2.1, Function.update_self,
      Function.update_of_ne (by omega), hempty]

/-! ## The row that is joined -/

/-- Cells that can be joined into a row for which there is room. -/
structure Joinable (t : TableState) (cells : List (List UInt8)) : Prop where
  /-- At least one cell. -/
  nonempty : cells ≠ []
  /-- At most one for each column. -/
  cols : cells.length ≤ tColsMax
  /-- The cells. -/
  plain : ∀ c ∈ cells, PlainCell c
  /-- A character other than `-`, `:` and blanks. -/
  content : ∃ c ∈ cells, ∃ x ∈ c, isSeparator x = false
  /-- The rows that are left. -/
  rows : t.tRows < tRowsMax
  /-- The bytes that are left. -/
  bytes : t.tlen + (cells.map List.length).sum ≤ tBytes

/-- **The row stores every cell in its column.** -/
def Stores (t : TableState) (cells : List (List UInt8)) : Prop :=
  (t.addRow (ofList (joinRow cells))).tRows = t.tRows + 1 ∧
    ∀ j c, cells[j]? = some c → stored (t.addRow (ofList (joinRow cells))) t.tRows j = c

/-- The empty cells in front of the first that is not. -/
theorem exists_front {cells : List (List UInt8)} (h : ∃ c ∈ cells, c ≠ []) :
    ∃ front c rest, cells = front ++ c :: rest ∧ (∀ e ∈ front, e = []) ∧ c ≠ [] := by
  induction cells with
  | nil => simp at h
  | cons d cells ih =>
    by_cases hd : d = []
    · obtain ⟨c, hc, hne⟩ := h
      have hmem : c ∈ cells := by
        rcases List.mem_cons.mp hc with rfl | hmem
        · exact absurd hd hne
        · exact hmem
      obtain ⟨front, c, rest, rfl, hfront, hne⟩ := ih ⟨c, hmem, hne⟩
      refine ⟨d :: front, c, rest, rfl, ?_, hne⟩
      intro e he
      rcases List.mem_cons.mp he with rfl | he
      · exact hd
      · exact hfront e he
    · exact ⟨[], d, cells, rfl, by simp, hd⟩

/-- The empty cells behind the last that is not. -/
theorem exists_back (cells : List (List UInt8)) : ∃ body back, cells = body ++ back ∧
    (∀ e ∈ back, e = []) ∧ ∀ d ∈ body.getLast?, d ≠ [] := by
  induction cells using List.reverseRecOn with
  | nil => exact ⟨[], [], rfl, by simp, by simp⟩
  | append_singleton cells d ih =>
    by_cases hd : d = []
    · obtain ⟨body, back, rfl, hback, hbody⟩ := ih
      refine ⟨body, back ++ [d], by rw [List.append_assoc], ?_, hbody⟩
      intro e he
      rcases List.mem_append.mp he with he | he
      · exact hback e he
      · exact (List.mem_singleton.mp he).trans hd
    · refine ⟨cells ++ [d], [], by rw [List.append_nil], by simp, ?_⟩
      rintro e he
      rw [List.getLast?_append_of_ne_nil _ (List.cons_ne_nil d []), List.getLast?_singleton] at he
      cases he
      exact hd

/-- What a row shows is stored, cell by cell, in a row that has been opened. -/
theorem stored_shown {row : Span} {t : TableState} {cells : List (List UInt8)}
    (hshown : (rowCells row).map (shown row) = cells) (hlen : ∀ d ∈ cells, d.length ≤ 254)
    (hroom : t.tlen + (cells.map List.length).sum ≤ tBytes) (j : Nat) :
    stored (storeCells row t.tRows (rowCells row) 0 t.openTableRow) t.tRows j
      = cells.getD j [] := by
  have hbytes : t.openTableRow.tlen + bytesOf row (rowCells row) ≤ tBytes := by
    have hsum : bytesOf row (rowCells row) = (cells.map List.length).sum := by
      rw [← hshown, List.map_map]
      rfl
    rw [hsum]
    exact hroom
  have hlen' : ∀ cell ∈ rowCells row, (shown row cell).length ≤ 254 := by
    intro cell hcell
    have hmem : shown row cell ∈ cells := hshown ▸ List.mem_map_of_mem hcell
    exact hlen _ hmem
  have hcount : (rowCells row).length = cells.length := by
    have hlength := congrArg List.length hshown
    rwa [List.length_map] at hlength
  by_cases hj : j < (rowCells row).length
  · have hcell : (rowCells row)[j]? = some (rowCells row)[j] := List.getElem?_eq_getElem hj
    have hstored := stored_storeCells row t.tRows 0 hlen' hbytes hcell
    rw [Nat.zero_add] at hstored
    rw [hstored, ← hshown, List.getD_eq_getElem?_getD, List.getElem?_map, hcell]
    rfl
  · -- the columns behind the last cell have been emptied when the row was opened
    have hempty : t.openTableRow.cellLen t.tRows j = 0 := by
      show Function.update t.cellLen t.tRows (fun _ => 0) t.tRows j = 0
      rw [Function.update_self]
    rw [stored_storeCells_of_le row _ (by omega) hempty, List.getD_eq_default _ _ (by omega)]

/-- **What a joined row stores**: the cells from the first that is not empty on. -/
theorem stored_joinRow {t : TableState} {front cells back : List (List UInt8)} {c : List UInt8}
    (h : Joinable t (front ++ c :: cells ++ back)) (hfront : ∀ e ∈ front, e = [])
    (hback : ∀ e ∈ back, e = []) (hne : c ≠ []) (hlast : ∀ d ∈ cells.getLast?, d ≠ []) :
    (t.addRow (ofList (joinRow (front ++ c :: cells ++ back)))).tRows = t.tRows + 1 ∧
      ∀ j, stored (t.addRow (ofList (joinRow (front ++ c :: cells ++ back)))) t.tRows j
        = (c :: cells).getD j [] := by
  have hplain : ∀ d ∈ c :: cells, PlainCell d := fun d hd =>
    h.plain d (List.mem_append_left _ (List.mem_append_right _ hd))
  have hc := hplain c List.mem_cons_self
  have hcells : ∀ d ∈ cells, PlainCell d := fun d hd => hplain d (List.mem_cons_of_mem c hd)
  have hshown := rowCells_joinRow hfront hback hc hne hcells hlast
  have hnosep : ¬ Separator (ofList (joinRow (front ++ c :: cells ++ back))) := by
    obtain ⟨d, hd, x, hx, hsepx⟩ := h.content
    -- the text is in no cell that is empty
    refine not_separator_joinRow hfront hback hc hne hcells hlast ?_ hx hsepx
    rcases List.mem_append.mp hd with hd | hd
    · rcases List.mem_append.mp hd with hd | hd
      · rw [hfront d hd] at hx
        cases hx
      · exact hd
    · rw [hback d hd] at hx
      cases hx
  -- there are no more cells than columns, so that none is cut off
  have htake : (rowCells (ofList (joinRow (front ++ c :: cells ++ back)))).take tColsMax
      = rowCells (ofList (joinRow (front ++ c :: cells ++ back))) := by
    refine List.take_of_length_le ?_
    have hcols := h.cols
    have hcount := congrArg List.length hshown
    rw [List.length_map] at hcount
    simp only [List.length_append] at hcols
    omega
  have hroom : t.tlen + ((c :: cells).map List.length).sum ≤ tBytes := by
    have hbytes := h.bytes
    simp only [List.map_append, List.sum_append] at hbytes
    omega
  rw [addRow_eq, if_neg hnosep, if_neg (Nat.not_le.mpr h.rows), htake]
  exact ⟨rfl, stored_shown hshown (fun d hd => (hplain d hd).length_le) hroom⟩

/-- **A joined row stores its cells if and only if its first cell is not empty**: the bars and the
blanks in front of the first text are trimmed, and what is behind moves to the left. -/
theorem stores_iff {t : TableState} {cells : List (List UInt8)} (h : Joinable t cells) :
    Stores t cells ↔ cells.head? ≠ some [] := by
  obtain ⟨front, c, rest, rfl, hfront, hne⟩ : ∃ front c rest, cells = front ++ c :: rest ∧
      (∀ e ∈ front, e = []) ∧ c ≠ [] := by
    obtain ⟨c, hc, x, hx, -⟩ := h.content
    exact exists_front ⟨c, hc, List.ne_nil_of_mem hx⟩
  obtain ⟨body, back, rfl, hback, hlast⟩ := exists_back rest
  have hcells : front ++ c :: (body ++ back) = front ++ c :: body ++ back := by simp
  rw [hcells] at h ⊢
  obtain ⟨hrows, hstored⟩ := stored_joinRow h hfront hback hne hlast
  cases front with
  | nil =>
    -- nothing is in front: the columns are those of the cells
    refine ⟨fun _ hc => hne ?_, fun _ => ⟨hrows, fun j d hj => ?_⟩⟩
    · simpa using hc
    · rw [hstored]
      rw [List.nil_append] at hj
      rw [List.getD_eq_getElem?_getD]
      by_cases hlt : j < (c :: body).length
      · rw [List.getElem?_append_left hlt] at hj
        rw [hj]
        rfl
      · rw [List.getElem?_append_right (Nat.not_lt.mp hlt)] at hj
        rw [List.getElem?_eq_none (Nat.not_lt.mp hlt), hback d (List.mem_of_getElem? hj)]
        rfl
  | cons e front =>
    -- the first column stores the first text, not the empty cell
    have he : e = [] := hfront e List.mem_cons_self
    subst he
    refine ⟨fun hs => ?_, fun hs => absurd rfl hs⟩
    have hfirst := hs.2 0 [] rfl
    rw [hstored] at hfirst
    exact absurd hfirst hne

/-- Two cells of a letter each. -/
theorem stores_two : Stores { tbuf := fun _ => 0 } [[0x61], [0x62]] := by
  refine (stores_iff ?_).mpr (by decide)
  exact {
    nonempty := by decide
    cols := by decide
    plain := by
      intro c hc
      have hcases : c = [0x61] ∨ c = [0x62] := by simpa using hc
      rcases hcases with rfl | rfl
      · exact plainCell_singleton (by decide) (by decide) rfl
      · exact plainCell_singleton (by decide) (by decide) rfl
    content := ⟨[0x61], by decide, 0x61, by decide, rfl⟩
    rows := by decide
    bytes := by decide }

/-- **An empty first cell** shifts the row to the left: the letter of the second column is in the
first. -/
theorem empty_first_cell_shifts : ¬ ∀ t cells, Joinable t cells → Stores t cells := by
  intro h
  have hjoin : Joinable { tbuf := fun _ => 0 } [[], [0x61]] := {
    nonempty := by decide
    cols := by decide
    plain := by
      intro c hc
      have hcases : c = [] ∨ c = [0x61] := by simpa using hc
      rcases hcases with rfl | rfl
      · exact plainCell_nil
      · exact plainCell_singleton (by decide) (by decide) rfl
    content := ⟨[0x61], by decide, 0x61, by decide, rfl⟩
    rows := by decide
    bytes := by decide }
  have hfirst := (h _ _ hjoin).2 0 [] rfl
  revert hfirst
  decide

end TableState

end Thicket.Page
