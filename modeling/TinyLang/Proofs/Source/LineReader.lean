import TinyLang.LineReader
import TinyLang.Proofs.Source.Utf8

/-!
# Reading through a buffer

What a reader gives through its buffer of one line is what the source of the same bytes
gives (`LineReader.next_source`): what is left of the line, and then the lines behind it.
-/

namespace TinyLang

namespace LineReader

/-! ## What is left of the line -/

/-- The characters of the line that were not read. -/
def chars (r : LineReader) : List Char := (r.line.sliceFrom r.offset).copy.toList

theorem chars_of_offset_ne {r : LineReader} (h : r.offset ≠ r.line.endPos) :
    r.chars = r.offset.get h :: chars { r with offset := r.offset.next h } := by
  have := r.offset.splits.eq_right (r.offset.splits_next_right h)
  rw [chars, this, String.toList_append, String.toList_singleton]
  rfl

theorem chars_of_offset_eq {r : LineReader} (h : r.offset = r.line.endPos) : r.chars = [] := by
  have := r.offset.splits.eq_right (h ▸ String.splits_endPos r.line)
  rw [chars, this]
  rfl

@[simp]
theorem chars_filled (bytes : List UInt8) (line : String) (exhausted : Bool) :
    (filled bytes line exhausted).chars = line.toList := by
  have := line.startPos.splits.eq_right (String.splits_startPos line)
  exact congrArg String.toList this

/-! ## The lines behind it -/

theorem cutLine_append_newline {piece : List UInt8} (h : ∀ b ∈ piece, (b == 10) = false)
    (bytes : List UInt8) : cutLine (piece ++ 10 :: bytes) = (piece ++ [10], bytes) := by
  induction piece with
  | nil => rfl
  | cons b piece ih =>
    have hb := Bool.eq_false_iff.1 (h b List.mem_cons_self)
    rw [List.cons_append, cutLine, if_neg hb, ih fun c hc => h c (List.mem_cons_of_mem _ hc)]
    rfl

theorem cutLine_of_forall {bytes : List UInt8} (h : ∀ b ∈ bytes, (b == 10) = false) :
    cutLine bytes = (bytes, []) := by
  induction bytes with
  | nil => rfl
  | cons b bytes ih =>
    have hb := Bool.eq_false_iff.1 (h b List.mem_cons_self)
    rw [cutLine, if_neg hb, ih fun c hc => h c (List.mem_cons_of_mem _ hc)]

/-- The first line that is cut off is the first of the lines. -/
theorem byteLines_of_ne_nil {bytes : List UInt8} (h : bytes ≠ []) :
    Source.byteLines bytes =
      Source.decode (cutLine bytes).1 :: Source.byteLines (cutLine bytes).2 := by
  have hpieces := Text.pieces_spec (· == 10) bytes
  rw [Source.byteLines]
  generalize Text.pieces (· == 10) bytes = ps at hpieces
  cases hpieces with
  | nil => exact absurd rfl h
  | last _ hstop =>
    rw [cutLine_of_forall hstop]
    rfl
  | cons hstop hb htail =>
    obtain rfl := beq_iff_eq.1 hb
    rw [cutLine_append_newline hstop, Source.byteLines, htail.eq]
    rfl

theorem cutLine_fst_eq_nil_iff {bytes : List UInt8} : (cutLine bytes).1 = [] ↔ bytes = [] := by
  cases bytes with
  | nil => exact iff_of_true rfl rfl
  | cons b bytes =>
    rw [cutLine]
    split <;> exact iff_of_false (List.cons_ne_nil _ _) (List.cons_ne_nil _ _)

/-! ## Reads -/

/-- The source of what a reader still gives. -/
def source (r : LineReader) : Source where
  reads := r.chars.map .ok ++
    if r.exhausted then [] else (Source.byteLines r.bytes).flatMap Source.lineReads
  fault := none

theorem source_filled (bytes : List UInt8) (line : String) (exhausted : Bool) :
    (filled bytes line exhausted).source =
      ⟨line.toList.map .ok ++
        if exhausted then [] else (Source.byteLines bytes).flatMap Source.lineReads, none⟩ := by
  rw [source, chars_filled]
  rfl

theorem source_ofBytes (bytes : List UInt8) : (ofBytes bytes).source = .ofBytes bytes :=
  source_filled bytes "" false

/-- A reader gives what the source of what it still gives does. -/
theorem next_source (r : LineReader) : r.source.next = (r.next.1, r.next.2.source) := by
  have hempty : Source.decode [] = .ok "" := Source.decode_utf8 []
  -- where the buffer has run out, there are the lines behind it
  have hlines : ∀ r : LineReader, r.offset = r.line.endPos → ¬ r.exhausted = true →
      r.source = ⟨(Source.byteLines r.bytes).flatMap Source.lineReads, none⟩ := by
    intro r hend hexhausted
    rw [source, chars_of_offset_eq hend, if_neg hexhausted]
    rfl
  fun_induction next r with
  | case1 r hend hexhausted =>
    have hsource : r.source = ⟨[], none⟩ := by
      rw [source, chars_of_offset_eq hend, if_pos hexhausted]
      rfl
    rw [hsource]
    rfl
  | case2 r hend hexhausted line rest e hdecode =>
    have hbytes : r.bytes ≠ [] := by
      intro hbytes
      rw [show line = [] from cutLine_fst_eq_nil_iff.2 hbytes, hempty] at hdecode
      cases hdecode
    rw [hlines r hend hexhausted, byteLines_of_ne_nil hbytes, hdecode, source_filled]
    rfl
  | case3 r hend hexhausted line rest text hdecode ih =>
    have hsource : r.source = (filled rest text line.isEmpty).source := by
      rw [hlines r hend hexhausted, source_filled]
      by_cases hbytes : r.bytes = []
      · have hline : line = [] := cutLine_fst_eq_nil_iff.2 hbytes
        rw [hline, hempty] at hdecode
        cases hdecode
        rw [hbytes, hline]
        rfl
      · have hline : ¬ line.isEmpty = true :=
          fun hline => hbytes (cutLine_fst_eq_nil_iff.1 (List.isEmpty_iff.1 hline))
        rw [byteLines_of_ne_nil hbytes, hdecode, if_neg hline]
        rfl
    rw [hsource, ih]
  | case4 r hend =>
    rw [source, chars_of_offset_ne hend]
    rfl

/-- The reader after a number of reads. -/
def after : Nat → LineReader → LineReader
  | 0, r => r
  | n + 1, r => after n r.next.2

end LineReader

/-- The source after a number of reads. -/
def Source.after : Nat → Source → Source
  | 0, s => s
  | n + 1, s => after n s.next.2

theorem LineReader.source_after (n : Nat) (r : LineReader) :
    (r.after n).source = r.source.after n := by
  induction n generalizing r with
  | zero => rfl
  | succ n ih => rw [after, ih, Source.after, next_source]

/-- Every read of a reader is that of the source of its bytes. -/
theorem LineReader.next_after (bytes : List UInt8) (n : Nat) :
    ((ofBytes bytes).after n).next.1 = ((Source.ofBytes bytes).after n).next.1 := by
  rw [← source_ofBytes, ← source_after, next_source]

/-- The reads of a source of characters are these, and then its end. -/
theorem Source.next_after_ofChars (cs : List Char) (n : Nat) :
    ((ofChars cs).after n).next.1 = .ok cs[n]? := by
  have hnil : ∀ n, (ofChars []).after n = ofChars [] := by
    intro n
    induction n with
    | zero => rfl
    | succ n ih => exact ih
  induction n generalizing cs with
  | zero => cases cs <;> rfl
  | succ n ih =>
    cases cs with
    | nil =>
      rw [hnil]
      rfl
    | cons c cs => exact ih cs

end TinyLang
