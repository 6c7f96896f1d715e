import Mathlib
import TinyLang.Source

/-!
# Lines in UTF-8

No character but the line end is written with the byte of one, so bytes and the text that
they stand for are cut into lines at the same places (`Text.Pieces.map_utf8`). Bytes that stand
for a text give its characters, read line by line or not (`Source.ofBytes_of_decode`). Of
other bytes there is a first line that stands for nothing, and the lines before it are whole
(`Source.exists_byteLines_of_error`).
-/

namespace TinyLang

namespace Text

/-! ## Pieces -/

variable {α : Type} {stop : α → Bool} {as : List α} {ps : List (List α)}

/-- What a sequence is cut into, behind every element that `stop` picks. -/
inductive Pieces (stop : α → Bool) : List α → List (List α) → Prop
  /-- Nothing is cut into nothing. -/
  | nil : Pieces stop [] []
  /-- The last piece need not be a whole one. -/
  | last {as : List α} : as ≠ [] → (∀ a ∈ as, stop a = false) → Pieces stop as [as]
  /-- A whole piece comes first. -/
  | cons {piece as : List α} {a : α} {ps : List (List α)} : (∀ b ∈ piece, stop b = false) →
      stop a = true → Pieces stop as ps → Pieces stop (piece ++ a :: as) ((piece ++ [a]) :: ps)

theorem piecesLoop_append {init : List α} (hinit : ∀ a ∈ init, stop a = false)
    (piece : List α) (done : Array (List α)) (rest : List α) :
    piecesLoop stop piece done (init ++ rest) =
      piecesLoop stop (init.reverse ++ piece) done rest := by
  induction init generalizing piece with
  | nil => rfl
  | cons a init ih =>
    have ha : ¬ stop a = true := Bool.eq_false_iff.1 (hinit a List.mem_cons_self)
    rw [List.cons_append, piecesLoop, if_neg ha, ih fun b hb => hinit b (List.mem_cons_of_mem _ hb),
      List.reverse_cons, List.append_assoc]
    rfl

theorem Pieces.loop (h : Pieces stop as ps) (done : Array (List α)) :
    (piecesLoop stop [] done as).toList = done.toList ++ ps := by
  induction h generalizing done with
  | nil => exact (List.append_nil _).symm
  | @last as hne hstop =>
    have h := piecesLoop_append hstop [] done []
    rw [List.append_nil, List.append_nil] at h
    rw [h, piecesLoop, if_neg (by simpa using hne), Array.toList_push, List.reverse_reverse]
  | @cons piece as a ps hstop ha _ ih =>
    rw [piecesLoop_append hstop, List.append_nil, piecesLoop, if_pos ha, ih, Array.toList_push,
      List.append_assoc, List.reverse_cons, List.reverse_reverse]
    rfl

/-- A sequence is cut in one way. -/
theorem Pieces.eq (h : Pieces stop as ps) : pieces stop as = ps :=
  h.loop #[]

theorem exists_pieces (stop : α → Bool) (as : List α) : ∃ ps, Pieces stop as ps := by
  induction as with
  | nil => exact ⟨[], .nil⟩
  | cons a as ih =>
    obtain ⟨ps, hps⟩ := ih
    by_cases ha : stop a = true
    · exact ⟨_, .cons (List.forall_mem_nil _) ha hps⟩
    -- an element that is not picked belongs to the first piece behind it
    have ha := Bool.eq_false_iff.2 ha
    cases hps with
    | nil => exact ⟨_, .last (List.cons_ne_nil a []) (List.forall_mem_singleton.2 ha)⟩
    | last _ hstop => exact ⟨_, .last (List.cons_ne_nil a as) (List.forall_mem_cons.2 ⟨ha, hstop⟩)⟩
    | cons hstop hb hps => exact ⟨_, .cons (List.forall_mem_cons.2 ⟨ha, hstop⟩) hb hps⟩

theorem pieces_spec (stop : α → Bool) (as : List α) : Pieces stop as (pieces stop as) := by
  obtain ⟨ps, hps⟩ := exists_pieces stop as
  rwa [hps.eq]

/-- Every piece with another one behind it is whole. -/
theorem Pieces.whole {before after : List (List α)} {piece p : List α}
    (h : Pieces stop as (before ++ piece :: after)) (hp : p ∈ before) :
    ∃ init a, p = init ++ [a] ∧ stop a = true ∧ ∀ b ∈ init, stop b = false := by
  induction before generalizing as with
  | nil => cases hp
  | cons q before ih =>
    generalize hps : before ++ piece :: after = ps at h
    rw [List.cons_append, hps] at h
    cases h with
    | last _ _ => simp at hps
    | cons hstop ha htail =>
      rcases List.mem_cons.1 hp with rfl | hp
      · exact ⟨_, _, rfl, ha, hstop⟩
      · exact ih (hps ▸ htail) hp

/-! ## Characters as bytes -/

/-- The bytes that characters are written with. -/
def utf8 (cs : List Char) : List UInt8 := cs.flatMap String.utf8EncodeChar

@[simp]
theorem utf8_append (cs ds : List Char) : utf8 (cs ++ ds) = utf8 cs ++ utf8 ds :=
  List.flatMap_append

theorem utf8_newline_cons (cs : List Char) : utf8 ('\n' :: cs) = 10 :: utf8 cs := rfl

/-- Only the line end is written with the byte of one. -/
theorem eq_newline_of_mem_utf8EncodeChar {c : Char} (h : 10 ∈ String.utf8EncodeChar c) :
    c = '\n' := by
  have hbyte : ∀ n : Nat, 10 = UInt8.ofNat n → n % 256 = 10 := by
    intro n hn
    simpa using (congrArg UInt8.toNat hn).symm
  unfold String.utf8EncodeChar at h
  dsimp only at h
  -- a character of one byte is that byte; all bytes of others are above
  split at h
  · have := hbyte _ (List.mem_singleton.1 h)
    refine Char.ext (UInt32.toNat_inj.1 ?_)
    show c.val.toNat = 10
    omega
  split at h
  · rcases List.mem_pair.1 h with h | h
    all_goals
      have := hbyte _ h
      omega
  split at h
  all_goals simp only [List.mem_cons, List.not_mem_nil, or_false] at h
  · rcases h with h | h | h
    all_goals
      have := hbyte _ h
      omega
  · rcases h with h | h | h | h
    all_goals
      have := hbyte _ h
      omega

theorem newline_mem_of_mem_utf8 {cs : List Char} (h : 10 ∈ utf8 cs) : '\n' ∈ cs := by
  obtain ⟨c, hc, hmem⟩ := List.mem_flatMap.1 h
  rwa [← eq_newline_of_mem_utf8EncodeChar hmem]

/-- Bytes are cut into lines where the characters are. -/
theorem Pieces.map_utf8 {cs : List Char} {ps : List (List Char)} (h : Pieces (· == '\n') cs ps) :
    Pieces (· == 10) (utf8 cs) (ps.map utf8) := by
  have hrun : ∀ {cs : List Char}, (∀ c ∈ cs, (c == '\n') = false) →
      ∀ b ∈ utf8 cs, (b == 10) = false := by
    intro cs hcs b hb
    refine beq_eq_false_iff_ne.2 ?_
    rintro rfl
    exact absurd (hcs _ (newline_mem_of_mem_utf8 hb)) (by decide)
  induction h with
  | nil => exact .nil
  | @last cs hne hstop =>
    refine .last ?_ (hrun hstop)
    obtain ⟨c, cs, rfl⟩ := List.exists_cons_of_ne_nil hne
    rw [utf8, List.flatMap_cons]
    exact List.append_ne_nil_of_left_ne_nil String.utf8EncodeChar_ne_nil _
  | @cons piece cs c ps hstop hc _ ih =>
    obtain rfl := beq_iff_eq.1 hc
    rw [List.map_cons, utf8_append, utf8_append, utf8_newline_cons, utf8_newline_cons]
    exact .cons (hrun hstop) rfl ih

/-- A text that is one line, with its line end. -/
def IsLine (text : String) : Prop := ∃ cs, text.toList = cs ++ ['\n'] ∧ '\n' ∉ cs

end Text

namespace Source

variable {bytes : List UInt8} {text : String}

theorem toByteArray_eq_utf8 (text : String) :
    text.toByteArray = (Text.utf8 text.toList).toByteArray := by
  conv_lhs => rw [← String.ofList_toList (s := text)]
  rw [String.toByteArray_ofList]
  rfl

theorem fromUTF8?_eq_some_iff {a : ByteArray} :
    String.fromUTF8? a = some text ↔ text.toByteArray = a := by
  rw [String.fromUTF8?]
  split
  · rw [Option.some_inj, ← String.toByteArray_inj]
    exact eq_comm
  · next h =>
    refine iff_of_false nofun fun heq => h ?_
    rw [← heq]
    exact text.isValidUTF8

/-- Bytes stand for the text that is written with them. -/
theorem decode_eq_ok_iff : decode bytes = .ok text ↔ bytes = Text.utf8 text.toList := by
  have hsome : decode bytes = .ok text ↔ String.fromUTF8? ⟨bytes.toArray⟩ = some text := by
    rw [decode]
    cases String.fromUTF8? ⟨bytes.toArray⟩ <;> simp
  have hbytes : (⟨bytes.toArray⟩ : ByteArray) = bytes.toByteArray :=
    ByteArray.ext List.data_toByteArray.symm
  rw [hsome, fromUTF8?_eq_some_iff, toByteArray_eq_utf8, hbytes]
  refine ⟨fun h => ?_, fun h => by rw [h]⟩
  simpa using (congrArg (fun a : ByteArray => a.data.toList) h).symm

theorem decode_utf8 (cs : List Char) : decode (Text.utf8 cs) = .ok (.ofList cs) := by
  rw [decode_eq_ok_iff, String.toList_ofList]

theorem decode_cases (bytes : List UInt8) :
    (∃ text, decode bytes = .ok text) ∨ decode bytes = .error .notUtf8 := by
  rw [decode]
  cases String.fromUTF8? ⟨bytes.toArray⟩ with
  | some text => exact .inl ⟨text, rfl⟩
  | none => exact .inr rfl

/-- Lines that were decoded give the characters of their texts. -/
theorem flatMap_lineReads (texts : List String) :
    (texts.map .ok).flatMap lineReads = (String.join texts).toList.map .ok := by
  rw [String.toList_join, List.map_flatMap, List.flatMap_map]
  rfl

/-- Bytes that stand for a text give its characters, although each line is decoded on its
    own. -/
theorem ofBytes_of_decode (h : decode bytes = .ok text) : ofBytes bytes = .ofText text := by
  have hpieces := Text.pieces_spec (· == '\n') text.toList
  let texts := (Text.pieces (· == '\n') text.toList).map String.ofList
  have hlines : byteLines bytes = texts.map .ok := by
    rw [byteLines, decode_eq_ok_iff.1 h, hpieces.map_utf8.eq, List.map_map, List.map_map]
    exact List.map_congr_left fun cs _ => decode_utf8 cs
  have htexts : (String.join texts).toList = text.toList := by
    rw [String.toList_join, List.flatMap_map]
    simpa using Text.flatten_pieces (· == '\n') text.toList
  rw [ofBytes, hlines, flatMap_lineReads, htexts]
  rfl

/-! ## Bytes that are not UTF-8 -/

theorem decode_error_eq {e : ReadError} (h : decode bytes = .error e) : e = .notUtf8 := by
  rcases decode_cases bytes with ⟨text, hok⟩ | herror
  · rw [hok] at h
    cases h
  · rw [herror] at h
    exact (Except.error.inj h).symm

/-- Results are all there, or there is a first error among them. -/
theorem forall_ok_or_exists_error {ε β : Type} (xs : List (Except ε β)) :
    (∃ ys : List β, xs = ys.map .ok) ∨
      ∃ (ys : List β) (e : ε) (more : List (Except ε β)), xs = ys.map .ok ++ .error e :: more := by
  induction xs with
  | nil => exact .inl ⟨[], rfl⟩
  | cons x xs ih =>
    cases x with
    | error e => exact .inr ⟨[], e, xs, rfl⟩
    | ok y =>
      rcases ih with ⟨ys, rfl⟩ | ⟨ys, e, more, rfl⟩
      · exact .inl ⟨y :: ys, rfl⟩
      · exact .inr ⟨y :: ys, e, more, rfl⟩

/-- Pieces that stand for texts are written with the bytes of these. -/
theorem flatten_of_map_decode {ps : List (List UInt8)} {texts : List String}
    (h : ps.map decode = texts.map .ok) : ps.flatten = Text.utf8 (String.join texts).toList := by
  induction texts generalizing ps with
  | nil =>
    rw [List.map_eq_nil_iff.1 h, String.join_nil]
    rfl
  | cons text texts ih =>
    obtain ⟨p, ps, rfl, hp, hps⟩ := List.map_eq_cons_iff.1 h
    rw [List.flatten_cons, ih hps, decode_eq_ok_iff.1 hp, String.join_cons, String.toList_append,
      Text.utf8_append]

theorem isLine_of_decode {init : List UInt8} (hinit : 10 ∉ init)
    (h : decode (init ++ [10]) = .ok text) : Text.IsLine text := by
  have hbytes := decode_eq_ok_iff.1 h
  rcases List.eq_nil_or_concat text.toList with hnil | ⟨cs, c, hcs⟩
  · rw [hnil] at hbytes
    cases (List.append_eq_nil_iff.1 hbytes).2
  -- the last character is written with a last byte that is a line end
  rw [List.concat_eq_append] at hcs
  have hchar : Text.utf8 [c] = String.utf8EncodeChar c := List.flatMap_singleton _ _
  rw [hcs, Text.utf8_append, hchar] at hbytes
  have hlast := congrArg List.getLast? hbytes
  rw [List.getLast?_concat, List.getLast?_append_of_ne_nil _ String.utf8EncodeChar_ne_nil] at hlast
  obtain rfl := Text.eq_newline_of_mem_utf8EncodeChar (List.mem_of_getLast? hlast.symm)
  obtain ⟨rfl, -⟩ := List.append_inj' hbytes rfl
  exact ⟨cs, hcs, fun hmem => hinit (List.mem_flatMap.2 ⟨'\n', hmem, List.mem_singleton_self _⟩)⟩

/-- Where bytes are not UTF-8, one of their lines is the first that is not, and those before
    it are whole. -/
theorem exists_byteLines_of_error {e : ReadError} (h : decode bytes = .error e) :
    ∃ (texts : List String) (more : List (Except ReadError String)),
      byteLines bytes = texts.map .ok ++ .error .notUtf8 :: more ∧
        ∀ text ∈ texts, Text.IsLine text := by
  rcases forall_ok_or_exists_error (byteLines bytes) with
    ⟨texts, hlines⟩ | ⟨texts, e', more, hlines⟩
  · -- lines that all stand for texts are the bytes of a text
    have hflatten := flatten_of_map_decode hlines
    rw [Text.flatten_pieces] at hflatten
    rw [decode_eq_ok_iff.2 hflatten] at h
    cases h
  · obtain ⟨before, after, hps, hbefore, hafter⟩ := List.map_eq_append_iff.1 hlines
    obtain ⟨p, after, rfl, hp, -⟩ := List.map_eq_cons_iff.1 hafter
    obtain rfl := decode_error_eq hp
    refine ⟨texts, more, hlines, fun text htext => ?_⟩
    have hpieces := Text.pieces_spec (· == 10) bytes
    rw [hps] at hpieces
    obtain ⟨q, hq, hdecode⟩ : ∃ q ∈ before, decode q = .ok text := by
      rw [← List.mem_map, hbefore]
      exact List.mem_map_of_mem htext
    obtain ⟨init, b, rfl, hb, hinit⟩ := hpieces.whole hq
    obtain rfl := beq_iff_eq.1 hb
    exact isLine_of_decode (fun hmem => absurd (hinit 10 hmem) (by decide)) hdecode

end Source

end TinyLang
