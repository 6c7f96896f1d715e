import TinyLang.Diagnostic.Terminal
import TinyLang.Proofs.Text.Lines

/-!
# Colours

Colours only decorate (`printed_of_colored`). A terminal takes what is written to it for
characters and escape sequences (`Terminal.parts`), and a text without an escape character is
characters only. So if there is no escape character in what is said about a source, then what is
written with colours is what is written without, and a pair of sequences for each span that has
a style: the one that opens it and the one that ends it.
-/

namespace TinyLang

open Text (Within)

namespace Terminal

/-! ## Escape sequences -/

/-- What a terminal takes a part of a text for. -/
inductive Part where
  /-- A character. -/
  | char (c : Char)
  /-- An escape sequence: an escape character, a bracket, what stands in `body`, and `m`. -/
  | sequence (body : List Char)
deriving DecidableEq

namespace Part

/-- The character of a part. -/
def char? : Part → Option Char
  | char c => some c
  | sequence _ => none

/-- The escape sequence of a part. -/
def sequence? : Part → Option String
  | char _ => none
  | sequence body => some (.ofList ('\x1b' :: '[' :: body ++ ['m']))

end Part

/-- What a terminal takes a text for. -/
def parts : List Char → List Part
  | [] => []
  | c :: cs =>
    if c = '\x1b' ∧ cs.head? = some '[' ∧ 'm' ∈ cs then
      .sequence (cs.tail.takeWhile (· != 'm')) :: parts (cs.tail.dropWhile (· != 'm')).tail
    else .char c :: parts cs
termination_by cs => cs.length
decreasing_by
  · have := (List.dropWhile_sublist (l := cs.tail) (· != 'm')).length_le
    simp only [List.length_tail, List.length_cons] at *
    omega
  · simp

/-- A text without its escape sequences. -/
def printed (s : String) : String := .ofList ((parts s.toList).filterMap Part.char?)

/-- The escape sequences of a text, in order. -/
def sequences (s : String) : List String := (parts s.toList).filterMap Part.sequence?

/-- Whether a character starts no escape sequence. -/
def isUnescaped (c : Char) : Bool := c != '\x1b'

/-- A text that is taken for the same parts whatever comes behind it. -/
def Reads (text : List Char) (ps : List Part) : Prop :=
  ∀ rest, parts (text ++ rest) = ps ++ parts rest

variable {s t : List Char} {ps qs : List Part}

theorem Reads.append (hs : Reads s ps) (ht : Reads t qs) : Reads (s ++ t) (ps ++ qs) := by
  intro rest
  rw [List.append_assoc, hs, ht, List.append_assoc]

theorem Reads.parts_eq (h : Reads s ps) : parts s = ps := by
  have := h []
  rwa [List.append_nil, parts, List.append_nil] at this

theorem reads_flatMap {α : Type} {f : α → List Char} {g : α → List Part} {as : List α}
    (h : ∀ a ∈ as, Reads (f a) (g a)) : Reads (as.flatMap f) (as.flatMap g) := by
  induction as with
  | nil => exact fun _ => rfl
  | cons a as ih =>
    obtain ⟨ha, has⟩ := List.forall_mem_cons.1 h
    exact ha.append (ih has)

/-- A text without an escape character is characters only. -/
theorem reads_of_forall (h : ∀ c ∈ s, isUnescaped c = true) : Reads s (s.map .char) := by
  intro rest
  induction s with
  | nil => rfl
  | cons c s ih =>
    obtain ⟨hc, hs⟩ := List.forall_mem_cons.1 h
    have hne : c ≠ '\x1b' := by simpa [isUnescaped] using hc
    rw [List.cons_append, parts, if_neg fun h => hne h.1, ih hs]
    rfl

theorem reads_sequence {body : List Char} (h : 'm' ∉ body) :
    Reads ('\x1b' :: '[' :: body ++ ['m']) [.sequence body] := by
  intro rest
  have hbody : ∀ c ∈ body, (c != 'm') = true := fun c hc => by
    simpa using ne_of_mem_of_not_mem hc h
  have hstops : Lexer.Stops (· != 'm') ('m' :: rest) := by
    rintro _ ⟨⟩
    rfl
  have htext : '\x1b' :: '[' :: body ++ ['m'] ++ rest = '\x1b' :: '[' :: (body ++ 'm' :: rest) := by
    simp
  rw [htext, parts, if_pos ⟨rfl, rfl, by simp⟩, List.tail_cons,
    Lexer.takeWhile_append_of_forall hbody hstops, List.dropWhile_append_of_pos hbody]
  rfl

/-! ## Spans -/

/-- The text of a span. -/
def Span.text : Span → String
  | .plain text | .styled _ text => text
  | .code text => "[" ++ text ++ "]"
  | .noteWord => "note"

/-- The style of a span, if it has one. -/
def Span.style : Span → Option Style
  | .plain _ => none
  | .styled style _ => some style
  | .code _ | .noteWord => some .strong

/-- A span with a style is written as its text in that style, whatever it is. -/
theorem Span.render_eq (colors : Bool) (s : Span) :
    s.render colors = s.style.elim s.text fun style => writeStyled colors style s.text := by
  cases s with
  | plain | styled => rfl
  | code text => exact writeCode_eq colors text
  | noteWord => exact writeNoteWord_eq colors

/-- What stands in the sequence that opens a style. -/
def Style.body : Style → List Char
  | error => ['1', ';', '3', '1']
  | warning => ['1', ';', '3', '3']
  | help => ['1', ';', '3', '2']
  | frame => ['1', ';', '3', '4']
  | strong => ['1']

theorem Style.toList_opening (style : Style) :
    style.opening.toList = '\x1b' :: '[' :: style.body ++ ['m'] := by
  cases style <;> rfl

theorem toList_closing : closing.toList = '\x1b' :: '[' :: ['0'] ++ ['m'] := rfl

/-- What a terminal takes a span for that is written with colours. -/
def Span.parts (s : Span) : List Part :=
  match s.style with
  | some style => .sequence style.body :: s.text.toList.map .char ++ [.sequence ['0']]
  | none => s.text.toList.map .char

variable {spans : List Span}

theorem toList_render_false (spans : List Span) :
    (render false spans).toList = spans.flatMap fun s => s.text.toList := by
  have htext (s : Span) : s.render false = s.text := by
    cases s <;> rfl
  simp only [render, String.toList_join, List.flatMap_map, htext]

theorem Span.reads {s : Span} (h : Within isUnescaped s.text) :
    Reads (s.render true).toList s.parts := by
  have htext := reads_of_forall h
  rw [Span.render_eq, Span.parts]
  cases s.style with
  | none => exact htext
  | some style =>
    have hopening : Reads style.opening.toList [.sequence style.body] := by
      rw [style.toList_opening]
      exact reads_sequence (by cases style <;> decide)
    have hclosing : Reads closing.toList [.sequence ['0']] := by
      rw [toList_closing]
      exact reads_sequence (by decide)
    have hwritten : (writeStyled true style s.text).toList =
        style.opening.toList ++ s.text.toList ++ closing.toList := by
      rw [writeStyled, if_pos rfl, String.toList_append, String.toList_append]
    rw [Option.elim_some, hwritten]
    exact (hopening.append htext).append hclosing

/-- What a terminal takes spans for that are written with colours. -/
theorem parts_render (h : ∀ s ∈ spans, Within isUnescaped s.text) :
    parts (render true spans).toList = spans.flatMap Span.parts := by
  rw [render, String.toList_join, List.flatMap_map]
  exact (reads_flatMap fun s hs => Span.reads (h s hs)).parts_eq

theorem Span.filterMap_char?_parts (s : Span) : s.parts.filterMap Part.char? = s.text.toList := by
  have htext : (s.text.toList.map Part.char).filterMap Part.char? = s.text.toList := by
    rw [List.filterMap_map]
    exact List.filterMap_some
  rw [Span.parts]
  split
  · rw [List.cons_append, List.filterMap_cons_none rfl, List.filterMap_append, htext]
    exact List.append_nil _
  · exact htext

theorem Span.filterMap_sequence?_parts (s : Span) : s.parts.filterMap Part.sequence? =
    s.style.toList.flatMap fun style => [style.opening, closing] := by
  have htext : (s.text.toList.map Part.char).filterMap Part.sequence? = [] := by
    simp [List.filterMap_map, Part.sequence?]
  rw [Span.parts]
  split
  · next style hstyle =>
    have hopening : (Part.sequence style.body).sequence? = some style.opening := by
      cases style <;> rfl
    have hclosing : (Part.sequence ['0']).sequence? = some closing := rfl
    rw [hstyle, List.cons_append, List.filterMap_cons_some hopening, List.filterMap_append, htext,
      List.nil_append, List.filterMap_cons_some hclosing]
    rfl
  · next hstyle =>
    rw [hstyle]
    exact htext

/-- Without its sequences, what is written with colours is what is written without. -/
theorem printed_render (h : ∀ s ∈ spans, Within isUnescaped s.text) :
    printed (render true spans) = render false spans := by
  rw [← String.toList_inj, toList_render_false, printed, String.toList_ofList, parts_render h,
    List.filterMap_flatMap]
  congr 1
  funext s
  exact s.filterMap_char?_parts

/-- Each span that has a style stands between the sequence that opens it and the one that ends
    it. -/
theorem sequences_render (h : ∀ s ∈ spans, Within isUnescaped s.text) :
    sequences (render true spans) =
      (spans.filterMap Span.style).flatMap fun style => [style.opening, closing] := by
  rw [sequences, parts_render h, List.filterMap_flatMap]
  clear h
  induction spans with
  | nil => rfl
  | cons s spans ih =>
    rw [List.flatMap_cons, ih, s.filterMap_sequence?_parts, List.filterMap_cons]
    cases s.style <;> rfl

/-- Without colours no sequence is written. -/
theorem within_render_false (h : ∀ s ∈ spans, Within isUnescaped s.text) :
    Within isUnescaped (render false spans) := by
  rw [Within, toList_render_false]
  intro c hc
  obtain ⟨s, hs, hc⟩ := List.mem_flatMap.1 hc
  exact h s hs c hc

end Terminal

/-! ## Diagnostics -/

namespace Diagnostic

open Terminal

/-- What is written about the diagnostics of a source, if there is one, and behind them the
    number of errors and warnings. -/
def written (source : Option SourceFile) (ds : List Diagnostic) (errors warnings : Nat) :
    List Span :=
  ds.flatMap (spans (source.map SourceFile.listing)) ++ summary errors warnings

/-- Whether there is no escape character in what a diagnostic says. -/
structure Unescaped (d : Diagnostic) : Prop where
  message : Within isUnescaped d.message
  label : ∀ text, d.label = some text → Within isUnescaped text
  notes : ∀ note ∈ d.notes, Within isUnescaped note
  suggestions : ∀ suggestion ∈ d.suggestions, Within isUnescaped suggestion

variable {d : Diagnostic} {source : Option SourceFile}

theorem unescaped_numeral (n : Nat) : Within isUnescaped (toString n) := by
  refine Text.within_numeral (fun c hc => ?_) n
  by_contra hescape
  obtain rfl : c = '\x1b' := by simpa [isUnescaped] using hescape
  cases hc

theorem unescaped_blanks (n : Nat) : Within isUnescaped ("".pushn ' ' n) :=
  Text.within_blanks (by decide) n

theorem unescaped_header (h : d.Unescaped) : ∀ s ∈ d.header, Within isUnescaped s.text := by
  have hword : Within isUnescaped d.severity.word := by cases d.severity <;> decide
  have hcode : Within isUnescaped d.code.text := by cases d.code <;> decide
  have hmark : Within isUnescaped ("[" ++ d.code.text ++ "]") :=
    (Within.append (by decide) hcode).append (by decide)
  have hmessage : Within isUnescaped (": " ++ d.message ++ "\n") :=
    (Within.append (by decide) h.message).append (by decide)
  simp only [header, List.forall_mem_cons]
  exact ⟨hword, hmark, hmessage, List.forall_mem_nil _⟩

theorem unescaped_excerpt {position : Position} {label : Option String} {line : String}
    (hlabel : ∀ text, label = some text → Within isUnescaped text)
    (hline : Within isUnescaped line) :
    ∀ s ∈ excerpt position label line, Within isUnescaped s.text := by
  have hgutter : Within isUnescaped (" " ++ "".pushn ' ' (toString position.line).length ++ " |") :=
    (Within.append (by decide) (unescaped_blanks _)).append (by decide)
  have hnumber : Within isUnescaped (" " ++ toString position.line ++ " | " ++ line ++ "\n") :=
    (((Within.append (by decide) (unescaped_numeral _)).append (by decide)).append hline).append
      (by decide)
  have hmarker : Within isUnescaped (label.elim "^" fun text => "^ " ++ text) := by
    cases label with
    | none => decide
    | some text => exact Within.append (by decide) (hlabel text rfl)
  simp only [excerpt, List.forall_mem_cons]
  refine ⟨?_, hnumber, ?_, hmarker, by decide, List.forall_mem_nil _⟩
  · exact (Within.append (by decide) (unescaped_blanks _)).append (by decide)
  · exact (((Within.append (by decide) (unescaped_blanks _)).append (by decide)).append
      (unescaped_blanks _))

theorem unescaped_bareLabel {label : Option String}
    (hlabel : ∀ text, label = some text → Within isUnescaped text) :
    ∀ s ∈ bareLabel label, Within isUnescaped s.text := by
  cases label with
  | none => exact List.forall_mem_nil _
  | some text =>
    simp only [bareLabel, Option.elim_some, List.forall_mem_cons]
    exact ⟨by decide, hlabel text rfl, by decide, List.forall_mem_nil _⟩

theorem unescaped_location
    (hsource : ∀ f, source = some f → Within isUnescaped f.path ∧ Within isUnescaped f.text)
    (h : d.Unescaped) :
    ∀ s ∈ d.location (source.map SourceFile.listing), Within isUnescaped s.text := by
  rw [location]
  cases d.position with
  | none => exact List.forall_mem_nil _
  | some position =>
    have hpath : Within isUnescaped
        ((source.map SourceFile.listing).elim "<input>" Listing.path) := by
      cases source with
      | none => decide
      | some f => exact (hsource f rfl).1
    have hposition : Within isUnescaped position.render :=
      ((unescaped_numeral _).append (by decide)).append (unescaped_numeral _)
    have hplace : Within isUnescaped
        (" " ++ (source.map SourceFile.listing).elim "<input>" Listing.path ++ ":" ++
          position.render ++ "\n") :=
      ((((Within.append (by decide) hpath).append (by decide)).append hposition).append (by decide))
    refine List.forall_mem_append.2 ⟨?_, ?_⟩
    · simp only [List.forall_mem_cons]
      exact ⟨by decide, by decide, hplace, List.forall_mem_nil _⟩
    · split
      · next line hline =>
        refine unescaped_excerpt h.label fun c hc => ?_
        obtain ⟨l, hl, hline⟩ := Option.bind_eq_some_iff.1 hline
        obtain ⟨f, rfl, rfl⟩ := Option.map_eq_some_iff.1 hl
        refine (hsource f rfl).2 c (Text.mem_of_mem_lines ?_ hc)
        rw [Listing.line?, Option.ite_none_left_eq_some] at hline
        exact List.mem_of_getElem? (List.getElem?_toArray .. ▸ hline.2)
      · exact unescaped_bareLabel h.label

theorem unescaped_remark {word : Span} {text : String} (hword : Within isUnescaped word.text)
    (htext : Within isUnescaped text) :
    ∀ s ∈ [.plain "   = ", word, .plain (": " ++ text ++ "\n")],
      Within isUnescaped s.text := by
  simp only [List.forall_mem_cons]
  exact ⟨by decide, hword, (Within.append (by decide) htext).append (by decide),
    List.forall_mem_nil _⟩

theorem unescaped_remarks (h : d.Unescaped) : ∀ s ∈ d.remarks, Within isUnescaped s.text := by
  refine List.forall_mem_append.2 ⟨fun s hs => ?_, fun s hs => ?_⟩
  · obtain ⟨note, hnote, hs⟩ := List.mem_flatMap.1 hs
    exact unescaped_remark (by decide) (h.notes note hnote) s hs
  · obtain ⟨suggestion, hsuggestion, hs⟩ := List.mem_flatMap.1 hs
    exact unescaped_remark (by decide) (h.suggestions suggestion hsuggestion) s hs

theorem unescaped_summary (errors warnings : Nat) :
    ∀ s ∈ summary errors warnings, Within isUnescaped s.text := by
  have hplural : ∀ n, Within isUnescaped (plural n "warning") := by
    intro n
    rw [plural]
    split <;> decide
  have hcount : Within isUnescaped (warningCount warnings) :=
    (((unescaped_numeral _).append (by decide)).append (hplural _)).append (by decide)
  rw [summary]
  split
  · have herrors : Within isUnescaped
        (if errors = 1 then "previous error" else toString errors ++ " previous errors") := by
      split
      · decide
      · exact (unescaped_numeral _).append (by decide)
    have hmore : Within isUnescaped
        (if 0 < warnings then "; " ++ warningCount warnings else "") := by
      split
      · exact Within.append (by decide) hcount
      · decide
    simp only [List.forall_mem_cons]
    exact ⟨by decide, ((Within.append (by decide) herrors).append hmore).append (by decide),
      List.forall_mem_nil _⟩
  · split
    · simp only [List.forall_mem_cons]
      exact ⟨by decide, (Within.append (by decide) hcount).append (by decide),
        List.forall_mem_nil _⟩
    · exact List.forall_mem_nil _

/-- There is no escape character in what is written but those of the sequences. -/
theorem unescaped_written {ds : List Diagnostic}
    (hsource : ∀ f, source = some f → Within isUnescaped f.path ∧ Within isUnescaped f.text)
    (hds : ∀ d ∈ ds, d.Unescaped) (errors warnings : Nat) :
    ∀ s ∈ written source ds errors warnings, Within isUnescaped s.text := by
  refine List.forall_mem_append.2 ⟨fun s hs => ?_, unescaped_summary errors warnings⟩
  obtain ⟨d, hd, hs⟩ := List.mem_flatMap.1 hs
  have hall : ∀ s ∈ d.spans (source.map SourceFile.listing), Within isUnescaped s.text := by
    refine List.forall_mem_append.2 ⟨List.forall_mem_append.2 ⟨List.forall_mem_append.2 ⟨?_, ?_⟩,
      ?_⟩, List.forall_mem_singleton.2 (by decide)⟩
    · exact unescaped_header (hds d hd)
    · exact unescaped_location hsource (hds d hd)
    · exact unescaped_remarks (hds d hd)
  exact hall s hs

end Diagnostic

section Colored

open Terminal Diagnostic

/-- If there is no escape character in diagnostics and their source, then what is written with
    colours is what is written without them, once its escape sequences are taken out. These
    come in pairs, one for each span that has a style: the sequence that opens the style, and
    then the one that ends it. Without colours there is no escape character. -/
theorem printed_of_colored (source : Option SourceFile) (ds : List Diagnostic)
    (errors warnings : Nat)
    (hsource : ∀ f, source = some f → Within isUnescaped f.path ∧ Within isUnescaped f.text)
    (hds : ∀ d ∈ ds, d.Unescaped) :
    printed (render true (written source ds errors warnings)) =
        render false (written source ds errors warnings) ∧
      Within isUnescaped (render false (written source ds errors warnings)) ∧
      sequences (render true (written source ds errors warnings)) =
        ((written source ds errors warnings).filterMap Span.style).flatMap
          fun style => [style.opening, closing] := by
  have h := unescaped_written hsource hds errors warnings
  exact ⟨printed_render h, within_render_false h, sequences_render h⟩

/-- A source with a hash sign in the third column. -/
def SourceFile.hashSign : SourceFile := ⟨"a.tiny", "x #"⟩

/-- The diagnostic of the hash sign. -/
def Diagnostic.hashSign : Diagnostic := LexError.diagnostic ⟨⟨1, 3⟩, .illegalCharacter '#'⟩

/-- About a hash sign, the severity, the code, the arrow, the caret and the word before the
    suggestion are written in a style, and so is the summary. -/
theorem printed_hashSign :
    (∀ f, some SourceFile.hashSign = some f →
        Within isUnescaped f.path ∧ Within isUnescaped f.text) ∧
      (∀ d ∈ [hashSign], d.Unescaped) ∧
      printed (render true (written (some .hashSign) [hashSign] 1 0)) =
        render false (written (some .hashSign) [hashSign] 1 0) ∧
      Within isUnescaped (render false (written (some .hashSign) [hashSign] 1 0)) ∧
      sequences (render true (written (some .hashSign) [hashSign] 1 0)) =
        [Style.error, .strong, .frame, .error, .help, .error].flatMap
          fun style => [style.opening, closing] := by
  have hsource : ∀ f, some SourceFile.hashSign = some f →
      Within isUnescaped f.path ∧ Within isUnescaped f.text := by
    rintro _ ⟨⟩
    decide
  have hds : ∀ d ∈ [hashSign], d.Unescaped := by
    refine List.forall_mem_singleton.2 ⟨by decide +kernel, ?_, by decide, by decide⟩
    rintro _ ⟨⟩
    decide
  have hstyles : (written (some .hashSign) [hashSign] 1 0).filterMap Span.style =
      [Style.error, .strong, .frame, .error, .help, .error] := by decide +kernel
  have h := printed_of_colored (some .hashSign) [hashSign] 1 0 hsource hds
  rw [hstyles] at h
  exact ⟨hsource, hds, h⟩

end Colored

end TinyLang
