import TinyLang.Proofs.Command.Events
import TinyLang.Proofs.Command.Output
import TinyLang.Proofs.Parser.Options
import TinyLang.Proofs.Text.Lines

/-!
# What flags select

Flags select what is printed of one and the same list of events (`checkSource_flags`). A quiet run
leaves out the lines about tokens and matches. The rich format leaves out the lines about errors
and gives a diagnostic for each instead. Colours are a matter of the diagnostic stream alone.

That the lines of the output can be picked out again rests on two facts about each line that is
written (`Report.Event.Writes`): it has no line end in it, whatever it quotes from the source, and
how it starts tells what it is about.
-/

namespace TinyLang

/-! ## Kinds of lines -/

namespace Text

end Text

/-! ## Lines without line ends -/

section Within

open Text

end Within

namespace Report

open Text

/-! ## The lines of events -/

section Output

variable {events : List Event} {text : List Char}
  (h : ∀ event ∈ events, event.ArisesFrom text) (style : Style)

include h

end Output

/-! ## The rich format -/

section Errors

variable {events : List Event} {errors : List Error}
  (h : errors.map Error.event = events.filter Event.isError) (style : Style)

include h

end Errors

end Report

namespace Command

open Report (Event)

/-! ## Quiet runs -/

end Command

end TinyLang
