import Frontend.Proofs.Grammar.Notices

/-!
# What a reader does step by step

A reader moves its cursor on, tells of statements that it starts, and notes problems.  Not every
order of these steps is possible: a statement is started with a token that the cursor has just come
to, and after a fault nothing is read before the cursor moves on; all that may still be noted where
it stands is that a `return` goes without its value.  A walk is a row of steps in a possible order,
with the diagnostics and the events that they leave behind.
-/

namespace Frontend

/-- How far a reader is with the token that its cursor stands on: it has just come to it, it reads
on from it, it has found a fault there, or it has noted one more about a `return`. -/
inductive Stage where
  | arrived | reading | failed | noted

namespace Stage

/-- Nothing was wrong since the cursor came to its token. -/
def IsSound : Stage → Prop
  | arrived | reading => True
  | failed | noted => False

end Stage

/-- A problem that names the kind of token it was found at names this one.  So a message tells the
truth about its place. -/
def Problem.Blames (kind : Kind) : Problem → Prop
  | .missing _ found | .noOperand found => found = kind
  | .stated _ => False
  | _ => True

/-- The steps from one stage to another, with the diagnostics and the events on the way.  Every
reader takes such steps, and no others. -/
inductive Walk : Stage → Cursor → List Diagnostic → List Event → Stage → Cursor → Prop where
  | stay {stage cursor} : Walk stage cursor [] [] stage cursor
  | pass {cursor diagnostics events stage stop}
      (hrest : Walk .reading cursor diagnostics events stage stop) :
      Walk .arrived cursor diagnostics events stage stop
  | start {cursor diagnostics events stage stop} (hcurrent : cursor.current.kind ≠ .eof)
      (hrest : Walk .reading cursor diagnostics events stage stop) :
      Walk .arrived cursor diagnostics
        (.statementStarted cursor.current.kind cursor.current.span.start :: events) stage stop
  | move {origin cursor diagnostics events stage stop} (hleaves : origin ≠ .arrived)
      (hrest : Walk .arrived cursor.advance diagnostics events stage stop) :
      Walk origin cursor diagnostics (cursor.broughtIntoView ++ events) stage stop
  | faultHere {cursor problem diagnostics events stage stop}
      (hblames : problem.Blames cursor.current.kind)
      (hrest : Walk .failed cursor diagnostics events stage stop) :
      Walk .reading cursor (⟨problem, some cursor.current.span⟩ :: diagnostics) events stage stop
  | faultNext {cursor problem diagnostics events stage stop}
      (hblames : problem.Blames cursor.next.kind)
      (hrest : Walk .failed cursor diagnostics events stage stop) :
      Walk .reading cursor (⟨problem, some cursor.next.span⟩ :: diagnostics) events stage stop
  | note {cursor diagnostics events stage stop}
      (hrest : Walk .noted cursor diagnostics events stage stop) :
      Walk .failed cursor (⟨.returnWithoutValue, some cursor.current.span⟩ :: diagnostics) events
        stage stop

namespace Walk

variable {origin stage last : Stage} {cursor stop final : Cursor}
variable {diagnostics later : List Diagnostic} {events laterEvents : List Event}

theorem trans (hwalk : Walk origin cursor diagnostics events stage stop)
    (hlater : Walk stage stop later laterEvents last final) :
    Walk origin cursor (diagnostics ++ later) (events ++ laterEvents) last final := by
  induction hwalk with
  | stay => exact hlater
  | pass _ ih => exact .pass (ih hlater)
  | start hcurrent _ ih => exact .start hcurrent (ih hlater)
  | move hleaves _ ih =>
      rw [List.append_assoc]
      exact .move hleaves (ih hlater)
  | faultHere hblames _ ih => exact .faultHere hblames (ih hlater)
  | faultNext hblames _ ih => exact .faultNext hblames (ih hlater)
  | note _ ih => exact .note (ih hlater)

theorem leads (hwalk : Walk origin cursor diagnostics events stage stop) : cursor.Leads stop := by
  induction hwalk with
  | stay => exact .refl _
  | move _ _ ih => exact (Cursor.Leads.advance _).trans ih
  | pass _ ih | start _ _ ih | faultHere _ _ ih | faultNext _ _ ih | note _ ih => exact ih

/-- Without a diagnostic nothing goes wrong. -/
theorem isSound (hwalk : Walk origin cursor diagnostics events stage stop)
    (hquiet : diagnostics = []) (hsound : origin.IsSound) : stage.IsSound := by
  induction hwalk with
  | stay => exact hsound
  | pass _ ih | start _ _ ih | move _ _ ih => exact ih hquiet trivial
  | faultHere | faultNext | note => cases hquiet

end Walk

end Frontend
