import HeadUnit.Axis
import HeadUnit.Overlay

/-! The status of an application: its four axes, tagged with the layer that produced it. -/

namespace HeadUnit

/-- The layer of an application's state that a status belongs to. -/
inductive Layer
  /-- What is presented now. -/
  | current
  /-- The baseline, without any overlay. -/
  | regular
  /-- What an overlay made of the layer under it. -/
  | overlay (k : Overlay)
  deriving DecidableEq

/-- A complete status. -/
structure Status where
  level : Level
  audio : Audio
  video : Video
  context : Context
  layer : Layer := .regular
  deriving DecidableEq

namespace Status

/-- The status of an application that nobody has asked anything for. -/
def initial : Status := ⟨.absent, .notAudible, .notStreamable, .main, .regular⟩

/-- The same axes on another layer. -/
def onLayer (s : Status) (l : Layer) : Status := { s with layer := l }

/-- The same status at another level. -/
def atLevel (s : Status) (l : Level) : Status := { s with level := l }

/-- No axis holds its invalid marker. -/
def isValid (s : Status) : Bool :=
  s.level.isValid && s.audio.isValid && s.video.isValid && s.context.isValid

/-- The first axis that holds its invalid marker. -/
def flaw? (s : Status) : Option Axis :=
  if !s.level.isValid then some .level
  else if !s.audio.isValid then some .audio
  else if !s.video.isValid then some .video
  else if !s.context.isValid then some .context
  else none

/-- The four axes agree; the layer does not matter. -/
def sameAxes (s t : Status) : Bool :=
  decide (s.level = t.level) && decide (s.audio = t.audio) && decide (s.video = t.video) &&
    decide (s.context = t.context)

/-- The status in words: the level as on the wire, the other axes by title. -/
def text (s : Status) : String :=
  "/".intercalate [s.level.wireName, s.audio.title, s.video.title, s.context.title]

theorem flaw?_eq_none_iff {s : Status} : s.flaw? = none ↔ s.isValid = true := by
  unfold flaw? isValid
  cases s.level.isValid <;> cases s.audio.isValid <;> cases s.video.isValid <;>
    cases s.context.isValid <;> decide

@[simp] theorem sameAxes_refl (s : Status) : s.sameAxes s = true := by simp [sameAxes]

end Status

end HeadUnit
