import HeadUnit.Overlay.Cover

/-! What the head unit keeps of one registered application. The effective status is never stored: it
is the regular status under the overlays. What is stored is the status that the application was last
told, so that the next difference is taken from what it saw. -/

namespace HeadUnit

/-- The record of a registered application. -/
structure AppRecord where
  profile : Profile
  /-- The baseline, without any overlay. -/
  regular : Status := .initial
  /-- The overlays over it, the lowest first. -/
  overlays : List Overlay := []
  /-- The request that waits for the blocking overlays to end. -/
  postponed? : Option Status := none
  /-- Inside its resumption window, in which blocking overlays do not hold it back. -/
  resuming : Bool := false
  /-- The effective status that the application was last told. -/
  told : Status := .initial
  deriving DecidableEq

namespace AppRecord

/-- The middleware's number of the application. -/
def app (r : AppRecord) : AppId := r.profile.app

/-- The declared capabilities. -/
def capabilities (r : AppRecord) : Capabilities := r.profile.capabilities

/-- The status presented to the application. -/
def effective (attenuates : Bool) (r : AppRecord) : Status :=
  Overlay.coverAll r.overlays r.capabilities attenuates r.regular

/-- Whether an overlay of this kind lies over the application. -/
def isUnder (k : Overlay) (r : AppRecord) : Bool := r.overlays.contains k

/-- Takes another regular status. -/
def withRegular (s : Status) (r : AppRecord) : AppRecord := { r with regular := s.onLayer .regular }

/-- Lays an overlay on top, unless one of its kind lies there already. -/
def lay (k : Overlay) (r : AppRecord) : AppRecord :=
  if r.isUnder k then r else { r with overlays := r.overlays ++ [k] }

/-- Takes an overlay away from wherever it lies. -/
def lift (k : Overlay) (r : AppRecord) : AppRecord :=
  { r with overlays := r.overlays.filter (· ≠ k) }

/-- Defers a request; it replaces one deferred before. -/
def postpone (s : Status) (r : AppRecord) : AppRecord :=
  { r with postponed? := some (s.onLayer .regular) }

/-- Drops the deferred request. -/
def clearPostponed (r : AppRecord) : AppRecord := { r with postponed? := none }

/-- Enters or leaves the resumption window. -/
def withResuming (b : Bool) (r : AppRecord) : AppRecord := { r with resuming := b }

/-- Notes what the application was told. -/
def withTold (s : Status) (r : AppRecord) : AppRecord := { r with told := s }

theorem lay_overlays (k : Overlay) (r : AppRecord) :
    (r.lay k).overlays = if k ∈ r.overlays then r.overlays else r.overlays ++ [k] := by
  unfold lay isUnder
  by_cases h : k ∈ r.overlays <;> simp [h]

@[simp] theorem lift_overlays (k : Overlay) (r : AppRecord) :
    (r.lift k).overlays = r.overlays.filter (· ≠ k) := rfl

@[simp] theorem lay_profile (k : Overlay) (r : AppRecord) : (r.lay k).profile = r.profile := by
  unfold lay
  split <;> rfl

@[simp] theorem lay_regular (k : Overlay) (r : AppRecord) : (r.lay k).regular = r.regular := by
  unfold lay
  split <;> rfl

end AppRecord

end HeadUnit
