import Asnx.Library.Gestures

/-!
# The pointer

`source/input.c`: the touch screen and a cursor moved by the controller share one pointer, whose
events go to Unity. A `Frame` is what the platform reports during one call of `input_feed`.
-/

namespace Asnx.Input

open Gestures

/-- The buttons that are looked at. -/
inductive Button where
  | a
  | plus
  | minus
  deriving DecidableEq, Repr

structure Touch where
  x : UInt32
  y : UInt32
  fingerId : UInt32

/-- What the platform reports: the touches (none are asked for in docked mode), the buttons that
are held, that have gone down and that have gone up, the mode, the stick, the size of the screen,
and the readings of the clock by the number of events before. -/
structure Frame where
  touches : List Touch
  held : Button → Bool
  down : Button → Bool
  up : Button → Bool
  docked : Bool
  stick : Int32 × Int32
  width : UInt32
  height : UInt32
  clock : Nat → Int64

/-- `FakeMotionEvent`, without the two fields that stay 0 -/
structure MotionEvent where
  action : Action
  x : Float32
  y : Float32
  pressure : Float32
  size : Float32
  source : Int32
  downTime : Int64
  eventTime : Int64

/-- The static variables, where `none` stands for -1, and the events that have been handed to
Unity. -/
structure State where
  cursorX : Float32
  cursorY : Float32
  controllerPressed : Bool
  pointerDownMs : Int64
  cursorVisible : Option Bool
  previousDockedState : Option Bool
  touchActive : Bool
  touchFingerId : UInt32
  touchX : Float32
  touchY : Float32
  events : List MotionEvent

/-- `TOUCH_INVALID_FINGER_ID` -/
def touchInvalidFingerId : UInt32 := 0xffffffff
/-- `CURSOR_SPEED_PX` -/
def cursorSpeedPx : Float32 := 14.0

/-- `input_init` on the static initial values -/
def State.init (width height : UInt32) : State :=
  ⟨width.toFloat32 * 0.5, height.toFloat32 * 0.5, false, 0, none, none, false, touchInvalidFingerId,
    0, 0, []⟩

/-- What has been handed to Unity. -/
def State.actions (s : State) : List Action := s.events.map (·.action)

/-- `inject_pointer_event`; `fn` says whether there is a function to call. -/
def injectPointerEvent (fn : Bool) (f : Frame) (action : Action) (x y : Float32)
    (s : State) : State :=
  if !fn then s
  else
    let n := f.clock s.events.length
    let downMs := if action = .down then n else s.pointerDownMs
    { s with
      pointerDownMs := downMs
      events := s.events ++
        [⟨action, x, y, if action = .up then 0 else 1, 0.08, 0x1002, downMs, n⟩] }

/-- A coordinate on a screen of the given extent. -/
def clamp (v : Float32) (extent : UInt32) : Float32 :=
  let v := if v < 0 then 0 else v
  if v > extent.toFloat32 - 1 then extent.toFloat32 - 1 else v

/-- The end of a press of the controller. -/
def releaseController (fn : Bool) (f : Frame) (s : State) : State :=
  if s.controllerPressed then
    { injectPointerEvent fn f .up s.cursorX s.cursorY s with controllerPressed := false }
  else s

/-- `update_touch_input` on a touch: it is matched with the finger that is down, if there is one. -/
def touchAt (fn : Bool) (f : Frame) (action : Action) (t : Touch) (s : State) : State :=
  let x := clamp (t.x.toFloat32 * f.width.toFloat32 / 1280) f.width
  let y := clamp (t.y.toFloat32 * f.height.toFloat32 / 720) f.height
  { injectPointerEvent fn f action x y s with touchX := x, touchY := y, cursorX := x, cursorY := y }

/-- `update_touch_input`, with what it returns -/
def updateTouchInput (fn : Bool) (f : Frame) (s : State) : Bool × State :=
  if s.touchActive then
    match f.touches.find? fun t => t.fingerId = s.touchFingerId with
    | some t => (true, touchAt fn f .move t s)
    | none =>
        (true, { injectPointerEvent fn f .up s.touchX s.touchY s with
          touchActive := false, touchFingerId := touchInvalidFingerId })
  else
    match f.touches with
    | [] => (false, s)
    | t :: _ =>
        let s := releaseController fn f s
        (true, touchAt fn f .down t { s with touchActive := true, touchFingerId := t.fingerId })

/-- The cursor after the stick has moved it. -/
def moveCursor (f : Frame) (s : State) : State :=
  { s with
    cursorX := clamp (s.cursorX + f.stick.1.toFloat32 / 32767 * cursorSpeedPx) f.width
    cursorY := clamp (s.cursorY - f.stick.2.toFloat32 / 32767 * cursorSpeedPx) f.height }

/-- The press or the drag of `update_controller_cursor` -/
def pressController (fn : Bool) (f : Frame) (s : State) : State :=
  if f.down .a then
    { injectPointerEvent fn f .down s.cursorX s.cursorY s with controllerPressed := true }
  else if s.controllerPressed ∧ f.held .a then injectPointerEvent fn f .move s.cursorX s.cursorY s
  else s

/-- `update_controller_cursor` -/
def updateControllerCursor (fn : Bool) (f : Frame) (s : State) : State :=
  let s := pressController fn f (moveCursor f s)
  if f.up .a then releaseController fn f s else s

/-- The part of `input_feed` for a change of the mode -/
def changeMode (f : Frame) (s : State) : State :=
  if some f.docked ≠ s.previousDockedState then
    { s with
      cursorVisible :=
        if s.cursorVisible = none ∨ f.docked then some f.docked else s.cursorVisible
      previousDockedState := some f.docked }
  else s

/-- The part of `input_feed` for the buttons that show and hide the cursor -/
def switchCursor (fn : Bool) (f : Frame) (s : State) : State :=
  let s := if f.down .plus then { s with cursorVisible := some true } else s
  if f.down .minus then { releaseController fn f s with cursorVisible := some false } else s

/-- `input_feed` -/
def inputFeed (fn : Bool) (f : Frame) (s : State) : State :=
  let s := switchCursor fn f (changeMode f s)
  let (touchBusy, s) := if !f.docked then updateTouchInput fn f s else (false, s)
  if !touchBusy ∧ s.cursorVisible = some true then updateControllerCursor fn f s else s

/-- A sequence of calls. -/
def run (fn : Bool) (frames : List Frame) (s : State) : State :=
  frames.foldl (fun s f => inputFeed fn f s) s

end Asnx.Input
