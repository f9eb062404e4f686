import Asnx.Input.Pointer

/-!
# The gestures that Unity gets

As long as no press begins while another one is outstanding (`PressesAgain`), what is handed to
Unity is a sequence of gestures, the last of which may not have ended: the pointer is down when a
touch or the controller holds it, and they never both do (`Follows`).
-/

namespace Asnx.Input

open Gestures

/-- A call of `input_feed` begins a press with the controller while one is outstanding: a touch that
docking has left behind, or a press of the controller itself. -/
def PressesAgain (s : State) (f : Frame) : Prop :=
  f.down .a ∧ ¬ f.down .minus ∧
    (f.down .plus ∨ s.cursorVisible = some true ∨ (f.docked ∧ s.previousDockedState ≠ some true)) ∧
    ((f.docked ∧ s.touchActive) ∨ (s.controllerPressed ∧ (f.docked ∨ f.touches = [])))

/-- What has been handed to Unity is well formed, and the pointer is down exactly when a touch or
the controller holds it; they do not both. -/
structure Follows (s : State) : Prop where
  actions : downAfter s.actions = some (s.touchActive || s.controllerPressed)
  apart : ¬ (s.touchActive = true ∧ s.controllerPressed = true)

/-! ## Events -/

section Events

variable {f : Frame} {action : Action} {x y : Float32} {s : State}

@[simp] theorem inject_actions : (injectPointerEvent true f action x y s).actions =
    s.actions ++ [action] := by
  simp [injectPointerEvent, State.actions]

@[simp] theorem inject_controllerPressed :
    (injectPointerEvent true f action x y s).controllerPressed = s.controllerPressed := by
  rfl

@[simp] theorem inject_touchActive :
    (injectPointerEvent true f action x y s).touchActive = s.touchActive := by
  rfl

end Events

/-! ## One call -/

section Calls

variable {f : Frame} {s : State}

/-- The state depends on the positions only as far as they are shown. -/
theorem Follows.of_eq {s' : State} (h : Follows s) (hactions : s'.actions = s.actions)
    (htouch : s'.touchActive = s.touchActive)
    (hcontroller : s'.controllerPressed = s.controllerPressed) : Follows s' := by
  constructor
  · rw [hactions, htouch, hcontroller]
    exact h.actions
  · rw [htouch, hcontroller]
    exact h.apart

/-- Releasing the controller leaves the finger alone. -/
theorem releaseController_touchActive :
    (releaseController true f s).touchActive = s.touchActive := by
  unfold releaseController
  split
  · rfl
  · rfl

theorem releaseController_controllerPressed :
    (releaseController true f s).controllerPressed = false := by
  unfold releaseController
  split
  · rfl
  · rename_i h
    exact Bool.eq_false_iff.2 h

/-- A press of the controller ends. -/
theorem follows_releaseController (h : Follows s) : Follows (releaseController true f s) := by
  unfold releaseController
  split
  · rename_i hpressed
    have htouch : s.touchActive = false := Bool.eq_false_iff.2 fun ht => h.apart ⟨ht, hpressed⟩
    constructor
    · show downAfter (injectPointerEvent true f .up s.cursorX s.cursorY s).actions = _
      rw [inject_actions, downAfter_concat, h.actions, hpressed]
      simp [htouch, next]
    · simp
  · exact h

theorem touchAt_touchActive {action : Action} {t : Touch} :
    (touchAt true f action t s).touchActive = s.touchActive := rfl

theorem touchAt_controllerPressed {action : Action} {t : Touch} :
    (touchAt true f action t s).controllerPressed = s.controllerPressed := rfl

/-- A touch sends its action. -/
theorem touchAt_actions {action : Action} {t : Touch} :
    (touchAt true f action t s).actions = s.actions ++ [action] := inject_actions

/-- `update_touch_input` goes on with the touch that holds the pointer, or takes the pointer
over. -/
theorem follows_updateTouchInput (h : Follows s) : Follows (updateTouchInput true f s).2 := by
  unfold updateTouchInput
  split
  · rename_i hactive
    have hcontroller : s.controllerPressed = false :=
      Bool.eq_false_iff.2 fun hc => h.apart ⟨hactive, hc⟩
    have hdown : downAfter s.actions = some true := by
      rw [h.actions, hactive]
      rfl
    split
    · constructor
      · rw [touchAt_actions, downAfter_concat, hdown, touchAt_touchActive, hactive]
        rfl
      · rw [touchAt_controllerPressed, hcontroller]
        simp
    · constructor
      · show downAfter (injectPointerEvent true f .up s.touchX s.touchY s).actions = _
        rw [inject_actions, downAfter_concat, hdown]
        simp [hcontroller, next]
      · simp
  · rename_i hactive
    split
    · exact h
    · have hrelease := follows_releaseController (f := f) h
      have hfree : downAfter (releaseController true f s).actions = some false := by
        rw [hrelease.actions, releaseController_controllerPressed, releaseController_touchActive]
        simp [hactive]
      constructor
      · rw [touchAt_actions, downAfter_concat, touchAt_touchActive]
        show (downAfter (releaseController true f s).actions).bind _ = _
        rw [hfree]
        rfl
      · rw [touchAt_controllerPressed]
        show ¬ (_ ∧ (releaseController true f s).controllerPressed = true)
        rw [releaseController_controllerPressed]
        simp

/-- The controller presses or drags, if nothing else holds the pointer. -/
theorem follows_pressController (h : Follows s)
    (hfree : f.down .a → s.touchActive = false ∧ s.controllerPressed = false) :
    Follows (pressController true f s) := by
  unfold pressController
  split
  · rename_i ha
    obtain ⟨htouch, hcontroller⟩ := hfree ha
    constructor
    · show downAfter (injectPointerEvent true f .down s.cursorX s.cursorY s).actions = _
      rw [inject_actions, downAfter_concat, h.actions]
      simp [htouch, hcontroller, next]
    · simp [htouch]
  split
  · rename_i hdrag
    have htouch : s.touchActive = false := Bool.eq_false_iff.2 fun ht => h.apart ⟨ht, hdrag.1⟩
    constructor
    · rw [inject_actions, downAfter_concat, h.actions]
      simp [htouch, hdrag.1, next]
    · simp [htouch]
  · exact h

/-- The cursor keeps to the order of actions, when no finger is down. -/
theorem follows_updateControllerCursor (h : Follows s)
    (hfree : f.down .a → s.touchActive = false ∧ s.controllerPressed = false) :
    Follows (updateControllerCursor true f s) := by
  have hmoved : Follows (moveCursor f s) := h.of_eq rfl rfl rfl
  have hpressed := follows_pressController hmoved hfree
  unfold updateControllerCursor
  dsimp only
  split
  · exact follows_releaseController hpressed
  · exact hpressed

/-- So does a change of mode. -/
theorem follows_changeMode (h : Follows s) : Follows (changeMode f s) := by
  unfold changeMode
  split
  · exact h.of_eq rfl rfl rfl
  · exact h

/-- So does the switch of the cursor. -/
theorem follows_switchCursor (h : Follows s) : Follows (switchCursor true f s) := by
  have hplus : Follows (if f.down .plus then { s with cursorVisible := some true } else s) := by
    split
    · exact h.of_eq rfl rfl rfl
    · exact h
  unfold switchCursor
  dsimp only
  split
  · exact (follows_releaseController hplus).of_eq rfl rfl rfl
  · exact hplus

/-- When the cursor is visible after the buttons have been looked at. -/
theorem cursorVisible_eq :
    (switchCursor true f (changeMode f s)).cursorVisible = some true ↔
      ¬ f.down .minus ∧ (f.down .plus ∨ s.cursorVisible = some true ∨
        (f.docked ∧ s.previousDockedState ≠ some true)) := by
  unfold switchCursor changeMode
  rcases s with ⟨_, _, _, _, visible, previous, _, _, _, _, _⟩
  dsimp only
  cases f.down .minus <;> cases f.down .plus <;> cases f.docked <;>
    rcases visible with _ | _ | _ <;> rcases previous with _ | _ | _ <;> simp

/-- Without the Minus button the mode and the buttons end no press. -/
theorem switchCursor_presses (h : ¬ f.down .minus) :
    (switchCursor true f (changeMode f s)).touchActive = s.touchActive ∧
      (switchCursor true f (changeMode f s)).controllerPressed = s.controllerPressed ∧
      (switchCursor true f (changeMode f s)).actions = s.actions := by
  have hmode : (changeMode f s).touchActive = s.touchActive ∧
      (changeMode f s).controllerPressed = s.controllerPressed ∧
      (changeMode f s).actions = s.actions := by
    unfold changeMode
    split <;> exact ⟨rfl, rfl, rfl⟩
  unfold switchCursor
  dsimp only
  rw [if_neg h]
  split <;> exact hmode

/-- The touch screen is busy unless there is nothing to do. -/
theorem updateTouchInput_idle (h : (updateTouchInput true f s).1 = false) :
    s.touchActive = false ∧ f.touches = [] ∧ (updateTouchInput true f s).2 = s := by
  unfold updateTouchInput at h ⊢
  split at h
  · split at h <;> cases h
  · rename_i hactive
    rw [if_neg hactive]
    split at h
    · rename_i htouches
      rw [htouches]
      exact ⟨Bool.eq_false_iff.2 hactive, rfl, rfl⟩
    · cases h

/-- Without a finger nothing is sent. -/
theorem updateTouchInput_of_idle (htouch : s.touchActive = false)
    (htouches : f.touches = []) : updateTouchInput true f s = (false, s) := by
  unfold updateTouchInput
  rw [htouch, htouches]
  rfl

/-- A call that does not begin a second press keeps the gestures well formed. -/
theorem follows_inputFeed (h : Follows s) (hagain : ¬ PressesAgain s f) :
    Follows (inputFeed true f s) := by
  have hswitched := follows_switchCursor (f := f) (follows_changeMode (f := f) h)
  have hvisible := cursorVisible_eq (f := f) (s := s)
  have hpresses := switchCursor_presses (f := f) (s := s)
  unfold inputFeed
  generalize switchCursor true f (changeMode f s) = s₁ at hswitched hvisible hpresses ⊢
  -- what holds the pointer when the cursor is pressed on
  have hfree : s₁.cursorVisible = some true →
      (f.docked = true ∨ (s₁.touchActive = false ∧ f.touches = [])) → f.down .a = true →
      s₁.touchActive = false ∧ s₁.controllerPressed = false := by
    intro hcursor hreach ha
    obtain ⟨hminus, hshown⟩ := hvisible.1 hcursor
    obtain ⟨htouch, hcontroller, -⟩ := hpresses hminus
    rw [htouch] at hreach
    rw [htouch, hcontroller]
    refine ⟨Bool.eq_false_iff.2 fun ht => hagain ⟨ha, hminus, hshown, ?_⟩,
      Bool.eq_false_iff.2 fun hc => hagain ⟨ha, hminus, hshown, ?_⟩⟩
    · rcases hreach with hdocked | ⟨hidle, -⟩
      · exact .inl ⟨hdocked, ht⟩
      · rw [hidle] at ht
        cases ht
    · exact .inr ⟨hc, hreach.imp id And.right⟩
  cases hdocked : f.docked with
  | true =>
      show Follows (if (!false) = true ∧ s₁.cursorVisible = some true then _ else s₁)
      split
      · rename_i hcursor
        exact follows_updateControllerCursor hswitched fun ha => hfree hcursor.2 (.inl hdocked) ha
      · exact hswitched
  | false =>
      show Follows (if (!(updateTouchInput true f s₁).1) = true ∧
        (updateTouchInput true f s₁).2.cursorVisible = some true then
        updateControllerCursor true f (updateTouchInput true f s₁).2
        else (updateTouchInput true f s₁).2)
      split
      · rename_i hcursor
        obtain ⟨htouch, htouches, hsame⟩ :=
          updateTouchInput_idle (Bool.not_eq_eq_eq_not.1 hcursor.1)
        rw [hsame] at hcursor ⊢
        exact follows_updateControllerCursor hswitched
          fun ha => hfree hcursor.2 (.inr ⟨htouch, htouches⟩) ha
      · exact follows_updateTouchInput hswitched

/-! ## A second press -/

/-- Events are only added. -/
theorem inject_grows {fn : Bool} {action : Action} {x y : Float32} :
    s.actions <+: (injectPointerEvent fn f action x y s).actions := by
  cases fn with
  | false => exact List.prefix_refl _
  | true =>
      rw [inject_actions]
      exact List.prefix_append _ _

/-- Actions that have been sent stay sent. -/
theorem releaseController_grows {fn : Bool} : s.actions <+: (releaseController fn f s).actions := by
  unfold releaseController
  split
  · exact inject_grows
  · exact List.prefix_refl _

theorem updateTouchInput_grows {fn : Bool} :
    s.actions <+: (updateTouchInput fn f s).2.actions := by
  unfold updateTouchInput
  split
  · split
    · exact inject_grows
    · exact inject_grows
  · split
    · exact List.prefix_refl _
    · exact releaseController_grows.trans
        (inject_grows (s := { releaseController fn f s with
          touchActive := true, touchFingerId := _ }))

theorem pressController_grows {fn : Bool} : s.actions <+: (pressController fn f s).actions := by
  unfold pressController
  split
  · exact inject_grows
  split
  · exact inject_grows
  · exact List.prefix_refl _

/-- Pressing the button sends one action. -/
theorem pressController_actions (ha : f.down .a) :
    (pressController true f s).actions = s.actions ++ [.down] := by
  unfold pressController
  rw [if_pos ha]
  show (injectPointerEvent true f .down s.cursorX s.cursorY s).actions = _
  exact inject_actions

theorem updateControllerCursor_grows {fn : Bool} :
    (pressController fn f (moveCursor f s)).actions <+:
      (updateControllerCursor fn f s).actions := by
  unfold updateControllerCursor
  dsimp only
  split
  · exact releaseController_grows
  · exact List.prefix_refl _

theorem switchCursor_grows {fn : Bool} :
    s.actions <+: (switchCursor fn f (changeMode f s)).actions := by
  have hmode : (changeMode f s).actions = s.actions := by
    unfold changeMode
    split <;> rfl
  rw [← hmode]
  unfold switchCursor
  dsimp only
  generalize hshown : (if f.down .plus then { changeMode f s with cursorVisible := some true }
    else changeMode f s) = s'
  have hactions : s'.actions = (changeMode f s).actions := by
    rw [← hshown]
    split <;> rfl
  rw [← hactions]
  split
  · show _ <+: (releaseController fn f s').actions
    exact releaseController_grows
  · exact List.prefix_refl _

/-- A frame only adds actions. -/
theorem inputFeed_grows {fn : Bool} : s.actions <+: (inputFeed fn f s).actions := by
  refine switchCursor_grows.trans (?_ : (switchCursor fn f (changeMode f s)).actions <+: _)
  unfold inputFeed
  generalize switchCursor fn f (changeMode f s) = s₁
  have hcursor : ∀ s₂ : State, s₂.actions <+: (updateControllerCursor fn f s₂).actions := fun s₂ =>
    (pressController_grows (s := moveCursor f s₂)).trans updateControllerCursor_grows
  cases f.docked with
  | true =>
      show _ <+: (if (!false) = true ∧ s₁.cursorVisible = some true then
        updateControllerCursor fn f s₁ else s₁).actions
      split
      · exact hcursor s₁
      · exact List.prefix_refl _
  | false =>
      show _ <+: (if (!(updateTouchInput fn f s₁).1) = true ∧
        (updateTouchInput fn f s₁).2.cursorVisible = some true then
        updateControllerCursor fn f (updateTouchInput fn f s₁).2
        else (updateTouchInput fn f s₁).2).actions
      split
      · exact updateTouchInput_grows.trans (hcursor _)
      · exact updateTouchInput_grows

/-- A second press is not well formed. -/
theorem not_wellFormed_inputFeed (h : Follows s) (hagain : PressesAgain s f) :
    ¬ WellFormed (inputFeed true f s).actions := by
  obtain ⟨ha, hminus, hshown, hheld⟩ := hagain
  have hvisible : (switchCursor true f (changeMode f s)).cursorVisible = some true :=
    cursorVisible_eq.2 ⟨hminus, hshown⟩
  obtain ⟨htouch, hcontroller, hactions⟩ := switchCursor_presses (f := f) (s := s) hminus
  -- the call comes to the controller: docked, or with a touch screen that is idle
  have hreach : inputFeed true f s =
      updateControllerCursor true f (switchCursor true f (changeMode f s)) := by
    unfold inputFeed
    generalize switchCursor true f (changeMode f s) = s₁ at hvisible htouch hcontroller
    have hidle : f.docked = false → updateTouchInput true f s₁ = (false, s₁) := by
      intro hhandheld
      rw [hhandheld] at hheld
      obtain ⟨hdocked, -⟩ | ⟨hc, hdocked | htouches⟩ := hheld
      · cases hdocked
      · cases hdocked
      · refine updateTouchInput_of_idle ?_ htouches
        rw [htouch]
        exact Bool.eq_false_iff.2 fun ht => h.apart ⟨ht, hc⟩
    cases hdocked : f.docked with
    | true => exact if_pos ⟨rfl, hvisible⟩
    | false =>
        dsimp only [Bool.not_false]
        rw [hidle hdocked]
        exact if_pos ⟨rfl, hvisible⟩
  intro hwell
  rw [hreach] at hwell
  have hpress := hwell.of_isPrefix updateControllerCursor_grows
  -- the pointer is down already
  have hdown : downAfter s.actions = some true := by
    rw [h.actions]
    obtain ⟨-, ht⟩ | ⟨hc, -⟩ := hheld
    · rw [ht]
      rfl
    · rw [hc, Bool.or_true]
  -- so the press that follows is a second one
  have hstuck : downAfter (pressController true f
      (moveCursor f (switchCursor true f (changeMode f s)))).actions = none := by
    rw [pressController_actions ha]
    show downAfter ((switchCursor true f (changeMode f s)).actions ++ [.down]) = none
    rw [hactions, downAfter_concat, hdown]
    rfl
  rw [wellFormed_iff, hstuck] at hpress
  cases hpress

/-- Without a function to call nothing is handed to Unity. -/
theorem inputFeed_silent : (inputFeed false f s).actions = s.actions := by
  -- each part of the call looks for the function before it acts
  have hrelease : ∀ s : State, (releaseController false f s).actions = s.actions := by
    intro s
    unfold releaseController
    split <;> rfl
  have htouch : ∀ s : State, (updateTouchInput false f s).2.actions = s.actions := by
    intro s
    unfold updateTouchInput
    split
    · split <;> rfl
    · split
      · rfl
      · exact hrelease s
  have hcursor : ∀ s : State, (updateControllerCursor false f s).actions = s.actions := by
    intro s
    have hpress : (pressController false f (moveCursor f s)).actions = s.actions := by
      unfold pressController
      split
      · rfl
      split <;> rfl
    unfold updateControllerCursor
    dsimp only
    split
    · rw [hrelease, hpress]
    · exact hpress
  have hswitch : (switchCursor false f (changeMode f s)).actions = s.actions := by
    have hmode : (changeMode f s).actions = s.actions := by
      unfold changeMode
      split <;> rfl
    unfold switchCursor
    dsimp only
    generalize hshown : (if f.down .plus then { changeMode f s with cursorVisible := some true }
      else changeMode f s) = s'
    have hactions : s'.actions = s.actions := by
      rw [← hshown, ← hmode]
      split <;> rfl
    split
    · exact (hrelease s').trans hactions
    · exact hactions
  unfold inputFeed
  rw [← hswitch]
  generalize switchCursor false f (changeMode f s) = s₁
  cases f.docked with
  | true =>
      show (if (!false) = true ∧ s₁.cursorVisible = some true then
        updateControllerCursor false f s₁ else s₁).actions = _
      split
      · exact hcursor s₁
      · rfl
  | false =>
      show (if (!(updateTouchInput false f s₁).1) = true ∧
        (updateTouchInput false f s₁).2.cursorVisible = some true then
        updateControllerCursor false f (updateTouchInput false f s₁).2
        else (updateTouchInput false f s₁).2).actions = _
      split
      · rw [hcursor, htouch]
      · exact htouch s₁

end Calls

/-! ## Sequences of calls -/

theorem run_append (fn : Bool) (frames frames' : List Frame) (s : State) :
    run fn (frames ++ frames') s = run fn frames' (run fn frames s) :=
  List.foldl_append ..

/-- So does a run of frames. -/
theorem run_grows {fn : Bool} (frames : List Frame) (s : State) :
    s.actions <+: (run fn frames s).actions := by
  induction frames generalizing s with
  | nil => exact List.prefix_refl _
  | cons f frames ih => exact inputFeed_grows.trans (ih (inputFeed fn f s))

/-- Without a function to send to, a run sends nothing. -/
theorem run_silent (frames : List Frame) (s : State) : (run false frames s).actions =
    s.actions := by
  induction frames generalizing s with
  | nil => rfl
  | cons f frames ih => exact (ih (inputFeed false f s)).trans inputFeed_silent

/-- No call of the sequence begins a second press. -/
def Single (fn : Bool) (frames : List Frame) (s : State) : Prop :=
  ∀ before f after, frames = before ++ f :: after → ¬ PressesAgain (run fn before s) f

/-- One finger in all frames is one in the first of them. -/
theorem Single.init {fn : Bool} {before after : List Frame} {s : State}
    (h : Single fn (before ++ after) s) : Single fn before s := by
  intro before' f after' hsplit
  exact h before' f (after' ++ after) (by rw [hsplit]; simp)

/-- The run lemma, by induction on the calls from the end. -/
theorem follows_run {frames : List Frame} {s : State} (hs : Follows s) (h : Single true frames s) :
    Follows (run true frames s) := by
  induction frames using List.reverseRecOn with
  | nil => exact hs
  | append_singleton frames f ih =>
      rw [run_append]
      exact follows_inputFeed (ih h.init) (h frames f [] rfl)

/-- A sequence that is well formed has no second press, by induction on the calls from the end: up
to the last call nothing has gone wrong. -/
theorem single_of_wellFormed {frames : List Frame} {s : State} (hs : Follows s)
    (h : WellFormed (run true frames s).actions) : Single true frames s := by
  induction frames using List.reverseRecOn with
  | nil => simp [Single]
  | append_singleton frames f ih =>
      rw [run_append] at h
      have hsingle := ih (h.of_isPrefix (run_grows [f] _))
      intro before g after hsplit hagain
      rcases List.eq_nil_or_concat after with rfl | ⟨after, last, rfl⟩
      · obtain ⟨rfl, hlast⟩ := List.append_inj' hsplit rfl
        obtain rfl : f = g := (List.cons.inj hlast).1
        exact not_wellFormed_inputFeed (follows_run hs hsingle) hagain h
      · rw [List.concat_eq_append, ← List.cons_append, ← List.append_assoc] at hsplit
        exact hsingle before g after (List.append_inj' hsplit rfl).1 hagain

theorem follows_init (width height : UInt32) : Follows (.init width height) :=
  ⟨rfl, by simp [State.init]⟩

/-- What is handed to Unity is the beginning of a sequence of gestures exactly if no call of
`input_feed` begins a second press. -/
theorem gestures_wellFormed (fn : Bool) (width height : UInt32) (frames : List Frame) :
    WellFormed (run fn frames (.init width height)).actions ↔
      fn = false ∨ Single fn frames (.init width height) := by
  cases fn with
  | false =>
      rw [run_silent, wellFormed_iff]
      exact ⟨fun _ => .inl rfl, fun _ => rfl⟩
  | true =>
      constructor
      · exact fun h => .inr (single_of_wellFormed (follows_init width height) h)
      · rintro (hfn | hsingle)
        · cases hfn
        · rw [wellFormed_iff, (follows_run (follows_init width height) hsingle).actions]
          rfl

/-- A finger on the screen in handheld mode. -/
def touchedFrame : Frame :=
  { touches := [⟨100, 100, 0⟩], held := fun _ => false, down := fun _ => false, up := fun _ => false,
    docked := false, stick := (0, 0), width := 1280, height := 720, clock := fun _ => 0 }

/-- The console has been docked with the finger still on the screen, and A is pressed. -/
def dockedFrame : Frame :=
  { touches := [⟨100, 100, 0⟩], held := (· = .a), down := (· = .a), up := fun _ => false,
    docked := true, stick := (0, 0), width := 1920, height := 1080, clock := fun _ => 0 }

/-- Docking during a touch: the controller's press is a second one. -/
theorem docking_presses_again :
    ¬ WellFormed (run true [touchedFrame, dockedFrame] (.init 1280 720)).actions := by
  rw [wellFormed_iff]
  decide

end Asnx.Input
