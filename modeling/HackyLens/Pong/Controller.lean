import Mathlib.Data.Int.Basic
import Mathlib.Data.UInt

-- The simulation of `pong_controller.c`.

namespace Pong

-- The size that `pong_start` accepts.
structure Screen where
  width : Int
  height : Int
  width_ge : 160 ≤ width
  width_le : width ≤ 640
  height_ge : 160 ≤ height
  height_le : height ≤ 480

-- A value that is stored in an `int16_t`.
def i16 (x : Int) : Int :=
  (x + 32768) % 65536 - 32768

def menuBarH : Int := 30
def menuLine : Int := 2
def paddleW : Int := 52
def paddleH : Int := 5
def ballSize : Int := 6
def fixedStepUs : Nat := 20000
def maxCatchUpSteps : Nat := 8
def paddleSpeed : Int := 6
def aiSpeed : Int := 4
def aiReactionTicks : Nat := 5
def aiDeadZone : Int := 3
def aiErrorPx : Int := 11
def ballStartDx : Int := 2
def ballStartDy : Int := 3
def ballMaxDx : Int := 7
def ballMaxDy : Int := 7
def rallySpeedupEvery : Nat := 3
def serveDelayTicks : Nat := 18
def flashTicks : Nat := 3
def trailLength : Nat := 2

def buttonLeft : UInt32 := 0x01
def buttonOk : UInt32 := 0x02
def buttonRight : UInt32 := 0x04
def buttonBack : UInt32 := 0x08

def fieldX : Int := 2
def fieldY : Int := menuBarH + 2
def aiY : Int := fieldY + 10

-- `pong_paddle_min_x` and `pong_ball_min_x`.
def paddleMinX : Int := fieldX + menuLine
def ballMinX : Int := fieldX + menuLine

namespace Screen

variable (scr : Screen)

def fieldW : Int := scr.width - 4
def fieldH : Int := scr.height - menuBarH - 4
def playerY : Int := scr.height - 14

-- `pong_paddle_max_x` and `pong_ball_max_x`.
def paddleMaxX : Int := fieldX + scr.fieldW - menuLine - paddleW
def ballMaxX : Int := fieldX + scr.fieldW - menuLine - ballSize

-- Where a paddle is at the start.
def paddleStart : Int := (scr.width - paddleW).tdiv 2

end Screen

-- The variables of `pong_state_t` that a step of the simulation works on.
structure Game where
  playerX : Int
  aiX : Int
  aiTargetX : Int
  ballX : Int
  ballY : Int
  ballDx : Int
  ballDy : Int
  playerDx : Int
  aiDx : Int
  trail : List (Int × Int)
  flashX : Int
  flashY : Int
  playerScore : Nat
  aiScore : Nat
  rallyHits : Nat
  trailCount : Nat
  flashTicks : Nat
  serveTicks : Nat
  serveIndex : UInt8
  aiReactionTicks : Nat
  aiNoise : UInt8
  serveDirection : Int
  deriving DecidableEq

-- `pong_clamp`
def clamp (value minimum maximum : Int) : Int :=
  if value < minimum then minimum else if value > maximum then maximum else value

-- `pong_intersects`
def intersects (bx byy px py : Int) : Prop :=
  bx + ballSize ≥ px ∧ bx ≤ px + paddleW ∧ byy + ballSize ≥ py ∧ byy ≤ py + paddleH

instance (bx byy px py : Int) : Decidable (intersects bx byy px py) :=
  inferInstanceAs (Decidable (_ ∧ _ ∧ _ ∧ _))

-- `pong_next_noise`
def nextNoise (noise : UInt8) : UInt8 :=
  let value := noise ^^^ (noise <<< 3)
  let value := value ^^^ (value >>> 5)
  let value := value ^^^ (value <<< 1)
  if value = 0 then 0xA5 else value

inductive Point
  | player
  | ai
  deriving DecidableEq

namespace Game

variable (scr : Screen)

-- `pong_clear_effects`
def clearEffects (g : Game) : Game :=
  { g with
    trailCount := 0
    flashTicks := 0
    trail      := .replicate trailLength (g.ballX, g.ballY) }

-- `pong_begin_serve`
def beginServe (g : Game) (direction : Int) : Game :=
  clearEffects { g with
    ballX           := i16 (fieldX + (scr.fieldW - ballSize).tdiv 2)
    ballY           := i16 (fieldY + (scr.fieldH - ballSize).tdiv 2)
    ballDx          := 0
    ballDy          := 0
    serveDirection  := if direction < 0 then -1 else 1
    serveTicks      := serveDelayTicks
    rallyHits       := 0
    aiTargetX       := i16 scr.paddleStart
    aiReactionTicks := Pong.aiReactionTicks }

def serveDx (index : UInt8) : Int :=
  if index % 4 = 0 then -ballStartDx
  else if index % 4 = 1 then ballStartDx
  else if index % 4 = 2 then -(ballStartDx - 1)
  else ballStartDx - 1

-- `pong_launch_serve`
def launchServe (g : Game) : Game :=
  { g with
    ballDx     := serveDx g.serveIndex
    ballDy     := i16 (g.serveDirection * ballStartDy)
    serveIndex := g.serveIndex + 1 }

end Game

-- What `pong_reflect_ball_x` divides by.
def Screen.period (scr : Screen) : Int :=
  (scr.ballMaxX - ballMinX) * 2

-- `pong_reflect_ball_x`
def reflectBallX (scr : Screen) (projectedX : Int) : Int :=
  let left := ballMinX
  let span := scr.ballMaxX - left
  let relative := (projectedX - left).tmod scr.period
  let relative := if relative < 0 then relative + scr.period else relative
  let relative := if relative > span then scr.period - relative else relative
  i16 (left + relative)

namespace Game

variable (scr : Screen)

-- What `pong_update_ai_target` divides by if the ball moves up.
def verticalSpeed (g : Game) : Int :=
  i16 (-g.ballDy)

-- `pong_update_ai_target`
def updateAiTarget (g : Game) : Game :=
  if g.ballDy < 0 then
    let distance := i16 (g.ballY - (aiY + paddleH))
    let distance := if distance < 0 then 0 else distance
    let travelTicks := i16 ((distance + g.verticalSpeed - 1).tdiv g.verticalSpeed)
    let projectedX := g.ballX + g.ballDx * travelTicks
    let noise := nextNoise g.aiNoise
    let error := i16 ((noise.toNat : Int).tmod (aiErrorPx * 2 + 1) - aiErrorPx)
    let target := i16 (reflectBallX scr projectedX + ballSize.tdiv 2 - paddleW.tdiv 2 + error)
    { g with
      aiNoise   := noise
      aiTargetX := clamp target paddleMinX scr.paddleMaxX }
  else
    { g with aiTargetX := clamp (i16 scr.paddleStart) paddleMinX scr.paddleMaxX }

-- `pong_update_player`
def updatePlayer (g : Game) (buttons : UInt32) : Game :=
  let x := if buttons &&& buttonLeft ≠ 0 then i16 (g.playerX - paddleSpeed) else g.playerX
  let x := if buttons &&& buttonRight ≠ 0 then i16 (x + paddleSpeed) else x
  let x := clamp x paddleMinX scr.paddleMaxX
  { g with playerX := x, playerDx := i16 (x - g.playerX) }

-- The first part of `pong_update_ai`.
def reactAi (g : Game) : Game :=
  if g.aiReactionTicks > 0 then
    { g with aiReactionTicks := g.aiReactionTicks - 1 }
  else
    { g.updateAiTarget scr with aiReactionTicks := Pong.aiReactionTicks - 1 }

-- The second part.
def moveAi (g : Game) : Game :=
  let distance := i16 (g.aiTargetX - g.aiX)
  let x :=
    if distance < -aiDeadZone then
      i16 (g.aiX - if distance < -aiSpeed then aiSpeed else -distance)
    else if distance > aiDeadZone then
      i16 (g.aiX + if distance > aiSpeed then aiSpeed else distance)
    else
      g.aiX
  let x := clamp x paddleMinX scr.paddleMaxX
  { g with aiX := x, aiDx := i16 (x - g.aiX) }

-- `pong_update_ai`
def updateAi (g : Game) : Game :=
  (g.reactAi scr).moveAi scr

-- `pong_push_trail`
def pushTrail (g : Game) : Game :=
  { g with
    trail      := (g.ballX, g.ballY) :: g.trail.dropLast
    trailCount := if g.trailCount < trailLength then g.trailCount + 1 else g.trailCount }

-- `pong_rally_vertical_speed`
def rallyVerticalSpeed (g : Game) : Int :=
  let speed := ballStartDy + (g.rallyHits / rallySpeedupEvery : Nat)
  if speed > ballMaxDy then ballMaxDy else speed

-- `pong_bounce_horizontal`
def bounceHorizontal (g : Game) (paddleX paddleDx : Int) : Int :=
  let ballCenter := i16 (g.ballX + ballSize.tdiv 2)
  let paddleCenter := i16 (paddleX + paddleW.tdiv 2)
  let offset := i16 (ballCenter - paddleCenter)
  let result := i16 ((offset * ballMaxDx).tdiv (paddleW.tdiv 2))
  let result := i16 (result + paddleDx.tdiv 2)
  let result := clamp result (-ballMaxDx) ballMaxDx
  if result = 0 then if g.ballDx < 0 then -1 else 1 else result

-- `pong_flash_hit`
def flashHit (g : Game) (paddleY : Int) : Game :=
  { g with
    flashX     := i16 (g.ballX + ballSize.tdiv 2)
    flashY     := i16 (paddleY + paddleH.tdiv 2)
    flashTicks := Pong.flashTicks }

-- The first part of `pong_advance_ball`: the ball moves.
def moveBall (g : Game) : Game :=
  { g.pushTrail with
    ballX := i16 (g.ballX + g.ballDx)
    ballY := i16 (g.ballY + g.ballDy) }

-- The second part: it meets a wall.
def meetWall (g : Game) : Game :=
  if g.ballX ≤ ballMinX then
    { g with
      ballX  := ballMinX
      ballDx := if g.ballDx < 0 then i16 (-g.ballDx) else g.ballDx }
  else if g.ballX ≥ scr.ballMaxX then
    { g with
      ballX  := scr.ballMaxX
      ballDx := if g.ballDx > 0 then i16 (-g.ballDx) else g.ballDx }
  else
    g

-- A paddle sends the ball back.
def bounce (g : Game) (ballY paddleX paddleDx paddleY direction : Int) : Game :=
  let g := { g with
    ballY     := i16 ballY
    rallyHits := if g.rallyHits < 255 then g.rallyHits + 1 else g.rallyHits }
  let g := { g with ballDx := g.bounceHorizontal paddleX paddleDx }
  { g with ballDy := i16 (direction * g.rallyVerticalSpeed) }.flashHit paddleY

-- The third part: it meets a paddle.
def meetPaddle (g : Game) : Game :=
  if g.ballDy > 0 ∧ intersects g.ballX g.ballY g.playerX scr.playerY then
    g.bounce (scr.playerY - ballSize) g.playerX g.playerDx scr.playerY (-1)
  else if g.ballDy < 0 ∧ intersects g.ballX g.ballY g.aiX aiY then
    g.bounce (aiY + paddleH) g.aiX g.aiDx aiY 1
  else
    g

-- `pong_advance_ball`
def advanceBall (g : Game) : Game :=
  (g.moveBall.meetWall scr).meetPaddle scr

-- `pong_update_score`, with whose point it is.
def updateScore (g : Game) : Game × Option Point :=
  if g.ballY + ballSize < fieldY + menuLine then
    ({ g with playerScore := if g.playerScore < 99 then g.playerScore + 1 else g.playerScore
      }.beginServe scr (-1), some .player)
  else if g.ballY > fieldY + scr.fieldH - menuLine then
    ({ g with aiScore := if g.aiScore < 99 then g.aiScore + 1 else g.aiScore }.beginServe scr 1,
      some .ai)
  else
    (g, none)

def fadeFlash (g : Game) : Game :=
  { g with flashTicks := g.flashTicks - 1 }

def countServe (g : Game) : Game :=
  if g.serveTicks > 0 then
    let g := { g with serveTicks := g.serveTicks - 1 }
    if g.serveTicks = 0 then g.launchServe else g
  else
    g

-- `pong_simulate_step`
def simulateStep (g : Game) (buttons : UInt32) : Game × Option Point :=
  let ballWasActive := g.serveTicks = 0
  let g := ((g.fadeFlash.updatePlayer scr buttons).countServe).updateAi scr
  if ballWasActive then (g.advanceBall scr).updateScore scr else (g, none)

-- The game after `pong_controller_reset`.
def start : Game :=
  beginServe scr
    { playerX         := i16 scr.paddleStart
      aiX             := i16 scr.paddleStart
      aiTargetX       := 0
      ballX           := 0
      ballY           := 0
      ballDx          := 0
      ballDy          := 0
      playerDx        := 0
      aiDx            := 0
      trail           := .replicate trailLength (0, 0)
      flashX          := 0
      flashY          := 0
      playerScore     := 0
      aiScore         := 0
      rallyHits       := 0
      trailCount      := 0
      flashTicks      := 0
      serveTicks      := 0
      serveIndex      := 0
      aiReactionTicks := 0
      aiNoise         := 0xA5
      serveDirection  := 0 } 1

end Game

-- `pong_view_state_t`
structure View where
  playerX : Int
  aiX : Int
  ballX : Int
  ballY : Int
  trail : List (Int × Int)
  flashX : Int
  flashY : Int
  playerScore : Nat
  aiScore : Nat
  trailCount : Nat
  flashTicks : Nat
  deriving DecidableEq

-- `pong_controller_view_state`
def Game.view (g : Game) : View where
  playerX     := g.playerX
  aiX         := g.aiX
  ballX       := g.ballX
  ballY       := g.ballY
  trail       := g.trail
  flashX      := g.flashX
  flashY      := g.flashY
  playerScore := g.playerScore
  aiScore     := g.aiScore
  trailCount  := g.trailCount
  flashTicks  := g.flashTicks

-- `pong_state_t`, without the capabilities. Times are in microseconds.
structure State where
  game : Game
  previous : View
  lastTickUs : Nat
  accumulatorUs : Nat
  buttons : UInt32
  closeRequested : Bool
  needFullRedraw : Bool
  scoreChanged : Bool
  dirty : Bool
  deriving DecidableEq

namespace State

variable (scr : Screen)

-- `pong_controller_reset`, which keeps the buttons only.
def reset (s : State) (nowUs : Nat) : State where
  game           := .start scr
  previous       := (Game.start scr).view
  lastTickUs     := nowUs
  accumulatorUs  := 0
  buttons        := s.buttons
  closeRequested := false
  needFullRedraw := true
  scoreChanged   := false
  dirty          := true

-- `pong_controller_handle_input`
def handleInput (s : State) (pressed : UInt32) : State :=
  if pressed &&& buttonBack ≠ 0 then
    { s with closeRequested := true }
  else if pressed &&& buttonOk ≠ 0 then
    s.reset scr s.lastTickUs
  else
    s

def maximumAccumulator : Nat :=
  fixedStepUs * maxCatchUpSteps

-- The time that a tick adds.
def accumulate (s : State) (nowUs : Nat) : State :=
  let elapsedUs := nowUs - s.lastTickUs
  { s with
    lastTickUs    := nowUs
    accumulatorUs :=
      if elapsedUs ≥ maximumAccumulator ∨
          s.accumulatorUs ≥ maximumAccumulator - elapsedUs then
        maximumAccumulator
      else
        s.accumulatorUs + elapsedUs }

-- The loop of `pong_controller_tick`, of which there are as many rounds as are left.
def catchUp (buttons : UInt32) : (left : Nat) → State → State
  | 0,        s => s
  | left + 1, s =>
    if s.accumulatorUs ≥ fixedStepUs then
      let (game, point) := s.game.simulateStep scr buttons
      catchUp buttons left { s with
        game          := game
        scoreChanged  := s.scoreChanged || point.isSome
        accumulatorUs := s.accumulatorUs - fixedStepUs }
    else
      s

-- `pong_controller_tick`
def tick (s : State) (buttons : UInt32) (nowUs : Nat) : State :=
  let s := { s with buttons := buttons }
  if nowUs < s.lastTickUs then
    { s with lastTickUs := nowUs, accumulatorUs := 0 }
  else
    let s := s.accumulate nowUs
    if s.accumulatorUs < fixedStepUs then
      s
    else
      { catchUp scr buttons maxCatchUpSteps { s with previous := s.game.view } with dirty := true }

end State
end Pong
