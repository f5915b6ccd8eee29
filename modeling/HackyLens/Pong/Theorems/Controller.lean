import HackyLens.Pong.Controller
import Mathlib.Tactic

-- What a step of the simulation can do, and what holds of the ball in any game.

namespace Pong

theorem i16_of_range {x : Int} (h : -32768 ≤ x) (h' : x ≤ 32767) : i16 x = x := by
  rw [i16]
  omega

theorem clamp_range {value minimum maximum : Int} (h : minimum ≤ maximum) :
    minimum ≤ clamp value minimum maximum ∧ clamp value minimum maximum ≤ maximum := by
  rw [clamp]
  split_ifs <;> omega

theorem paddleMinX_eq : paddleMinX = 4 :=
  rfl

theorem ballMinX_eq : ballMinX = 4 :=
  rfl

theorem aiY_eq : aiY = 42 :=
  rfl

theorem fieldY_eq : fieldY = 32 :=
  rfl

namespace Screen

variable (scr : Screen)

theorem paddleMaxX_eq : scr.paddleMaxX = scr.width - 56 := by
  rw [paddleMaxX, fieldW, fieldX, menuLine, paddleW]
  omega

theorem ballMaxX_eq : scr.ballMaxX = scr.width - 10 := by
  rw [ballMaxX, fieldW, fieldX, menuLine, ballSize]
  omega

theorem fieldH_eq : scr.fieldH = scr.height - 34 := by
  rw [fieldH, menuBarH]
  omega

theorem playerY_eq : scr.playerY = scr.height - 14 :=
  rfl

theorem paddleStart_range : 54 ≤ scr.paddleStart ∧ scr.paddleStart ≤ scr.width - 56 := by
  have hge := scr.width_ge
  rw [paddleStart, paddleW, Int.tdiv_eq_ediv_of_nonneg (by omega)]
  omega

theorem period_pos : 0 < scr.period := by
  have hge := scr.width_ge
  rw [period, ballMaxX_eq, ballMinX_eq]
  omega

-- Where the ball is while it is not served yet.
def serveX : Int := i16 (fieldX + (scr.fieldW - ballSize).tdiv 2)
def serveY : Int := i16 (fieldY + (scr.fieldH - ballSize).tdiv 2)

theorem serveX_range : 4 ≤ scr.serveX ∧ scr.serveX ≤ scr.width - 10 := by
  have hge := scr.width_ge
  have hle := scr.width_le
  rw [serveX, fieldW, fieldX, ballSize, Int.tdiv_eq_ediv_of_nonneg (by omega), i16]
  omega

theorem serveY_range : 92 ≤ scr.serveY ∧ scr.serveY ≤ scr.height - 68 := by
  have hge := scr.height_ge
  have hle := scr.height_le
  rw [serveY, fieldH_eq, fieldY_eq, ballSize, Int.tdiv_eq_ediv_of_nonneg (by omega), i16]
  omega

end Screen

namespace Game

variable {scr : Screen} {g : Game} {buttons : UInt32}

-- Where the ball is and how it moves.
structure Motion where
  ballX : Int
  ballY : Int
  ballDx : Int
  ballDy : Int
  serveTicks : Nat
  serveDirection : Int

def motion (g : Game) : Motion where
  ballX          := g.ballX
  ballY          := g.ballY
  ballDx         := g.ballDx
  ballDy         := g.ballDy
  serveTicks     := g.serveTicks
  serveDirection := g.serveDirection

theorem updateAiTarget_frame : (g.updateAiTarget scr).motion = g.motion ∧
    (g.updateAiTarget scr).playerX = g.playerX ∧ (g.updateAiTarget scr).playerDx = g.playerDx := by
  rw [updateAiTarget]
  split <;> exact ⟨rfl, rfl, rfl⟩

theorem reactAi_frame : (g.reactAi scr).motion = g.motion ∧
    (g.reactAi scr).playerX = g.playerX ∧ (g.reactAi scr).playerDx = g.playerDx := by
  rw [reactAi]
  split
  case isTrue  => exact ⟨rfl, rfl, rfl⟩
  case isFalse => exact updateAiTarget_frame

theorem updateAi_frame : (g.updateAi scr).motion = g.motion ∧
    (g.updateAi scr).playerX = g.playerX :=
  ⟨reactAi_frame.1, reactAi_frame.2.1⟩

theorem updateAi_aiX : 4 ≤ (g.updateAi scr).aiX ∧ (g.updateAi scr).aiX ≤ scr.width - 56 := by
  have hge := scr.width_ge
  rw [← paddleMinX_eq, ← scr.paddleMaxX_eq]
  refine clamp_range ?_
  rw [paddleMinX_eq, scr.paddleMaxX_eq]
  omega

theorem updatePlayer_playerX : 4 ≤ (g.updatePlayer scr buttons).playerX ∧
    (g.updatePlayer scr buttons).playerX ≤ scr.width - 56 := by
  have hge := scr.width_ge
  rw [← paddleMinX_eq, ← scr.paddleMaxX_eq]
  refine clamp_range ?_
  rw [paddleMinX_eq, scr.paddleMaxX_eq]
  omega

theorem serveDx_range (index : UInt8) :
    1 ≤ (serveDx index).natAbs ∧ (serveDx index).natAbs ≤ 7 := by
  rw [serveDx]
  split_ifs <;> decide

-- The ball is in play, and between the lines behind which there is a point.
structure Playing (scr : Screen) (g : Game) : Prop where
  served : g.serveTicks = 0
  dx : 1 ≤ g.ballDx.natAbs ∧ g.ballDx.natAbs ≤ 7
  dy : 3 ≤ g.ballDy.natAbs ∧ g.ballDy.natAbs ≤ 7
  y : 28 ≤ g.ballY ∧ g.ballY ≤ scr.height - 4

def InsideX (scr : Screen) (g : Game) : Prop :=
  4 ≤ g.ballX ∧ g.ballX ≤ scr.width - 10

-- What the walls leave of a move.
structure Moved (scr : Screen) (g g' : Game) : Prop where
  x : InsideX scr g'
  dx : 1 ≤ g'.ballDx.natAbs ∧ g'.ballDx.natAbs ≤ 7
  dy : g'.ballDy = g.ballDy
  y : g'.ballY = g.ballY + g.ballDy
  ticks : g'.serveTicks = g.serveTicks
  direction : g'.serveDirection = g.serveDirection
  playerX : g'.playerX = g.playerX
  aiX : g'.aiX = g.aiX

theorem moved (h : g.Playing scr) (hx : InsideX scr g) :
    Moved scr g (g.moveBall.meetWall scr) := by
  obtain ⟨-, hdx, hdy, hy⟩ := h
  obtain ⟨hx, hx'⟩ := hx
  have hw := scr.width_ge
  have hw' := scr.width_le
  have hh' := scr.height_le
  have hmoveX : g.moveBall.ballX = g.ballX + g.ballDx := i16_of_range (by omega) (by omega)
  have hmoveY : g.moveBall.ballY = g.ballY + g.ballDy := i16_of_range (by omega) (by omega)
  have hmoveDx : g.moveBall.ballDx = g.ballDx := rfl
  have hneg : i16 (-g.ballDx) = -g.ballDx := i16_of_range (by omega) (by omega)
  rw [meetWall, hmoveX, hmoveDx, ballMinX_eq, scr.ballMaxX_eq, hneg]
  split
  case isTrue =>
    refine ⟨⟨by dsimp only; omega, by dsimp only; omega⟩, ?_, rfl, hmoveY, rfl, rfl, rfl, rfl⟩
    dsimp only
    split <;> omega
  case isFalse hleft =>
    split
    case isTrue =>
      refine ⟨⟨by dsimp only; omega, by dsimp only; omega⟩, ?_, rfl, hmoveY, rfl, rfl, rfl, rfl⟩
      dsimp only
      split <;> omega
    case isFalse hright =>
      refine ⟨⟨?_, ?_⟩, hdx, rfl, hmoveY, rfl, rfl, rfl, rfl⟩
      · rw [hmoveX]
        omega
      · rw [hmoveX]
        omega

theorem rallyVerticalSpeed_range : 3 ≤ g.rallyVerticalSpeed ∧ g.rallyVerticalSpeed ≤ 7 := by
  rw [rallyVerticalSpeed, ballStartDy, ballMaxDy, rallySpeedupEvery]
  split <;> omega

theorem bounceHorizontal_range (paddleX paddleDx : Int) :
    1 ≤ (g.bounceHorizontal paddleX paddleDx).natAbs ∧
      (g.bounceHorizontal paddleX paddleDx).natAbs ≤ 7 := by
  rw [bounceHorizontal]
  split
  case isTrue => split <;> decide
  case isFalse hne =>
    have hrange := @clamp_range (i16 (i16 ((i16 (i16 (g.ballX + ballSize.tdiv 2) -
      i16 (paddleX + paddleW.tdiv 2)) * ballMaxDx).tdiv (paddleW.tdiv 2)) + paddleDx.tdiv 2))
      (-ballMaxDx) ballMaxDx (by decide)
    rw [ballMaxDx] at hrange hne ⊢
    omega

-- What a paddle does to the ball that it meets.
theorem bounce_spec (ballY paddleX paddleDx paddleY : Int) {direction : Int}
    (hdirection : direction = 1 ∨ direction = -1) :
    (1 ≤ (g.bounce ballY paddleX paddleDx paddleY direction).ballDx.natAbs ∧
      (g.bounce ballY paddleX paddleDx paddleY direction).ballDx.natAbs ≤ 7) ∧
    (3 ≤ direction * (g.bounce ballY paddleX paddleDx paddleY direction).ballDy ∧
      direction * (g.bounce ballY paddleX paddleDx paddleY direction).ballDy ≤ 7) := by
  refine ⟨bounceHorizontal_range paddleX paddleDx, ?_⟩
  have hspeed (b : Game) : 3 ≤ direction * i16 (direction * b.rallyVerticalSpeed) ∧
      direction * i16 (direction * b.rallyVerticalSpeed) ≤ 7 := by
    have hrange := @rallyVerticalSpeed_range b
    obtain rfl | rfl := hdirection
    · rw [i16_of_range (by omega) (by omega)]
      omega
    · rw [i16_of_range (by omega) (by omega)]
      omega
  exact hspeed _

-- The rows of the ball overlap the ones of a paddle.
def RowsMeet (byy py : Int) : Prop :=
  byy + ballSize ≥ py ∧ byy ≤ py + paddleH

def ColumnsMeet (bx px : Int) : Prop :=
  bx + ballSize ≥ px ∧ bx ≤ px + paddleW

theorem intersects_iff {bx byy px py : Int} :
    intersects bx byy px py ↔ ColumnsMeet bx px ∧ RowsMeet byy py := by
  rw [intersects, ColumnsMeet, RowsMeet]
  tauto

-- The paddle that the ball moves to does not meet it.
def Misses (scr : Screen) (g : Game) : Prop :=
  (g.ballDy > 0 → RowsMeet g.ballY scr.playerY → ¬ColumnsMeet g.ballX g.playerX) ∧
    (g.ballDy < 0 → RowsMeet g.ballY aiY → ¬ColumnsMeet g.ballX g.aiX)

-- What has become of the ball before the score is looked at.
inductive Advanced (scr : Screen) (g g' : Game) : Prop
  | flew (hdy : g'.ballDy = g.ballDy) (hy : g'.ballY = g.ballY + g.ballDy)
      (hmiss : g'.Misses scr)
  | sentUp (hdy : 0 < g.ballDy) (hrows : RowsMeet (g.ballY + g.ballDy) scr.playerY)
      (hdy' : -7 ≤ g'.ballDy ∧ g'.ballDy ≤ -3) (hy : g'.ballY = scr.height - 20)
  | sentDown (hdy : g.ballDy < 0) (hrows : RowsMeet (g.ballY + g.ballDy) aiY)
      (hdy' : 3 ≤ g'.ballDy ∧ g'.ballDy ≤ 7) (hy : g'.ballY = 47)

structure Kept (scr : Screen) (g g' : Game) : Prop where
  x : InsideX scr g'
  dx : 1 ≤ g'.ballDx.natAbs ∧ g'.ballDx.natAbs ≤ 7
  ticks : g'.serveTicks = g.serveTicks
  direction : g'.serveDirection = g.serveDirection
  playerX : g'.playerX = g.playerX
  aiX : g'.aiX = g.aiX

theorem advanceBall_spec (h : g.Playing scr) (hx : InsideX scr g) :
    Kept scr g (g.advanceBall scr) ∧ Advanced scr g (g.advanceBall scr) := by
  have hm := moved h hx
  have hh := scr.height_ge
  have hh' := scr.height_le
  rw [advanceBall, meetPaddle]
  generalize hgen : g.moveBall.meetWall scr = b at hm ⊢
  split
  case isTrue hplayer =>
    obtain ⟨hdx, hdy⟩ := @bounce_spec b (scr.playerY - ballSize) b.playerX b.playerDx scr.playerY
      (-1) (.inr rfl)
    refine ⟨⟨hm.x, hdx, hm.ticks, hm.direction, hm.playerX, hm.aiX⟩, .sentUp ?_ ?_ ?_ ?_⟩
    · rw [← hm.dy]
      exact hplayer.1
    · rw [← hm.y]
      exact (intersects_iff.mp hplayer.2).2
    · omega
    · have hy : i16 (scr.playerY - ballSize) = scr.height - 20 := by
        rw [scr.playerY_eq, ballSize, i16_of_range (by omega) (by omega)]
        omega
      exact hy
  case isFalse hplayer =>
    split
    case isTrue hai =>
      obtain ⟨hdx, hdy⟩ := @bounce_spec b (aiY + paddleH) b.aiX b.aiDx aiY 1 (.inl rfl)
      refine ⟨⟨hm.x, hdx, hm.ticks, hm.direction, hm.playerX, hm.aiX⟩, .sentDown ?_ ?_ ?_ ?_⟩
      · rw [← hm.dy]
        exact hai.1
      · rw [← hm.y]
        exact (intersects_iff.mp hai.2).2
      · omega
      · exact i16_of_range (by decide) (by decide)
    case isFalse hai =>
      refine ⟨⟨hm.x, hm.dx, hm.ticks, hm.direction, hm.playerX, hm.aiX⟩,
        .flew hm.dy hm.y ⟨fun hdown hrows hcolumns => ?_, fun hup hrows hcolumns => ?_⟩⟩
      · exact hplayer ⟨hdown, intersects_iff.mpr ⟨hcolumns, hrows⟩⟩
      · exact hai ⟨hup, intersects_iff.mpr ⟨hcolumns, hrows⟩⟩

-- The ball waits in the middle.
structure Serving (scr : Screen) (g : Game) : Prop where
  ticks : g.serveTicks ≠ 0
  x : g.ballX = scr.serveX
  y : g.ballY = scr.serveY
  dy : g.ballDy = 0

theorem beginServe_serving (direction : Int) : (g.beginServe scr direction).Serving scr := by
  have hticks : serveDelayTicks ≠ 0 := by decide
  exact ⟨hticks, rfl, rfl, rfl⟩

theorem beginServe_direction (direction : Int) :
    (g.beginServe scr direction).serveDirection = 1 ∨
      (g.beginServe scr direction).serveDirection = -1 := by
  have h : (g.beginServe scr direction).serveDirection = if direction < 0 then -1 else 1 := rfl
  rw [h]
  split
  case isTrue  => exact .inr rfl
  case isFalse => exact .inl rfl

-- What holds of a game at any time.
structure Sound (scr : Screen) (g : Game) : Prop where
  player : 4 ≤ g.playerX ∧ g.playerX ≤ scr.width - 56
  ai : 4 ≤ g.aiX ∧ g.aiX ≤ scr.width - 56
  ball : InsideX scr g
  direction : g.serveDirection = 1 ∨ g.serveDirection = -1
  state : g.Serving scr ∨ g.Playing scr

theorem Sound.dy (h : g.Sound scr) : g.ballDy.natAbs ≤ 7 := by
  obtain hserving | hplaying := h.state
  · rw [hserving.dy]
    decide
  · exact hplaying.dy.2

-- What a step can do: the ball waits, is served, flies on, is sent back by a paddle, or there is a
-- point.
inductive StepTo (scr : Screen) (g g' : Game) : Option Point → Prop
  | waited (h : g.Serving scr) (h' : g'.Serving scr) : StepTo scr g g' none
  | served (h : g.Serving scr) (hy : g'.ballY = scr.serveY) (hdy : g'.ballDy.natAbs = 3)
      (h' : g'.Playing scr) : StepTo scr g g' none
  | flew (h : g.Playing scr) (hdy : g'.ballDy = g.ballDy) (hy : g'.ballY = g.ballY + g.ballDy)
      (hmiss : g'.Misses scr) (h' : g'.Playing scr) : StepTo scr g g' none
  | sentUp (h : g.Playing scr) (hdy : 0 < g.ballDy)
      (hrows : RowsMeet (g.ballY + g.ballDy) scr.playerY) (hdy' : g'.ballDy < 0)
      (hy : g'.ballY = scr.height - 20) (h' : g'.Playing scr) : StepTo scr g g' none
  | sentDown (h : g.Playing scr) (hdy : g.ballDy < 0)
      (hrows : RowsMeet (g.ballY + g.ballDy) aiY) (hdy' : 0 < g'.ballDy)
      (hy : g'.ballY = 47) (h' : g'.Playing scr) : StepTo scr g g' none
  | playerScored (h : g.Playing scr) (hdy : g.ballDy < 0) (hy : g.ballY + g.ballDy < 28)
      (h' : g'.Serving scr) : StepTo scr g g' (some .player)
  | aiScored (h : g.Playing scr) (hdy : 0 < g.ballDy)
      (hy : scr.height - 4 < g.ballY + g.ballDy) (h' : g'.Serving scr) :
      StepTo scr g g' (some .ai)

theorem beginServe_inside (direction : Int) : InsideX scr (g.beginServe scr direction) :=
  scr.serveX_range

-- A game before the ball moves, with the paddles where they are then.
structure Prepared (scr : Screen) (g g' : Game) : Prop where
  motion : g'.motion = g.countServe.motion
  player : 4 ≤ g'.playerX ∧ g'.playerX ≤ scr.width - 56
  ai : 4 ≤ g'.aiX ∧ g'.aiX ≤ scr.width - 56

theorem countServe_motion : ((g.fadeFlash.updatePlayer scr buttons).countServe).motion =
    g.countServe.motion := by
  have hticks : (g.fadeFlash.updatePlayer scr buttons).serveTicks = g.serveTicks := rfl
  rw [countServe, countServe, hticks]
  split
  case isFalse => rfl
  case isTrue  =>
    dsimp only
    split <;> rfl

theorem prepared : Prepared scr g
    (((g.fadeFlash.updatePlayer scr buttons).countServe).updateAi scr) := by
  have hplayer : ((g.fadeFlash.updatePlayer scr buttons).countServe).playerX =
      (g.fadeFlash.updatePlayer scr buttons).playerX := by
    rw [countServe]
    split
    case isFalse => rfl
    case isTrue  =>
      dsimp only
      split <;> rfl
  refine ⟨?_, ?_, updateAi_aiX⟩
  · rw [updateAi_frame.1, countServe_motion]
  · rw [updateAi_frame.2, hplayer]
    exact updatePlayer_playerX

theorem i16_direction {direction : Int} (h : direction = 1 ∨ direction = -1) :
    (i16 (direction * ballStartDy)).natAbs = 3 := by
  obtain rfl | rfl := h
  · decide
  · decide

-- A serve counts down, and then the ball is in play.
theorem countServe_spec (h : g.Serving scr) (hdirection : g.serveDirection = 1 ∨
    g.serveDirection = -1) : g.countServe.Serving scr ∨
      g.countServe.Playing scr ∧ g.countServe.ballY = scr.serveY ∧
        g.countServe.ballDy.natAbs = 3 := by
  have hy := scr.serveY_range
  rw [countServe, if_pos (Nat.pos_of_ne_zero h.ticks)]
  dsimp only
  split
  case isFalse hticks => exact .inl ⟨hticks, h.x, h.y, h.dy⟩
  case isTrue hticks  =>
    have hdy : (i16 (g.serveDirection * ballStartDy)).natAbs = 3 := i16_direction hdirection
    refine .inr ⟨⟨hticks, serveDx_range _, ?_, ?_⟩, h.y, hdy⟩
    · exact ⟨Nat.le_of_eq hdy.symm, by rw [launchServe]; dsimp only; omega⟩
    · rw [launchServe]
      dsimp only
      rw [h.y]
      omega

theorem countServe_frame : g.countServe.serveDirection = g.serveDirection ∧
    g.countServe.ballX = g.ballX := by
  rw [countServe]
  split
  case isFalse => exact ⟨rfl, rfl⟩
  case isTrue  =>
    dsimp only
    split <;> exact ⟨rfl, rfl⟩

section Motion

variable {g' : Game} (hmotion : g'.motion = g.motion)
include hmotion

theorem Serving.of_motion (h : g.Serving scr) : g'.Serving scr := by
  have hticks : g'.serveTicks = g.serveTicks := congrArg Motion.serveTicks hmotion
  have hx : g'.ballX = g.ballX := congrArg Motion.ballX hmotion
  have hy : g'.ballY = g.ballY := congrArg Motion.ballY hmotion
  have hdy : g'.ballDy = g.ballDy := congrArg Motion.ballDy hmotion
  exact ⟨hticks ▸ h.ticks, hx.trans h.x, hy.trans h.y, hdy.trans h.dy⟩

theorem Playing.of_motion (h : g.Playing scr) : g'.Playing scr := by
  have hticks : g'.serveTicks = g.serveTicks := congrArg Motion.serveTicks hmotion
  have hy : g'.ballY = g.ballY := congrArg Motion.ballY hmotion
  have hdx : g'.ballDx = g.ballDx := congrArg Motion.ballDx hmotion
  have hdy : g'.ballDy = g.ballDy := congrArg Motion.ballDy hmotion
  exact ⟨hticks.trans h.served, hdx ▸ h.dx, hdy ▸ h.dy, hy ▸ h.y⟩

end Motion

-- What the score makes of the ball that has been advanced.
theorem updateScore_spec {b : Game} (h : b.Playing scr) (hkept : Kept scr b g)
    (hadvanced : Advanced scr b g) (hplayer : 4 ≤ b.playerX ∧ b.playerX ≤ scr.width - 56)
    (hai : 4 ≤ b.aiX ∧ b.aiX ≤ scr.width - 56)
    (hdirection : b.serveDirection = 1 ∨ b.serveDirection = -1) :
    (g.updateScore scr).1.Sound scr ∧
      StepTo scr b (g.updateScore scr).1 (g.updateScore scr).2 := by
  have hh := scr.height_ge
  have hy := h.y
  have hdy := h.dy
  rw [← hkept.playerX] at hplayer
  rw [← hkept.aiX] at hai
  rw [← hkept.direction] at hdirection
  rw [updateScore, fieldY_eq, scr.fieldH_eq, ballSize, menuLine]
  split
  case isTrue htop =>
    refine ⟨⟨hplayer, hai, beginServe_inside _, beginServe_direction _,
      .inl (beginServe_serving _)⟩, ?_⟩
    cases hadvanced with
    | flew hdy hy' hmiss     =>
      exact .playerScored h (by omega) (by omega) (beginServe_serving _)
    | sentUp hdy hrows hdy' hy'   => omega
    | sentDown hdy hrows hdy' hy' => omega
  case isFalse htop =>
    split
    case isTrue hbottom =>
      refine ⟨⟨hplayer, hai, beginServe_inside _, beginServe_direction _,
        .inl (beginServe_serving _)⟩, ?_⟩
      cases hadvanced with
      | flew hdy hy' hmiss     =>
        exact .aiScored h (by omega) (by omega) (beginServe_serving _)
      | sentUp hdy hrows hdy' hy'   => omega
      | sentDown hdy hrows hdy' hy' => omega
    case isFalse hbottom =>
      have hserved : g.serveTicks = 0 := hkept.ticks.trans h.served
      have hinside : 28 ≤ g.ballY ∧ g.ballY ≤ scr.height - 4 := by omega
      cases hadvanced with
      | flew hdy' hy' hmiss =>
        have hplaying : g.Playing scr := ⟨hserved, hkept.dx, by rw [hdy']; exact hdy, hinside⟩
        exact ⟨⟨hplayer, hai, hkept.x, hdirection, .inr hplaying⟩,
          .flew h hdy' hy' hmiss hplaying⟩
      | sentUp hdown hrows hdy' hy' =>
        have hplaying : g.Playing scr := ⟨hserved, hkept.dx, by omega, hinside⟩
        have hup : g.ballDy < 0 := by omega
        exact ⟨⟨hplayer, hai, hkept.x, hdirection, .inr hplaying⟩,
          .sentUp h hdown hrows hup hy' hplaying⟩
      | sentDown hup hrows hdy' hy' =>
        have hplaying : g.Playing scr := ⟨hserved, hkept.dx, by omega, hinside⟩
        have hdown : 0 < g.ballDy := by omega
        exact ⟨⟨hplayer, hai, hkept.x, hdirection, .inr hplaying⟩,
          .sentDown h hup hrows hdown hy' hplaying⟩

theorem StepTo.of_motion {b g' : Game} {point : Option Point} (h : StepTo scr b g' point)
    (hmotion : b.motion = g.motion) : StepTo scr g g' point := by
  have hy : b.ballY = g.ballY := congrArg Motion.ballY hmotion
  have hdy : b.ballDy = g.ballDy := congrArg Motion.ballDy hmotion
  cases h with
  | waited h h'                  => exact .waited (h.of_motion hmotion.symm) h'
  | served h hy' hdy' h'         => exact .served (h.of_motion hmotion.symm) hy' hdy' h'
  | flew h hdy' hy' hmiss h'     =>
    exact .flew (h.of_motion hmotion.symm) (hdy'.trans hdy) (by rw [hy', hy, hdy]) hmiss h'
  | sentUp h hdown hrows hup hy' h' =>
    rw [hy, hdy] at hrows
    exact .sentUp (h.of_motion hmotion.symm) (hdy ▸ hdown) hrows hup hy' h'
  | sentDown h hup hrows hdown hy' h' =>
    rw [hy, hdy] at hrows
    exact .sentDown (h.of_motion hmotion.symm) (hdy ▸ hup) hrows hdown hy' h'
  | playerScored h hup hy' h'    =>
    exact .playerScored (h.of_motion hmotion.symm) (hdy ▸ hup) (by rw [← hy, ← hdy]; exact hy') h'
  | aiScored h hdown hy' h'      =>
    exact .aiScored (h.of_motion hmotion.symm) (hdy ▸ hdown) (by rw [← hy, ← hdy]; exact hy') h'

theorem simulateStep_spec (h : g.Sound scr) (buttons : UInt32) :
    (g.simulateStep scr buttons).1.Sound scr ∧
      StepTo scr g (g.simulateStep scr buttons).1 (g.simulateStep scr buttons).2 := by
  obtain ⟨-, -, hx, hdirection, hstate⟩ := h
  have hp := @prepared scr g buttons
  rw [simulateStep]
  generalize hgen : ((g.fadeFlash.updatePlayer scr buttons).countServe).updateAi scr = p at hp ⊢
  obtain ⟨hmotion, hplayer, hai⟩ := hp
  obtain ⟨hcountDirection, hcountX⟩ := @countServe_frame g
  have hpX : p.ballX = g.ballX := (congrArg Motion.ballX hmotion).trans hcountX
  have hinside : InsideX scr p := by
    rw [InsideX, hpX]
    exact hx
  have hpDirection : p.serveDirection = g.serveDirection :=
    (congrArg Motion.serveDirection hmotion).trans hcountDirection
  rw [← hpDirection] at hdirection
  obtain hserving | hplaying := hstate
  case inl =>
    rw [if_neg hserving.ticks]
    obtain hwaits | ⟨hplays, hy, hdy⟩ := countServe_spec hserving (hpDirection ▸ hdirection)
    case inl =>
      have hwaits := hwaits.of_motion hmotion
      exact ⟨⟨hplayer, hai, hinside, hdirection, .inl hwaits⟩, .waited hserving hwaits⟩
    case inr =>
      have hplays := hplays.of_motion hmotion
      have hpy : p.ballY = g.countServe.ballY := congrArg Motion.ballY hmotion
      have hpdy : p.ballDy = g.countServe.ballDy := congrArg Motion.ballDy hmotion
      exact ⟨⟨hplayer, hai, hinside, hdirection, .inr hplays⟩,
        .served hserving (hpy.trans hy) (by rw [hpdy]; exact hdy) hplays⟩
  case inr =>
    have hcount : g.countServe = g := by
      rw [countServe, if_neg (Nat.not_lt.mpr (Nat.le_of_eq hplaying.served))]
    rw [hcount] at hmotion
    have hplays := hplaying.of_motion hmotion
    obtain ⟨hkept, hadvanced⟩ := advanceBall_spec hplays hinside
    obtain ⟨hsound, hstep⟩ := updateScore_spec hplays hkept hadvanced hplayer hai hdirection
    rw [if_pos hplaying.served]
    exact ⟨hsound, hstep.of_motion hmotion⟩

theorem start_sound (scr : Screen) : (start scr).Sound scr := by
  have hw' := scr.width_le
  have hrange := scr.paddleStart_range
  have hpaddle : i16 scr.paddleStart = scr.paddleStart := i16_of_range (by omega) (by omega)
  have hplayer : (start scr).playerX = i16 scr.paddleStart := rfl
  have hai : (start scr).aiX = i16 scr.paddleStart := rfl
  refine ⟨?_, ?_, beginServe_inside 1, .inl rfl, .inl (beginServe_serving 1)⟩
  · rw [hplayer, hpaddle]
    omega
  · rw [hai, hpaddle]
    omega

-- `pong_update_ai_target` does not divide by zero.
theorem verticalSpeed_pos (h : g.Sound scr)
    (hdy : ((g.fadeFlash.updatePlayer scr buttons).countServe).ballDy < 0) :
    0 < ((g.fadeFlash.updatePlayer scr buttons).countServe).verticalSpeed := by
  have hsame : ((g.fadeFlash.updatePlayer scr buttons).countServe).ballDy = g.countServe.ballDy :=
    congrArg Motion.ballDy countServe_motion
  have hrange : g.countServe.ballDy.natAbs ≤ 7 := by
    have hdirection : (i16 (g.serveDirection * ballStartDy)).natAbs = 3 :=
      i16_direction h.direction
    rw [countServe]
    split
    case isTrue  =>
      dsimp only
      split
      case isTrue  =>
        rw [launchServe]
        dsimp only
        omega
      case isFalse => exact h.dy
    case isFalse => exact h.dy
  rw [verticalSpeed, i16_of_range (by omega) (by omega)]
  omega

end Game
end Pong
