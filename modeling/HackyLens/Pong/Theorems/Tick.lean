import HackyLens.Pong.Theorems.Rally

-- The ticks: how many steps they make, and what holds over a run of them.

namespace Pong

open Game

namespace State

variable {scr : Screen} {buttons : UInt32} {s : State}

-- A round of the loop, with whether the score has changed.
def round (scr : Screen) (buttons : UInt32) (r : Game × Bool) : Game × Bool :=
  ((r.1.simulateStep scr buttons).1, r.2 || (r.1.simulateStep scr buttons).2.isSome)

-- The state after some rounds.
def after (scr : Screen) (buttons : UInt32) (s : State) (n : Nat) : State :=
  { s with
    game          := ((round scr buttons)^[n] (s.game, s.scoreChanged)).1
    scoreChanged  := ((round scr buttons)^[n] (s.game, s.scoreChanged)).2
    accumulatorUs := s.accumulatorUs - n * fixedStepUs }

theorem catchUp_eq (left : Nat) : catchUp scr buttons left s =
    after scr buttons s (min left (s.accumulatorUs / fixedStepUs)) := by
  have hstep : fixedStepUs = 20000 := rfl
  induction left generalizing s with
  | zero =>
    rw [Nat.zero_min, after, Nat.zero_mul, Nat.sub_zero]
    rfl
  | succ left ih =>
    rw [catchUp]
    split
    case isFalse hlt =>
      have hzero : min (left + 1) (s.accumulatorUs / fixedStepUs) = 0 := by
        rw [hstep] at hlt ⊢
        omega
      rw [hzero, after, Nat.zero_mul, Nat.sub_zero]
      rfl
    case isTrue hge =>
      have hsucc : min (left + 1) (s.accumulatorUs / fixedStepUs) =
          min left ((s.accumulatorUs - fixedStepUs) / fixedStepUs) + 1 := by
        rw [hstep] at hge ⊢
        omega
      dsimp only
      rw [ih, hsucc, after, after]
      dsimp only
      rw [Function.iterate_succ_apply, Nat.sub_sub, Nat.add_mul, Nat.one_mul,
        Nat.add_comm fixedStepUs]
      rfl

-- The time that there is for a tick, and the steps that it makes.
def budget (s : State) (nowUs : Nat) : Nat :=
  min (s.accumulatorUs + (nowUs - s.lastTickUs)) maximumAccumulator

def rounds (s : State) (nowUs : Nat) : Nat :=
  if nowUs < s.lastTickUs then 0 else s.budget nowUs / fixedStepUs

theorem accumulate_eq (nowUs : Nat) : s.accumulate nowUs =
    { s with lastTickUs := nowUs, accumulatorUs := s.budget nowUs } := by
  have hmax : (if nowUs - s.lastTickUs ≥ maximumAccumulator ∨
      s.accumulatorUs ≥ maximumAccumulator - (nowUs - s.lastTickUs) then maximumAccumulator
      else s.accumulatorUs + (nowUs - s.lastTickUs)) = s.budget nowUs := by
    rw [budget]
    split_ifs <;> omega
  rw [accumulate, hmax]

theorem budget_le (nowUs : Nat) : s.budget nowUs ≤ 160000 :=
  Nat.min_le_right _ _

theorem tick_eq {nowUs : Nat} (h : s.lastTickUs ≤ nowUs) : s.tick scr buttons nowUs =
    { after scr buttons { s with accumulatorUs := s.budget nowUs } (s.rounds nowUs) with
      lastTickUs := nowUs
      buttons    := buttons
      previous   := if s.rounds nowUs = 0 then s.previous else s.game.view
      dirty      := s.dirty || s.rounds nowUs != 0 } := by
  have hstep : fixedStepUs = 20000 := rfl
  have hle := @budget_le s nowUs
  have hrounds : s.rounds nowUs = s.budget nowUs / fixedStepUs := by
    rw [rounds, if_neg (Nat.not_lt.mpr h)]
  have haccumulate : { s with buttons := buttons }.accumulate nowUs =
      { s with buttons := buttons, lastTickUs := nowUs, accumulatorUs := s.budget nowUs } :=
    accumulate_eq nowUs
  rw [tick]
  dsimp only
  rw [if_neg (Nat.not_lt.mpr h), haccumulate]
  dsimp only
  split
  case isTrue hlt =>
    have hzero : s.rounds nowUs = 0 := by
      rw [hrounds]
      exact Nat.div_eq_of_lt hlt
    rw [hzero, after, Nat.zero_mul, Nat.sub_zero, if_pos rfl, bne_self_eq_false, Bool.or_false]
    rfl
  case isFalse hge =>
    have hpos : s.rounds nowUs ≠ 0 := by
      rw [hrounds, hstep]
      omega
    have hmin : min maxCatchUpSteps (s.budget nowUs / fixedStepUs) = s.rounds nowUs := by
      have hmax : maxCatchUpSteps = 8 := rfl
      rw [hrounds, hstep, hmax]
      omega
    have hdirty : (s.rounds nowUs != 0) = true := bne_iff_ne.mpr hpos
    rw [catchUp_eq]
    dsimp only
    rw [hmin, if_neg hpos, hdirty, Bool.or_true]
    rfl

theorem tick_back {nowUs : Nat} (h : nowUs < s.lastTickUs) : s.tick scr buttons nowUs =
    { s with buttons := buttons, lastTickUs := nowUs, accumulatorUs := 0 } := by
  rw [tick]
  dsimp only
  rw [if_pos h]

-- In both cases the steps are these.
theorem tick_game (nowUs : Nat) :
    ((s.tick scr buttons nowUs).game, (s.tick scr buttons nowUs).scoreChanged) =
      (round scr buttons)^[s.rounds nowUs] (s.game, s.scoreChanged) := by
  by_cases h : nowUs < s.lastTickUs
  case pos =>
    rw [tick_back h, rounds, if_pos h]
    rfl
  case neg =>
    rw [tick_eq (Nat.not_lt.mp h)]
    rfl

theorem tick_accumulatorUs (nowUs : Nat) : (s.tick scr buttons nowUs).accumulatorUs < 20000 := by
  have hstep : fixedStepUs = 20000 := rfl
  by_cases h : nowUs < s.lastTickUs
  case pos =>
    rw [tick_back h]
    exact Nat.zero_lt_succ _
  case neg =>
    rw [tick_eq (Nat.not_lt.mp h)]
    show s.budget nowUs - s.rounds nowUs * fixedStepUs < 20000
    rw [rounds, if_neg h, hstep]
    omega

theorem tick_lastTickUs (nowUs : Nat) : (s.tick scr buttons nowUs).lastTickUs = nowUs := by
  by_cases h : nowUs < s.lastTickUs
  case pos => rw [tick_back h]
  case neg => rw [tick_eq (Nat.not_lt.mp h)]

theorem tick_dirty (nowUs : Nat) :
    (s.tick scr buttons nowUs).dirty = (s.dirty || s.rounds nowUs != 0) := by
  by_cases h : nowUs < s.lastTickUs
  case pos =>
    rw [tick_back h, rounds, if_pos h]
    exact (Bool.or_false _).symm
  case neg => rw [tick_eq (Nat.not_lt.mp h)]

-- The two states are the same up to the time that is left over and to the view that a picture is
-- compared with.
def SameSimulation (s s' : State) : Prop :=
  { s with accumulatorUs := s'.accumulatorUs, previous := s'.previous } = s'

theorem sameSimulation_of {s' : State}
    (hgame : (s.game, s.scoreChanged) = (s'.game, s'.scoreChanged))
    (hlast : s.lastTickUs = s'.lastTickUs) (hbuttons : s.buttons = s'.buttons)
    (hclose : s.closeRequested = s'.closeRequested)
    (hredraw : s.needFullRedraw = s'.needFullRedraw) (hdirty : s.dirty = s'.dirty) :
    SameSimulation s s' := by
  obtain ⟨hgame, hscore⟩ := Prod.mk.inj hgame
  rw [SameSimulation, hgame, hscore, hlast, hbuttons, hclose, hredraw, hdirty]

-- Time that comes in two parts makes as many steps.
theorem rounds_split {middleUs nowUs : Nat} (hacc : s.accumulatorUs < 20000)
    (hmiddle : s.lastTickUs ≤ middleUs) (hnow : middleUs ≤ nowUs)
    (hlimit : nowUs - s.lastTickUs < maximumAccumulator) :
    (s.tick scr buttons middleUs).rounds nowUs + s.rounds middleUs = s.rounds nowUs ∧
      (s.accumulatorUs + (nowUs - s.lastTickUs) ≤ maximumAccumulator →
        (s.tick scr buttons middleUs).budget nowUs -
            (s.tick scr buttons middleUs).rounds nowUs * fixedStepUs =
          s.budget nowUs - s.rounds nowUs * fixedStepUs) := by
  have hstep : fixedStepUs = 20000 := rfl
  have hmax : maximumAccumulator = 160000 := rfl
  have hleft : (s.tick scr buttons middleUs).accumulatorUs =
      s.budget middleUs - s.rounds middleUs * fixedStepUs := by
    rw [tick_eq hmiddle]
    rfl
  rw [rounds, rounds, rounds, tick_lastTickUs, if_neg (Nat.not_lt.mpr hnow),
    if_neg (Nat.not_lt.mpr hmiddle), if_neg (Nat.not_lt.mpr (hmiddle.trans hnow)), budget,
    tick_lastTickUs, hleft, rounds, if_neg (Nat.not_lt.mpr hmiddle), budget, budget, hstep, hmax]
  rw [hmax] at hlimit
  omega

theorem tick_split {middleUs nowUs : Nat} (hacc : s.accumulatorUs < 20000)
    (hmiddle : s.lastTickUs ≤ middleUs) (hnow : middleUs ≤ nowUs)
    (hlimit : nowUs - s.lastTickUs < maximumAccumulator) :
    SameSimulation ((s.tick scr buttons middleUs).tick scr buttons nowUs)
        (s.tick scr buttons nowUs) ∧
      (s.accumulatorUs + (nowUs - s.lastTickUs) ≤ maximumAccumulator →
        ((s.tick scr buttons middleUs).tick scr buttons nowUs).accumulatorUs =
          (s.tick scr buttons nowUs).accumulatorUs) := by
  obtain ⟨hrounds, hleft⟩ := @rounds_split scr buttons s middleUs nowUs hacc hmiddle hnow hlimit
  have hlast : (s.tick scr buttons middleUs).lastTickUs ≤ nowUs := by
    rw [tick_lastTickUs]
    exact hnow
  refine ⟨sameSimulation_of ?_ ?_ ?_ ?_ ?_ ?_, fun hle => ?_⟩
  · rw [tick_game, tick_game, ← Function.iterate_add_apply, hrounds, tick_game]
  · rw [tick_lastTickUs, tick_lastTickUs]
  · rw [tick_eq hlast, tick_eq (hmiddle.trans hnow)]
  · rw [tick_eq hlast, tick_eq (hmiddle.trans hnow), tick_eq hmiddle]
    rfl
  · rw [tick_eq hlast, tick_eq (hmiddle.trans hnow), tick_eq hmiddle]
    rfl
  · rw [tick_dirty, tick_dirty, tick_dirty, ← hrounds, Bool.or_assoc]
    generalize (s.tick scr buttons middleUs).rounds nowUs = later
    generalize s.rounds middleUs = first
    have hsome : (first != 0 || later != 0) = (later + first != 0) := by
      rw [Bool.eq_iff_iff, Bool.or_eq_true, bne_iff_ne, bne_iff_ne, bne_iff_ne]
      omega
    rw [hsome]
  · rw [tick_eq hlast, tick_eq (hmiddle.trans hnow)]
    exact hleft hle

end State

inductive Op
  | tick (buttons : UInt32) (nowUs : Nat)
  | reset (nowUs : Nat)

namespace State

variable (scr : Screen)

def apply (s : State) : Op → State
  | .tick buttons nowUs => s.tick scr buttons nowUs
  | .reset nowUs        => s.reset scr nowUs

def run (s : State) (ops : List Op) : State :=
  ops.foldl (apply scr) s

-- What an operation does to the game.
def movesOf (s : State) : Op → List Move
  | .tick buttons nowUs => .replicate (s.rounds nowUs) (.step buttons)
  | .reset _            => [.reset]

def moves (s : State) : List Op → List Move
  | []        => []
  | op :: ops => s.movesOf op ++ (s.apply scr op).moves ops

variable {scr : Screen} {s : State}

theorem foldl_round (buttons : UInt32) (n : Nat) (r : Game × Bool) :
    (List.replicate n (Move.step buttons)).foldl (move scr) r.1 =
      ((round scr buttons)^[n] r).1 := by
  induction n generalizing r with
  | zero      => rfl
  | succ n ih => exact ih (round scr buttons r)

theorem apply_game (op : Op) :
    (s.apply scr op).game = (s.movesOf op).foldl (move scr) s.game := by
  cases op with
  | reset nowUs        => rfl
  | tick buttons nowUs =>
    rw [movesOf, foldl_round buttons _ (s.game, s.scoreChanged), ← tick_game]
    rfl

theorem run_game (ops : List Op) :
    (s.run scr ops).game = (s.moves scr ops).foldl (move scr) s.game := by
  induction ops generalizing s with
  | nil            => rfl
  | cons op ops ih =>
    rw [moves, List.foldl_append, ← apply_game]
    exact ih

theorem run_accumulatorUs (ops : List Op) (h : s.accumulatorUs < 20000) :
    (s.run scr ops).accumulatorUs < 20000 := by
  induction ops generalizing s with
  | nil            => exact h
  | cons op ops ih =>
    refine ih ?_
    cases op with
    | tick buttons nowUs => exact tick_accumulatorUs nowUs
    | reset nowUs        => exact Nat.zero_lt_succ _

end State

-- What holds of the games that some moves lead to from the start.
structure Fair (scr : Screen) (moves : List Move) : Prop where
  inside : ∀ n, (4 ≤ (gameAt scr moves n).playerX ∧
      (gameAt scr moves n).playerX + paddleW ≤ scr.width - 4) ∧
    (4 ≤ (gameAt scr moves n).aiX ∧ (gameAt scr moves n).aiX + paddleW ≤ scr.width - 4) ∧
    4 ≤ (gameAt scr moves n).ballX ∧ (gameAt scr moves n).ballX + ballSize ≤ scr.width - 4
  speed : ∀ n, (gameAt scr moves n).serveTicks = 0 →
    (1 ≤ (gameAt scr moves n).ballDx.natAbs ∧ (gameAt scr moves n).ballDx.natAbs ≤ 7) ∧
      3 ≤ (gameAt scr moves n).ballDy.natAbs ∧ (gameAt scr moves n).ballDy.natAbs ≤ 7
  divisor : 0 < scr.period ∧ ∀ n buttons,
    let g := (((gameAt scr moves n).fadeFlash.updatePlayer scr buttons).countServe)
    g.ballDy < 0 → 0 < g.verticalSpeed
  crossing : ∀ i j py, i ≤ j → j ≤ moves.length →
    (∀ k, i ≤ k → k ≤ j → (gameAt scr moves k).serveTicks = 0) → (py = aiY ∨ py = scr.playerY) →
    (py + paddleH < (gameAt scr moves i).ballY ∧ (gameAt scr moves j).ballY + ballSize < py ∨
      (gameAt scr moves i).ballY + ballSize < py ∧ py + paddleH < (gameAt scr moves j).ballY) →
    ∃ k, i < k ∧ k < j ∧ RowsMeet (gameAt scr moves k).ballY py
  point : ∀ n ≤ moves.length, ∀ buttons p,
    ((gameAt scr moves n).simulateStep scr buttons).2 = some p →
    ∃ m, Flight scr p (moves.take n) m ∧ ∃ k, m < k ∧ k ≤ n ∧
      RowsMeet (gameAt scr moves k).ballY (p.rowsY scr)

theorem gameAt_take {scr : Screen} {moves : List Move} {n k : Nat} (h : k ≤ n) :
    gameAt scr (moves.take n) k = gameAt scr moves k := by
  rw [gameAt, gameAt, List.take_take, Nat.min_eq_left h]

theorem fair (scr : Screen) (moves : List Move) : Fair scr moves where
  inside n := by
    obtain ⟨hplayer, hai, ⟨hleft, hright⟩, -, -⟩ := @play_sound scr (moves.take n)
    have hpaddle : paddleW = 52 := rfl
    have hball : ballSize = 6 := rfl
    rw [gameAt]
    omega
  speed n h := by
    obtain ⟨-, -, -, -, hserving | hplaying⟩ := @play_sound scr (moves.take n)
    · exact absurd h hserving.ticks
    · exact ⟨hplaying.dx, hplaying.dy⟩
  divisor := ⟨scr.period_pos, fun n _ => verticalSpeed_pos (@play_sound scr (moves.take n))⟩
  crossing _ _ _ hij hj := crosses_rows hij hj
  point n hn buttons p h := by
    obtain ⟨m, hflight, k, hmk, hk, hrows⟩ := point_after_miss h
    have hlength : (moves.take n).length = n := by
      rw [List.length_take, Nat.min_eq_left hn]
    rw [hlength] at hk
    rw [gameAt_take hk] at hrows
    exact ⟨m, hflight, k, hmk, hk, hrows⟩

-- From any reset on, whatever the ticks and resets. In the last part, the state after `ops` gets a
-- tick in one or in two parts.
theorem pong_keeps_ball (scr : Screen) (s₀ : State) (startUs : Nat) (ops : List Op)
    (buttons : UInt32) (middleUs nowUs : Nat)
    (hmiddle : ((s₀.reset scr startUs).run scr ops).lastTickUs ≤ middleUs)
    (hnow : middleUs ≤ nowUs)
    (hlimit : nowUs - ((s₀.reset scr startUs).run scr ops).lastTickUs <
      State.maximumAccumulator) :
    let s := (s₀.reset scr startUs).run scr ops
    let moves := (s₀.reset scr startUs).moves scr ops
    s.game = play scr moves ∧ Fair scr moves ∧
      ((s.tick scr buttons middleUs).tick scr buttons nowUs).SameSimulation
        (s.tick scr buttons nowUs) ∧
      (s.accumulatorUs + (nowUs - s.lastTickUs) ≤ State.maximumAccumulator →
        ((s.tick scr buttons middleUs).tick scr buttons nowUs).accumulatorUs =
          (s.tick scr buttons nowUs).accumulatorUs) := by
  have hacc := @State.run_accumulatorUs scr (s₀.reset scr startUs) ops (Nat.zero_lt_succ _)
  exact ⟨State.run_game ops, fair scr _, State.tick_split hacc hmiddle hnow hlimit⟩

def quarter : Screen where
  width     := 320
  height    := 240
  width_ge  := by omega
  width_le  := by omega
  height_ge := by omega
  height_le := by omega

def idle : State where
  game           := .start quarter
  previous       := (Game.start quarter).view
  lastTickUs     := 0
  accumulatorUs  := 0
  buttons        := 0
  closeRequested := false
  needFullRedraw := true
  scoreChanged   := false
  dirty          := true

theorem pong_keeps_ball_quarter :
    let s := (idle.reset quarter 0).run quarter [.tick 1 19999]
    let moves := (idle.reset quarter 0).moves quarter [.tick 1 19999]
    s.game = play quarter moves ∧ Fair quarter moves ∧
      ((s.tick quarter 1 39999).tick quarter 1 60000).SameSimulation (s.tick quarter 1 60000) ∧
      (s.accumulatorUs + (60000 - s.lastTickUs) ≤ State.maximumAccumulator →
        ((s.tick quarter 1 39999).tick quarter 1 60000).accumulatorUs =
          (s.tick quarter 1 60000).accumulatorUs) :=
  pong_keeps_ball quarter idle 0 [.tick 1 19999] 1 39999 60000 (by decide) (by decide) (by decide)

-- What is over the limit of the accumulator is lost with one tick and not with two, and so the
-- tick after that makes a step or not.
theorem split_loses_time :
    let s := (idle.reset quarter 0).run quarter [.tick 0 19999]
    s.lastTickUs ≤ 39999 ∧ 179998 - s.lastTickUs < State.maximumAccumulator ∧
      (s.tick quarter 0 179998).accumulatorUs = 0 ∧
      ((s.tick quarter 0 39999).tick quarter 0 179998).accumulatorUs = 19998 ∧
      (((s.tick quarter 0 39999).tick quarter 0 179998).tick quarter 0 180000).game ≠
        ((s.tick quarter 0 179998).tick quarter 0 180000).game := by
  decide +kernel

end Pong
