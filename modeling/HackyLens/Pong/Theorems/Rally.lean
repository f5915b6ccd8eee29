import HackyLens.Pong.Theorems.Controller

-- Runs of the simulation: how the ball passes the rows of a paddle, and when there is a point.

namespace Pong

open Game

-- A sequence that does not jump over a band passes through it.
theorem exists_in_band {f : Nat → Int} {lo hi : Int} {i j : Nat} (hij : i ≤ j)
    (hjump : ∀ k, i ≤ k → k < j → hi < f k → lo ≤ f (k + 1)) (hstart : hi < f i)
    (hend : f j ≤ hi) : ∃ k, i < k ∧ k ≤ j ∧ lo ≤ f k ∧ f k ≤ hi := by
  induction j, hij using Nat.le_induction with
  | base => omega
  | succ j hij ih =>
    by_cases hj : f j ≤ hi
    case pos =>
      obtain ⟨k, hik, hkj, hband⟩ := ih (fun k hk hkj => hjump k hk (by omega)) hj
      exact ⟨k, hik, by omega, hband⟩
    case neg =>
      exact ⟨j + 1, by omega, Nat.le_refl _, hjump j hij (by omega) (by omega), hend⟩

inductive Move
  | step (buttons : UInt32)
  | reset

namespace Game

variable (scr : Screen)

def move (g : Game) : Move → Game
  | .step buttons => (g.simulateStep scr buttons).1
  | .reset        => .start scr

-- The game after some moves from the start.
def play (moves : List Move) : Game :=
  moves.foldl (move scr) (.start scr)

end Game

-- The game after the first moves of a list.
def gameAt (scr : Screen) (moves : List Move) (n : Nat) : Game :=
  .play scr (moves.take n)

section Play

variable {scr : Screen} {moves : List Move} {buttons : UInt32} {p : Point}

theorem play_concat (m : Move) : play scr (moves ++ [m]) = (play scr moves).move scr m :=
  List.foldl_concat _ _ _ _

theorem play_sound (moves : List Move) : (play scr moves).Sound scr := by
  induction moves using List.reverseRecOn with
  | nil => exact start_sound scr
  | append_singleton moves m ih =>
    rw [play_concat]
    cases m with
    | step buttons => exact (simulateStep_spec ih buttons).1
    | reset        => exact start_sound scr

theorem at_concat {n : Nat} (m : Move) (h : n ≤ moves.length) :
    gameAt scr (moves ++ [m]) n = gameAt scr moves n := by
  rw [gameAt, gameAt, List.take_append_of_le_length h]

theorem at_length : gameAt scr moves moves.length = play scr moves := by
  rw [gameAt, List.take_length]

-- A move that leaves the ball in play is a step of the simulation.
theorem at_succ {n : Nat} (hn : n < moves.length)
    (h : (gameAt scr moves (n + 1)).serveTicks = 0) :
    ∃ point, StepTo scr (gameAt scr moves n) (gameAt scr moves (n + 1)) point := by
  have htake : gameAt scr moves (n + 1) = (gameAt scr moves n).move scr moves[n] := by
    rw [gameAt, gameAt, List.take_succ_eq_append_getElem hn, play_concat]
  rw [htake] at h ⊢
  generalize moves[n] = m at h ⊢
  cases m with
  | reset        => exact absurd h (Nat.succ_ne_zero 17)
  | step buttons => exact ⟨_, (simulateStep_spec (play_sound _) buttons).2⟩

-- The rows of a paddle are not jumped over.
def Stays (py : Int) (g g' : Game) : Prop :=
  (py + paddleH < g.ballY → py ≤ g'.ballY + ballSize) ∧
    (g.ballY + ballSize < py → g'.ballY ≤ py + paddleH)

theorem step_stays {g g' : Game} {point : Option Point} {py : Int}
    (h : StepTo scr g g' point) (hg : g.serveTicks = 0) (hg' : g'.serveTicks = 0)
    (hpy : py = aiY ∨ py = scr.playerY) : Stays py g g' := by
  have hh := scr.height_ge
  have hpy : py = 42 ∨ py = scr.height - 14 := hpy
  rw [Stays]
  cases h with
  | waited h h'               => exact absurd hg h.ticks
  | served h hy hdy h'        => exact absurd hg h.ticks
  | playerScored h hdy hy h'  => exact absurd hg' h'.ticks
  | aiScored h hdy hy h'      => exact absurd hg' h'.ticks
  | flew h hdy hy hmiss h'    =>
    have hdy := h.dy
    rw [paddleH, ballSize, hy]
    omega
  | sentUp h hdy hrows hdy' hy h' =>
    obtain ⟨hrows, hrows'⟩ := hrows
    have hdy := h.dy
    rw [scr.playerY_eq, ballSize] at hrows
    rw [paddleH, ballSize, hy]
    omega
  | sentDown h hdy hrows hdy' hy h' =>
    obtain ⟨hrows, hrows'⟩ := hrows
    have hdy := h.dy
    rw [aiY_eq, paddleH] at hrows'
    rw [paddleH, ballSize, hy]
    omega

-- While it is in play, the ball does not get from one side of a paddle to the other without a step
-- after which its rows overlap the ones of the paddle.
theorem crosses_rows {i j : Nat} {py : Int} (hij : i ≤ j) (hj : j ≤ moves.length)
    (hplay : ∀ k, i ≤ k → k ≤ j → (gameAt scr moves k).serveTicks = 0)
    (hpy : py = aiY ∨ py = scr.playerY)
    (hcross : (py + paddleH < (gameAt scr moves i).ballY ∧
        (gameAt scr moves j).ballY + ballSize < py) ∨
      ((gameAt scr moves i).ballY + ballSize < py ∧
        py + paddleH < (gameAt scr moves j).ballY)) :
    ∃ k, i < k ∧ k < j ∧ RowsMeet (gameAt scr moves k).ballY py := by
  have hjump (k : Nat) (hik : i ≤ k) (hkj : k < j) :
      Stays py (gameAt scr moves k) (gameAt scr moves (k + 1)) := by
    obtain ⟨point, hstep⟩ := @at_succ scr moves k (by omega) (hplay (k + 1) (by omega) hkj)
    exact step_stays hstep (hplay k hik (by omega)) (hplay (k + 1) (by omega) hkj) hpy
  have hsize : ballSize = 6 := rfl
  have hheight : paddleH = 5 := rfl
  obtain ⟨hstart, hend⟩ | ⟨hstart, hend⟩ := hcross
  case inl =>
    obtain ⟨k, hik, hkj, hlo, hhi⟩ := @exists_in_band (fun k => (gameAt scr moves k).ballY)
      (py - 6) (py + 5) i j hij
      (fun k hk hkj hlt => by have := (hjump k hk hkj).1 (by omega); omega) (by omega) (by omega)
    have hne : k ≠ j := fun hkj => by
      subst hkj
      omega
    exact ⟨k, hik, by omega, ⟨by omega, by omega⟩⟩
  case inr =>
    obtain ⟨k, hik, hkj, hlo, hhi⟩ := @exists_in_band (fun k => -(gameAt scr moves k).ballY)
      (-(py + 5)) (6 - py) i j hij
      (fun k hk hkj hlt => by have := (hjump k hk hkj).2 (by omega); omega) (by omega) (by omega)
    have hne : k ≠ j := fun hkj => by
      subst hkj
      omega
    exact ⟨k, hik, by omega, ⟨by omega, by omega⟩⟩

end Play

-- The direction to the line behind which it is somebody's point, and the paddle before it.
def Point.sign : Point → Int
  | .player => -1
  | .ai     => 1

def Point.rowsY (p : Point) (scr : Screen) : Int :=
  match p with
  | .player => aiY
  | .ai     => scr.playerY

def Point.paddleX (p : Point) (g : Game) : Int :=
  match p with
  | .player => g.aiX
  | .ai     => g.playerX

-- The ball has not come to the rows of the paddle yet.
def Point.Ahead (p : Point) (scr : Screen) (g : Game) : Prop :=
  match p with
  | .player => aiY + paddleH < g.ballY
  | .ai     => g.ballY + ballSize < scr.playerY

-- The ball has been moving to one side since a game in which it was still ahead of the paddle, and
-- the paddle has not met it.
structure Flight (scr : Screen) (p : Point) (moves : List Move) (m : Nat) : Prop where
  le : m ≤ moves.length
  ahead : p.Ahead scr (gameAt scr moves m)
  flying : ∀ i, m ≤ i → i ≤ moves.length →
    (gameAt scr moves i).Playing scr ∧ 0 < p.sign * (gameAt scr moves i).ballDy
  missed : ∀ i, m < i → i ≤ moves.length → RowsMeet (gameAt scr moves i).ballY (p.rowsY scr) →
    ¬ColumnsMeet (gameAt scr moves i).ballX (p.paddleX (gameAt scr moves i))

section Flight

variable {scr : Screen} {moves : List Move} {p : Point} {m : Nat}

theorem Game.Misses.of_point {g : Game} (h : g.Misses scr) (hdy : 0 < p.sign * g.ballDy)
    (hrows : RowsMeet g.ballY (p.rowsY scr)) : ¬ColumnsMeet g.ballX (p.paddleX g) := by
  cases p with
  | player =>
    have hdy : 0 < -1 * g.ballDy := hdy
    exact h.2 (by omega) hrows
  | ai     =>
    have hdy : 0 < 1 * g.ballDy := hdy
    exact h.1 (by omega) hrows

-- A flight that starts with the last move.
theorem Flight.fresh (hahead : p.Ahead scr (play scr moves))
    (hplaying : (play scr moves).Playing scr)
    (hdy : 0 < p.sign * (play scr moves).ballDy) : Flight scr p moves moves.length := by
  refine ⟨Nat.le_refl _, ?_, fun i hi hi' => ?_, fun i hi hi' => absurd hi' (Nat.not_le.mpr hi)⟩
  · rw [at_length]
    exact hahead
  · rw [Nat.le_antisymm hi' hi, at_length]
    exact ⟨hplaying, hdy⟩

theorem Flight.extend {move : Move} (h : Flight scr p moves m)
    (hplaying : (play scr (moves ++ [move])).Playing scr)
    (hdy : 0 < p.sign * (play scr (moves ++ [move])).ballDy)
    (hmiss : (play scr (moves ++ [move])).Misses scr) : Flight scr p (moves ++ [move]) m := by
  obtain ⟨hle, hahead, hflying, hmissed⟩ := h
  have hlast : gameAt scr (moves ++ [move]) (moves.length + 1) = play scr (moves ++ [move]) := by
    rw [← at_length, List.length_append, List.length_singleton]
  have hlength : (moves ++ [move]).length = moves.length + 1 := by
    rw [List.length_append, List.length_singleton]
  refine ⟨by omega, ?_, fun i hi hi' => ?_, fun i hi hi' => ?_⟩
  · rw [at_concat move hle]
    exact hahead
  · obtain hold | hnew := Nat.lt_or_eq_of_le (hlength ▸ hi')
    · rw [at_concat move (Nat.lt_succ_iff.mp hold)]
      exact hflying i hi (Nat.lt_succ_iff.mp hold)
    · rw [hnew, hlast]
      exact ⟨hplaying, hdy⟩
  · obtain hold | hnew := Nat.lt_or_eq_of_le (hlength ▸ hi')
    · rw [at_concat move (Nat.lt_succ_iff.mp hold)]
      exact hmissed i hi (Nat.lt_succ_iff.mp hold)
    · rw [hnew, hlast]
      exact hmiss.of_point hdy

-- At any time the ball in play is on such a flight.
theorem exists_flight (moves : List Move) (hplaying : (play scr moves).Playing scr)
    (hdy : 0 < p.sign * (play scr moves).ballDy) : ∃ m, Flight scr p moves m := by
  induction moves using List.reverseRecOn with
  | nil => exact absurd hplaying.served (Nat.succ_ne_zero 17)
  | append_singleton moves move ih =>
    have hh := scr.height_ge
    have hserve := scr.serveY_range
    have hlength : (moves ++ [move]).length = moves.length + 1 := by
      rw [List.length_append, List.length_singleton]
    have hmove : play scr (moves ++ [move]) = (play scr moves).move scr move := play_concat move
    cases move with
    | reset        =>
      rw [hmove] at hplaying
      exact absurd hplaying.served (Nat.succ_ne_zero 17)
    | step buttons =>
      obtain ⟨-, hspec⟩ := simulateStep_spec (@play_sound scr moves) buttons
      have hresult : ((play scr moves).simulateStep scr buttons).1 =
          play scr (moves ++ [.step buttons]) := hmove.symm
      rw [hresult] at hspec
      generalize ((play scr moves).simulateStep scr buttons).2 = point at hspec
      cases hspec with
      | waited h h'               => exact absurd hplaying.served h'.ticks
      | playerScored h hdy' hy h' => exact absurd hplaying.served h'.ticks
      | aiScored h hdy' hy h'     => exact absurd hplaying.served h'.ticks
      | served h hy hdy' h'       =>
        refine ⟨_, .fresh ?_ hplaying hdy⟩
        cases p with
        | player =>
          show 42 + 5 < (play scr (moves ++ [.step buttons])).ballY
          omega
        | ai     =>
          show (play scr (moves ++ [.step buttons])).ballY + 6 < scr.height - 14
          omega
      | flew h hdy' hy hmiss h'   =>
        obtain ⟨m, hflight⟩ := ih h (hdy' ▸ hdy)
        exact ⟨m, hflight.extend hplaying hdy hmiss⟩
      | sentUp h hdy' hrows hup hy h' =>
        cases p with
        | ai     =>
          have hdy : 0 < 1 * (play scr (moves ++ [.step buttons])).ballDy := hdy
          omega
        | player =>
          refine ⟨_, .fresh ?_ hplaying hdy⟩
          show 42 + 5 < (play scr (moves ++ [.step buttons])).ballY
          omega
      | sentDown h hdy' hrows hdown hy h' =>
        cases p with
        | player =>
          have hdy : 0 < -1 * (play scr (moves ++ [.step buttons])).ballDy := hdy
          omega
        | ai     =>
          refine ⟨_, .fresh ?_ hplaying hdy⟩
          show (play scr (moves ++ [.step buttons])).ballY + 6 < scr.height - 14
          omega

-- There is a point only after the ball has passed the rows of a paddle that has not met it.
theorem point_after_miss {buttons : UInt32}
    (h : ((play scr moves).simulateStep scr buttons).2 = some p) :
    ∃ m, Flight scr p moves m ∧ ∃ k, m < k ∧ k ≤ moves.length ∧
      RowsMeet (gameAt scr moves k).ballY (p.rowsY scr) := by
  have hh := scr.height_ge
  obtain ⟨-, hspec⟩ := simulateStep_spec (@play_sound scr moves) buttons
  generalize ((play scr moves).simulateStep scr buttons).1 = g' at hspec
  rw [h] at hspec
  have hserved {m : Nat} (hf : Flight scr p moves m) (k : Nat) (hk : m ≤ k)
      (hk' : k < moves.length) :
      Stays (p.rowsY scr) (gameAt scr moves k) (gameAt scr moves (k + 1)) := by
    have hnext := (hf.flying (k + 1) (by omega) hk').1.served
    obtain ⟨point, hstep⟩ := @at_succ scr moves k hk' hnext
    refine step_stays hstep (hf.flying k hk (by omega)).1.served hnext ?_
    cases p with
    | player => exact .inl rfl
    | ai     => exact .inr rfl
  cases hspec with
  | playerScored hplaying hdy hy h' =>
    have hdir : 0 < Point.player.sign * (play scr moves).ballDy := by
      show 0 < -1 * (play scr moves).ballDy
      omega
    obtain ⟨m, hflight⟩ := exists_flight moves hplaying hdir
    have hdy' := hplaying.dy
    have hahead : 42 + 5 < (gameAt scr moves m).ballY := hflight.ahead
    obtain ⟨k, hmk, hk, hlo, hhi⟩ := @exists_in_band (fun k => (gameAt scr moves k).ballY) 36 47 m
      moves.length hflight.le
      (fun k hk hk' hlt => by
        have hstay : 42 + 5 < (gameAt scr moves k).ballY →
            42 ≤ (gameAt scr moves (k + 1)).ballY + 6 := (hserved hflight k hk hk').1
        omega)
      (by omega) (by rw [at_length]; omega)
    refine ⟨m, hflight, k, hmk, hk, ?_, ?_⟩
    · show _ + 6 ≥ 42
      omega
    · show _ ≤ 42 + 5
      omega
  | aiScored hplaying hdy hy h' =>
    have hdir : 0 < Point.ai.sign * (play scr moves).ballDy := by
      show 0 < 1 * (play scr moves).ballDy
      omega
    obtain ⟨m, hflight⟩ := exists_flight moves hplaying hdir
    have hdy' := hplaying.dy
    have hahead : (gameAt scr moves m).ballY + 6 < scr.height - 14 := hflight.ahead
    obtain ⟨k, hmk, hk, hlo, hhi⟩ := @exists_in_band (fun k => -(gameAt scr moves k).ballY)
      (9 - scr.height) (20 - scr.height) m moves.length hflight.le
      (fun k hk hk' hlt => by
        have hstay : (gameAt scr moves k).ballY + 6 < scr.height - 14 →
            (gameAt scr moves (k + 1)).ballY ≤ scr.height - 14 + 5 :=
          (hserved hflight k hk hk').2
        omega)
      (by omega) (by rw [at_length]; omega)
    refine ⟨m, hflight, k, hmk, hk, ?_, ?_⟩
    · show _ + 6 ≥ scr.height - 14
      omega
    · show _ ≤ scr.height - 14 + 5
      omega

end Flight
end Pong
