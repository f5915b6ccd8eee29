import HackyLens.App.Api
import HackyLens.Display.Render
import HackyLens.Lib.Prog

-- What the display adapter asks of the rest of the firmware and of the panel, and the transport of
-- `lcd_st7789.c` on top of it.

namespace Display

open App (Result)

inductive Call
  -- The cancellation probe of a caller, by its address.
  | probe (cancel : Nat)
  | timeUs
  -- `hk_time_now_us`, which fails after the clock has gone backwards.
  | now
  -- `frame_workspace_borrow` and `frame_workspace_release`
  | borrow
  | release (generation : UInt32)
  -- What else happens to the frame pool.
  | reserveCamera
  | releaseCamera
  | borrowElsewhere
  | releaseElsewhere
  -- The commands that select a window of the panel, and the stream of pixels into it.
  | window (rect : Rect)
  | txBegin
  | txWrite (pixels : List UInt16)
  | txEnd
  | txAbort

abbrev Call.Reply : Call → Type
  | timeUs                                              => UInt64
  | now                                                 => Option UInt64
  | borrow                                              => Option UInt32
  | probe _ | window _ | txBegin | txWrite _ | txEnd    => Bool
  | _                                                   => Unit

-- The `g_workspace_*` variables and `g_camera_reserved` of `frame_pool.c`. `elsewhere` is the token
-- of another borrower.
structure Pool where
  generation : UInt32
  activeGeneration : UInt32
  cameraReserved : Bool
  elsewhere : UInt32
  deriving DecidableEq

namespace Pool

-- `frame_workspace_borrow`, for a size that fits. There is a token unless it is refused.
def borrow (pool : Pool) : Option UInt32 :=
  if pool.cameraReserved ∨ pool.activeGeneration ≠ 0 ∨ pool.generation = 0xFFFFFFFF then
    none
  else
    some (pool.generation + 1)

def borrowed (pool : Pool) : Pool :=
  match pool.borrow with
  | none            => pool
  | some generation => { pool with generation, activeGeneration := generation }

-- `frame_workspace_release`
def release (pool : Pool) (generation : UInt32) : Pool :=
  if generation ≠ 0 ∧ generation = pool.activeGeneration then
    { pool with activeGeneration := 0 }
  else
    pool

-- `frame_pool_camera_reserve`
def reserveCamera (pool : Pool) : Pool :=
  if pool.cameraReserved ∨ pool.activeGeneration ≠ 0 then
    pool
  else
    { pool with cameraReserved := true }

def borrowElsewhere (pool : Pool) : Pool :=
  match pool.borrow with
  | none            => pool
  | some generation => { pool.borrowed with elsewhere := generation }

def releaseElsewhere (pool : Pool) : Pool :=
  { pool.release pool.elsewhere with elsewhere := 0 }

end Pool

-- The panel shows its pixels by column and row. The stream goes on at `cursor`, row by row.
structure World where
  pixels : Nat → Nat → UInt16
  window : Rect
  cursor : Nat
  pool : Pool

def Pool.zero : Pool :=
  ⟨0, 0, false, 0⟩

namespace World

-- What the panel shows when the firmware starts is not known.
def boot (pixels : Nat → Nat → UInt16) : World :=
  ⟨pixels, .zero, 0, .zero⟩

-- Sends pixels to the window, from the cursor on.
def paint (world : World) (pixels : List UInt16) : World :=
  { world with
    cursor := world.cursor + pixels.length
    pixels := fun x y =>
      let column := x - world.window.x.toNat
      let index := (y - world.window.y.toNat) * world.window.width + column
      if world.window.x.toNat ≤ x ∧ world.window.y.toNat ≤ y ∧ column < world.window.width ∧
          world.cursor ≤ index ∧ index < world.cursor + pixels.length then
        pixels.getD (index - world.cursor) 0
      else
        world.pixels x y }

end World

-- What is left open about a call: what the probe and the clock show, whether the transfer or the
-- clock succeeds, and how many pixels a failing transfer has sent.
structure Decision where
  probe : Bool
  now : UInt64
  succeeds : Bool
  sent : Nat

def handler : Prog.Handler Call Call.Reply World Decision := fun d c world =>
  match c with
  | .probe _            => (d.probe, world)
  | .timeUs             => (d.now, world)
  | .now                => (if d.succeeds then some d.now else none, world)
  | .borrow             => (world.pool.borrow, { world with pool := world.pool.borrowed })
  | .release generation => ((), { world with pool := world.pool.release generation })
  | .reserveCamera      => ((), { world with pool := world.pool.reserveCamera })
  | .releaseCamera      => ((), { world with pool.cameraReserved := false })
  | .borrowElsewhere    => ((), { world with pool := world.pool.borrowElsewhere })
  | .releaseElsewhere   => ((), { world with pool := world.pool.releaseElsewhere })
  | .window rect        =>
    (d.succeeds, if d.succeeds then { world with window := rect, cursor := 0 } else world)
  | .txBegin | .txEnd   => (d.succeeds, world)
  | .txWrite pixels     =>
    (d.succeeds, world.paint (if d.succeeds then pixels else pixels.take d.sent))
  | .txAbort            => ((), world)

end Display
