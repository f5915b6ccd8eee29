import Mathlib.Data.List.Basic

-- Pictures that are shown one after the other on the same ground. Each of them leaves some places as
-- they are, and says what is left of it when the next one comes.

namespace Composition

inductive Disposal
  | keep | background | previous
  deriving DecidableEq

-- A picture paints some places of its area.
structure Picture (ι γ : Type) where
  area : ι → Bool
  paint : ι → Option γ
  disposal : Disposal

variable {ι κ γ : Type}

namespace Picture

variable (p : Picture ι γ)

def draw (below : ι → γ) : ι → γ :=
  fun i => (p.paint i).getD (below i)

def dispose (ground before : ι → γ) : ι → γ :=
  match p.disposal with
  | .keep       => p.draw before
  | .background => fun i => if p.area i then ground i else p.draw before i
  | .previous   => before

-- The same picture on another grid, some places of which take their value from a place of the first.
def sample (source : κ → Option ι) : Picture κ γ where
  area k   := (source k).any p.area
  paint k  := (source k).bind p.paint
  disposal := p.disposal

end Picture

-- What is left of the pictures that have been shown, the latest first.
def left (ground : ι → γ) : List (Picture ι γ) → ι → γ
  | []           => ground
  | p :: earlier => p.dispose ground (left ground earlier)

-- What is seen while the first of them is shown.
def shown (ground : ι → γ) : List (Picture ι γ) → ι → γ
  | []           => ground
  | p :: earlier => p.draw (left ground earlier)

variable {ground below : ι → γ} {other below' : κ → γ} {source : κ → Option ι}
variable {p : Picture ι γ} {pictures : List (Picture ι γ)} {i : ι} {k : κ}

section Some

variable (hs : source k = some i)

include hs

theorem draw_sample (h : below' k = below i) :
    (p.sample source).draw below' k = p.draw below i := by
  simp only [Picture.draw, Picture.sample, hs, Option.bind_some, h]

theorem dispose_sample (hg : other k = ground i) (h : below' k = below i) :
    (p.sample source).dispose other below' k = p.dispose ground below i := by
  have hd : (p.sample source).draw below' k = p.draw below i := draw_sample hs h
  obtain ⟨area, paint, disposal⟩ := p
  cases disposal with
  | keep       => exact hd
  | background =>
    have ha : (source k).any area = area i := by
      rw [hs, Option.any_some]
    change (if (source k).any area then _ else _) = if area i then _ else _
    rw [ha, hg, hd]
  | previous   => exact h

theorem left_sample (hg : other k = ground i) :
    left other (pictures.map (·.sample source)) k = left ground pictures i := by
  induction pictures with
  | nil               => exact hg
  | cons p earlier ih => exact dispose_sample hs hg ih

end Some

section None

variable (hs : source k = none)

include hs

theorem draw_sample_none : (p.sample source).draw below' k = below' k := by
  simp only [Picture.draw, Picture.sample, hs, Option.bind_none, Option.getD_none]

theorem dispose_sample_none (h : below' k = other k) :
    (p.sample source).dispose other below' k = other k := by
  have hd : (p.sample source).draw below' k = other k := (draw_sample_none hs).trans h
  obtain ⟨area, paint, disposal⟩ := p
  cases disposal with
  | keep       => exact hd
  | background =>
    change (if (source k).any area then _ else _) = _
    rw [hd, ite_self]
  | previous   => exact h

theorem left_sample_none : left other (pictures.map (·.sample source)) k = other k := by
  induction pictures with
  | nil               => rfl
  | cons p earlier ih => exact dispose_sample_none hs ih

end None

-- To compose samples is to take samples of what is composed.
theorem shown_sample (hs : source k = some i) (hg : other k = ground i) :
    shown other (pictures.map (·.sample source)) k = shown ground pictures i := by
  cases pictures with
  | nil => exact hg
  | cons p earlier => exact draw_sample hs (left_sample hs hg)

theorem shown_sample_none (hs : source k = none) :
    shown other (pictures.map (·.sample source)) k = other k := by
  cases pictures with
  | nil => rfl
  | cons p earlier => exact (draw_sample_none hs).trans (left_sample_none hs)

end Composition
