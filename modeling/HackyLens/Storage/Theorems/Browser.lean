import HackyLens.Lib.Preserves
import HackyLens.Storage.Browser
import HackyLens.Storage.Theorems.FileBrowser

-- The way back through the directories that were opened.

namespace Fat32

open Core Prog
open Sd (Card Verdict)

-- A run in which all blocks are read and written.
def Yields {α : Type} (p : Task α) (s : Driver) (card : Card) (a : α) (s' : Driver) (card' : Card) :
    Prop :=
  ∃ ds, (∀ d ∈ ds, d = .passes) ∧ p.run Sd.handler s ds card = .done (a, s') card'

-- The browser with its card, and the directories in which the ones that are open were opened, the
-- last one first.
structure World where
  browser : Browser
  driver : Driver
  card : Card
  opened : List UInt32

-- What is pressed while the list is shown. A deletion is confirmed.
inductive Press
  | openDir
  | back
  | move (delta : Int)
  | delete

-- The directory that is selected.
def Browser.selectedDir (b : Browser) : Option FileEntry :=
  b.selectedEntry.filter fun entry => entry.isDir ∧ entry.cluster ≥ 2

inductive Step (g : Layout) : World → Press → World → Prop
  | openDir {w : World} {entry b s card} : w.browser.selectedDir = some entry →
    Yields (g.openSelected w.browser) w.driver w.card (none, b) s card →
    Step g w .openDir ⟨b, s, card, w.browser.cluster :: w.opened⟩
  | back {w : World} {b s card} :
    Yields (g.backFromList w.browser) w.driver w.card (false, b) s card →
    Step g w .back ⟨b, s, card, w.opened.tail⟩
  | move {w : World} {delta} :
    Step g w (.move delta) { w with browser := w.browser.selectDelta delta }
  | delete {w : World} {r b s card} :
    Yields (g.deleteSelected w.browser) w.driver w.card (r, b) s card →
    Step g w .delete { w with browser := b, driver := s, card }

-- What is reached by presses that meet a condition.
inductive Reached (g : Layout) (rootCluster : UInt32) (meets : World → Press → Prop) : World → Prop
  | enter {s s' : Driver} {card card' ok b} : Yields (g.enter rootCluster) s card (ok, b) s' card' →
    Reached g rootCluster meets ⟨b, s', card', []⟩
  | step {w w' : World} {p} : Reached g rootCluster meets w → meets w p → Step g w p w' →
    Reached g rootCluster meets w'

-- The browser is only left in the root directory, and otherwise goes back to where the directory
-- that is shown was opened.
structure BackUndoes (g : Layout) (rootCluster : UInt32) (w : World) : Prop where
  leaves : ∀ b s card, Yields (g.backFromList w.browser) w.driver w.card (true, b) s card →
    w.browser.cluster = rootCluster
  returns : ∀ b s card, Yields (g.backFromList w.browser) w.driver w.card (false, b) s card →
    w.opened.head? = some b.cluster ∧
      ∀ clusters, g.Spans w.card b.cluster clusters →
        b.files = sortNewestFirst (shown (listing (g.content w.card clusters) .start))

-- A directory is only opened when there is room for the one that it is in.
def Shallow (w : World) (p : Press) : Prop :=
  p = .openDir → w.opened.length < filesStackMax

section Parts

variable {g : Layout} {rootCluster : UInt32} {b b' : Browser} {s s' : Driver} {card card' : Card}
  {w w' : World} {p : Press} {ok : Bool}

theorem Yields.meets {α : Type} {q : Task α} {a : α} {Q : α → Driver → Prop}
    (hq : Ensures (fun _ => True) q Q s) (h : Yields q s card a s' card') : Q a s' := by
  obtain ⟨ds, _, hr⟩ := h
  exact hq.of_run hr

-- What is not touched when a list is loaded.
def Stays (b b' : Browser) : Prop :=
  b'.cluster = b.cluster ∧ b'.stack = b.stack

theorem ensureVisible_stays : Stays b b.ensureVisible := by
  rw [Browser.ensureVisible]
  split_ifs <;> exact ⟨rfl, rfl⟩

theorem selectDelta_stays (delta : Int) : Stays b (b.selectDelta delta) := by
  have moved (index : Nat) :
      Stays b (if b.index ≠ index then { b with index }.ensureVisible else b) := by
    split
    case isTrue  => exact ensureVisible_stays (b := { b with index })
    case isFalse => exact ⟨rfl, rfl⟩
  rw [Browser.selectDelta]
  split
  case isTrue  => exact ⟨rfl, rfl⟩
  case isFalse => exact moved _

theorem loadCurrent_stays :
    Ensures (fun _ => True) (g.loadCurrent b) (fun r _ => Stays b r.snd) s :=
  Ensures.top.seq fun _ _ _ => ⟨rfl, rfl⟩

theorem deleteSelected_stays :
    Ensures (fun _ => True) (g.deleteSelected b) (fun r _ => Stays b r.snd) s := by
  rw [Layout.deleteSelected]
  split
  case h_1 => exact ⟨rfl, rfl⟩
  case h_2 entry _ =>
    refine .ite (fun _ => ⟨rfl, rfl⟩) fun _ => Ensures.top.seq fun deleted s₁ _ => ?_
    refine .ite (fun _ => loadCurrent_stays.seq fun r s₂ hr => ?_) fun _ => ⟨rfl, rfl⟩
    refine .ite (fun _ => hr) fun _ => .ite (fun _ => hr) fun _ => ?_
    obtain ⟨hc, hs⟩ := ensureVisible_stays (b := { r.snd with index := _ })
    exact ⟨hc.trans hr.left, hs.trans hr.right⟩

theorem openSelected_opens {entry : FileEntry} (h : b.selectedDir = some entry) :
    Ensures (fun _ => True) (g.openSelected b) (fun r _ =>
      r.snd.cluster = entry.cluster ∧ r.snd.stack = b.pushCurrentCluster.snd.stack) s := by
  obtain ⟨hsel, hdir⟩ := Option.filter_eq_some_iff.mp h
  obtain ⟨hdir, hcluster⟩ := of_decide_eq_true hdir
  rw [Layout.openSelected, hsel]
  dsimp only
  rw [if_pos hdir, if_neg (UInt32.not_lt.mpr hcluster)]
  exact loadCurrent_stays.seq fun r s₁ hr => hr

theorem backFromList_goes : Ensures (fun _ => True) (g.backFromList b) (fun r _ =>
    if r.fst then b.stack = [] else b.stack = r.snd.cluster :: r.snd.stack) s := by
  rw [Layout.backFromList]
  split
  case h_1 h => exact h
  case h_2 cluster stack h =>
    refine loadCurrent_stays.seq fun r s₁ hr => ?_
    show b.stack = r.snd.cluster :: r.snd.stack
    rw [hr.left, hr.right, h]

-- At the bottom is the root directory, however deep the way is.
def Rooted (rootCluster : UInt32) (b : Browser) : Prop :=
  (b.cluster :: b.stack).getLast? = some rootCluster

theorem Rooted.stays (h : Rooted rootCluster b) (hb : Stays b b') : Rooted rootCluster b' := by
  rw [Rooted, hb.left, hb.right]
  exact h

theorem Rooted.push (h : Rooted rootCluster b) (cluster : UInt32) :
    (cluster :: b.pushCurrentCluster.snd.stack).getLast? = some rootCluster := by
  rw [Browser.pushCurrentCluster]
  split
  case isTrue hfull =>
    have hne : b.stack ≠ [] := List.ne_nil_of_length_pos (Nat.lt_of_lt_of_le (by decide) hfull)
    obtain ⟨c, stack, hs⟩ := List.exists_cons_of_ne_nil hne
    rw [Rooted, hs, List.getLast?_cons_cons] at h
    show (cluster :: b.stack).getLast? = _
    rw [hs, List.getLast?_cons_cons, h]
  case isFalse => exact (List.getLast?_cons_cons ..).trans h

theorem Rooted.step (h : Rooted rootCluster w.browser) (hs : Step g w p w') :
    Rooted rootCluster w'.browser := by
  cases hs with
  | openDir hsel hy =>
    obtain ⟨_, hst⟩ := hy.meets (openSelected_opens hsel)
    rw [Rooted, hst]
    exact h.push _
  | back hy =>
    have hgo := hy.meets backFromList_goes
    have hstack : w.browser.stack = _ := hgo
    rw [Rooted, hstack, List.getLast?_cons_cons] at h
    exact h
  | move      => exact h.stays (selectDelta_stays _)
  | delete hy => exact h.stays (hy.meets deleteSelected_stays)

theorem Reached.rooted {meets : World → Press → Prop} (h : Reached g rootCluster meets w) :
    Rooted rootCluster w.browser := by
  induction h with
  | enter hy =>
    have hroot : Rooted rootCluster ⟨rootCluster, [], [], 0, 0⟩ := rfl
    exact hroot.stays (hy.meets loadCurrent_stays)
  | step _ _ hs ih => exact ih.step hs

theorem left_in_root {meets : World → Press → Prop} (h : Reached g rootCluster meets w)
    (hy : Yields (g.backFromList w.browser) w.driver w.card (true, b) s card) :
    w.browser.cluster = rootCluster := by
  have hgo : w.browser.stack = [] := hy.meets backFromList_goes
  have hroot := h.rooted
  rw [Rooted, hgo] at hroot
  exact Option.some_inj.mp hroot

-- The stack has the directories in which the others were opened.
theorem stack_step (h : w.browser.stack = w.opened) (hm : Shallow w p) (hs : Step g w p w') :
    w'.browser.stack = w'.opened := by
  cases hs with
  | openDir hsel hy =>
    obtain ⟨_, hst⟩ := hy.meets (openSelected_opens hsel)
    have hroom : ¬w.browser.stack.length ≥ filesStackMax := by
      rw [h]
      exact Nat.not_le.mpr (hm rfl)
    rw [Browser.pushCurrentCluster, if_neg hroom] at hst
    rw [← h]
    exact hst
  | back hy =>
    have hgo : w.browser.stack = _ := hy.meets backFromList_goes
    rw [← h, hgo]
    rfl
  | move      => exact (selectDelta_stays _).right.trans h
  | delete hy => exact (hy.meets deleteSelected_stays).right.trans h

theorem Reached.stack (h : Reached g rootCluster Shallow w) : w.browser.stack = w.opened := by
  induction h with
  | enter hy        => exact (hy.meets loadCurrent_stays).right
  | step _ hm hs ih => exact stack_step ih hm hs

theorem wp_loadCurrent {clusters : List UInt32} (h : g.Spans card b.cluster clusters) :
    wp Layout.passing (g.loadCurrent b) (fun r _ _ => r.snd.files =
      sortNewestFirst (shown (listing (g.content card clusters) .start))) s card := by
  rw [Layout.loadCurrent, wp_bind]
  refine wp_mono (Layout.wp_loadDir h) ?_
  rintro r s' card' ⟨_, rfl⟩
  rfl

theorem back_undoes (h : Reached g rootCluster Shallow w) : BackUndoes g rootCluster w := by
  refine ⟨fun _ _ _ hy => left_in_root h hy, fun b s card hy => ?_⟩
  have hgo : w.browser.stack = b.cluster :: b.stack := hy.meets backFromList_goes
  refine ⟨by rw [← h.stack, hgo]; rfl, fun clusters hspans => ?_⟩
  have hw : wp Layout.passing (g.backFromList w.browser) (fun r _ _ => r.snd.files =
      sortNewestFirst (shown (listing (g.content w.card clusters) .start))) w.driver w.card := by
    rw [Layout.backFromList, hgo]
    dsimp only
    rw [wp_bind]
    exact wp_mono (wp_loadCurrent hspans) fun _ _ _ => id
  obtain ⟨ds, hd, hr⟩ := hy
  have hm := run_meets hd hw
  rw [show Layout.passing.handler = Sd.handler from rfl, hr] at hm
  exact hm

end Parts

section Deep

open Layout

variable {s : Driver} {card : Card} {k : Nat}

-- The entry of a directory.
def dirRaw (cluster : UInt32) : Memory := fun i =>
  if i = 0 then 0x44 else if i < 11 then 0x20 else if i = 11 then 0x10 else
    if i = 26 then cluster.toUInt8 else 0

-- Nine directories, each in the one before it, and the first one in the root directory. Each of
-- them has one cluster.
def deep : Card := fun lba =>
  if lba = 32 ∨ lba = 33 then
    fun a => if a < 48 then if a % 4 = 3 then 0x0F else 0xFF else 0
  else if lba ≥ 34 ∧ lba < 43 then
    dirRaw (lba - 31)
  else
    blank 134 lba

-- What is shown in one of the directories, and the directories on the way to it.
def level (k : Nat) : List FileEntry :=
  if k < 9 then [⟨[0x44], 0x10, .ofNat (k + 3), 0, 0, 0, 0⟩] else []

def wayTo (k : Nat) : List UInt32 :=
  (List.range k).reverse.map fun i => .ofNat (i + 2)

-- The stack has room for eight of them.
def deepWorld (k : Nat) : World where
  browser := ⟨.ofNat (k + 2), (wayTo k).drop (k - 8), level k, 0, 0⟩
  driver  := ⟨2, deep (.ofNat (k + 34))⟩
  card    := deep
  opened  := wayTo k

theorem deep_enter : Yields ((blankLayout 100).enter 2) ⟨2, fun _ => 0⟩ deep
    (true, (deepWorld 0).browser) (deepWorld 0).driver deep :=
  ⟨[.passes], fun _ => List.mem_singleton.mp, rfl⟩

theorem deep_opens (hk : k < 9) : Yields ((blankLayout 100).openSelected (deepWorld k).browser)
    (deepWorld k).driver deep (none, (deepWorld (k + 1)).browser) (deepWorld (k + 1)).driver
    deep := by
  refine ⟨[.passes], fun _ => List.mem_singleton.mp, ?_⟩
  interval_cases k <;> rfl

theorem deep_reached {meets : World → Press → Prop}
    (hk : k ≤ 9) (h : ∀ j < k, meets (deepWorld j) .openDir) :
    Reached (blankLayout 100) 2 meets (deepWorld k) := by
  induction k with
  | zero      => exact .enter deep_enter
  | succ k ih =>
    have hlt : k < 9 := hk
    have hdir : (deepWorld k).browser.selectedDir ≠ none := by
      clear ih h hk
      interval_cases k <;> decide
    obtain ⟨entry, hdir⟩ := Option.ne_none_iff_exists'.mp hdir
    have hstep := Step.openDir hdir (deep_opens hk)
    have hopened : (deepWorld k).browser.cluster :: (deepWorld k).opened =
        (deepWorld (k + 1)).opened := by
      show _ = (List.range (k + 1)).reverse.map _
      rw [List.range_succ, List.reverse_append]
      rfl
    rw [hopened] at hstep
    refine .step (ih (Nat.le_of_lt hk) fun j hj => h j ?_) (h k (Nat.lt_succ_self k)) hstep
    exact Nat.lt_succ_of_lt hj

-- From the second of three directories, the way back leads to the first one, and then out.
theorem back_undoes_two : BackUndoes (blankLayout 100) 2 (deepWorld 2) :=
  back_undoes (deep_reached (by decide) fun j hj _ => by interval_cases j <;> decide)

-- From the last directory, the way back does not lead to the directory that it is in.
theorem back_undoes_not : ¬∀ g rootCluster w, Reached g rootCluster (fun _ _ => True) w →
    BackUndoes g rootCluster w := by
  intro h
  have hb := h _ _ _ (deep_reached (Nat.le_refl 9) fun _ _ => trivial)
  have hy : Yields ((blankLayout 100).backFromList (deepWorld 9).browser) (deepWorld 9).driver deep
      (false, ⟨9, (wayTo 9).drop 2, level 7, 0, 0⟩) ⟨2, deep 41⟩ deep :=
    ⟨[.passes], fun _ => List.mem_singleton.mp, rfl⟩
  exact absurd (hb.returns _ _ _ hy).left (by decide)

end Deep

end Fat32
