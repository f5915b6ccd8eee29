import HackyLens.Lib.Run
import HackyLens.Script.Theorems.Drawing

-- A script presents what it has drawn, and each of its requests is settled before the next one.

namespace Script

open App (Result)
open Display (Board Call Decision Drawing Frame Inv World handler panel screenRect)
open Prog

variable {board : Board} {request : Request} {t t' : State} {w w' : World}
variable {admits : Decision → Prop} {result : BindingResult}

-- The batch that would have to be opened with a new workspace can still get one.
def Spared (t : State) (w : World) : Prop :=
  t.adapter.frame.commands = [] → w.pool.generation ≠ Display.generationMax

instance : Decidable (Spared t w) :=
  inferInstanceAs (Decidable (_ → _))

-- The script's batch is what it was.
structure Kept (board : Board) (t : State) (result : BindingResult) (t' : State) (w' : World) :
    Prop where
  ready : Ready board t' w'
  frame : t'.adapter.frame = t.adapter.frame
  committed : result = .ok → t'.adapter.committed = t.adapter.frame

section Present

theorem wp_displayDeadline {Q : UInt64 → State → World → Prop}
    (hq : ∀ deadline, deadline ≠ Display.timeMax → Q deadline t w) :
    wp (panel admits) displayDeadline Q t w := by
  rw [displayDeadline, wp_bind]
  refine wp_ask fun d _ => ?_
  show wp _ (match (if d.succeeds then some d.now else none) with | none => _ | some now => _) Q t w
  split
  case h_1       => exact hq 0 (by decide)
  case h_2 now _ =>
    rw [wp_pure]
    split
    case isTrue     => exact hq 0 (by decide)
    case isFalse hn =>
      refine hq _ fun he => hn ?_
      have he := congrArg UInt64.toNat he
      have hm : Display.timeMax.toNat = 18446744073709551615 := rfl
      have hr : rpcTimeoutUs.toNat = 500000 := rfl
      have hlt := now.toNat_lt
      have hs : (Display.timeMax - now).toNat = Display.timeMax.toNat - now.toNat :=
        UInt64.toNat_sub_of_le _ _ (UInt64.le_iff_toNat_le.mpr (by omega))
      rw [UInt64.toNat_add, hm, hr] at he
      rw [ge_iff_le, UInt64.le_iff_toNat_le, hs, hm, hr]
      omega

theorem Ready.kept (h : Ready board t w) (hr : result ≠ .ok) : Kept board t result t w :=
  ⟨h, rfl, fun ho => absurd ho hr⟩

theorem Ready.withAdapter {s : Display.State} (h : Ready board t w)
    (hd : Drawing board gDisplay s w') : Ready board { t with adapter := s } w' :=
  ⟨h.granted.withAdapter, hd, h.closed⟩

theorem wp_executePresent (h : Ready board t w) (hs : Spared t w) :
    wp (panel admits) (Request.executePresent board t.runId) (fun result t' w' =>
      Kept board t result t' w' ∧ ((∀ d, admits d → d.Easy) → result = .ok)) t w := by
  have hd := h.drawing.checkpointed
  rw [Request.executePresent, wp_bind]
  refine wp_displayDeadline fun deadline hn => ?_
  rw [wp_bind, wp_get]
  beta_reduce
  rw [wp_ite, if_neg h.granted.foreign, wp_bind]
  refine h.granted.wp_guarded (Display.wp_checkpoint h.drawing.staging
    ⟨(by decide : Result.ok ≠ .internal), ?_⟩)
  rw [wp_bind, wp_andThen, if_pos rfl, present, if_neg hn]
  refine h.granted.withAdapter.wp_capability (wp_mono (Display.wp_present hd) ?_)
  rintro result s w' ⟨hi, he, ho⟩
  refine ⟨hi, ?_⟩
  rw [Display.Outcomes] at ho
  rw [wp_bind, wp_andThen]
  split at ho
  case isFalse hf =>
    rw [if_neg hf, wp_bind, wp_andThen, if_neg hf]
    refine ⟨⟨h.withAdapter ho.left, ho.right.left, fun hr => ?_⟩, fun ha => ?_⟩
    · exact absurd (displayResult_ok.mp hr) hf
    · exact absurd (he ha hn) hf
  case isTrue hf =>
    have hb := h.drawing.built
    rw [if_pos hf]
    refine h.granted.withAdapter.wp_capability (wp_mono (ho.wp_begin hb hs) ?_)
    rintro result s w' ⟨rfl, ho⟩
    refine ⟨by decide, ?_⟩
    rw [wp_bind, wp_andThen, if_pos rfl]
    refine h.granted.withAdapter.wp_capability (wp_mono (ho.wp_restore hb h.drawing.inside) ?_)
    rintro result s w' ⟨rfl, rfl, hd, hf, hc⟩
    exact ⟨by decide, ⟨h.withAdapter hd, hf, fun _ => hc⟩, fun _ => rfl⟩

end Present

-- What a request has done when it is complete.
structure Transactional (board : Board) (request : Request) (t : State) (result : BindingResult)
    (t' : State) : Prop where
  failed : result ≠ .ok → t'.adapter.frame = t.adapter.frame
  target : result = .ok → request.target board t.adapter.frame = some t'.adapter.frame
  committed : result = .ok → request.operation = .present →
    t'.adapter.committed = t.adapter.frame

structure Settled (board : Board) (request : Request) (t : State) (result : BindingResult)
    (t' : State) (w' : World) : Prop extends Transactional board request t result t' where
  ready : Ready board t' w'

-- The request asks for something that can be drawn, and there is room for it.
def Request.Possible (board : Board) (request : Request) (t : State) : Prop :=
  request.Valid board ∧ request.target board t.adapter.frame ≠ none

theorem Ready.settled (h : Ready board t w) (hr : result ≠ .ok) :
    Settled board request t result t w where
  ready          := h
  failed _       := rfl
  target ho      := absurd ho hr
  committed ho _ := absurd ho hr

-- A request that draws is a transaction.
theorem wp_finish_drew (cancelled : Bool) (h : Ready board t w)
    (hd : Drew board request t w result t') (ho : request.operation ≠ .present) :
    wp (panel admits) (transactionFinish request.ticket t.runId (cancelled || result != .ok))
      (fun _ t'' w'' => w'' = w ∧
        Settled board request t (if cancelled then .timeout else result) t'' w'') t' w := by
  refine wp_mono (hd.pending.wp_transactionFinish h fun hr => hd.drawing ?_) ?_
  · simp only [Bool.or_eq_false_iff, bne_eq_false_iff_eq] at hr
    exact hr.right
  rintro - t'' w'' ⟨hr, rfl, hback, hkeep⟩
  refine ⟨rfl, ?_⟩
  by_cases hf : (cancelled || result != .ok) = true
  case pos =>
    have hn : (if cancelled then BindingResult.timeout else result) ≠ .ok := by
      split
      case isTrue    => decide
      case isFalse hc => simpa [hc] using hf
    exact ⟨⟨fun _ => hback hf, fun ho => absurd ho hn, fun ho _ => absurd ho hn⟩, hr⟩
  case neg =>
    have hf := Bool.eq_false_iff.mpr hf
    obtain ⟨hc, hok⟩ : cancelled = false ∧ result = .ok := by simpa using hf
    have ha := hkeep hf
    rw [hc, if_neg Bool.false_ne_true]
    refine ⟨⟨fun hn => absurd hok hn, fun ho => ?_, fun _ hp => absurd hp ho⟩, hr⟩
    exact ha ▸ hd.target ho

theorem wp_requestCancelled {Q : Bool → State → World → Prop}
    (hq : ∀ cancelled, ((∀ d, admits d → d.Easy) → cancelled = false) → Q cancelled t w) :
    wp (panel admits) requestCancelled Q t w :=
  wp_ask fun d hd => hq d.probe fun he => (he d hd).probe

theorem Kept.settled {cancelled : Bool} (h : Kept board t result t' w')
    (ho : result = .ok → request.operation = .present) :
    Settled board request t (if cancelled then .timeout else result) t' w' where
  ready          := h.ready
  failed _       := h.frame
  target hr      := by
    split at hr
    case isTrue  => cases hr
    case isFalse =>
      rw [Request.target, ho hr, h.frame]
  committed hr _ := by
    split at hr
    case isTrue  => cases hr
    case isFalse => exact h.committed hr

-- A request has been carried out, but it is not complete.
def Executed (board : Board) (request : Request) (t : State) (w : World) (result : BindingResult)
    (t' : State) (w' : World) : Prop :=
  request.operation ≠ .present ∧ w' = w ∧ Drew board request t w result t' ∨
    Kept board t result t' w' ∧ (result = .ok → request.operation = .present)

theorem Served.executed (h : Ready board t w) (hs : Served board request t w result t' w')
    (ho : request.operation ≠ .present) :
    Executed board request t w result t' w' ∧ (request.Possible board t → result = .ok) := by
  obtain ⟨rfl, hd | ⟨rfl, hr, hv⟩⟩ := hs
  · exact ⟨.inl ⟨ho, rfl, hd⟩, fun hp => hd.room hp.left hp.right⟩
  · exact ⟨.inr ⟨h.kept hr, fun hok => absurd hok hr⟩, fun hp => absurd hp.left hv⟩

theorem wp_execute (h : Ready board t w) (hs : request.operation = .present → Spared t w)
    (hb : (screenRect board).empty = false) (hl : request.data.length ≤ dataMax) :
    wp (panel admits) (request.execute board t.runId) (fun result t' w' =>
      Executed board request t w result t' w' ∧
        ((∀ d, admits d → d.Easy) → request.Possible board t → result = .ok)) t w := by
  have served {result t' w'} (ho : request.operation ≠ .present)
      (hs : Served board request t w result t' w') : Executed board request t w result t' w' ∧
        ((∀ d, admits d → d.Easy) → request.Possible board t → result = .ok) :=
    ⟨(hs.executed h ho).left, fun _ => (hs.executed h ho).right⟩
  rw [Request.execute, wp_ite, if_neg (Nat.not_lt.mpr hl), wp_bind]
  refine wp_requestCancelled fun cancelled hc => ?_
  rw [wp_ite]
  split
  case isTrue ht =>
    have hn : BindingResult.timeout ≠ .ok := by decide
    exact ⟨.inr ⟨h.kept hn, fun ho => absurd ho hn⟩, fun he => by cases (hc he).symm.trans ht⟩
  case isFalse =>
    split
    case h_1 ho => exact wp_mono (Request.wp_executeClear h hb ho) fun _ _ _ => served (by simp [ho])
    case h_2 ho => exact wp_mono (Request.wp_executeText h ho hl) fun _ _ _ => served (by simp [ho])
    case h_3 ho => exact wp_mono (Request.wp_executeRect h ho) fun _ _ _ => served (by simp [ho])
    case h_4 ho =>
      refine wp_mono (wp_executePresent h (hs ho)) ?_
      rintro result t' w' ⟨hk, he⟩
      exact ⟨.inr ⟨hk, fun _ => ho⟩, fun ha _ => he ha⟩

-- One call of `micropython_capability_bridge_tick` settles a request.
theorem wp_tick (h : Ready board t w) (hs : request.operation = .present → Spared t w)
    (hb : (screenRect board).empty = false) :
    wp (panel admits) (request.tick board) (fun result t' w' =>
      Settled board request t result t' w' ∧
        ((∀ d, admits d → d.Easy) → request.Possible board t → result = .ok)) t w := by
  rw [Request.tick, wp_bind, wp_get]
  beta_reduce
  rw [wp_bind]
  refine wp_requestCancelled fun cancelled hc => ?_
  rw [wp_ite]
  split
  case isTrue ht =>
    exact ⟨h.settled (by decide : BindingResult.timeout ≠ .ok),
      fun he => by cases (hc he).symm.trans ht⟩
  rw [wp_ite]
  split
  case isTrue hl =>
    exact ⟨h.settled (by decide : BindingResult.limit ≠ .ok),
      fun _ hp => absurd hp.left.left (Nat.not_le.mpr hl)⟩
  case isFalse hl =>
    rw [wp_bind]
    refine wp_mono (wp_execute h hs hb (Nat.not_lt.mp hl)) ?_
    rintro result t₁ w₁ ⟨hx, he⟩
    rw [wp_bind]
    refine wp_requestCancelled fun cancelled' hc' => ?_
    have hpos (ha : ∀ d, admits d → d.Easy) (hp : request.Possible board t) :
        (if cancelled' then .timeout else result) = BindingResult.ok := by
      rw [hc' ha, if_neg Bool.false_ne_true]
      exact he ha hp
    rw [wp_bind]
    obtain ⟨ho, rfl, hd⟩ | ⟨hk, ho⟩ := hx
    · refine wp_mono (wp_finish_drew cancelled' h hd ho) ?_
      rintro - t' w' ⟨rfl, hset⟩
      exact ⟨hset, hpos⟩
    · exact wp_transactionFinish_closed hk.ready.closed ⟨hk.settled ho, hpos⟩

-- A script that was not given the overlay.
structure Barred (t : State) : Prop where
  owned : t.displayOwned = false
  closed : t.transaction.active = false

theorem Barred.foreign (h : Barred t) {runId : UInt32} : t.foreign runId :=
  .inl (by simp [h.owned])

theorem Barred.wp_execute (h : Barred t) {runId : UInt32} :
    wp (panel admits) (request.execute board runId) (fun result t' _ => result ≠ .ok ∧ t' = t) t w := by
  have hn : BindingResult.notActive ≠ .ok := by decide
  rw [Request.execute, wp_ite]
  split
  case isTrue => exact ⟨(by decide : BindingResult.limit ≠ .ok), rfl⟩
  rw [wp_bind]
  refine wp_requestCancelled fun cancelled _ => ?_
  rw [wp_ite]
  split
  case isTrue => exact ⟨(by decide : BindingResult.timeout ≠ .ok), rfl⟩
  split
  case h_1 =>
    rw [Request.executeClear, wp_bind, wp_get]
    beta_reduce
    rw [wp_ite, if_pos (.inl h.foreign)]
    exact ⟨hn, rfl⟩
  case h_2 =>
    rw [Request.executeText, wp_bind, wp_get]
    beta_reduce
    rw [wp_ite, if_pos h.foreign]
    exact ⟨hn, rfl⟩
  case h_3 =>
    rw [Request.executeRect, wp_bind, wp_get]
    beta_reduce
    rw [wp_ite, if_pos h.foreign]
    exact ⟨hn, rfl⟩
  case h_4 =>
    rw [Request.executePresent, wp_bind]
    refine wp_displayDeadline fun _ _ => ?_
    rw [wp_bind, wp_get]
    beta_reduce
    rw [wp_ite, if_pos h.foreign]
    exact ⟨hn, rfl⟩

-- All requests of such a script are turned down.
theorem Barred.wp_tick (h : Barred t) :
    wp (panel admits) (request.tick board) (fun result t' _ => result ≠ .ok ∧ t' = t) t w := by
  rw [Request.tick, wp_bind, wp_get]
  beta_reduce
  rw [wp_bind]
  refine wp_requestCancelled fun cancelled _ => ?_
  rw [wp_ite]
  split
  case isTrue => exact ⟨(by decide : BindingResult.timeout ≠ .ok), rfl⟩
  rw [wp_ite]
  split
  case isTrue => exact ⟨(by decide : BindingResult.limit ≠ .ok), rfl⟩
  rw [wp_bind]
  refine wp_mono h.wp_execute ?_
  rintro result t' w' ⟨hr, rfl⟩
  rw [wp_bind]
  refine wp_requestCancelled fun cancelled' _ => ?_
  rw [wp_bind]
  refine wp_transactionFinish_closed h.closed ⟨?_, rfl⟩
  show (if cancelled' then .timeout else result) ≠ BindingResult.ok
  split
  case isTrue  => decide
  case isFalse => exact hr

end Script
