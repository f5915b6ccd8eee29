import HackyLens.Hmpy.Theorems.Client

-- The host's client over whole sessions with a device that answers each request once.

open Hmpy

namespace Host

-- A call, what the device sends from then on until the next one, and what the call reads.
inductive Turn
  | request (type : Int) (payload : List UInt8) (front : List Hmpy.Frame) (last : Hmpy.Frame)
      (after : List Hmpy.Frame) (reads : List (List UInt8))
  | poll (waits : Bool) (events : List Hmpy.Frame) (reads : List (List UInt8))

namespace Turn

def sent : Turn → List Hmpy.Frame
  | request _ _ front last after _ => front ++ last :: after
  | poll _ events _                => events

def reads : Turn → List (List UInt8)
  | request _ _ _ _ _ reads | poll _ _ reads => reads

-- A request is answered once, with events before, between and after its responses. Without a
-- request there are only events.
def Honest (c : Client) : Turn → Prop
  | request type payload front last after _ =>
    (∃ wire, encodeFrame ⟨type, 0, c.nextRequestId, payload⟩ = .ok wire) ∧
    (∀ f ∈ front, Intermediate c.nextRequestId type f) ∧ Final c.nextRequestId type last ∧
    ∀ f ∈ after, f.requestId = 0
  | poll _ events _ => ∀ f ∈ events, f.requestId = 0

-- What a request is answered with, and what it returns or raises.
abbrev Result := List Hmpy.Frame × Except ClientError (List Frame)

-- The call consumes all the reads.
inductive Runs (c : Client) : Turn → List Result → Client → Prop
  | request {type payload front last after reads result c'}
      (run : c.request type payload reads = (result, c', [])) :
      Runs c (request type payload front last after reads)
        [(answer (front ++ last :: after), result)] c'
  | poll {waits events reads result c'} (run : c.poll waits reads = (result, c', [])) :
      Runs c (poll waits events reads) [] c'

-- The events can be decoded, a request's answer has been read before its deadline passes, and the
-- read that ends an error response does not also end the next frame.
def Undisturbed (pending : List UInt8) : Turn → Prop
  | request _ _ front last after reads =>
    Decodable (front ++ last :: after) ∧
    pending.length + (wires (front ++ [last])).length ≤ reads.flatten.length ∧
    (last.toHost.has flagError → ∀ next ∈ after.head?,
      reads.flatten.length < pending.length + (wires (front ++ [last, next])).length)
  | poll _ events _ => Decodable events

end Turn

-- A session of the client `c₀`: what the device has sent, the results of the requests, and the
-- bytes that have not been read yet.
inductive Session (ok : List UInt8 → Turn → Prop) (c₀ : Client) :
    List Hmpy.Frame → List Turn.Result → Client → List UInt8 → Prop
  | start (ha : c₀.active) (hb : c₀.decoder.buffer = []) (hd : c₀.decoder.discarding = false) :
      Session ok c₀ [] [] c₀ []
  | turn {sent results c pending t results' c' pending'}
      (s : Session ok c₀ sent results c pending) (honest : t.Honest c)
      (valid : ∀ f ∈ t.sent, f.Valid) (split : ∀ read ∈ t.reads, read.length ≤ readMax)
      (stream : pending ++ wires t.sent = t.reads.flatten ++ pending') (h : ok pending t)
      (run : t.Runs c results' c') :
      Session ok c₀ (sent ++ t.sent) (results' ++ results) c' pending'

-- The responses of the answer, or the error that ends it.
def Answered (r : Turn.Result) : Prop :=
  ∃ responses last, r.fst = responses ++ [last] ∧
    r.snd = outcome (responses.map (·.toHost)) last

-- The events are those of the device, and each request has got its own answer.
structure Delivered (c₀ : Client) (sent : List Hmpy.Frame) (results : List Turn.Result)
    (c : Client) : Prop where
  answered : ∀ r ∈ results, Answered r
  events   : ∃ es, Decoded sent es ∧ c.events = c₀.events ++ es ∧ c.handled = c₀.handled ++ es


variable {c₀ c c' : Client} {sent : List Hmpy.Frame} {results results' : List Turn.Result}
variable {pending pending' : List UInt8} {t : Turn}

theorem nextRequestId_ne_zero (c : Client) : c.nextRequestId ≠ 0 := by
  rw [Client.nextRequestId]
  split
  case isTrue     => exact Nat.one_ne_zero
  case isFalse hz => exact hz

-- What has been sent is recorded, or it is still due, and then it is an event.
structure Progress (c₀ : Client) (sent : List Hmpy.Frame) (c : Client) (pending : List UInt8)
    (es : List HmpyEvent) (seen due : List Hmpy.Frame) : Prop where
  sent    : sent = seen ++ due
  events  : ∀ f ∈ due, f.requestId = 0
  decodes : Decodable due
  decoded : Decoded seen es
  emitted : Emitted c₀ es c
  due     : Due c.decoder pending due

variable {es : List HmpyEvent} {seen due : List Hmpy.Frame}

theorem Progress.request {type : Int} {payload : List UInt8} {front after : List Hmpy.Frame}
    {last : Hmpy.Frame} {reads : List (List UInt8)} {result : Except ClientError (List Frame)}
    (p : Progress c₀ sent c pending es seen due) (ha : c.active)
    (honest : (Turn.request type payload front last after reads).Honest c)
    (valid : ∀ f ∈ front ++ last :: after, f.Valid)
    (stream : pending ++ wires (front ++ last :: after) = reads.flatten ++ pending')
    (h : (Turn.request type payload front last after reads).Undisturbed pending)
    (run : c.request type payload reads = (result, c', [])) :
    Answered (answer (front ++ last :: after), result) ∧
    ∃ es seen due, Progress c₀ (sent ++ (front ++ last :: after)) c' pending' es seen due := by
  obtain ⟨⟨wire, hw⟩, hfront, hlast, hafter⟩ := honest
  obtain ⟨hdec, htime, halone⟩ := h
  have hid := nextRequestId_ne_zero c
  have hdue := p.due.append valid
  rw [stream, ← List.append_assoc] at hdue
  have hi : ∀ f ∈ due ++ front, Intermediate c.nextRequestId type f :=
    fun f hf => (List.mem_append.mp hf).elim (.event <| p.events f ·) (hfront f)
  have hd : Decodable (due ++ front ++ last :: after) := by
    rw [List.append_assoc]
    exact p.decodes.append hdec
  let c₁ : Client := { c with requestId := c.nextRequestId, output := c.output ++ wire }
  have hbuf : c₁.decoder.buffer.length + pending.length = (wires due).length := by
    rw [← p.due.bytes, List.length_append]
  have run : c₁.requestLoop c.nextRequestId type [] reads = (result, c', []) := by
    rw [Client.request, if_neg (by simp [ha])] at run
    simpa only [hw] using run
  obtain ⟨es', seen', due', rfl, hdec', hem, hdue', rfl⟩ := requestLoop_spec (c := c₁) hid hdue hi
    hlast hafter hd (by simp only [wires_append, List.length_append] at htime ⊢; omega)
    (fun he next hnext => by
      have := halone he next hnext
      simp only [wires_append, List.length_append] at this ⊢
      omega) run
  have hnil : answer due = [] := by simpa [answer] using p.events
  have hrest : answer (seen' ++ due') = [] := by
    rw [answer, List.filter_eq_nil_iff]
    simpa using hafter
  obtain ⟨-, -, hl⟩ := hlast.responds.toHost hid
  refine ⟨⟨answer front, last, ?_, ?_⟩, es ++ es', seen ++ (due ++ front ++ last :: seen'), due', ?_⟩
  case refine_1 =>
    have hsplit : front ++ last :: (seen' ++ due') = front ++ ([last] ++ (seen' ++ due')) := rfl
    rw [hsplit, answer_append, answer_append, hrest]
    simp [answer, hl]
  case refine_2 => simp [hnil]
  case refine_3 =>
    refine ⟨?_, ?_, ?_, p.decoded.append hdec', ?_, hdue'⟩
    case refine_1 => simp [p.sent]
    case refine_2 => exact fun f hf => hafter f (List.mem_append_right _ hf)
    case refine_3 =>
      have hsplit : front ++ last :: (seen' ++ due') = (front ++ last :: seen') ++ due' := by simp
      exact (hsplit ▸ hdec).right
    case refine_4 => exact p.emitted.trans ⟨hem.active, hem.events, hem.handled⟩

theorem Progress.poll {waits : Bool} {events : List Hmpy.Frame} {reads : List (List UInt8)}
    {result : Except ClientError (List HmpyEvent)} (p : Progress c₀ sent c pending es seen due)
    (honest : ∀ f ∈ events, f.requestId = 0) (valid : ∀ f ∈ events, f.Valid)
    (stream : pending ++ wires events = reads.flatten ++ pending') (h : Decodable events)
    (run : c.poll waits reads = (result, c', [])) :
    ∃ es seen due, Progress c₀ (sent ++ events) c' pending' es seen due := by
  have hdue := p.due.append valid
  rw [stream] at hdue
  have hf : ∀ f ∈ due ++ events, f.requestId = 0 :=
    fun f hf => (List.mem_append.mp hf).elim (p.events f) (honest f)
  have hloop : ∃ r, c.pollLoop waits reads = (r, c', []) := by
    rw [Client.poll] at run
    rcases hl : c.pollLoop waits reads with ⟨r, c₁, rest⟩
    rw [hl] at run
    cases r <;> cases run <;> exact ⟨_, rfl⟩
  obtain ⟨r, hloop⟩ := hloop
  obtain ⟨es', seen', due', hs, hdec, hem, hdue'⟩ :=
    pollLoop_spec hdue hf (p.decodes.append h) hloop
  have hd := p.decodes.append h
  rw [hs] at hf hd
  refine ⟨es ++ es', seen ++ seen', due', ?_, ?_, hd.right, p.decoded.append hdec,
    p.emitted.trans hem, hdue'⟩
  case refine_1 => rw [p.sent, List.append_assoc, hs, List.append_assoc]
  case refine_2 => exact fun f hf' => hf f (List.mem_append_right _ hf')

-- By induction on the session.
theorem Session.progress (s : Session Turn.Undisturbed c₀ sent results c pending) :
    (∀ r ∈ results, Answered r) ∧ c₀.active ∧
      ∃ es seen due, Progress c₀ sent c pending es seen due := by
  induction s with
  | start ha hb hd =>
    refine ⟨by simp, ha, [], [], [], rfl, by simp, by simp [Decodable, sentEvents], rfl, .refl, ?_⟩
    exact ⟨by simp, hd, by simp [hb], by simp [hb, wires]⟩
  | turn s honest valid split stream h run ih =>
    obtain ⟨hr, ha, es, seen, due, p⟩ := ih
    cases run with
    | request run =>
      obtain ⟨hans, hp⟩ := p.request (p.emitted.active.trans ha) honest valid stream h run
      exact ⟨List.forall_mem_cons.mpr ⟨hans, hr⟩, ha, hp⟩
    | poll run => exact ⟨by simpa using hr, ha, p.poll honest valid stream h run⟩

-- A session whose calls are all undisturbed gives each request its answer, and has delivered every
-- event when the stream is used up.
theorem session_delivers (s : Session Turn.Undisturbed c₀ sent results c pending) :
    (∀ r ∈ results, Answered r) ∧ (pending = [] → Delivered c₀ sent results c) := by
  obtain ⟨hr, -, es, seen, due, p⟩ := s.progress
  refine ⟨hr, fun hp => ⟨hr, es, ?_, p.emitted.events, p.emitted.handled⟩⟩
  have hs := p.sent
  rw [p.due.eq_nil hp, List.append_nil] at hs
  rw [hs]
  exact p.decoded

section Ping

-- A client that has just been opened pings the device. The answer and an event come in one read.
def opened : Client where
  decoder   := .init
  requestId := 0
  active    := true
  output    := []
  events    := []
  handled   := []

def pong : Hmpy.Frame where
  type      := MessageType.ping.value
  flags     := Hmpy.flagResponse
  requestId := 1
  payload   := []

-- The device is busy.
def refusal : Hmpy.Frame where
  type      := MessageType.ping.value
  flags     := Hmpy.flagResponse ||| Hmpy.flagError
  requestId := 1
  payload   := [7, 0, 0, 0]

def printed : Hmpy.Frame where
  type      := MessageType.stdout.value
  flags     := 0
  requestId := 0
  payload   := [1, 0, 0, 0, 0, 0, 0, 0, 65]

def pinged (last : Hmpy.Frame) : Turn :=
  .request 0x40 [] [] last [printed] [wires [last, printed]]

theorem opened_requestId : opened.nextRequestId = 1 := by
  decide

theorem pong_final : Final 1 0x40 pong :=
  ⟨⟨rfl, rfl, by decide⟩, .inr (by decide)⟩

theorem refusal_final : Final 1 0x40 refusal :=
  ⟨⟨rfl, rfl, by decide⟩, .inl (by decide)⟩

theorem printed_valid : printed.Valid :=
  ⟨by decide, by decide⟩

theorem wires_length_le {last : Hmpy.Frame} (h : last.payload.length ≤ 4) :
    (wires [last, printed]).length ≤ readMax := by
  have h₁ := Cobs.encode_length_le (rawFrame last)
  have h₂ := Cobs.encode_length_le (rawFrame printed)
  have hp : printed.payload.length = 9 := rfl
  simp only [rawFrame_length, Hmpy.rawOverhead, Hmpy.headerSize, crcSize, Cobs.maxRun, hp] at h₁ h₂
  simp only [wires, List.map_cons, List.map_nil, List.flatten_cons, List.flatten_nil,
    List.length_append, List.length_singleton, List.length_nil, readMax]
  omega

theorem feed_pinged {last : Hmpy.Frame} (hv : last.Valid) :
    ∃ d, opened.decoder.feed (wires [last, printed]) = ([.ok last.toHost, .ok printed.toHost], d) := by
  have hdue : Due opened.decoder (wires [last, printed] ++ []) [last, printed] := by
    refine ⟨?_, rfl, by simp [opened, StreamDecoder.init], by simp [opened, StreamDecoder.init]⟩
    intro f hf
    rcases List.mem_pair.mp hf with rfl | rfl
    case inl => exact hv
    case inr => exact printed_valid
  obtain ⟨batch, due, hb, hfeed, hdue'⟩ := hdue.feed
  rw [hdue'.eq_nil rfl, List.append_nil] at hb
  subst hb
  exact ⟨_, Prod.ext hfeed rfl⟩

theorem request_ping : ∃ wire, encodeFrame ⟨0x40, 0, opened.nextRequestId, []⟩ = .ok wire := by
  let f : Hmpy.Frame := ⟨MessageType.ping.value, 0, 1, []⟩
  have hv : f.Valid := ⟨by decide, by decide⟩
  exact ⟨_, (encodeFrame_agrees hv.envelope).trans (frameEncode_eq hv le_rfl)⟩

-- Whatever the final response is, it is a session.
theorem session_pinged {ok : List UInt8 → Turn → Prop} {last : Hmpy.Frame} {result c'}
    (hl : Final 1 0x40 last) (hv : last.Valid) (hp : last.payload.length ≤ 4)
    (h : ok [] (pinged last))
    (run : opened.request 0x40 [] [wires [last, printed]] = (result, c', [])) :
    Session ok opened [last, printed] [(answer [last, printed], result)] c' [] := by
  refine .turn (t := pinged last) (.start rfl rfl rfl) ?_ ?_ ?_ ?_ h (.request run)
  case refine_1 => exact ⟨request_ping, by simp, hl, by simp [printed]⟩
  case refine_2 =>
    intro f hf
    rcases List.mem_pair.mp hf with rfl | rfl
    case inl => exact hv
    case inr => exact printed_valid
  case refine_3 => simpa [pinged, Turn.reads] using wires_length_le hp
  case refine_4 => simp [pinged, Turn.reads, Turn.sent, wires]

theorem request_pinged {last : Hmpy.Frame} (hl : Final 1 0x40 last) (hv : last.Valid) :
    ∃ result c', opened.request 0x40 [] [wires [last, printed]] = (result, c', []) ∧
      (last.toHost.has flagError → result = .error (remoteError last.toHost) ∧ c'.events = []) := by
  obtain ⟨wire, hw⟩ := request_ping
  obtain ⟨d, hfeed⟩ := feed_pinged hv
  have hne : wires [last, printed] ≠ [] := by simp
  rw [Client.request, if_neg (by decide)]
  simp only [hw]
  rw [Client.requestLoop, if_neg hne]
  simp only [hfeed]
  by_cases he : last.toHost.has flagError
  case pos =>
    simp only [opened_requestId, requestBatch_final Nat.one_ne_zero hl, if_pos he]
    exact ⟨_, _, rfl, fun _ => ⟨rfl, rfl⟩⟩
  case neg =>
    simp only [opened_requestId, requestBatch_final Nat.one_ne_zero hl, if_neg he]
    exact ⟨_, _, rfl, fun h => absurd h he⟩

theorem printed_decoded {last : Hmpy.Frame} (hl : Final 1 0x40 last) :
    Decodable [last, printed] ∧ ¬Decoded [last, printed] [] := by
  obtain ⟨-, -, hn⟩ := hl.responds.toHost Nat.one_ne_zero
  have hs : sentEvents [last, printed] = [printed] := by simp [sentEvents, hn, printed]
  constructor
  case left =>
    intro f hf
    rw [hs, List.mem_singleton] at hf
    subst hf
    exact ⟨_, rfl⟩
  case right => simp [Decoded, hs]

theorem session_delivers_pong : ∃ results c,
    (∀ r ∈ results, Answered r) ∧ Delivered opened [pong, printed] results c := by
  have hv : pong.Valid := ⟨by decide, by decide⟩
  obtain ⟨result, c', run, -⟩ := request_pinged pong_final hv
  have h : Turn.Undisturbed [] (pinged pong) := by
    refine ⟨?_, ?_, ?_⟩
    case refine_1 => exact (printed_decoded pong_final).left
    case refine_2 => simp [wires]
    case refine_3 => exact fun h => absurd h (by decide)
  have s := session_pinged pong_final hv (by decide) h run
  exact ⟨_, _, (session_delivers s).left, (session_delivers s).right rfl⟩

-- The event that comes in one read with the refusal is lost.
theorem session_loses_event : ∃ results c,
    Session (fun _ _ => True) opened [refusal, printed] results c [] ∧
      Decodable [refusal, printed] ∧ (∀ r ∈ results, Answered r) ∧ c.events = [] ∧
      ¬Delivered opened [refusal, printed] results c := by
  have hv : refusal.Valid := ⟨by decide, by decide⟩
  obtain ⟨hd, hn⟩ := printed_decoded refusal_final
  obtain ⟨result, c', run, he⟩ := request_pinged refusal_final hv
  obtain ⟨hr, hevents⟩ := he (by decide)
  subst hr
  have s : Session (fun _ _ => True) opened [refusal, printed] _ c' [] :=
    session_pinged refusal_final hv (by decide) trivial run
  refine ⟨_, c', s, hd, ?_, hevents, ?_⟩
  case refine_1 =>
    intro r hr
    obtain rfl := List.mem_singleton.mp hr
    exact ⟨[], refusal, rfl, rfl⟩
  case refine_2 =>
    rintro ⟨-, es, hdec, hes, -⟩
    rw [hevents] at hes
    obtain rfl : es = [] := hes.symm
    exact hn hdec

end Ping
end Host
