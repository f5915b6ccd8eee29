import HackyLens.Hmpy.Client
import HackyLens.Hmpy.Theorems.Agreement

-- What the loops of the host's client make of the frames of a stream, however it is split.

open Hmpy

namespace Host

-- The bytes of frames on the wire.
def wires (frames : List Hmpy.Frame) : List UInt8 :=
  (frames.map fun f => Cobs.encode (rawFrame f) ++ [0]).flatten

-- The decoder and the bytes that are still to be read make up the frames that are due.
structure Due (d : StreamDecoder) (pending : List UInt8) (due : List Hmpy.Frame) : Prop where
  valid      : ∀ f ∈ due, f.Valid
  discarding : d.discarding = false
  buffer     : 0 ∉ d.buffer
  bytes      : d.buffer ++ pending = wires due

section Wires

variable {f : Hmpy.Frame} {frames frames' : List Hmpy.Frame} {d : StreamDecoder}
variable {pending chunk : List UInt8} {due : List Hmpy.Frame} {b : UInt8}

@[simp]
theorem wires_cons : wires (f :: frames) = Cobs.encode (rawFrame f) ++ 0 :: wires frames := by
  simp [wires]

@[simp]
theorem wires_append : wires (frames ++ frames') = wires frames ++ wires frames' := by
  simp [wires]

theorem Due.packet (h : Due d pending (f :: due)) :
    ∃ rest, Cobs.encode (rawFrame f) = d.buffer ++ rest ∧ pending = rest ++ 0 :: wires due := by
  have hb := h.bytes
  rw [wires_cons] at hb
  rcases List.append_eq_append_iff.mp hb with ⟨rest, he, hp⟩ | ⟨rest, he, hp⟩
  case inl => exact ⟨rest, he, hp⟩
  case inr =>
    cases rest with
    | nil       => exact ⟨[], by simpa using he.symm, by simpa using hp.symm⟩
    | cons b rest =>
      obtain ⟨rfl, -⟩ := List.cons.inj hp
      exact absurd (by simp [he]) h.buffer

theorem Due.eq_nil (h : Due d pending due) (hp : pending = []) : due = [] := by
  cases due with
  | nil         => rfl
  | cons f rest =>
    obtain ⟨_, _, he⟩ := h.packet
    simp [hp] at he

theorem Due.length_lt (h : Due d pending (f :: due)) :
    d.buffer.length < (wires [f]).length := by
  obtain ⟨rest, he, -⟩ := h.packet
  simp [he, wires]

theorem Due.buffer_eq_nil (h : Due d pending []) : d.buffer = [] ∧ pending = [] :=
  List.append_eq_nil_iff.mp h.bytes

theorem Due.rest (h : Due d pending due) : due = [] ∨ ∃ f due', due = f :: due' := by
  cases due with
  | nil         => exact .inl rfl
  | cons f due' => exact .inr ⟨f, due', rfl⟩

-- One byte is kept, or it completes the first frame that is due.
theorem Due.feedByte (h : Due d (b :: pending) due) :
    ((d.feedByte b).fst = none ∧ Due (d.feedByte b).snd pending due) ∨
    ∃ f due', due = f :: due' ∧ (d.feedByte b).fst = some (.ok f.toHost) ∧
      Due (d.feedByte b).snd pending due' := by
  obtain rfl | ⟨f, due, rfl⟩ := h.rest
  case inl => exact absurd h.buffer_eq_nil.right (by simp)
  obtain ⟨rest, he, hp⟩ := h.packet
  have hv := h.valid f List.mem_cons_self
  have hl : (Cobs.encode (rawFrame f)).length ≤ Host.maxEncodedPacket :=
    encode_rawFrame_length_le hv
  cases rest with
  | nil =>
    obtain ⟨rfl, rfl⟩ := List.cons.inj hp
    rw [List.append_nil] at he
    have hne : d.buffer ≠ [] := he ▸ (Cobs.decodes_encode (rawFrame f)).ne_nil
    have hr : (rawFrame f).length ≤ Hmpy.maxRawFrame := by
      have := hv.payload
      simp only [rawFrame_length, Hmpy.maxRawFrame]
      omega
    have hd : decodePacket d.buffer = .ok f.toHost := by
      rw [← he, decodePacket_agrees, frameDecodePacket_encode hv hr]
      rfl
    have hf : d.feedByte 0 = (some (.ok f.toHost), { d with buffer := [], lastError := none }) := by
      simp [StreamDecoder.feedByte, h.discarding, hne, hd]
    rw [hf]
    refine .inr ⟨f, due, rfl, rfl, ?_⟩
    exact ⟨fun g hg => h.valid g (List.mem_cons_of_mem _ hg), h.discarding, by simp, rfl⟩
  | cons c rest =>
    obtain ⟨rfl, rfl⟩ := List.cons.inj hp
    have hb : b ≠ 0 := by
      rintro rfl
      exact Cobs.zero_not_mem_encode (rawFrame f) (by simp [he])
    have hlen : ¬ d.buffer.length ≥ Host.maxEncodedPacket := by
      simp only [he, List.length_append, List.length_cons] at hl
      omega
    have hf : d.feedByte b = (none, { d with buffer := d.buffer ++ [b] }) := by
      rw [StreamDecoder.feedByte, if_pos hb, h.discarding, if_neg hlen]
      simp
    rw [hf]
    refine .inl ⟨rfl, h.valid, h.discarding, ?_, ?_⟩
    case refine_1 => simpa [Ne.symm hb] using h.buffer
    case refine_2 => simpa using h.bytes

-- By induction on the bytes of one read.
theorem Due.feed (h : Due d (chunk ++ pending) due) :
    ∃ batch due', due = batch ++ due' ∧ (d.feed chunk).fst = batch.map (.ok ·.toHost) ∧
      Due (d.feed chunk).snd pending due' := by
  induction chunk generalizing d due with
  | nil          => exact ⟨[], due, rfl, rfl, h⟩
  | cons b chunk ih =>
    rw [StreamDecoder.feed]
    rcases h.feedByte with ⟨he, h'⟩ | ⟨f, due', rfl, he, h'⟩
    case inl =>
      obtain ⟨batch, due'', rfl, hb, hd⟩ := ih h'
      exact ⟨batch, due'', rfl, by simp [he, hb], hd⟩
    case inr =>
      obtain ⟨batch, due'', rfl, hb, hd⟩ := ih h'
      exact ⟨f :: batch, due'', rfl, by simp [he, hb], hd⟩

theorem Due.length_feed {batch due' : List Hmpy.Frame} {d' : StreamDecoder}
    (h : Due d (chunk ++ pending) (batch ++ due')) (h' : Due d' pending due') :
    d.buffer.length + chunk.length = (wires batch).length + d'.buffer.length := by
  have hb := congrArg List.length h.bytes
  have hb' := congrArg List.length h'.bytes
  simp only [wires_append, List.length_append] at hb hb'
  omega

theorem Due.buffer_lt (h : Due d pending (frames ++ frames')) (hne : frames ≠ []) :
    d.buffer.length < (wires frames).length := by
  cases frames with
  | nil           => exact absurd rfl hne
  | cons f frames =>
    have hlt := h.length_lt
    simp [wires] at hlt ⊢
    omega

theorem Due.append (h : Due d pending due) (hv : ∀ f ∈ frames, f.Valid) :
    Due d (pending ++ wires frames) (due ++ frames) where
  valid f hf := (List.mem_append.mp hf).elim (h.valid f) (hv f)
  discarding := h.discarding
  buffer     := h.buffer
  bytes      := by rw [← List.append_assoc, h.bytes, wires_append]

end Wires

section Frames

variable {f last : Hmpy.Frame} {frames frames' : List Hmpy.Frame} {es es' : List HmpyEvent}
variable {flag : UInt16} {id : Nat} {type : Int} {c c' c'' : Client} {completed : Bool}
variable {responses : List Frame} {rest : List StreamEvent}

@[simp]
theorem has_toHost : f.toHost.has flag = decide (f.flags &&& flag ≠ 0) := by
  simp [Frame.has, Hmpy.Frame.toHost]

-- A response to the request that is being made.
structure Responds (id : Nat) (type : Int) (f : Hmpy.Frame) : Prop where
  requestId : f.requestId.toNat = id
  type      : (f.type.toNat : Int) = type
  response  : f.toHost.has flagResponse

-- What comes before the response that ends an answer.
inductive Intermediate (id : Nat) (type : Int) (f : Hmpy.Frame) : Prop
  | event (h : f.requestId = 0)
  | response (h : Responds id type f) (hm : f.toHost.has flagMore) (he : ¬f.toHost.has flagError)

-- The response that ends an answer.
structure Final (id : Nat) (type : Int) (f : Hmpy.Frame) : Prop where
  responds : Responds id type f
  ends     : f.toHost.has flagError ∨ ¬f.toHost.has flagMore

def answer (frames : List Hmpy.Frame) : List Hmpy.Frame :=
  frames.filter (·.requestId ≠ 0)

def sentEvents (frames : List Hmpy.Frame) : List Hmpy.Frame :=
  frames.filter (·.requestId = 0)

@[simp]
theorem answer_append : answer (frames ++ frames') = answer frames ++ answer frames' :=
  List.filter_append ..

@[simp]
theorem sentEvents_append : sentEvents (frames ++ frames') = sentEvents frames ++ sentEvents frames' :=
  List.filter_append ..

def Decodable (frames : List Hmpy.Frame) : Prop :=
  ∀ f ∈ sentEvents frames, ∃ e, decodeEvent f.toHost = .ok e

-- The events among the frames, as the client decodes them.
def Decoded (frames : List Hmpy.Frame) (es : List HmpyEvent) : Prop :=
  (sentEvents frames).map (decodeEvent ·.toHost) = es.map .ok

theorem Decoded.append (h : Decoded frames es) (h' : Decoded frames' es') :
    Decoded (frames ++ frames') (es ++ es') := by
  rw [Decoded, sentEvents_append, List.map_append, h, h', List.map_append]

theorem Decodable.decoded (h : Decodable frames) : ∃ es, Decoded frames es := by
  induction frames with
  | nil            => exact ⟨[], rfl⟩
  | cons f rest ih =>
    have hs : sentEvents (f :: rest) = sentEvents [f] ++ sentEvents rest :=
      List.filter_append [f] rest
    rw [Decodable, hs] at h
    obtain ⟨es, hes⟩ := ih fun g hg => h g (List.mem_append_right _ hg)
    by_cases hf : f.requestId = 0
    case pos =>
      obtain ⟨e, he⟩ := h f (List.mem_append_left _ (by simp [sentEvents, hf]))
      have h₁ : Decoded [f] [e] := by simp [Decoded, sentEvents, hf, he]
      exact ⟨e :: es, h₁.append hes⟩
    case neg =>
      have h₁ : Decoded [f] [] := by simp [Decoded, sentEvents, hf]
      exact ⟨es, h₁.append hes⟩

theorem Decodable.left (h : Decodable (frames ++ frames')) : Decodable frames :=
  fun f hf => h f (by simp [hf])

theorem Decodable.right (h : Decodable (frames ++ frames')) : Decodable frames' :=
  fun f hf => h f (by simp [hf])

theorem Decodable.append (h : Decodable frames) (h' : Decodable frames') :
    Decodable (frames ++ frames') := by
  intro f hf
  rw [sentEvents_append, List.mem_append] at hf
  exact hf.elim (h f) (h' f)

-- The events have been recorded and handled, and nothing else has happened to the client.
structure Emitted (c : Client) (es : List HmpyEvent) (c' : Client) : Prop where
  active    : c'.active = c.active
  events    : c'.events = c.events ++ es
  handled   : c'.handled = c.handled ++ es

theorem Emitted.refl : Emitted c [] c :=
  ⟨rfl, by simp, by simp⟩

theorem Emitted.trans (h : Emitted c es c') (h' : Emitted c' es' c'') : Emitted c (es ++ es') c'' where
  active  := h'.active.trans h.active
  events  := by rw [h'.events, h.events, List.append_assoc]
  handled := by rw [h'.handled, h.handled, List.append_assoc]

theorem Responds.toHost (h : Responds id type f) (hid : id ≠ 0) :
    f.toHost.requestId ≠ 0 ∧ ¬(f.toHost.requestId ≠ id ∨ f.toHost.type ≠ type) ∧
      f.requestId ≠ 0 := by
  have hr := h.requestId
  refine ⟨?_, ?_, ?_⟩
  · simp only [Hmpy.Frame.toHost, hr]
    omega
  · simp [Hmpy.Frame.toHost, hr, h.type]
  · rintro h₀
    simp [h₀] at hr
    exact hid hr.symm

theorem event_toHost (h : f.requestId = 0) : f.toHost.requestId = 0 := by
  simp [Hmpy.Frame.toHost, h]

-- By induction on the frames: neither an event nor an intermediate response ends the loop.
theorem requestBatch_intermediate (c : Client) (responses : List Frame) (completed : Bool)
    (rest : List StreamEvent) (hid : id ≠ 0)
    (hf : ∀ f ∈ frames, Intermediate id type f) (hd : Decoded frames es) :
    ∃ c', Emitted c es c' ∧ c'.decoder = c.decoder ∧
      c.requestBatch id type responses completed (frames.map (.ok ·.toHost) ++ rest) =
        c'.requestBatch id type (responses ++ (answer frames).map (·.toHost)) completed rest := by
  induction frames generalizing c es responses with
  | nil =>
    obtain rfl : es = [] := by simpa [Decoded, sentEvents] using hd
    exact ⟨c, .refl, rfl, by simp [answer]⟩
  | cons f frames ih =>
    rw [List.forall_mem_cons] at hf
    cases hf.left with
    | event h =>
      cases es with
      | nil       => simp [Decoded, sentEvents, h] at hd
      | cons e es =>
        simp only [Decoded, sentEvents, h, decide_true, List.filter_cons_of_pos, List.map_cons,
          List.cons.injEq] at hd
        let c₁ : Client := { c with events := c.events ++ [e], handled := c.handled ++ [e] }
        have h₁ : Emitted c [e] c₁ := ⟨rfl, rfl, rfl⟩
        obtain ⟨c', he, hc, hb⟩ := ih c₁ responses hf.right hd.right
        refine ⟨c', h₁.trans he, hc, ?_⟩
        rw [List.map_cons, List.cons_append, Client.requestBatch, if_pos (event_toHost h),
          Client.emitEvent, hd.left]
        simpa [answer, h] using hb
    | response h hm he =>
      obtain ⟨hz, hr, hn⟩ := h.toHost hid
      have hd' : Decoded frames es := by simpa [Decoded, sentEvents, hn] using hd
      obtain ⟨c', he', hc, hb⟩ := ih c (responses ++ [f.toHost]) hf.right hd'
      refine ⟨c', he', hc, ?_⟩
      have hresp : ¬(!f.toHost.has flagResponse) = true := by simp [h.response]
      rw [List.map_cons, List.cons_append, Client.requestBatch, if_neg hz, if_neg hr,
        if_neg hresp, if_neg he, hm, Bool.not_true, Bool.or_false, hb]
      simp [answer, hn]

theorem requestBatch_final (hid : id ≠ 0) (h : Final id type last) :
    c.requestBatch id type responses completed (.ok last.toHost :: rest) =
      if last.toHost.has flagError then (.error (remoteError last.toHost), c)
      else c.requestBatch id type (responses ++ [last.toHost]) true rest := by
  obtain ⟨hz, hr, -⟩ := h.responds.toHost hid
  have hresp : ¬(!last.toHost.has flagResponse) = true := by simp [h.responds.response]
  rw [Client.requestBatch, if_neg hz, if_neg hr, if_neg hresp]
  split
  case isTrue     => rfl
  case isFalse he =>
    have hm : last.toHost.has flagMore = false := by simpa using h.ends.resolve_left he
    rw [hm, Bool.not_false, Bool.or_true]

-- What the request is to return or raise.
def outcome (responses : List Frame) (last : Hmpy.Frame) : Except ClientError (List Frame) :=
  if last.toHost.has flagError then .error (remoteError last.toHost)
  else .ok (responses ++ [last.toHost])

theorem Emitted.of_decoder {d : StreamDecoder} (h : Emitted { c with decoder := d } es c') :
    Emitted c es c' :=
  ⟨h.active, h.events, h.handled⟩

-- The read that completes the answer.
theorem requestLoop_completes {data : List UInt8} {front seen : List Hmpy.Frame}
    {reads : List (List UInt8)} {result : Except ClientError (List Frame)} {d : StreamDecoder}
    (hid : id ≠ 0) (hdata : data ≠ [])
    (hfeed : c.decoder.feed data = ((front ++ last :: seen).map (.ok ·.toHost), d))
    (hf : ∀ f ∈ front, Intermediate id type f) (hl : Final id type last)
    (ha : ∀ f ∈ seen, f.requestId = 0) (hd : Decodable (front ++ last :: seen))
    (hn : last.toHost.has flagError → seen = [])
    (run : c.requestLoop id type responses (data :: reads) = (result, c', [])) :
    ∃ es, Decoded (front ++ last :: seen) es ∧ Emitted c es c' ∧ c'.decoder = d ∧ reads = [] ∧
      result = outcome (responses ++ (answer front).map (·.toHost)) last := by
  have hsplit : front ++ last :: seen = front ++ ([last] ++ seen) := rfl
  have hlast : Decoded [last] [] := by
    obtain ⟨-, -, hn⟩ := hl.responds.toHost hid
    simp [Decoded, sentEvents, hn]
  obtain ⟨es, hes⟩ := hd.left.decoded
  obtain ⟨es', hes'⟩ := (hsplit ▸ hd).right.right.decoded
  obtain ⟨c₁, he₁, hc₁, hb₁⟩ := requestBatch_intermediate { c with decoder := d } responses
    false (.ok last.toHost :: seen.map (.ok ·.toHost)) hid hf hes
  rw [Client.requestLoop, if_neg hdata, hfeed] at run
  simp only [List.map_append, List.map_cons, hb₁, requestBatch_final hid hl] at run
  by_cases he : last.toHost.has flagError
  case pos =>
    obtain rfl := hn he
    simp only [if_pos he] at run
    cases run
    have hdec := hes.append hlast
    rw [List.append_nil] at hdec
    exact ⟨es, hdec, he₁.of_decoder, hc₁, rfl, by rw [outcome, if_pos he]⟩
  case neg =>
    have hi : ∀ f ∈ seen, Intermediate id type f := fun f hf => .event (ha f hf)
    have hnil : answer seen = [] := by simpa [answer] using ha
    obtain ⟨c₂, he₂, hc₂, hb₂⟩ := requestBatch_intermediate c₁
      (responses ++ (answer front).map (·.toHost) ++ [last.toHost]) true [] hid hi hes'
    rw [List.append_nil] at hb₂
    simp only [if_neg he, hb₂, Client.requestBatch, if_true] at run
    cases run
    refine ⟨es ++ es', hes.append (hlast.append hes'), (he₁.trans he₂).of_decoder,
      hc₂.trans hc₁, rfl, ?_⟩
    rw [outcome, if_neg he, hnil, List.map_nil, List.append_nil]

-- By induction on the reads: as long as the answer has not ended, it is collected.
theorem requestLoop_spec {front after : List Hmpy.Frame} {pending : List UInt8}
    {reads : List (List UInt8)} {result : Except ClientError (List Frame)} (hid : id ≠ 0)
    (hdue : Due c.decoder (reads.flatten ++ pending) (front ++ last :: after))
    (hf : ∀ f ∈ front, Intermediate id type f) (hl : Final id type last)
    (ha : ∀ f ∈ after, f.requestId = 0) (hd : Decodable (front ++ last :: after))
    (hr : (wires (front ++ [last])).length ≤ c.decoder.buffer.length + reads.flatten.length)
    (hn : last.toHost.has flagError → ∀ next ∈ after.head?,
      c.decoder.buffer.length + reads.flatten.length < (wires (front ++ [last, next])).length)
    (run : c.requestLoop id type responses reads = (result, c', [])) :
    ∃ es seen due, after = seen ++ due ∧ Decoded (front ++ last :: seen) es ∧ Emitted c es c' ∧
      Due c'.decoder pending due ∧
      result = outcome (responses ++ (answer front).map (·.toHost)) last := by
  induction reads generalizing c front responses with
  | nil =>
    have hdue : Due c.decoder pending (front ++ [last] ++ after) := by simpa using hdue
    have hlt := hdue.buffer_lt (by simp)
    rw [List.flatten_nil, List.length_nil, Nat.add_zero] at hr
    omega
  | cons data reads ih =>
    by_cases hdata : data = []
    case pos =>
      subst hdata
      rw [Client.requestLoop, if_pos rfl] at run
      exact ih hdue hf hd hr hn run
    case neg =>
      rw [List.flatten_cons, List.append_assoc] at hdue
      obtain ⟨batch, due, hb, hfeed, hdue'⟩ := hdue.feed
      have hlen := Due.length_feed (hb ▸ hdue) hdue'
      -- The answer goes on after this read.
      have goesOn (later : List Hmpy.Frame) (hfront : front = batch ++ later)
          (hlater : due = later ++ last :: after) :
          ∃ es seen due, after = seen ++ due ∧ Decoded (front ++ last :: seen) es ∧
            Emitted c es c' ∧ Due c'.decoder pending due ∧
            result = outcome (responses ++ (answer front).map (·.toHost)) last := by
        subst hfront hlater
        rw [List.append_assoc] at hd
        obtain ⟨es, hes⟩ := hd.left.decoded
        obtain ⟨c₁, he₁, hc₁, hb₁⟩ := requestBatch_intermediate
          { c with decoder := (c.decoder.feed data).snd } responses false [] hid
          (fun f hf' => hf f (List.mem_append_left _ hf')) hes
        have hbuf : c₁.decoder.buffer = (c.decoder.feed data).snd.buffer := by rw [hc₁]
        rw [Client.requestLoop, if_neg hdata] at run
        simp only [hfeed, List.append_nil] at hb₁ run
        rw [hb₁] at run
        simp only [List.flatten_cons, List.length_append, List.append_assoc, wires_append] at hr hn
        obtain ⟨es', seen, due, rfl, hdec, hem, hdue', rfl⟩ := ih (hc₁ ▸ hdue')
          (fun f hf' => hf f (List.mem_append_right _ hf')) hd.right
          (by rw [hbuf, wires_append, List.length_append]; omega)
          (fun he next hnext => by
            have := hn he next hnext
            rw [hbuf, wires_append, List.length_append]
            omega) run
        refine ⟨es ++ es', seen, due, rfl, ?_, he₁.of_decoder.trans hem, hdue', ?_⟩
        case refine_1 => simpa using hes.append hdec
        case refine_2 => simp
      rcases List.append_eq_append_iff.mp hb with ⟨seen, hbatch, hrest⟩ | ⟨later, hfront, hlater⟩
      case inr => exact goesOn later hfront hlater
      case inl =>
        cases seen with
        | nil            => exact goesOn [] (by simpa using hbatch.symm) hrest.symm
        | cons _ seen =>
          rw [List.cons_append] at hrest
          obtain ⟨rfl, rfl⟩ := List.cons.inj hrest
          subst hbatch
          have hevents (f) (hf' : f ∈ seen) : f.requestId = 0 :=
            ha f (List.mem_append_left _ hf')
          have hd' : Decodable (front ++ last :: seen) := by
            rw [← List.cons_append, ← List.append_assoc] at hd
            exact hd.left
          have halone (he : last.toHost.has flagError) : seen = [] := by
            cases seen with
            | nil            => rfl
            | cons next seen =>
              have := hn he next (by simp)
              simp [wires] at this hlen
              omega
          obtain ⟨es, hdec, hem, hdec', rfl, rfl⟩ := requestLoop_completes hid hdata
            (Prod.ext hfeed rfl) hf hl hevents hd' halone run
          refine ⟨es, seen, due, rfl, hdec, hem, ?_, rfl⟩
          rw [hdec']
          exact hdue'

theorem pollBatch_events (c : Client) (hf : ∀ f ∈ frames, f.requestId = 0) (hd : Decoded frames es) :
    ∃ c', Emitted c es c' ∧ c'.decoder = c.decoder ∧
      c.pollBatch (frames.map (.ok ·.toHost)) = (.ok (), c') := by
  induction frames generalizing c es with
  | nil =>
    obtain rfl : es = [] := by simpa [Decoded, sentEvents] using hd
    exact ⟨c, .refl, rfl, rfl⟩
  | cons f frames ih =>
    obtain ⟨h, hf⟩ := List.forall_mem_cons.mp hf
    cases es with
    | nil       => simp [Decoded, sentEvents, h] at hd
    | cons e es =>
      simp only [Decoded, sentEvents, h, decide_true, List.filter_cons_of_pos, List.map_cons,
        List.cons.injEq] at hd
      let c₁ : Client := { c with events := c.events ++ [e], handled := c.handled ++ [e] }
      have h₁ : Emitted c [e] c₁ := ⟨rfl, rfl, rfl⟩
      obtain ⟨c', he, hc, hb⟩ := ih c₁ hf hd.right
      refine ⟨c', h₁.trans he, hc, ?_⟩
      rw [List.map_cons, Client.pollBatch, if_neg (not_not_intro (event_toHost h)),
        Client.emitEvent, hd.left]
      exact hb

-- By induction on the reads.
theorem pollLoop_spec {waits : Bool} {due : List Hmpy.Frame} {pending : List UInt8}
    {reads : List (List UInt8)} {result : Except ClientError Unit}
    (hdue : Due c.decoder (reads.flatten ++ pending) due) (hf : ∀ f ∈ due, f.requestId = 0)
    (hd : Decodable due) (run : c.pollLoop waits reads = (result, c', [])) :
    ∃ es seen due', due = seen ++ due' ∧ Decoded seen es ∧ Emitted c es c' ∧
      Due c'.decoder pending due' := by
  induction reads generalizing c due with
  | nil =>
    cases run
    exact ⟨[], [], due, rfl, rfl, .refl, hdue⟩
  | cons data reads ih =>
    by_cases hdata : data = []
    case pos =>
      subst hdata
      rw [Client.pollLoop, if_pos rfl] at run
      split at run
      case isTrue =>
        cases run
        exact ⟨[], [], due, rfl, rfl, .refl, hdue⟩
      case isFalse => exact ih hdue hf hd run
    case neg =>
      rw [List.flatten_cons, List.append_assoc] at hdue
      obtain ⟨batch, due, rfl, hfeed, hdue'⟩ := hdue.feed
      obtain ⟨es, hes⟩ := hd.left.decoded
      obtain ⟨c₁, he₁, hc₁, hb₁⟩ := pollBatch_events
        { c with decoder := (c.decoder.feed data).snd }
        (fun f hf' => hf f (List.mem_append_left _ hf')) hes
      rw [Client.pollLoop, if_neg hdata] at run
      simp only [hfeed, hb₁] at run
      obtain ⟨es', seen, due', rfl, hdec, hem, hdue''⟩ := ih (hc₁ ▸ hdue')
        (fun f hf' => hf f (List.mem_append_right _ hf')) hd.right run
      exact ⟨es ++ es', batch ++ seen, due', by simp, hes.append hdec,
        he₁.of_decoder.trans hem, hdue''⟩

end Frames
end Host
