import MuduoCpp.InputStream

/-!
# `example/testserver.cc`: a server that answers

The message callback of the `EchoServer` takes the whole input with `retrieveAllAsString` and sends
a few strings in return, on the loop's thread.  A `Responder` is a connection of such a server, for
any function from messages to the strings that are sent in return.

* `Session.Sends`: what a sequence of `send`s does;
* `Responder.answered`: what goes out is the answers to what came in.
-/

namespace Muduo

namespace Session

variable {τ β : Type} [Inhabited β] [DecidableEq τ] {s t : Session τ β}

/-! ### Several `send`s -/

/-- What a sequence of `send`s does, and what it keeps. -/
structure Sends (s t : Session τ β) (datas : List (List β)) : Prop where
  quiet : s.Quiet → t.Quiet
  ran : s.Ran → t.Ran
  state : t.conn.state_ = s.conn.state_
  input : t.conn.inputBuffer_ = s.conn.inputBuffer_
  log : ∃ es, t.log = s.log ++ es
  stream : s.conn.state_ = .kConnected → (∀ x ∈ t.log, x.isFault = false) →
    stream t.given = stream s.given ++ datas.flatten

theorem sends_run {datas : List (List β)} {ws : List WriteResult} (hlen : ws.length = datas.length)
    (h : Lts.exec step s (List.zipWith .send datas ws) = some t) : s.Sends t datas := by
  induction datas generalizing s ws with
  | nil =>
    cases h
    exact ⟨id, id, rfl, rfl, ⟨[], (List.append_nil _).symm⟩, fun _ _ => (List.append_nil _).symm⟩
  | cons data datas ih =>
    obtain ⟨w, ws, rfl⟩ := List.exists_cons_of_ne_nil (List.ne_nil_of_length_eq_add_one hlen)
    obtain ⟨u, hu, hut⟩ := Lts.exec_cons_iff.1 h
    obtain rfl : s.after (.send data w) = u := (Lts.guarded_eq_some.1 hu).2
    have hrest := ih (Nat.succ.inj hlen) hut
    obtain ⟨es, hes⟩ := s.log_after (.send data w)
    obtain ⟨fs, hfs⟩ := hrest.log
    have hkept := input_kept (s := s) (l := .send data w) (fun r hr => by cases hr)
      fun len hlen => by cases hlen
    refine ⟨fun hq => hrest.quiet (quiet_send hq), fun hr => hrest.ran (ran_after hr _),
      hrest.state.trans state_send, hrest.input.trans hkept,
      ⟨es ++ fs, by rw [hfs, hes, List.append_assoc]⟩, fun hs hok => ?_⟩
    have hfirst : stream (s.after (.send data w)).given = stream s.given ++ data :=
      stream_send hs fun x hx => hok x (by rw [hfs]; exact List.mem_append_left _ hx)
    rw [hrest.stream (state_send.trans hs) hok, hfirst, List.flatten_cons, List.append_assoc]

end Session

/-! ### A server that answers -/

/-- A connection of the server, with what it has read and the messages that its callback has
taken. -/
structure Responder (β : Type) where
  session : Session Empty β
  received : List β
  messages : List (List β)

namespace Responder

variable {β : Type} [Inhabited β]

/-- A step of the loop, or a read with the message callback. -/
inductive Label (β : Type)
  | loop (l : Session.Label Empty β)
  /-- `handleRead` with the message callback, whose direct writes have the results `ws`. -/
  | readCallback (r : ReadResult β) (ws : List WriteResult)
  deriving Repr

/-- A newly made connection. -/
def init (sockfd : ℤ) (writeComplete highWater : Bool) (mark : ℕ) : Responder β where
  session := .init sockfd writeComplete highWater mark
  received := []
  messages := []

/-- The message callback: `msg = buf->retrieveAllAsString()`, then `send` of each part of the
answer. -/
def onMessage (respond : List β → List (List β)) (s : Session Empty β) (ws : List WriteResult) :
    Option (Session Empty β) :=
  let msg := s.conn.inputBuffer_.content
  if ws.length = (respond msg).length then
    Lts.exec Session.step s
      (.retrieve s.conn.inputBuffer_.readableBytes :: List.zipWith .send (respond msg) ws)
  else none

/-- One step. -/
def step (respond : List β → List (List β)) (e : Responder β) : Label β → Option (Responder β)
  | .loop l =>
      if l.isLoop then (e.session.step l).map fun s => { e with session := s } else none
  | .readCallback r ws =>
      (e.session.step (.readCallback r)).bind fun s =>
        if r.bytes = [] then some { e with session := s }
        else (onMessage respond s ws).map fun t =>
          ⟨t, e.received ++ r.bytes, e.messages ++ [s.conn.inputBuffer_.content]⟩

variable {respond : List β → List (List β)} {e e' : Responder β}

/-- The answers to the messages. -/
def answers (respond : List β → List (List β)) (messages : List (List β)) : List β :=
  messages.flatMap fun msg => (respond msg).flatten

omit [Inhabited β] in
theorem answers_append (ms : List (List β)) (msg : List β) :
    answers respond (ms ++ [msg]) = answers respond ms ++ (respond msg).flatten := by
  rw [answers, List.flatMap_append, List.flatMap_singleton, answers]

/-- What has come in was taken as messages, and the answers to these were put on the stream. -/
structure Answers (respond : List β → List (List β)) (e : Responder β) : Prop where
  established : e.session.Fresh ∨ e.session.Ran
  quiet : e.session.Quiet
  taken : e.messages.flatten = e.received
  input : e.session.conn.inputBuffer_.content = []
  up : e.session.Opened → (∀ x ∈ e.session.log, x.isFault = false) →
    stream e.session.given = answers respond e.messages

theorem answers_init (sockfd : ℤ) (writeComplete highWater : Bool) (mark : ℕ) :
    (init sockfd writeComplete highWater mark : Responder β).Answers respond where
  established := Or.inl (Session.fresh_init _ _ _ _)
  quiet := by simp [Session.Quiet, init, Session.init, Task.isSend, Task.isFile]
  taken := rfl
  input := by simp [init, Session.init, TcpConnection.init]
  up := fun _ _ => rfl

theorem answers_loop {l : Session.Label Empty β} (h : e.Answers respond) (hl : l.isLoop = true)
    (hen : e.session.enabled l) :
    ({ e with session := e.session.after l } : Responder β).Answers respond := by
  obtain ⟨hquiet, hgiven, hinput⟩ := Session.quiet_loop h.quiet hl hen
  refine ⟨Session.established_after h.established hen, hquiet, h.taken,
    (congrArg OkBuffer.content hinput).trans h.input, fun hu hok => ?_⟩
  obtain ⟨hopened, hfault⟩ := Session.up_of_after h.established (Or.inl hl) hen hu hok
  exact (congrArg stream hgiven).trans (h.up hopened hfault)

/-- A read that delivers nothing: an error, or the end of the input. -/
theorem answers_nothing {r : ReadResult β} (h : e.Answers respond) (hr : r.bytes = [])
    (hen : e.session.enabled (.readCallback r)) :
    ({ e with session := e.session.after (.readCallback r) } : Responder β).Answers respond := by
  refine ⟨Session.established_after h.established hen, Echo.quiet_read h.quiet r, h.taken, ?_,
    fun hu hok => ?_⟩
  · refine (TcpConnection.content_handleRead _ _).trans ?_
    rw [h.input, hr, List.append_nil]
  · obtain ⟨hopened, hfault⟩ := Session.up_of_after h.established (Or.inr ⟨r, rfl⟩) hen hu hok
    exact h.up hopened hfault

theorem answers_message {r : ReadResult β} {ws : List WriteResult} {t : Session Empty β}
    (h : e.Answers respond) (hen : e.session.enabled (.readCallback r))
    (ht : onMessage respond (e.session.after (.readCallback r)) ws = some t) :
    (⟨t, e.received ++ r.bytes,
      e.messages ++ [(e.session.after (.readCallback r)).conn.inputBuffer_.content]⟩ :
        Responder β).Answers respond := by
  have hmsg : (e.session.after (.readCallback r)).conn.inputBuffer_.content = r.bytes := by
    refine (TcpConnection.content_handleRead _ _).trans ?_
    rw [h.input, List.nil_append]
  have hran := Session.ran_readCallback h.established hen
  have hquiet := Echo.quiet_read h.quiet r
  have hgiven : (e.session.after (.readCallback r)).given = e.session.given := rfl
  have hbefore := Session.up_of_after h.established (Or.inr ⟨r, rfl⟩) hen
  generalize e.session.after (.readCallback r) = s at *
  simp only [onMessage, Option.ite_none_right_eq_some] at ht
  obtain ⟨hlen, hexec⟩ := ht
  obtain ⟨u, hu, hut⟩ := Lts.exec_cons_iff.1 hexec
  obtain rfl : s.after (.retrieve _) = u := (Lts.guarded_eq_some.1 hu).2
  have hsends := Session.sends_run hlen hut
  have hinput : t.conn.inputBuffer_.content = [] := by
    rw [hsends.input]
    show (s.conn.inputBuffer_.retrieve s.conn.inputBuffer_.readableBytes).content = []
    rw [OkBuffer.content_retrieve, OkBuffer.readableBytes_eq, List.drop_length]
  refine ⟨Or.inr (hsends.ran hran), hsends.quiet hquiet, ?_, hinput, fun hup hok => ?_⟩
  · rw [List.flatten_append, List.flatten_singleton, h.taken, hmsg]
  · have hs : s.conn.state_ = .kConnected := by
      rw [← (hup.resolve_left (Session.not_fresh_of_ran (hsends.ran hran)))]
      exact hsends.state.symm
    obtain ⟨es, hlog⟩ := hsends.log
    obtain ⟨hopened, hfault⟩ := hbefore (Or.inr hs) fun x hx => hok x (by
      rw [hlog]
      exact List.mem_append_left _ hx)
    rw [hsends.stream hs hok, answers_append, ← h.up hopened hfault]
    exact congrArg (fun l => stream l ++ _) hgiven

theorem answers_step {l : Label β} (h : e.Answers respond) (hst : step respond e l = some e') :
    e'.Answers respond := by
  cases l with
  | loop l =>
    simp only [step, Option.ite_none_right_eq_some, Option.map_eq_some_iff] at hst
    obtain ⟨hl, s, hs, rfl⟩ := hst
    obtain ⟨hen, rfl⟩ := Lts.guarded_eq_some.1 hs
    exact answers_loop h hl hen
  | readCallback r ws =>
    obtain ⟨s, hs, hst⟩ := Option.bind_eq_some_iff.1 hst
    obtain ⟨hen, rfl⟩ := Lts.guarded_eq_some.1 hs
    split_ifs at hst with hr
    · cases hst
      exact answers_nothing h hr hen
    · obtain ⟨t, ht, rfl⟩ := Option.map_eq_some_iff.1 hst
      exact answers_message h hen ht

/-- A step of the server is made of steps of its connection. -/
theorem session_step {l : Label β} (hst : step respond e l = some e') :
    ∃ ls, Lts.exec Session.step e.session ls = some e'.session := by
  cases l with
  | loop l =>
    simp only [step, Option.ite_none_right_eq_some, Option.map_eq_some_iff] at hst
    obtain ⟨hl, s, hs, rfl⟩ := hst
    exact ⟨[l], Lts.exec_cons_iff.2 ⟨s, hs, rfl⟩⟩
  | readCallback r ws =>
    obtain ⟨s, hs, hst⟩ := Option.bind_eq_some_iff.1 hst
    split_ifs at hst with hr
    · cases hst
      exact ⟨[.readCallback r], Lts.exec_cons_iff.2 ⟨s, hs, rfl⟩⟩
    · obtain ⟨t, ht, rfl⟩ := Option.map_eq_some_iff.1 hst
      simp only [onMessage, Option.ite_none_right_eq_some] at ht
      exact ⟨_ :: _, Lts.exec_cons_iff.2 ⟨s, hs, ht.2⟩⟩

/-- **Each message is answered.**  The messages are what was read, in order, and nothing of it is
left in `inputBuffer_`; and while the connection is up and no write has failed with `EPIPE` or
`ECONNRESET`, what the kernel has taken and what is left in `outputBuffer_` is the answers to them,
in order. -/
theorem answered {sockfd : ℤ} {writeComplete highWater : Bool} {mark : ℕ} {ls : List (Label β)}
    (h : Lts.exec (step respond) (init sockfd writeComplete highWater mark) ls = some e) :
    e.messages.flatten = e.received ∧ e.session.conn.inputBuffer_.readableBytes = 0 ∧
      (e.session.conn.state_ = .kConnected → (∀ x ∈ e.session.log, x.isFault = false) →
        wire e.session.log ++ e.session.conn.outputBuffer_.content =
          e.messages.flatMap fun msg => (respond msg).flatten) := by
  have hanswers := Lts.exec_inv' (I := Answers respond) (fun _ _ _ he hst => answers_step he hst)
    (answers_init _ _ _ _) h
  obtain ⟨ms, hms⟩ := Lts.exec_simulates (f := session) (fun _ _ _ hst => session_step hst) h
  have hstream := Lts.guarded_inv' (I := Session.Streams)
    (fun s l hs _ => Session.streams_after hs l) (Session.streams_init _ _ _ _) hms
  refine ⟨hanswers.taken, ?_, fun hs hok => hstream.trans (hanswers.up (Or.inr hs) hok)⟩
  rw [OkBuffer.readableBytes_eq, hanswers.input, List.length_nil]

end Responder

/-! ### `example/testserver.cc` -/

namespace EchoServer

/-- The text of a string literal. -/
def bytes (s : List Char) : List UInt8 := s.map fun c => c.toNat.toUInt8

/-- The four `send`s of `onMessage`. -/
def onMessage (msg : List UInt8) : List (List UInt8) :=
  [bytes ['t', 'e', 's', 't', '\n'], msg, msg, bytes ['h', 'e', 'l', 'l', 'o']]

end EchoServer

/-- Two messages; the kernel takes a part of the first answer only. -/
private def answeredRun : List (Responder.Label UInt8) :=
  [.loop (.task (.sent 0)), .loop (.poll EPOLLIN), .loop .handleEvent,
    .readCallback (.data [65]) [.sent 5, .sent 0, .sent 0, .sent 0], .loop (.poll EPOLLIN),
    .loop .handleEvent, .readCallback (.data [66, 67]) [.sent 0, .sent 0, .sent 0, .sent 0],
    .loop (.poll EPOLLOUT), .loop .handleEvent, .loop (.writeCallback (.sent 8))]

theorem Responder.answered_echo : ∃ e : Responder UInt8,
    e.messages = [[65], [66, 67]] ∧ e.messages.flatten = e.received ∧
      wire e.session.log ++ e.session.conn.outputBuffer_.content =
        e.messages.flatMap fun msg => (EchoServer.onMessage msg).flatten := by
  have hrun : (Lts.exec (step EchoServer.onMessage) (init 5 false false 100) answeredRun).any
      (fun e => e.messages = [[65], [66, 67]] ∧ e.session.conn.state_ = .kConnected ∧
        ∀ x ∈ e.session.log, x.isFault = false) = true := by
    decide +kernel
  obtain ⟨e, he, hp⟩ := Lts.exec_of_any hrun
  obtain ⟨hmessages, hs, hok⟩ := of_decide_eq_true hp
  obtain ⟨htaken, -, hout⟩ := answered he
  exact ⟨e, hmessages, htaken, hout hs hok⟩

end Muduo
