import RootShell.LoopProgress

/-!
Framing stays in step: on a connection whose client and upstream send well-formed
messages, the loop parses their heads and consumes their bodies, one after the
other, as long as the rules leave the framing of each head alone. It leaves a turn
early only where a write fails or the turn itself gives it a reason.
-/
namespace FramingInStep
open ByteLines ByteText BufferedReader HeadReading HeaderLists FallibleState BodyFraming MessageRewrites
open BufferedForward ConnectionLoop ChunkedCopies LoopProgress

variable {body method rest left payload raw s b fromClient fromUp : Bytes} {sound unfailing P Q : Prop}

theorem consumed_within {before after : BufReader}
    (start : before.stream = body ++ rest) (stop : after.stream = left ++ rest) :
    consumed before after <+: body ∧ (left = [] → consumed before after = body) := by
  have short : before.stream.length - after.stream.length ≤ body.length := by
    simp only [start, stop, List.length_append]
    omega
  refine ⟨?_, ?_⟩
  · rw [consumed, start, List.take_append_of_le_length (start ▸ short)]
    exact List.take_prefix _ _
  · rintro rfl
    have : before.stream.length - after.stream.length = body.length := by
      simp [start, stop]
    rw [consumed, this, start, List.take_left]

/-- A request as a client sends it: line ends to skip, a head that parses, and the one body
    its head delimits. -/
structure Request (u : CaseTables) where
  lead : List Bytes
  skipped : ∀ l ∈ lead, Blank l
  head : HeadLines
  req : ReqHead
  parsed : parseRequestHead head.bytes = .ok req
  framing : Framing
  framed : requestFraming u req = .ok framing
  body : Bytes
  payload : Bytes
  delimited : Framed framing body payload

def Request.bytes {u : CaseTables} (q : Request u) : Bytes := q.lead.flatten ++ q.head.bytes ++ q.body

def InterimStatus (status : Nat) : Prop := 100 ≤ status ∧ status < 200 ∧ status ≠ 101

instance (status : Nat) : Decidable (InterimStatus status) := inferInstanceAs (Decidable (_ ∧ _ ∧ _))

structure Interim where
  lead : List Bytes
  skipped : ∀ l ∈ lead, Blank l
  head : HeadLines
  res : ResHead
  parsed : parseResponseHead head.bytes = .ok res
  interim : InterimStatus res.status

def Interim.bytes (i : Interim) : Bytes := i.lead.flatten ++ i.head.bytes

structure Response (u : CaseTables) (method : Bytes) where
  interim : List Interim
  lead : List Bytes
  skipped : ∀ l ∈ lead, Blank l
  head : HeadLines
  res : ResHead
  parsed : parseResponseHead head.bytes = .ok res
  final : ¬ InterimStatus res.status
  framing : Framing
  framed : responseFraming u method res = .ok framing
  body : Bytes
  payload : Bytes
  delimited : Framed framing body payload

def Response.bytes {u : CaseTables} {method : Bytes} (r : Response u method) : Bytes :=
  r.interim.flatMap Interim.bytes ++ (r.lead.flatten ++ r.head.bytes ++ r.body)

structure Turn (u : CaseTables) where
  request : Request u
  response : Option (Response u request.req.method)

section Scripts
variable {u : CaseTables}

def Turn.answer (t : Turn u) : Bytes := (t.response.map Response.bytes).getD []

def clientStream (ts : List (Turn u)) : Bytes := ts.flatMap fun t => t.request.bytes

def upStream (ts : List (Turn u)) : Bytes := ts.flatMap Turn.answer

/-- Nothing follows a missing response or one that runs until the upstream closes. -/
def Closing : List (Turn u) → Prop
  | [] => True
  | t :: ts => ((∀ r, t.response = some r → r.framing = .untilClose) → upStream ts = []) ∧ Closing ts

end Scripts

section Parts
variable {u : CaseTables}

structure Holds (r : BufReader) (s : Bytes) : Prop where
  valid : r.WellFormed
  size : r.size = h1BufferSize
  stream : r.stream = s

structure RequestPart (x : Exchange) (q : Request u) : Prop where
  head : x.rawHead = q.head.bytes
  body : x.body <+: q.body
  copied : x.ended = some none → x.body = q.body

structure ResponsePart (x : Exchange) (r : Response u method) : Prop where
  interim : x.interim <+: r.interim.map fun i => i.head.bytes
  head : x.resHead = none ∨ x.resHead = some r.head.bytes
  body : x.resBody <+: r.body
  copied : x.resEnded = some none → x.resBody = r.body

structure HeadsWhole (x : Exchange) (r : Response u method) : Prop where
  interim : x.interim = r.interim.map fun i => i.head.bytes
  head : x.resHead = some r.head.bytes

structure ResponseWhole (x : Exchange) (r : Response u method) : Prop extends HeadsWhole x r where
  body : x.resBody = r.body

structure Unanswered (x : Exchange) : Prop where
  interim : x.interim = []
  head : x.resHead = none
  body : x.resBody = []
  ended : x.resEnded = none

def AnswerPart (x : Exchange) : Option (Response u method) → Prop
  | some r => ResponsePart x r
  | none => Unanswered x

structure Partly (x : Exchange) (t : Turn u) : Prop where
  request : RequestPart x t.request
  response : AnswerPart x t.response

structure Wholly (x : Exchange) (t : Turn u) : Prop where
  head : x.rawHead = t.request.head.bytes
  body : x.body = t.request.body
  response : ∃ r, t.response = some r ∧ ResponseWhole x r

structure Relayed (x : Exchange) (t : Turn u) : Prop where
  head : x.rawHead = t.request.head.bytes
  body : x.body = t.request.body
  response : ∃ r, t.response = some r ∧ HeadsWhole x r ∧ Tunnelled t.request.req.method r.res.status

def Unbroken (head : HeadLines) : Prop := ∀ l ∈ head.lines, ¬ TailBlank h1BufferSize l

structure Whole (t : Turn u) : Prop where
  request : Unbroken t.request.head
  interim : ∀ r, t.response = some r → ∀ i ∈ r.interim, Unbroken i.head
  final : ∀ r, t.response = some r → Unbroken r.head

end Parts

section Scripted
variable (site : Site) (env : Env)

def Request.edited (q : Request site.u) : ReqHead :=
  { q.req with headers := (applyHeaderRewrites site.u (rulesFor site env .request q.req) q.req.headers).1 }

def Request.prepared (q : Request site.u) : Prepared :=
  prepareRequest site.u (rulesFor site env .request q.req) (rulesFor site env .response q.req) q.req

def Request.send (q : Request site.u) : Serve (Prepared × Option HttpError) :=
  sendRequest site env q.framing (rulesFor site env .request q.req) q.head.bytes (q.prepared site env)

def Response.edited {req : ReqHead} (r : Response site.u req.method) : ResHead :=
  { r.res with headers := (applyHeaderRewrites site.u (rulesFor site env .response req) r.res.headers).1 }

def Response.send {req : ReqHead} (r : Response site.u req.method) (bufferRes : Bool) :
    Serve (Framing × Option HttpError) :=
  sendResponse site env (rulesFor site env .response req) bufferRes req.method r.head.bytes (r.edited site env)
    ((applyHeaderRewrites site.u (rulesFor site env .response req) r.res.headers).2 ≠ [])

/-- The rules in force leave the framing of the turn's heads as it was sent, or make the
    head one that is refused. -/
structure Keeps (t : Turn site.u) : Prop where
  request : ∀ framing, requestFraming site.u (t.request.edited site env) = .ok framing → framing = t.request.framing
  response : ∀ r, t.response = some r → ∀ framing,
    responseFraming site.u t.request.req.method (r.edited site env) = .ok framing → framing = r.framing

/-- A response that can be passed on: its heads are not too long, the rules leave it one that is
    not refused, and the lines of a chunked body fit the buffer. -/
structure Answerable {req : ReqHead} (r : Response site.u req.method) : Prop where
  interim : ∀ i ∈ r.interim, i.head.bytes.length ≤ maxHeadBytes
  head : r.head.bytes.length ≤ maxHeadBytes
  framing : ∃ framing, responseFraming site.u req.method (r.edited site env) = .ok framing
  body : Fitting h1BufferSize r.framing r.body

/-- Nothing in the turn makes the loop leave it early: the request is not refused, its body is in
    time and there is an answer that can be passed on. -/
structure Smooth (t : Turn site.u) : Prop where
  request : ∃ framing, requestFraming site.u (t.request.edited site env) = .ok framing
  body : Fitting h1BufferSize t.request.framing t.request.body
  punctual : env.late = false
  response : ∃ r, t.response = some r ∧ Answerable site env r

def Goes (t : Turn site.u) : Prop :=
  ∃ r, t.response = some r ∧ ¬ (r.res.status = 101 ∨ Tunnelled t.request.req.method r.res.status) ∧
    r.framing ≠ .untilClose ∧ keepAlive site.u t.request.req.proto (t.request.edited site env).headers = true ∧
    keepAlive site.u r.res.proto (r.edited site env).headers = true

/-- A turn at which the loop returns, with its record: a head that is too long, a turn left early
    because a write failed or the turn is not smooth, a tunnel, or a whole turn that is the last. -/
inductive Ending (sound : Prop) (t : Turn site.u) : List Exchange → Prop where
  | refused (large : maxHeadBytes < t.request.head.bytes.length) : Ending sound t []
  | stopped {x : Exchange} (partly : Partly x t) (why : sound → ¬ Smooth site env t) : Ending sound t [x]
  | relayed {x : Exchange} (relayed : Relayed x t) : Ending sound t [x]
  | closed {x : Exchange} (wholly : Wholly x t) (last : ¬ Goes site env t) : Ending sound t [x]

end Scripted

/-- A record that follows the script, a round for each rule set: whole turns up to the one at
    which the loop returns. -/
inductive Follows (site : Site) (sound : Prop) : List Env → List Exchange → List (Turn site.u) → Prop where
  | ended (ts : List (Turn site.u)) : Follows site sound [] [] ts
  | drained (envs : List Env) : Follows site sound envs [] []
  | last {env : Env} {envs : List Env} {xs : List Exchange} {t : Turn site.u} {ts : List (Turn site.u)}
      (ending : Ending site env sound t xs) : Follows site sound (env :: envs) xs (t :: ts)
  | served {env : Env} {envs : List Env} {x : Exchange} {xs : List Exchange} {t : Turn site.u}
      {ts : List (Turn site.u)} (wholly : Wholly x t) (goes : Goes site env t) (rest : Follows site sound envs xs ts) :
      Follows site sound (env :: envs) (x :: xs) (t :: ts)

theorem follows_length {site : Site} {envs : List Env} {xs : List Exchange} {ts : List (Turn site.u)}
    (follows : Follows site sound envs xs ts) : xs.length ≤ ts.length := by
  induction follows with
  | ended | drained => simp
  | last ending => cases ending <;> simp
  | served _ _ _ step => simpa using step

structure Sound (site : Site) (c : Conn) : Prop where
  unfailing : Unfailing c
  attached : c.ur = none → ∃ src, site.dial = .ok src

section Steps
variable {site : Site} {env : Env} {r : Response site.u method} {t : Turn site.u} {c : Conn}
  {x : Exchange} {ur : BufReader} {framing : Framing} {rules : List CompiledRewrite} {res : ResHead}

theorem write_client_cases (p : Bytes) (c : Conn) :
    ∃ w, (writeClient p).from c = (.ok (), { c with client := w }) ∨
      (writeClient p).from c = (.error (), { c with client := w }) := by
  simp only [Prog.from, writeClient]
  rcases c.client.write p with ⟨_ | e, w⟩
  · exact ⟨w, Or.inl rfl⟩
  · exact ⟨w, Or.inr rfl⟩

theorem write_upstream_cases (p : Bytes) (c : Conn) :
    ∃ w, (writeUpstream p).from c = (.ok (), { c with up := w }) ∨
      (writeUpstream p).from c = (.error (), { c with up := w }) := by
  simp only [Prog.from, writeUpstream]
  rcases c.up.write p with ⟨_ | e, w⟩
  · exact ⟨w, Or.inl rfl⟩
  · exact ⟨w, Or.inr rfl⟩

theorem taken_within {σ A : Type} {out : Except HttpError A × (BufReader × σ)}
    (start : Holds ur (body ++ rest)) (within : Within ur.size rest out) :
    consumed ur out.2.1 <+: body ∧ (out.2.1.stream = rest → consumed ur out.2.1 = body) ∧
      (failure out.1 = none → consumed ur out.2.1 = body ∧ Holds out.2.1 rest) := by
  obtain ⟨left, stop, done⟩ := within.left
  have taken := consumed_within start.stream stop
  refine ⟨taken.1, fun reached => taken.2 ?_, fun passed => ?_⟩
  · rw [reached] at stop
    simpa using stop
  rcases out with ⟨result, next, s⟩
  cases result with
  | ok a =>
    have none := done a rfl
    exact ⟨taken.2 none, within.valid, within.size.trans start.size, by simpa [none] using stop⟩
  | error e => cases passed

structure Sent (c : Conn) (x : Exchange) (body rest : Bytes)
    (out : Except Unit (Prepared × Option HttpError)) (last : Conn) : Prop where
  past : last.past = c.past
  ur : last.ur = c.ur
  now : ∃ b ended, b <+: body ∧ last.now = some { x with body := b, ended := ended } ∧
    (ended = some none → b = body ∧ Holds last.cr rest) ∧ ∀ p, out = .ok (p, none) → ended = some none

theorem send_request_sent (site : Site) (env : Env) (now : c.now = some x) (fresh : x.body = [] ∧ x.ended = none)
    (delimited : Framed framing body payload) (bounded : framing ≠ .untilClose)
    (client : Holds c.cr (body ++ rest)) (rules : List CompiledRewrite) (raw : Bytes) (p : Prepared) :
    Leaves (sendRequest site env framing rules raw p) c (Sent c x body rest) := by
  unfold Leaves sendRequest
  split
  · obtain ⟨mid, said, cr, past, ur, now'⟩ := say_continue_passes site p c
    rw [run_bind_ok said]
    have within := forward_within site.k site.u rules
      (get site.u (p.dropExpect site.u).req.headers (text "Content-Encoding"))
      (requestHeadFor site.u raw (p.dropExpect site.u).req (p.dropExpect site.u).changed) delimited
      (by simp [bounded]) (cr ▸ client.valid) (startSpill mid.up) (cr ▸ client.stream)
    have taken := taken_within (cr ▸ client) within
    refine bind_ends (Sent c x body rest) ?_ ?_
    · intro e last failed
      cases failed
    · intro err last forwarded
      cases forwarded
      have copied : ∀ {err : Option HttpError}, some err = some none → err = none := Option.some.inj
      split
      · rename_i clean
        exact ⟨past, ur, _, _, taken.1, by simp [run_pure, Conn.tookRequest, now', now],
          fun ended => taken.2.2 (copied ended), fun _ _ => congrArg some clean⟩
      · exact ⟨past, ur, _, _, taken.1, by simp [run_throw, Conn.tookRequest, now', now],
          fun ended => taken.2.2 (copied ended), by simp [run_throw]⟩
  · obtain ⟨w, sent | sent⟩ := write_upstream_cases (if p.changed then p.req.serialize else raw) c
    · rw [run_bind_ok sent]
      have within := copy_body_within tapWriters delimited (by simp [bounded]) client.valid w client.stream
      have taken := taken_within client within
      refine bind_ends (Sent c x body rest) ?_ ?_
      · intro e last failed
        cases failed
      · intro err last copied
        cases copied
        refine ⟨rfl, rfl, _, _, taken.1, by simp [run_pure, Conn.tookRequest, now],
          fun ended => taken.2.2 (Option.some.inj ended), ?_⟩
        intro q passed
        rw [run_pure] at passed
        simp only [Except.ok.injEq, Prod.mk.injEq] at passed
        split at passed
        · cases passed.2
        · exact congrArg some passed.2
    · rw [run_bind_error sent]
      exact ⟨rfl, rfl, [], none, List.nil_prefix, by simp [now, ← fresh.1, ← fresh.2], nofun, by simp⟩

theorem send_request_head {p sent : Prepared} {err : Option HttpError} {last : Conn}
    (passed : (sendRequest site env framing rules raw p).from c = (.ok (sent, err), last)) :
    sent = p ∨ sent = p.dropExpect site.u := by
  unfold sendRequest at passed
  split at passed
  · obtain ⟨_, mid, _, rest⟩ := bind_ok passed
    obtain ⟨_, end_, _, rest⟩ := bind_ok rest
    split at rest
    · cases rest
      exact Or.inr rfl
    · cases rest
  · obtain ⟨_, mid, _, rest⟩ := bind_ok passed
    obtain ⟨_, end_, _, rest⟩ := bind_ok rest
    cases rest
    exact Or.inl rfl

theorem keep_alive_fields {u : CaseTables} (proto : Bytes) {hs hs' : List Hdr}
    (same : fields u hs (text "Connection") = fields u hs' (text "Connection")) :
    keepAlive u proto hs = keepAlive u proto hs' := by
  unfold keepAlive tokens
  rw [same]

theorem keep_alive_sent {q : Request site.u} {p : Prepared}
    (prepared : p = q.prepared site env ∨ p = (q.prepared site env).dropExpect site.u) (proto : Bytes) :
    keepAlive site.u proto p.req.headers = keepAlive site.u proto (q.edited site env).headers := by
  have plain : fields site.u (q.prepared site env).req.headers (text "Connection") =
      fields site.u (q.edited site env).headers (text "Connection") :=
    prepare_fields (fold_apart (by decide)) (fold_apart (by decide)) _ _ _
  apply keep_alive_fields
  rcases prepared with rfl | rfl
  · exact plain
  · exact (drop_expect_fields (fold_apart (by decide)) _).trans plain

theorem answer_round (up : c.ur = some ur) {lead : List Bytes} (skipped : ∀ l ∈ lead, Blank l) {head : HeadLines}
    (unbroken : Unbroken head) (stream : Holds ur (lead.flatten ++ head.bytes ++ rest))
    (parsed : parseResponseHead head.bytes = .ok res) (fuel : Nat) :
    (maxHeadBytes < head.bytes.length ∧ ∃ next w,
      (answerLoop (fuel + 1)).from c = (.error (), { c with ur := some next, client := w })) ∨
    ∃ next, Holds next rest ∧ (answerLoop (fuel + 1)).from c =
      ((if InterimStatus res.status then do
          note fun x => { x with interim := x.interim ++ [head.bytes] }
          writeClient head.bytes
          answerLoop fuel
        else do
          note fun x => { x with resHead := some head.bytes }
          pure (head.bytes, res) : Serve (Bytes × ResHead))).from { c with ur := some next } := by
  have reading : readUpstreamHead.from c = (.ok (readHead ur).1, { c with ur := some (readHead ur).2 }) := by
    simp [Prog.from, readUpstreamHead, up]
  have unbroken' : ∀ l ∈ head.lines, ¬ TailBlank ur.size l := stream.size ▸ unbroken
  rw [answerLoop, run_bind_ok reading]
  rcases result : readHead ur with ⟨out, next⟩
  cases out with
  | error e =>
    refine Or.inl ⟨Nat.lt_of_not_le fun small => ?_, _, _, rfl⟩
    obtain ⟨_, _, _, _, read⟩ := read_head_whole stream.valid skipped head stream.stream small unbroken'
    cases result.symm.trans read
  | ok raw =>
    obtain ⟨rfl, valid, size, behind⟩ := read_head_only stream.valid skipped head stream.stream unbroken' result
    refine Or.inr ⟨next, ⟨valid, size.trans stream.size, behind⟩, ?_⟩
    simp only [checked, parsed]
    rw [run_bind_ok (run_pure _ _)]
    rfl

structure Answered (c : Conn) (x : Exchange) (heads : List Bytes) (r : Response site.u method)
    (rest : Bytes) (out : Except Unit (Bytes × ResHead)) (last : Conn) : Prop where
  past : last.past = c.past
  cr : last.cr = c.cr
  now : ∃ passed head, passed <+: heads ∧ (head = none ∨ head = some r.head.bytes) ∧
    last.now = some { x with interim := x.interim ++ passed, resHead := head } ∧
    ∀ raw res, out = .ok (raw, res) → raw = r.head.bytes ∧ res = r.res ∧ passed = heads ∧
      head = some r.head.bytes ∧ ∃ ur, last.ur = some ur ∧ Holds ur rest

theorem answer_loop_answered (final : Unbroken r.head) (interim : List Interim)
    (whole : ∀ i ∈ interim, Unbroken i.head) (fuel : Nat) (now : c.now = some x) (fresh : x.resHead = none)
    (up : c.ur = some ur)
    (stream : Holds ur (interim.flatMap Interim.bytes ++ (r.lead.flatten ++ r.head.bytes ++ rest))) :
    Leaves (answerLoop fuel) c (Answered c x (interim.map fun i => i.head.bytes) r rest) := by
  unfold Leaves
  induction fuel generalizing interim c x ur with
  | zero =>
    exact ⟨rfl, rfl, [], none, List.nil_prefix, Or.inl rfl, by simp [answerLoop, run_throw, now, ← fresh],
      by simp [answerLoop, run_throw]⟩
  | succ fuel ih =>
    have early : ∀ next w, Answered c x (interim.map fun i => i.head.bytes) r rest (.error ())
        { c with ur := some next, client := w } := fun _ _ =>
      ⟨rfl, rfl, [], none, List.nil_prefix, Or.inl rfl, by simp [now, ← fresh], by simp⟩
    cases interim with
    | nil =>
      obtain ⟨_, next, w, failed⟩ | ⟨next, holds, read⟩ :=
        answer_round up r.skipped final (by simpa using stream) r.parsed fuel
      · rw [failed]
        exact early next w
      · rw [read, if_neg r.final]
        refine ⟨rfl, rfl, [], some r.head.bytes, List.nil_prefix, Or.inr rfl, ?_, ?_⟩
        · change Option.map _ c.now = _
          simp [now]
        · intro raw res passed
          cases passed
          exact ⟨rfl, rfl, rfl, rfl, next, rfl, holds⟩
    | cons i is =>
      obtain ⟨_, next, w, failed⟩ | ⟨next, holds, read⟩ := answer_round up i.skipped (whole i (by simp))
        (by simpa [Interim.bytes] using stream) i.parsed fuel
      · rw [failed]
        exact early next w
      · let y : Exchange := { x with interim := x.interim ++ [i.head.bytes] }
        let mid : Conn := { c with ur := some next, now := some y }
        have noted : (note fun x => { x with interim := x.interim ++ [i.head.bytes] }).from
            { c with ur := some next } = (.ok (), mid) := by
          simp [Prog.from, note, now, mid, y]
        rw [read, if_pos i.interim, run_bind_ok noted]
        obtain ⟨w, written | written⟩ := write_client_cases i.head.bytes mid
        · rw [run_bind_ok written]
          obtain ⟨past, cr, passed, head, front, heads, now', done⟩ := ih is
            (fun j member => whole j (by simp [member]))
            (show Conn.now { mid with client := w } = some y from rfl) fresh
            (show Conn.ur { mid with client := w } = some next from rfl) (by simpa using holds)
          refine ⟨past, cr, i.head.bytes :: passed, head, ?_, heads, ?_, ?_⟩
          · exact List.cons_prefix_cons.mpr ⟨rfl, front⟩
          · rw [now']
            simp [y]
          · intro raw res ended
            obtain ⟨rfl, rfl, rfl, eq, last⟩ := done raw res ended
            exact ⟨rfl, rfl, rfl, eq, last⟩
        · rw [run_bind_error written]
          exact ⟨rfl, rfl, [i.head.bytes], none, by simp, Or.inl rfl, by simp [mid, y, ← fresh], by simp⟩

theorem answer_loop_passes (final : Unbroken r.head) (small : r.head.bytes.length ≤ maxHeadBytes)
    (interim : List Interim) (whole : ∀ i ∈ interim, Unbroken i.head)
    (smalls : ∀ i ∈ interim, i.head.bytes.length ≤ maxHeadBytes) {fuel : Nat} (enough : interim.length < fuel)
    (here : Unfailing c) (up : c.ur = some ur)
    (stream : Holds ur (interim.flatMap Interim.bytes ++ (r.lead.flatten ++ r.head.bytes ++ rest))) :
    ∃ last, (answerLoop fuel).from c = (.ok (r.head.bytes, r.res), last) := by
  obtain ⟨fuel, rfl⟩ := Nat.exists_eq_add_one.2 (Nat.zero_lt_of_lt enough)
  induction interim generalizing fuel c ur with
  | nil =>
    obtain ⟨large, _⟩ | ⟨next, _, read⟩ := answer_round up r.skipped final (by simpa using stream) r.parsed fuel
    · exact absurd small (Nat.not_le_of_lt large)
    · rw [read, if_neg r.final]
      exact ⟨_, rfl⟩
  | cons i is ih =>
    obtain ⟨large, _⟩ | ⟨next, holds, read⟩ := answer_round up i.skipped (whole i (by simp))
      (by simpa [Interim.bytes] using stream) i.parsed fuel
    · exact absurd (smalls i (by simp)) (Nat.not_le_of_lt large)
    · obtain ⟨fuel, rfl⟩ := Nat.exists_eq_add_one.2 (show 0 < fuel by simp at enough; omega)
      let mid : Conn :=
        { c with ur := some next, now := c.now.map fun x => { x with interim := x.interim ++ [i.head.bytes] } }
      have noted : (note fun x => { x with interim := x.interim ++ [i.head.bytes] }).from
          { c with ur := some next } = (.ok (), mid) := rfl
      have here' : Unfailing mid := ⟨here.client, here.up⟩
      rw [read, if_pos i.interim, run_bind_ok noted, run_bind_ok (write_client_passes here' _)]
      exact ih (fun j member => whole j (by simp [member])) (fun j member => smalls j (by simp [member]))
        (show Unfailing { mid with client := _ } from ⟨rfl, here.up⟩) rfl (by simpa using holds) fuel
        (by simpa using enough)

theorem read_answer_passes (final : Unbroken r.head) (small : r.head.bytes.length ≤ maxHeadBytes)
    (whole : ∀ i ∈ r.interim, Unbroken i.head) (smalls : ∀ i ∈ r.interim, i.head.bytes.length ≤ maxHeadBytes)
    (here : Unfailing c) (up : c.ur = some ur)
    (stream : Holds ur (r.interim.flatMap Interim.bytes ++ (r.lead.flatten ++ r.head.bytes ++ rest))) :
    ∃ last, readAnswer.from c = (.ok (r.head.bytes, r.res), last) := by
  -- every head takes a byte, so the fuel lasts to the final one
  have filled : ∀ i ∈ r.interim, 0 < i.bytes.length := by
    intro i _
    have blank := line_length_pos (blank_is_line i.head.ends)
    simp only [Interim.bytes, HeadLines.bytes, List.length_append]
    omega
  have enough : r.interim.length < (c.ur.map fun r => r.stream.length).getD 0 + 1 := by
    have long := length_le_flat_map filled
    rw [up, Option.map_some, Option.getD_some, stream.stream, List.length_append]
    omega
  exact answer_loop_passes final small r.interim whole smalls enough here up stream

theorem read_answer_drained (up : c.ur = some ur) (drained : Holds ur []) :
    ∃ next w, readAnswer.from c = (.error (), { c with ur := some next, client := w }) := by
  obtain ⟨e, next, failed⟩ := read_head_drained drained.valid drained.stream
  refine ⟨next, (c.client.write (proxyError (text "upstream closed before responding"))).2, ?_⟩
  have reading : readUpstreamHead.from c = (.ok (readHead ur).1, { c with ur := some (readHead ur).2 }) := by
    simp [Prog.from, readUpstreamHead, up]
  change (answerLoop _).from c = _
  rw [answerLoop, run_bind_ok reading, failed]
  rfl

structure Responded (c : Conn) (x : Exchange) (r : Response site.u method) (rest : Bytes)
    (out : Except Unit (Framing × Option HttpError)) (last : Conn) : Prop where
  past : last.past = c.past
  cr : last.cr = c.cr
  now : ∃ b ended ur, b <+: r.body ∧ last.now = some { x with resBody := b, resEnded := ended } ∧
    last.ur = some ur ∧ (ended = some none → b = r.body) ∧ (ur.stream = rest → b = r.body) ∧
    ∀ framing, out = .ok (framing, none) → framing = r.framing ∧ ended = some none ∧ Holds ur rest

theorem copy_response_responded (now : c.now = some x) {σ A : Type} {out : Except HttpError A × (BufReader × σ)}
    (stream : Holds ur (r.body ++ rest)) (within : Within ur.size rest out) {p : Serve (Option HttpError)}
    (copied : ∃ wire, p.from c = (.ok (failure out.1), c.tookResponse (failure out.1) ur out.2.1 wire)) :
    Leaves (p >>= fun err => pure (r.framing, err)) c (Responded c x r rest) := by
  have taken := taken_within stream within
  obtain ⟨wire, copied⟩ := copied
  rw [Leaves, run_bind_ok copied, run_pure]
  refine ⟨rfl, rfl, _, _, out.2.1, taken.1, by simp [Conn.tookResponse, now], rfl,
    fun ended => (taken.2.2 (Option.some.inj ended)).1, taken.2.1, ?_⟩
  intro framing passed
  obtain ⟨rfl, clean⟩ : r.framing = framing ∧ failure out.1 = none := by simpa using passed
  exact ⟨rfl, congrArg some clean, (taken.2.2 clean).2⟩

theorem send_response_responded (env : Env) (closed : r.framing = .untilClose → rest = []) (now : c.now = some x)
    (fresh : x.resBody = [] ∧ x.resEnded = none) (up : c.ur = some ur) (stream : Holds ur (r.body ++ rest))
    (kept : ∀ framing, responseFraming site.u method res = .ok framing → framing = r.framing)
    (rules : List CompiledRewrite) (bufferRes : Bool) (raw : Bytes) (changed : Bool) :
    Leaves (sendResponse site env rules bufferRes method raw res changed) c (Responded c x r rest) := by
  have early : ∀ w, Responded c x r rest (.error ()) { c with client := w } := fun w =>
    ⟨rfl, rfl, [], none, ur, List.nil_prefix, by simp [now, ← fresh.1, ← fresh.2], up, nofun,
      fun reached => by simpa using stream.stream.symm.trans reached, by simp⟩
  unfold Leaves sendResponse
  split
  · obtain ⟨w, written | written⟩ := write_client_cases (if changed then res.serialize else raw) c
    · rw [run_bind_ok written]
      exact early w
    · rw [run_bind_error written]
      exact early w
  · cases framing : responseFraming site.u method res with
    | error e => exact early c.client
    | ok f =>
      obtain rfl := kept f framing
      have passed : (checked (Except.ok r.framing)).from c = (.ok r.framing, c) := rfl
      rw [run_bind_ok passed]
      split
      · have within := forward_within site.k site.u rules (get site.u res.headers (text "Content-Encoding"))
          (responseHeadFor site.u raw res changed) r.delimited closed stream.valid (startSpill c.client)
          stream.stream
        exact copy_response_responded now stream within ⟨_, by simp only [Prog.from, forwardResponseBody, up]; rfl⟩
      · obtain ⟨w, written | written⟩ := write_client_cases (if changed then res.serialize else raw) c
        · rw [run_bind_ok written]
          have within := copy_body_within tapWriters r.delimited closed stream.valid w stream.stream
          have copied := copy_response_responded (c := { c with client := w }) (p := copyResponseBody r.framing)
            now stream within ⟨_, by simp only [Prog.from, copyResponseBody, up]; rfl⟩
          exact ⟨copied.past, copied.cr, copied.now⟩
        · rw [run_bind_error written]
          exact early w

theorem send_response_ordinary {bufferRes : Bool} {changed : Bool} {out : Framing × Option HttpError}
    {last : Conn} (passed : (sendResponse site env rules bufferRes method raw res changed).from c = (.ok out, last)) :
    ¬ (res.status = 101 ∨ Tunnelled method res.status) := by
  intro handed
  rw [sendResponse, if_pos handed] at passed
  obtain ⟨_, mid, _, thrown⟩ := bind_ok passed
  cases thrown

theorem upgrade_empty (upgrade : r.res.status = 101) : r.body = [] := by
  have bodiless : Bodiless method r.res.status := Or.inr (Or.inr (Or.inr (by omega)))
  have framed := r.framed
  rw [responseFraming, if_pos bodiless] at framed
  have delimited := r.delimited
  rw [← Except.ok.inj framed] at delimited
  exact delimited.1

section Answers
variable {r : Response site.u t.request.req.method} {y : Exchange} {reqErr : Option HttpError}

inductive Outcome (site : Site) (env : Env) (t : Turn site.u) (sound : Prop) (reqErr : Option HttpError)
    (y : Exchange) : Except Unit Unit → Prop where
  | stopped (part : AnswerPart y t.response) (why : sound → ¬ Smooth site env t) :
      Outcome site env t sound reqErr y (.error ())
  | relayed {r : Response site.u t.request.req.method} (response : t.response = some r) (heads : HeadsWhole y r)
      (part : ResponsePart y r) (tunnel : Tunnelled t.request.req.method r.res.status) :
      Outcome site env t sound reqErr y (.error ())
  | closed {r : Response site.u t.request.req.method} (response : t.response = some r) (whole : ResponseWhole y r)
      (last : reqErr = none → ¬ Goes site env t) : Outcome site env t sound reqErr y (.error ())
  | served {r : Response site.u t.request.req.method} (response : t.response = some r) (whole : ResponseWhole y r)
      (clean : reqErr = none) (goes : Goes site env t) : Outcome site env t sound reqErr y (.ok ())

theorem outcome_part {out : Except Unit Unit} (outcome : Outcome site env t sound reqErr y out) :
    AnswerPart y t.response := by
  have whole_part : ∀ r, t.response = some r → ResponseWhole y r → AnswerPart y t.response := by
    intro r response whole
    rw [response]
    exact ⟨whole.interim ▸ List.prefix_refl _, Or.inr whole.head, whole.body ▸ List.prefix_refl _, fun _ => whole.body⟩
  cases outcome with
  | stopped part why => exact part
  | relayed response heads part tunnel =>
    rw [response]
    exact part
  | closed response whole last => exact whole_part _ response whole
  | served response whole clean goes => exact whole_part _ response whole

structure Settled (env : Env) (sound : Prop) (c : Conn) (x : Exchange) (t : Turn site.u)
    (reqErr : Option HttpError) (rest : Bytes) (out : Except Unit Unit) (last : Conn) : Prop where
  past : last.past = c.past
  cr : last.cr = c.cr
  now : ∃ y, last.now = some y ∧ y.rawHead = x.rawHead ∧ y.body = x.body ∧ y.ended = x.ended ∧
    Outcome site env t sound reqErr y out
  up : out = .ok () → ∃ ur, last.ur = some ur ∧ Holds ur rest

theorem smooth_answerable (response : t.response = some r) (smooth : Smooth site env t) : Answerable site env r := by
  obtain ⟨r', found, ok⟩ := smooth.response
  cases response.symm.trans found
  exact ok

theorem goes_back (response : t.response = some r) (goes : Goes site env t) :
    ¬ (r.res.status = 101 ∨ Tunnelled t.request.req.method r.res.status) ∧ r.framing ≠ .untilClose ∧
      keepAlive site.u t.request.req.proto (t.request.edited site env).headers = true ∧
      keepAlive site.u r.res.proto (r.edited site env).headers = true := by
  obtain ⟨r', found, kept⟩ := goes
  cases response.symm.trans found
  exact kept

theorem send_passes (response : t.response = some r) (keeps : Keeps site env t) (smooth : Smooth site env t)
    (here : Unfailing c) (ordinary : ¬ (r.res.status = 101 ∨ Tunnelled t.request.req.method r.res.status))
    (up : c.ur = some ur) (stream : Holds ur (r.body ++ rest)) (bufferRes : Bool) :
    ∃ err mid last, (r.send site env bufferRes).from c = (.ok (r.framing, err), mid) ∧ mid.ur = some last ∧
      LoopProgress.Copied r.framing err last := by
  have ok := smooth_answerable response smooth
  obtain ⟨framing, framed⟩ := ok.framing
  obtain rfl := keeps.response r response framing framed
  have ordinary' : ¬ ((r.edited site env).status = 101 ∨ Tunnelled _ (r.edited site env).status) := ordinary
  exact send_response_passes here ordinary' framed r.delimited up stream.valid (stream.size ▸ ok.body) stream.stream
    _ _ _ _

/-- The record behind the final head, with `b` of the body read. -/
def passedOn (x : Exchange) (r : Response site.u method) (b : Bytes) (ended : Option (Option HttpError)) : Exchange :=
  { x with
    interim := x.interim ++ r.interim.map fun i => i.head.bytes
    resHead := some r.head.bytes
    resBody := b
    resEnded := ended }

/-- The end of answerRequest, which tells whether the loop goes on. -/
def Response.finish (site : Site) (env : Env) {req : ReqHead} (r : Response site.u req.method) (p : Prepared)
    (reqErr : Option HttpError) : Framing × Option HttpError → Serve Unit := fun (framing, resErr) =>
  if resErr.isSome ∨ reqErr.isSome ∨ framing = .untilClose ∨ ¬ keepAlive site.u req.proto p.req.headers ∨
      ¬ keepAlive site.u r.res.proto (r.edited site env).headers then throw ()
  else pure ()

theorem send_settled (response : t.response = some r) (keeps : Keeps site env t)
    (closed : r.framing = .untilClose → rest = []) (fresh : Unanswered x) (now : c.now = some (passedOn x r [] none))
    (up : c.ur = some ur) (stream : Holds ur (r.body ++ rest)) {p : Prepared}
    (alive : ∀ proto, keepAlive site.u proto p.req.headers =
      keepAlive site.u proto (t.request.edited site env).headers) (reqErr : Option HttpError)
    (safe : sound → Unfailing c) :
    Leaves (r.send site env p.bufferRes >>= r.finish site env p reqErr) c (Settled env sound c x t reqErr rest) := by
  -- the record of the heads is whole, and the body is what the copy took of it
  have heads (b ended) : HeadsWhole (passedOn x r b ended) r := ⟨by simp [passedOn, fresh.interim], rfl⟩
  have part {b ended} (front : b <+: r.body) (copied : ended = some none → b = r.body) :
      ResponsePart (passedOn x r b ended) r :=
    ⟨by simp [passedOn, fresh.interim], Or.inr rfl, front, copied⟩
  have passes (here : sound) (smooth : Smooth site env t)
      (ordinary : ¬ (r.res.status = 101 ∨ Tunnelled t.request.req.method r.res.status)) :=
    send_passes response keeps smooth (safe here) ordinary up stream p.bufferRes
  refine leaves_bind
    (send_response_responded env closed now ⟨rfl, rfl⟩ up stream (keeps.response r response) _ _ _ _) ?_ ?_
  · rintro ⟨⟩ last failed ⟨past, cr, b, ended, ur', front, now', up', copied, _, _⟩
    refine ⟨past, cr, ⟨_, now', rfl, rfl, rfl, ?_⟩, by simp⟩
    by_cases handed : r.res.status = 101 ∨ Tunnelled t.request.req.method r.res.status
    · rcases handed with upgrade | tunnel
      · refine Outcome.closed response ⟨heads b ended, ?_⟩ fun _ goes => (goes_back response goes).1 (Or.inl upgrade)
        rw [upgrade_empty upgrade] at front ⊢
        exact List.prefix_nil.1 front
      · exact Outcome.relayed response (heads b ended) (part front copied) tunnel
    · refine Outcome.stopped (response ▸ part front copied) fun here smooth => ?_
      obtain ⟨_, _, _, sent, _⟩ := passes here smooth handed
      cases failed.symm.trans sent
  · rintro ⟨framing, resErr⟩ last sent ⟨past, cr, b, ended, ur', front, now', up', copied, reached, done⟩
    have ordinary := send_response_ordinary sent
    rw [Leaves, Response.finish]
    split
    · rename_i leaving
      refine ⟨past, cr, ⟨_, now', rfl, rfl, rfl, ?_⟩, by simp [run_throw]⟩
      by_cases through : sound ∧ Smooth site env t
      · obtain ⟨err, end_, ur3, passed, up3, taken⟩ := passes through.1 through.2 ordinary
        cases sent.symm.trans passed
        cases up'.symm.trans up3
        have exact_ : b = r.body := by
          by_cases close : r.framing = .untilClose
          · exact reached ((taken.drained close).trans (closed close).symm)
          · obtain rfl := taken.bounded close
            exact copied (done _ rfl).2.1
        refine Outcome.closed response ⟨heads b ended, exact_⟩ ?_
        rintro rfl goes
        obtain ⟨_, bounded, asked, answered⟩ := goes_back response goes
        simp only [taken.bounded bounded, Option.isSome_none, Bool.false_eq_true, false_or, bounded] at leaving
        rcases leaving with closing | closing
        · exact closing ((alive _).trans asked)
        · exact closing answered
      · exact Outcome.stopped (response ▸ part front copied) fun here smooth => through ⟨here, smooth⟩
    · rename_i staying
      simp only [not_or, Option.not_isSome_iff_eq_none, not_not] at staying
      obtain ⟨rfl, clean, bounded, asked, answered⟩ := staying
      obtain ⟨rfl, ending, holds⟩ := done framing rfl
      refine ⟨past, cr, ⟨_, now', rfl, rfl, rfl, ?_⟩, fun _ => ⟨ur', up', holds⟩⟩
      exact Outcome.served response ⟨heads b ended, copied ending⟩ clean
        ⟨r, response, ordinary, bounded, (alive _).symm.trans asked, answered⟩

theorem answer_request_settled (whole : Whole t) (keeps : Keeps site env t)
    (closing : (∀ r, t.response = some r → r.framing = .untilClose) → rest = []) (now : c.now = some x)
    (fresh : Unanswered x) (up : c.ur = some ur) (stream : Holds ur (t.answer ++ rest)) {p : Prepared}
    (alive : ∀ proto, keepAlive site.u proto p.req.headers =
      keepAlive site.u proto (t.request.edited site env).headers) (reqErr : Option HttpError)
    (safe : sound → Unfailing c) :
    Leaves (answerRequest site env t.request.req p reqErr) c (Settled env sound c x t reqErr rest) := by
  cases response : t.response with
  | none =>
    have drained : Holds ur [] := by
      have none := closing (by simp [response])
      simpa [Turn.answer, response, none] using stream
    obtain ⟨next, w, failed⟩ := read_answer_drained up drained
    rw [Leaves, answerRequest, run_bind_error failed]
    refine ⟨rfl, rfl, ⟨x, now, rfl, rfl, rfl, Outcome.stopped (response ▸ fresh) ?_⟩, by simp⟩
    intro _ smooth
    obtain ⟨r, found, _⟩ := smooth.response
    cases response.symm.trans found
  | some r =>
    have behind : Holds ur (r.interim.flatMap Interim.bytes ++
        (r.lead.flatten ++ r.head.bytes ++ (r.body ++ rest))) :=
      ⟨stream.valid, stream.size, by simpa [Turn.answer, response, Response.bytes] using stream.stream⟩
    have final := whole.final r response
    have interim := whole.interim r response
    refine leaves_bind (p := readAnswer) (answer_loop_answered final r.interim interim _ now fresh.head up behind) ?_ ?_
    · rintro ⟨⟩ mid failed ⟨past, cr, passed, head, front, heads, now', _⟩
      refine ⟨past, cr, ⟨_, now', rfl, rfl, rfl, Outcome.stopped ?_ fun here smooth => ?_⟩, by simp⟩
      · rw [response]
        exact ⟨by simpa [fresh.interim] using front, heads, by simp [fresh.body], by simp [fresh.ended]⟩
      · have ok := smooth_answerable response smooth
        obtain ⟨_, read⟩ := read_answer_passes final ok.head interim ok.interim (safe here) up behind
        cases failed.symm.trans read
    · rintro ⟨raw, res⟩ mid reading ⟨past, cr, passed, head, front, heads, now', done⟩
      obtain ⟨rfl, rfl, rfl, rfl, ur', up', behind'⟩ := done raw res rfl
      have safe' : sound → Unfailing mid := fun here => by
        have kept := read_answer_keeps c (safe here)
        rwa [reading] at kept
      have settled := send_settled response keeps (fun ends => closing (by simpa [response] using ends)) fresh
        (now'.trans (by simp [passedOn, fresh.body, fresh.ended])) up' behind' alive reqErr safe'
      exact ⟨settled.past.trans past, settled.cr.trans cr, settled.now, settled.up⟩

end Answers

theorem request_framing_bounded {u : CaseTables} {req : ReqHead}
    (framed : requestFraming u req = .ok framing) : framing ≠ .untilClose := by
  rintro rfl
  unfold requestFraming at framed
  split at framed
  · split at framed <;> cases framed
  · cases length : contentLength u req.headers with
    | error e => simp [length, bind, Except.bind] at framed
    | ok n =>
      simp only [length, bind, Except.bind] at framed
      split at framed
      · split at framed <;> cases framed
      · cases framed

def Upstream (site : Site) (c : Conn) (s : Bytes) : Prop :=
  match c.ur with
  | some ur => Holds ur s
  | none => ∀ src, site.dial = .ok src → src.data = s

theorem attach_up_cases (up : Upstream site c s) :
    (∃ w msg, (attachUp site).from c = (.error (), { c with client := w }) ∧ c.ur = none ∧ site.dial = .error msg) ∨
      ∃ ur, (attachUp site).from c = (.ok (), { c with ur := some ur }) ∧ Holds ur s := by
  unfold Upstream at up
  simp only [Prog.from, attachUp]
  cases attached : c.ur with
  | some ur =>
    rw [attached] at up
    refine Or.inr ⟨ur, ?_, up⟩
    cases c
    simp_all
  | none =>
    rw [attached] at up
    cases dialed : site.dial with
    | error msg => exact Or.inl ⟨_, msg, rfl, rfl, rfl⟩
    | ok src =>
      have fresh := new_reader_well_formed src h1BufferSize
      exact Or.inr ⟨_, rfl, fresh.1, rfl, fresh.2.trans (up src dialed)⟩

theorem trace_concat {base : List Exchange} (past : c.past = base) (now : c.now = some x) : c.trace = base ++ [x] := by
  simp [Conn.trace, past, now]

inductive Round (env : Env) (sound : Prop) (base : List Exchange) (t : Turn site.u) (fromClient fromUp : Bytes) :
    Except Unit Unit → Conn → Prop where
  | last {c : Conn} {xs : List Exchange} (record : c.trace = base ++ xs) (ending : Ending site env sound t xs) :
      Round env sound base t fromClient fromUp (.error ()) c
  | served {c : Conn} {x : Exchange} {ur : BufReader} (record : c.trace = base ++ [x]) (wholly : Wholly x t)
      (goes : Goes site env t) (client : Holds c.cr fromClient) (attached : c.ur = some ur) (up : Holds ur fromUp) :
      Round env sound base t fromClient fromUp (.ok ()) c

theorem partly_unanswered {ended : Option (Option HttpError)}
    (front : b <+: t.request.body) (copied : ended = some none → b = t.request.body) :
    Partly { rawHead := t.request.head.bytes, body := b, ended := ended } t := by
  refine ⟨⟨rfl, front, copied⟩, ?_⟩
  cases t.response with
  | none => exact ⟨rfl, rfl, rfl, rfl⟩
  | some r => exact ⟨List.nil_prefix, Or.inl rfl, List.nil_prefix, nofun⟩

theorem ending_of_outcome {err : Option HttpError} (request : RequestPart y t.request)
    (sent : err = none → y.ended = some none) (failing : sound → Smooth site env t → err = none)
    (outcome : Outcome site env t sound err y (.error ())) : Ending site env sound t [y] := by
  by_cases clean : err = none
  · have body := request.copied (sent clean)
    cases outcome with
    | stopped part why => exact Ending.stopped ⟨request, part⟩ why
    | relayed response heads part tunnel => exact Ending.relayed ⟨request.head, body, _, response, heads, tunnel⟩
    | closed response whole last => exact Ending.closed ⟨request.head, body, _, response, whole⟩ (last clean)
  · exact Ending.stopped ⟨request, outcome_part outcome⟩ fun safe smooth => clean (failing safe smooth)

theorem round_early {base : List Exchange} (past : c.past = base)
    (now : c.now = some { rawHead := t.request.head.bytes, body := b, ended := ended }) (front : b <+: t.request.body)
    (copied : ended = some none → b = t.request.body) (why : sound → ¬ Smooth site env t) :
    Round env sound base t fromClient fromUp (.error ()) c :=
  Round.last (trace_concat past now) (Ending.stopped (partly_unanswered front copied) why)

theorem send_round (whole : Whole t) (keeps : Keeps site env t)
    (closing : (∀ r, t.response = some r → r.framing = .untilClose) → fromUp = [])
    {base : List Exchange} (past : c.past = base) (now : c.now = some { rawHead := t.request.head.bytes })
    (client : Holds c.cr (t.request.body ++ fromClient)) (up : c.ur = some ur)
    (stream : Holds ur (t.answer ++ fromUp)) (safe : sound → Unfailing c) :
    Leaves (t.request.send site env >>= fun (sent, err) => answerRequest site env t.request.req sent err) c
      (Round env sound base t fromClient fromUp) := by
  have bounded := request_framing_bounded t.request.framed
  have passes (here : sound) (smooth : Smooth site env t) :
      ∃ sent mid, (t.request.send site env).from c = (.ok (sent, none), mid) :=
    send_request_passes (safe here) smooth.punctual t.request.delimited bounded client.valid
      (client.size ▸ smooth.body) client.stream _ _ _
  refine leaves_bind (send_request_sent site env now ⟨rfl, rfl⟩ t.request.delimited bounded client _ _ _) ?_ ?_
  · rintro ⟨⟩ mid failed ⟨past', _, b, ended, front, now', copied, _⟩
    refine round_early (past'.trans past) now' front (fun done => (copied done).1) fun here smooth => ?_
    obtain ⟨_, _, done⟩ := passes here smooth
    cases failed.symm.trans done
  · rintro ⟨q, err⟩ mid passing ⟨past', attached, b, ended, front, now', copied, done⟩
    have safe' : sound → Unfailing mid := fun here => by
      have kept : Unfailing ((t.request.send site env).from c).2 := send_request_keeps _ _ _ _ c (safe here)
      rwa [passing] at kept
    have failing : sound → Smooth site env t → err = none := fun here smooth => by
      obtain ⟨_, _, done⟩ := passes here smooth
      cases passing.symm.trans done
      rfl
    have settled := answer_request_settled whole keeps closing now' ⟨rfl, rfl, rfl, rfl⟩ (attached.trans up) stream
      (keep_alive_sent (send_request_head passing)) err safe'
    dsimp only [Leaves] at settled ⊢
    rcases answer : (answerRequest site env t.request.req q err).from mid with ⟨out, last⟩
    rw [answer] at settled
    obtain ⟨past3, cr, ⟨y, now3, head, body, ending, outcome⟩, up'⟩ := settled
    have record : last.trace = base ++ [y] := trace_concat ((past3.trans past').trans past) now3
    have request : RequestPart y t.request :=
      ⟨head, body ▸ front, fun sent => body.trans (copied (ending.symm.trans sent)).1⟩
    have sent : err = none → y.ended = some none := fun clean => ending.trans (done q (by rw [clean]))
    cases out with
    | error e => exact Round.last record (ending_of_outcome request sent failing outcome)
    | ok a =>
      cases outcome with
      | served response wholeRes clean goes =>
        obtain ⟨ur', up'', holds⟩ := up' rfl
        obtain ⟨_, client'⟩ := copied (ending.symm.trans (sent clean))
        exact Round.served record ⟨head, request.copied (sent clean), _, response, wholeRes⟩ goes (cr ▸ client')
          up'' holds

theorem serve_request_round (whole : Whole t) (keeps : Keeps site env t)
    (closing : (∀ r, t.response = some r → r.framing = .untilClose) → fromUp = [])
    (client : Holds c.cr (t.request.bytes ++ fromClient)) (up : Upstream site c (t.answer ++ fromUp)) :
    Leaves (serveRequest site env) c (Round env (Sound site c) c.trace t fromClient fromUp) := by
  have source : c.cr.stream = t.request.lead.flatten ++ t.request.head.bytes ++ (t.request.body ++ fromClient) := by
    simpa [Request.bytes] using client.stream
  have unbroken : ∀ l ∈ t.request.head.lines, ¬ TailBlank c.cr.size l := client.size ▸ whole.request
  unfold Leaves serveRequest
  rcases reading : readHead c.cr with ⟨result, next⟩
  cases result with
  | error e =>
    have failed : readClientHead.from c = (.error (), { c with cr := next }) := by
      simp [Prog.from, readClientHead, reading]
    rw [run_bind_error failed]
    refine Round.last (List.append_nil _).symm (Ending.refused (Nat.lt_of_not_le fun small => ?_))
    obtain ⟨_, _, _, _, read⟩ := read_head_whole client.valid t.request.skipped t.request.head source small unbroken
    cases reading.symm.trans read
  | ok raw =>
    have passed : readClientHead.from c = (.ok raw, { c with cr := next }) := by
      simp [Prog.from, readClientHead, reading]
    obtain ⟨rfl, valid, size, stream⟩ := read_head_only client.valid t.request.skipped t.request.head source unbroken
      reading
    have parsing : (checked (parseRequestHead t.request.head.bytes)).from { c with cr := next } =
        (.ok t.request.req, { c with cr := next }) := by
      rw [t.request.parsed]
      rfl
    let begun : Conn := { c with cr := next, past := c.trace, now := some { rawHead := t.request.head.bytes } }
    have started : (begin_ t.request.head.bytes).from { c with cr := next } = (.ok (), begun) := rfl
    rw [run_bind_ok passed, run_bind_ok parsing, run_bind_ok started]
    dsimp only
    cases framing : requestFraming site.u (t.request.prepared site env).req with
    | error e =>
      simp only [Request.prepared] at framing
      rw [framing]
      refine round_early rfl rfl List.nil_prefix (by simp) fun _ smooth => ?_
      obtain ⟨f, framed⟩ := smooth.request
      rw [prepare_framing] at framing
      cases framing.symm.trans framed
    | ok f =>
      simp only [Request.prepared] at framing
      rw [framing]
      rw [prepare_framing] at framing
      obtain rfl := keeps.request f framing
      have passed : (checked (Except.ok t.request.framing)).from begun = (.ok t.request.framing, begun) := rfl
      rw [run_bind_ok passed]
      rcases attach_up_cases (c := begun) up with ⟨w, msg, failed, missing, refused⟩ | ⟨ur, attached, holds⟩
      · rw [run_bind_error failed]
        refine round_early rfl rfl List.nil_prefix (by simp) fun safe _ => ?_
        obtain ⟨src, dialed⟩ := safe.attached missing
        cases refused.symm.trans dialed
      · rw [run_bind_ok attached]
        exact send_round whole keeps closing rfl rfl ⟨valid, size.trans client.size, stream⟩ rfl holds
          fun safe => ⟨safe.unfailing.client, safe.unfailing.up⟩

end Steps

theorem ending_mono {site : Site} {env : Env} {t : Turn site.u} (safe : P → Q) {xs : List Exchange}
    (ending : Ending site env Q t xs) : Ending site env P t xs := by
  cases ending with
  | refused large => exact Ending.refused large
  | stopped partly why => exact Ending.stopped partly fun here => why (safe here)
  | relayed relayed => exact Ending.relayed relayed
  | closed wholly last => exact Ending.closed wholly last

theorem serve_follows (site : Site) (sound : Prop) (envs : List Env) (ts : List (Turn site.u)) (c : Conn)
    (safe : sound → Sound site c) (client : Holds c.cr (clientStream ts)) (up : Upstream site c (upStream ts))
    (closing : Closing ts) (whole : ∀ t ∈ ts, Whole t)
    (keeps : ∀ (i : Nat) (env : Env) (t : Turn site.u), envs[i]? = some env → ts[i]? = some t → Keeps site env t) :
    ∃ xs, ((serveHTTP1 site envs).from c).2.trace = c.trace ++ xs ∧ Follows site sound envs xs ts := by
  induction envs generalizing ts c with
  | nil => exact ⟨[], by simp [serveHTTP1, run_pure], Follows.ended ts⟩
  | cons env envs ih =>
    cases ts with
    | nil =>
      obtain ⟨e, next, failed⟩ := read_head_drained client.valid client.stream
      have stopped : (serveRequest site env).from c = (.error (), { c with cr := next }) := by
        unfold serveRequest
        exact run_bind_error (by simp [Prog.from, readClientHead, failed])
      refine ⟨[], ?_, Follows.drained _⟩
      rw [serveHTTP1, run_bind_error stopped]
      simp [Conn.trace]
    | cons t ts =>
      have round := serve_request_round (whole t (by simp)) (keeps 0 env t rfl rfl) closing.1
        (by simpa [clientStream] using client) (by simpa [upStream] using up)
      have kept : Unfailing c → Unfailing ((serveRequest site env).from c).2 := serve_request_keeps c
      rcases served : (serveRequest site env).from c with ⟨out, last⟩
      rw [Leaves, served] at round
      rw [served] at kept
      cases round with
      | last record ending =>
        refine ⟨_, ?_, Follows.last (ending_mono safe ending)⟩
        rw [serveHTTP1, run_bind_error served]
        exact record
      | served record wholly goes client' attached up' =>
        have safe' : sound → Sound site last := fun here =>
          ⟨kept (safe here).unfailing, fun missing => by cases attached.symm.trans missing⟩
        have upstream : Upstream site last (upStream ts) := by
          rw [Upstream, show last.ur = _ from attached]
          exact up'
        obtain ⟨xs, trace, follows⟩ := ih ts last safe' client' upstream closing.2
          (fun s member => whole s (by simp [member]))
          (fun i env t found found' => keeps (i + 1) env t (by simpa using found) (by simpa using found'))
        refine ⟨_ :: xs, ?_, Follows.served wholly goes follows⟩
        rw [serveHTTP1, run_bind_ok served, trace, record]
        simp

/-- Where the rules keep the framing of the heads they see and no head has a line that reads like
    a blank one at its end, the loop parses the heads of the script and consumes their bodies
    exactly, turn after turn. It stops where a side does not keep the connection, and otherwise
    only before a head that is too long or, where no write fails, at a turn that is not smooth. -/
theorem serve_in_step (site : Site) (envs : List Env) (ts : List (Turn site.u)) (c : Conn)
    (client : Holds c.cr (clientStream ts)) (up : Upstream site c (upStream ts)) (closing : Closing ts)
    (whole : ∀ t ∈ ts, Whole t)
    (keeps : ∀ (i : Nat) (env : Env) (t : Turn site.u), envs[i]? = some env → ts[i]? = some t → Keeps site env t) :
    ∃ xs, ((serveHTTP1 site envs).from c).2.trace = c.trace ++ xs ∧ Follows site (Sound site c) envs xs ts :=
  serve_follows site (Sound site c) envs ts c id client up closing whole keeps

def headerRule (phase : Phase) (action : Action) (header value : Bytes) : RewriteRule :=
  ⟨text "r1", true, text "*", false, phase, action, header, value, [], [], false⟩

def rulesEnv (rules : List RewriteRule) : Env := ⟨compileRewriteRules plainRegexps rules, true, true, false⟩

def nestedRequest : Request latinTables where
  lead := []
  skipped := by simp
  head := ⟨[text "POST / HTTP/1.1\r\n", text "Content-Length: 16\r\n"], [13, 10], by decide, by decide, by decide,
    blank_crlf⟩
  req := ⟨text "POST", text "/", text "HTTP/1.1", [⟨text "Content-Length", text "16"⟩]⟩
  parsed := by decide
  framing := .length 16
  framed := by decide
  body := text "GET / HTTP/1.1\n\n"
  payload := text "GET / HTTP/1.1\n\n"
  delimited := ⟨by decide, rfl⟩

def okHead : HeadLines :=
  ⟨[text "HTTP/1.1 200 OK\r\n", text "Content-Length: 0\r\n"], [13, 10], by decide, by decide, by decide, blank_crlf⟩

def emptyResponse (method : Bytes) (plain : responseFraming latinTables method
    ⟨text "HTTP/1.1", 200, text "OK", [⟨text "Content-Length", text "0"⟩]⟩ = .ok .none) :
    Response latinTables method where
  interim := []
  lead := []
  skipped := by simp
  head := okHead
  res := ⟨text "HTTP/1.1", 200, text "OK", [⟨text "Content-Length", text "0"⟩]⟩
  parsed := by decide
  final := by simp [InterimStatus]
  framing := .none
  framed := plain
  body := []
  payload := []
  delimited := ⟨rfl, rfl⟩

def nestedTurn : Turn latinTables := ⟨nestedRequest, some (emptyResponse _ (by decide))⟩

def plainSite : Site := ⟨latinTables, noCodecs, text "http", text "h", .error []⟩

def connOn (client up : Bytes) : Conn :=
  ⟨newReaderSize ⟨client, [], .eof, false, lively_nil⟩ h1BufferSize,
    some (newReaderSize ⟨up, [], .eof, false, lively_nil⟩ h1BufferSize), ⟨[], none⟩, ⟨[], none⟩, [], none⟩

def unframing : Env := rulesEnv [headerRule .request .removeHeader (text "content-length") []]

theorem whole_of_empty {t : Turn latinTables} {plain : _}
    (request : ∀ l ∈ t.request.head.lines, ¬ TailBlank h1BufferSize l)
    (answer : t.response = some (emptyResponse _ plain)) : Whole t := by
  have short : ∀ l ∈ okHead.lines, ¬ TailBlank h1BufferSize l := by decide
  refine ⟨request, fun r found => ?_, fun r found => ?_⟩ <;> cases answer.symm.trans found
  · simp [emptyResponse]
  · exact short

/-- A rule that removes the length makes the loop read the body as the next request. -/
theorem removed_length_splits_body :
    Whole nestedTurn ∧ Closing [nestedTurn] ∧
      ((serveHTTP1 plainSite [unframing, unframing]).from
        (connOn (clientStream [nestedTurn]) (upStream [nestedTurn]))).2.trace.map Exchange.rawHead =
        [nestedRequest.head.bytes, nestedRequest.body] ∧
      ∀ sound, ¬ Follows plainSite sound [unframing, unframing] ((serveHTTP1 plainSite [unframing, unframing]).from
        (connOn (clientStream [nestedTurn]) (upStream [nestedTurn]))).2.trace [nestedTurn] := by
  have heads : ((serveHTTP1 plainSite [unframing, unframing]).from
      (connOn (clientStream [nestedTurn]) (upStream [nestedTurn]))).2.trace.map Exchange.rawHead =
      [nestedRequest.head.bytes, nestedRequest.body] := by
    decide +kernel
  refine ⟨whole_of_empty (by decide) rfl, ⟨fun _ => rfl, trivial⟩, heads, fun sound follows => ?_⟩
  have short : _ ≤ 1 := follows_length follows
  have two := congrArg List.length heads
  simp only [List.length_map, List.length_cons, List.length_nil] at two
  omega

def chunkedRequest : Request latinTables where
  lead := [[13, 10]]
  skipped := by decide
  head := ⟨[text "PUT / HTTP/1.1\r\n", text "Transfer-Encoding: chunked\r\n"], [13, 10], by decide, by decide,
    by decide, blank_crlf⟩
  req := ⟨text "PUT", text "/", text "HTTP/1.1", [⟨text "Transfer-Encoding", text "chunked"⟩]⟩
  parsed := by decide
  framing := .chunked
  framed := by decide
  body := text "2\r\nab\r\n0\r\n\r\n"
  payload := text "ab"
  delimited := by
    have last : ChunkedBody (text "0\r\n" ++ text "\r\n") [] := .last (by decide) (by decide) (.blank (by decide))
    have chunks : ChunkedBody (text "2\r\n" ++ text "ab" ++ text "\r\n" ++ (text "0\r\n" ++ text "\r\n"))
        (text "ab" ++ []) := .chunk (by decide) (by decide) (by decide) (by decide) last
    exact chunks

def chunkedTurn : Turn latinTables := ⟨chunkedRequest, some (emptyResponse _ (by decide))⟩

def tagging : Env := rulesEnv [headerRule .request .setHeader (text "X-Tag") (text "1")]

def pipelined : Conn := connOn (clientStream [nestedTurn, chunkedTurn]) (upStream [nestedTurn, chunkedTurn])

theorem keeps_of_answer {site : Site} {env : Env} {t : Turn site.u} {r : Response site.u t.request.req.method}
    (request : requestFraming site.u (t.request.edited site env) = .ok t.request.framing) (answer : t.response = some r)
    (response : responseFraming site.u t.request.req.method (r.edited site env) = .ok r.framing) :
    Keeps site env t := by
  refine ⟨fun framing framed => ?_, fun r' found framing framed => ?_⟩
  · exact (Except.ok.inj (request.symm.trans framed)).symm
  · cases answer.symm.trans found
    exact (Except.ok.inj (response.symm.trans framed)).symm

theorem tagged_in_step :
    ((serveHTTP1 plainSite [tagging, tagging]).from pipelined).2.trace.map (fun x => (x.rawHead, x.body)) =
      [(nestedRequest.head.bytes, nestedRequest.body), (chunkedRequest.head.bytes, chunkedRequest.body)] ∧
      Sound plainSite pipelined ∧
      ∃ xs, ((serveHTTP1 plainSite [tagging, tagging]).from pipelined).2.trace = pipelined.trace ++ xs ∧
        Follows plainSite (Sound plainSite pipelined) [tagging, tagging] xs [nestedTurn, chunkedTurn] := by
  refine ⟨by decide +kernel, ⟨⟨rfl, rfl⟩, nofun⟩,
    serve_in_step plainSite _ [nestedTurn, chunkedTurn] pipelined ?_ ?_ ?_ ?_ ?_⟩
  · exact ⟨(new_reader_well_formed _ _).1, rfl, rfl⟩
  · exact ⟨(new_reader_well_formed _ _).1, rfl, rfl⟩
  · refine ⟨fun last => ?_, fun _ => rfl, trivial⟩
    exact absurd (last _ rfl) (by decide)
  · exact List.forall_mem_cons.2 ⟨whole_of_empty (by decide) rfl,
      List.forall_mem_cons.2 ⟨whole_of_empty (by decide) rfl, by simp⟩⟩
  · intro i env t found script
    rcases i with _ | _ | i
    · cases found
      cases script
      exact keeps_of_answer (by decide +kernel) rfl (by decide +kernel)
    · cases found
      cases script
      exact keeps_of_answer (by decide +kernel) rfl (by decide +kernel)
    · cases found

end FramingInStep
