import RootShell.BufferedForward

/-!
The HTTP/1.x connection loop (serveHTTP1 in vpntunnel/proxy_h1.go). The model keeps both readers,
both write sides and a record of what was parsed and consumed for each request. Timeouts, busy
rewrite slots and failed writes are environment choices; idle times and the recorder's events are
left out.
-/
namespace ConnectionLoop
open ByteLines ByteText BufferedReader HeadReading HeaderLists FallibleState BodyFraming MessageRewrites
open BufferedForward

def h1BufferSize : Nat := 4096

/-- What the loop parsed and consumed for one request, and what the copies of the two bodies
    ended with, once they have. -/
structure Exchange where
  rawHead : Bytes
  body : Bytes := []
  ended : Option (Option HttpError) := none
  interim : List Bytes := []
  resHead : Option Bytes := none
  resBody : Bytes := []
  resEnded : Option (Option HttpError) := none
  deriving DecidableEq

structure Conn where
  cr : BufReader
  ur : Option BufReader
  client : Wire
  up : Wire
  past : List Exchange
  now : Option Exchange

def Conn.trace (c : Conn) : List Exchange := c.past ++ c.now.toList

/-- What is fixed for a connection. `dial` is the upstream that is dialed when none is attached. -/
structure Site where
  u : CaseTables
  k : Codecs
  scheme : Bytes
  defaultHost : Bytes
  dial : Except Bytes Source

/-- What the environment decides for one request: the rules in force, whether a slot for a
    buffered body is free in time, and whether the request body is late. -/
structure Env where
  rules : List CompiledRewrite
  slotReq : Bool
  slotRes : Bool
  late : Bool

abbrev Serve (A : Type) := Prog Conn Unit A

section Steps

def checked {A : Type} (result : Except HttpError A) : Serve A :=
  match result with
  | .ok a => pure a
  | .error _ => throw ()

def readClientHead : Serve Bytes := fun c =>
  match readHead c.cr with
  | (.ok raw, cr) => (.ok raw, { c with cr := cr })
  | (.error _, cr) => (.error (), { c with cr := cr })

def begin_ (raw : Bytes) : Serve Unit := fun c =>
  (.ok (), { c with past := c.trace, now := some { rawHead := raw } })

def note (f : Exchange → Exchange) : Serve Unit := fun c => (.ok (), { c with now := c.now.map f })

def tellClient (p : Bytes) : Serve Unit := fun c => (.ok (), { c with client := (c.client.write p).2 })

def writeClient (p : Bytes) : Serve Unit := fun c =>
  match c.client.write p with
  | (none, wire) => (.ok (), { c with client := wire })
  | (some _, wire) => (.error (), { c with client := wire })

def writeUpstream (p : Bytes) : Serve Unit := fun c =>
  match c.up.write p with
  | (none, wire) => (.ok (), { c with up := wire })
  | (some _, wire) => (.error (), { c with up := wire })

def proxyError (msg : Bytes) : Bytes :=
  let body := text "rootshell capture: " ++ msg ++ text "\n"
  text "HTTP/1.1 502 Bad Gateway\r\nContent-Type: text/plain; charset=utf-8\r\nContent-Length: " ++
    itoa body.length ++ text "\r\nConnection: close\r\n\r\n" ++ body

def attachUp (site : Site) : Serve Unit := fun c =>
  match c.ur, site.dial with
  | some _, _ => (.ok (), c)
  | none, .ok src => (.ok (), { c with ur := some (newReaderSize src h1BufferSize) })
  | none, .error msg =>
    (.error (), { c with client := (c.client.write (proxyError (text "upstream connect failed: " ++ msg))).2 })

def consumed (before after : BufReader) : Bytes :=
  before.stream.take (before.stream.length - after.stream.length)

/-- A body sink never refuses a write. -/
def tapWriters : Writers Wire := ⟨Wire.write, fun w _ => (none, w)⟩

def failure {A : Type} : Except HttpError A → Option HttpError
  | .ok _ => none
  | .error e => some e

def Conn.tookRequest (c : Conn) (err : Option HttpError) (cr : BufReader) (up : Wire) : Conn :=
  { c with cr := cr, up := up, now := c.now.map fun x => { x with body := consumed c.cr cr, ended := some err } }

def Conn.tookResponse (c : Conn) (err : Option HttpError) (before ur : BufReader) (client : Wire) : Conn :=
  { c with ur := some ur, client := client,
           now := c.now.map fun x => { x with resBody := consumed before ur, resEnded := some err } }

/-- Copy the request body and keep its error for later: the copy runs beside the reading of
    the response, and neither side looks at what the other changes. -/
def copyRequestBody (framing : Framing) : Serve (Option HttpError) := fun c =>
  let out := (copyBody tapWriters framing).from (c.cr, c.up)
  (.ok (failure out.1), c.tookRequest (failure out.1) out.2.1 out.2.2)

def forwardRequestBody (site : Site) (framing : Framing) (rules : List CompiledRewrite) (raw : Bytes)
    (p : Prepared) : Serve (Option HttpError) := fun c =>
  let out := (forwardBufferedBody site.k site.u framing rules
    (get site.u p.req.headers (text "Content-Encoding")) (requestHeadFor site.u raw p.req p.changed)).from
    (c.cr, startSpill c.up)
  (.ok (failure out.1), c.tookRequest (failure out.1) out.2.1 out.2.2.wire)

def sayContinue (site : Site) (p : Prepared) : Serve Unit :=
  if hasToken (tokens site.u p.req.headers (text "Expect")) (text "100-continue") then
    tellClient (text "HTTP/1.1 100 Continue\r\n\r\n")
  else pure ()

def sendRequest (site : Site) (env : Env) (framing : Framing) (rules : List CompiledRewrite) (raw : Bytes)
    (p : Prepared) : Serve (Prepared × Option HttpError) :=
  if hasBodyRule rules ∧ framing ≠ .none ∧ env.slotReq then do
    sayContinue site p
    let err ← forwardRequestBody site framing rules raw (p.dropExpect site.u)
    if err = none then pure (p.dropExpect site.u, none) else throw ()
  else do
    writeUpstream (if p.changed then p.req.serialize else raw)
    let err ← copyRequestBody framing
    pure (p, if env.late ∧ err = none then some .unexpectedEOF else err)

def readUpstreamHead : Serve (Except HttpError Bytes) := fun c =>
  match c.ur with
  | some r => (.ok (readHead r).1, { c with ur := some (readHead r).2 })
  | none => (.error (), c)

/-- Read heads up to the final one, passing interim responses on. Every head takes a byte. -/
def answerLoop : Nat → Serve (Bytes × ResHead)
  | 0 => throw ()
  | fuel + 1 => do
    match ← readUpstreamHead with
    | .error _ =>
      tellClient (proxyError (text "upstream closed before responding"))
      throw ()
    | .ok raw =>
      let res ← checked (parseResponseHead raw)
      if 100 ≤ res.status ∧ res.status < 200 ∧ res.status ≠ 101 then
        note fun x => { x with interim := x.interim ++ [raw] }
        writeClient raw
        answerLoop fuel
      else
        note fun x => { x with resHead := some raw }
        pure (raw, res)

def readAnswer : Serve (Bytes × ResHead) := fun c =>
  answerLoop ((c.ur.map fun r => r.stream.length).getD 0 + 1) c

def copyResponseBody (framing : Framing) : Serve (Option HttpError) := fun c =>
  match c.ur with
  | none => (.error (), c)
  | some r =>
    let out := (copyBody tapWriters framing).from (r, c.client)
    (.ok (failure out.1), c.tookResponse (failure out.1) r out.2.1 out.2.2)

def forwardResponseBody (site : Site) (framing : Framing) (rules : List CompiledRewrite) (raw : Bytes)
    (res : ResHead) (changed : Bool) : Serve (Option HttpError) := fun c =>
  match c.ur with
  | none => (.error (), c)
  | some r =>
    let out := (forwardBufferedBody site.k site.u framing rules
      (get site.u res.headers (text "Content-Encoding")) (responseHeadFor site.u raw res changed)).from
      (r, startSpill c.client)
    (.ok (failure out.1), c.tookResponse (failure out.1) r out.2.1 out.2.2.wire)

/-- Send the final response to the client. An upgrade or a successful CONNECT turns the
    connection into a raw byte stream: the relay that follows is the end of the loop. -/
def sendResponse (site : Site) (env : Env) (rules : List CompiledRewrite) (bufferRes : Bool) (method raw : Bytes)
    (res : ResHead) (changed : Bool) : Serve (Framing × Option HttpError) :=
  if res.status = 101 ∨ Tunnelled method res.status then do
    writeClient (if changed then res.serialize else raw)
    throw ()
  else do
    let framing ← checked (responseFraming site.u method res)
    if bufferRes ∧ framing ≠ .none ∧ env.slotRes then
      let err ← forwardResponseBody site framing rules raw res changed
      pure (framing, err)
    else
      writeClient (if changed then res.serialize else raw)
      let err ← copyResponseBody framing
      pure (framing, err)

def keepAlive (u : CaseTables) (proto : Bytes) (hs : List Hdr) : Bool :=
  let conn := tokens u hs (text "Connection")
  if hasToken conn (text "close") then false
  else if proto = text "HTTP/1.0" then hasToken conn (text "keep-alive")
  else true

def buildURL (u : CaseTables) (scheme host target : Bytes) : Bytes :=
  if (text "http://").isPrefixOf target || (text "https://").isPrefixOf target then target
  else scheme ++ text "://" ++ toLower u host ++ if target = text "*" then [] else target

def requestURL (site : Site) (req : ReqHead) : Bytes :=
  let host := get site.u req.headers (text "Host")
  buildURL site.u site.scheme (if host = [] then site.defaultHost else host) req.target

end Steps

section Loop

def rulesFor (site : Site) (env : Env) (phase : Phase) (req : ReqHead) : List CompiledRewrite :=
  matching env.rules phase (requestURL site req)

def answerRequest (site : Site) (env : Env) (req : ReqHead) (p : Prepared) (reqErr : Option HttpError) :
    Serve Unit := do
  let (raw, res) ← readAnswer
  let (hs, ids) := applyHeaderRewrites site.u (rulesFor site env .response req) res.headers
  let (framing, resErr) ← sendResponse site env (rulesFor site env .response req) p.bufferRes req.method raw
    { res with headers := hs } (ids ≠ [])
  if resErr.isSome ∨ reqErr.isSome ∨ framing = .untilClose ∨
      ¬ keepAlive site.u req.proto p.req.headers ∨ ¬ keepAlive site.u res.proto hs then throw ()
  else pure ()

def serveRequest (site : Site) (env : Env) : Serve Unit := do
  let raw ← readClientHead
  let req ← checked (parseRequestHead raw)
  begin_ raw
  let p := prepareRequest site.u (rulesFor site env .request req) (rulesFor site env .response req) req
  let framing ← checked (requestFraming site.u p.req)
  attachUp site
  let (sent, err) ← sendRequest site env framing (rulesFor site env .request req) raw p
  answerRequest site env req sent err

def serveHTTP1 (site : Site) : List Env → Serve Unit
  | [] => pure ()
  | env :: envs => do
    serveRequest site env
    serveHTTP1 site envs

end Loop

end ConnectionLoop
