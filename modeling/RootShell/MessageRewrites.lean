import RootShell.GlobPatterns
import RootShell.BodyFraming
import RootShell.MarkerRemoval

/-!
Rewrite rules and what they do to the heads and bodies of messages
(vpntunnel/rewrite.go and the head edits of serveHTTP1). Regular expressions and
decompressors are parameters. Where Go tells a nil slice from an empty one, a
slice is an optional byte string.
-/
namespace MessageRewrites
open ByteLines ByteText GlobPatterns HeaderLists BodyFraming MarkerRemoval

inductive Phase where
  | request
  | response
  | other
  deriving DecidableEq, Repr

inductive Action where
  | addHeader
  | setHeader
  | removeHeader
  | replaceBody
  | other
  deriving DecidableEq, Repr

structure RewriteRule where
  id : Bytes
  enabled : Bool
  pattern : Bytes
  isRegex : Bool
  phase : Phase
  action : Action
  header : Bytes
  value : Bytes
  find : Bytes
  replace : Bytes
  bodyRegex : Bool

/-- regexp.Compile, as far as rules use the result: MatchString for URLs, and the bytes
    ReplaceAll returns for a body and a replacement. -/
structure Regexps where
  url : Bytes → Option (Bytes → Bool)
  body : Bytes → Option (Bytes → Bytes → Bytes)

structure CompiledRewrite where
  rule : RewriteRule
  glob : Bytes
  urlRe : Option (Bytes → Bool)
  bodyRe : Option (Bytes → Bytes → Bytes)
  finds : rule.action = .replaceBody → rule.find ≠ []

section Compiling

def contains (sub s : Bytes) : Bool := s.tails.any fun t => sub.isPrefixOf t

def afterFirst (sub s : Bytes) : Bytes :=
  ((s.tails.find? fun t => sub.isPrefixOf t).getD []).drop sub.length

def normalizeURLGlob (raw : Bytes) : Bytes :=
  let trimmed := trimSpace raw
  let p := if contains (text "://") trimmed then trimmed else text "*://" ++ trimmed
  if (afterFirst (text "://") p).contains 47 then p else p ++ text "/*"

def compileRewrite (rx : Regexps) (r : RewriteRule) : Option CompiledRewrite :=
  if r.enabled = false ∨ trimSpace r.pattern = [] then none
  else
    let urlRe := if r.isRegex then rx.url r.pattern else none
    if r.isRegex ∧ urlRe.isNone then none
    else
      let glob := if r.isRegex then [] else normalizeURLGlob r.pattern
      if body : r.action = .replaceBody then
        if found : r.find = [] then none
        else
          let bodyRe := if r.bodyRegex then rx.body r.find else none
          if r.bodyRegex ∧ bodyRe.isNone then none else some ⟨r, glob, urlRe, bodyRe, fun _ => found⟩
      else some ⟨r, glob, urlRe, none, fun eq => absurd eq body⟩

def compileRewriteRules (rx : Regexps) (rules : List RewriteRule) : List CompiledRewrite :=
  rules.filterMap (compileRewrite rx)

def CompiledRewrite.matches (c : CompiledRewrite) (url : Bytes) : Bool :=
  match c.urlRe with
  | some re => re url
  | none => globMatch c.glob url

def matching (rules : List CompiledRewrite) (phase : Phase) (url : Bytes) : List CompiledRewrite :=
  rules.filter fun c => c.rule.phase = phase && c.matches url

def hasBodyRule (rules : List CompiledRewrite) : Bool := rules.any fun c => c.rule.action = .replaceBody

end Compiling

section Heads
variable (u : CaseTables)

def applyHeaderRewrite (r : RewriteRule) (hs : List Hdr) : List Hdr :=
  match r.action with
  | .addHeader => add hs r.header r.value
  | .setHeader => set u hs r.header r.value
  | .removeHeader => del u hs r.header
  | _ => hs

def applyHeaderRewrites (rules : List CompiledRewrite) (hs : List Hdr) : List Hdr × List Bytes :=
  (rules.foldl (fun hs c => applyHeaderRewrite u c.rule hs) hs,
    (rules.filter fun c => c.rule.action = .addHeader ∨ c.rule.action = .setHeader ∨
      c.rule.action = .removeHeader).map fun c => c.rule.id)

structure Prepared where
  req : ReqHead
  changed : Bool
  isWS : Bool
  bufferRes : Bool

def prepareRequest (reqRules resRules : List CompiledRewrite) (req : ReqHead) : Prepared :=
  let (hs, ids) := applyHeaderRewrites u reqRules req.headers
  let isWS := hasToken (tokens u hs (text "Upgrade")) (text "websocket")
  let deflate := isWS && has u hs (text "Sec-WebSocket-Extensions")
  let hs := if deflate then del u hs (text "Sec-WebSocket-Extensions") else hs
  let bufferRes := hasBodyRule resRules && !isWS
  let recode := bufferRes && !equalFold u (get u hs (text "Accept-Encoding")) (text "gzip") &&
    has u hs (text "Accept-Encoding")
  let hs := if recode then set u hs (text "Accept-Encoding") (text "gzip") else hs
  ⟨{ req with headers := hs }, ids ≠ [] || deflate || recode, isWS, bufferRes⟩

def Prepared.dropExpect (p : Prepared) : Prepared :=
  if hasToken (tokens u p.req.headers (text "Expect")) (text "100-continue") then
    { p with req := { p.req with headers := del u p.req.headers (text "Expect") }, changed := true }
  else p

def rewrittenHeaders (hs : List Hdr) (body : Bytes) : List Hdr :=
  set u (del u (del u hs (text "Transfer-Encoding")) (text "Content-Encoding")) (text "Content-Length")
    (itoa body.length)

/-- The head serveHTTP1 writes for a request: `none` is the nil slice. -/
def requestHeadFor (raw : Bytes) (req : ReqHead) (changed : Bool) (newBody : Option Bytes) : Bytes :=
  match newBody with
  | some body => ReqHead.serialize { req with headers := rewrittenHeaders u req.headers body }
  | none => if changed then req.serialize else raw

def responseHeadFor (raw : Bytes) (res : ResHead) (changed : Bool) (newBody : Option Bytes) : Bytes :=
  match newBody with
  | some body => ResHead.serialize { res with headers := rewrittenHeaders u res.headers body }
  | none => if changed then res.serialize else raw

end Heads

section Bodies

/-- One replaceBody rule. ReplaceAll of a regular expression appends to a nil slice, so an
    empty result is nil; bytes.ReplaceAll copies an input without a match, so only an empty
    input gives nil. -/
def replaceBody (c : CompiledRewrite) (body : Bytes) : Option Bytes :=
  match c.bodyRe with
  | some re => if re body c.rule.replace = [] then none else some (re body c.rule.replace)
  | none => if body = [] then none else some (replaceAll c.rule.find c.rule.replace body)

def bodyRewriteLoop : List CompiledRewrite → Option Bytes → List Bytes → Option Bytes × List Bytes
  | [], body, applied => (body, applied)
  | c :: rules, body, applied =>
    if c.rule.action = .replaceBody then
      let next := replaceBody c (body.getD [])
      bodyRewriteLoop rules next
        (if next.getD [] = body.getD [] then applied else applied ++ [c.rule.id])
    else bodyRewriteLoop rules body applied

def applyBodyRewrites (rules : List CompiledRewrite) (body : Bytes) : Option Bytes × List Bytes :=
  bodyRewriteLoop rules (some body) []

structure Codecs where
  gzip : Bytes → Option (Bytes × Bool)
  zlib : Bytes → Option (Bytes × Bool)
  flate : Bytes → Bytes × Bool

def rewriteBufferLimit : Nat := 2 ^ 20

def rewriteDecodeLimit : Nat := 2 ^ 22

/-- io.ReadAll under the decode limit: an error behind the limit is not met. -/
def decodeAll (out : Bytes × Bool) : Option Bytes :=
  if rewriteDecodeLimit < out.1.length ∨ out.2 = true then none else some out.1

def decodeBody (k : Codecs) (u : CaseTables) (data encoding : Bytes) : Option Bytes :=
  let enc := toLower u (trimSpace encoding)
  if enc = [] ∨ enc = text "identity" then some data
  else if enc = text "gzip" ∨ enc = text "x-gzip" then (k.gzip data).bind decodeAll
  else if enc = text "deflate" then decodeAll ((k.zlib data).getD (k.flate data))
  else none

end Bodies

section Edits
variable {u : CaseTables} {req : ReqHead} {reqRules : List CompiledRewrite} {hs : List Hdr}

abbrev BodyOnly (rules : List CompiledRewrite) : Prop := ∀ c ∈ rules, c.rule.action = .replaceBody

theorem apply_header_body_only {rules : List CompiledRewrite} (only : BodyOnly rules) (hs : List Hdr) :
    applyHeaderRewrites u rules hs = (hs, []) := by
  induction rules with
  | nil => rfl
  | cons c rules ih =>
    have here := only c (by simp)
    have rest := ih fun d member => only d (by simp [member])
    simp only [applyHeaderRewrites, Prod.mk.injEq] at rest ⊢
    simpa [here, applyHeaderRewrite] using rest

theorem prepare_fields {name : Bytes} (encoding : equalFold u (text "Accept-Encoding") name = false)
    (extensions : equalFold u (text "Sec-WebSocket-Extensions") name = false)
    (reqRules resRules : List CompiledRewrite) (req : ReqHead) :
    fields u (prepareRequest u reqRules resRules req).req.headers name =
      fields u (applyHeaderRewrites u reqRules req.headers).1 name := by
  simp only [prepareRequest]
  split <;> split <;> simp only [fields_set_other encoding, fields_del_other extensions]

theorem drop_expect_fields {name : Bytes} (apart : equalFold u (text "Expect") name = false) (p : Prepared) :
    fields u (p.dropExpect u).req.headers name = fields u p.req.headers name := by
  unfold Prepared.dropExpect
  split
  · exact fields_del_other apart _
  · rfl

theorem prepare_framing (reqRules resRules : List CompiledRewrite) (req : ReqHead) :
    requestFraming u (prepareRequest u reqRules resRules req).req =
      requestFraming u { req with headers := (applyHeaderRewrites u reqRules req.headers).1 } :=
  request_framing_fields (prepare_fields (fold_apart (by decide)) (fold_apart (by decide)) _ _ _)
    (prepare_fields (fold_apart (by decide)) (fold_apart (by decide)) _ _ _)

theorem drop_expect_framing (p : Prepared) : requestFraming u (p.dropExpect u).req = requestFraming u p.req :=
  request_framing_fields (drop_expect_fields (fold_apart (by decide)) p) (drop_expect_fields (fold_apart (by decide)) p)

theorem printable_prepare (only : BodyOnly reqRules) (resRules : List CompiledRewrite)
    (printable : Printable req.headers) : Printable (prepareRequest u reqRules resRules req).req.headers := by
  have gzip : Clean ⟨text "Accept-Encoding", text "gzip"⟩ :=
    ⟨by decide, by decide, by decide, by decide⟩
  have solid : ¬ StartsBlank (text "Accept-Encoding") := by
    simp only [StartsBlank]
    decide
  simp only [prepareRequest, apply_header_body_only only]
  split
  · split
    · exact printable_set (printable_filter printable _) gzip solid
    · exact printable_filter printable _
  · split
    · exact printable_set printable gzip solid
    · exact printable

theorem req_sound_headers (sound : req.Sound) (printable : Printable hs) : ReqHead.Sound { req with headers := hs } :=
  ⟨sound.method, sound.target, sound.proto, sound.line, sound.ending, printable⟩

theorem res_sound_headers {res : ResHead} (sound : res.Sound) (printable : Printable hs) :
    ResHead.Sound { res with headers := hs } :=
  ⟨sound.proto, sound.space, sound.status, sound.line, sound.ending, printable⟩

theorem prepare_sound (only : BodyOnly reqRules) (resRules : List CompiledRewrite) (sound : req.Sound) :
    ((prepareRequest u reqRules resRules req).dropExpect u).req.Sound := by
  have printable := printable_prepare (u := u) only resRules sound.headers
  have prepared : (prepareRequest u reqRules resRules req).req.Sound := req_sound_headers sound printable
  unfold Prepared.dropExpect
  split
  · exact req_sound_headers prepared (printable_filter printable _)
  · exact prepared

theorem printable_rewritten (printable : Printable hs) (body : Bytes) : Printable (rewrittenHeaders u hs body) := by
  apply printable_set (printable_filter (printable_filter printable _) _)
  · have name : text "Content-Length" ≠ [] ∧ 58 ∉ text "Content-Length" ∧ 10 ∉ text "Content-Length" := by
      decide
    exact ⟨name.1, name.2.1, name.2.2, itoa_clean _ (by decide)⟩
  · simp only [StartsBlank]
    decide

theorem rewritten_coding (hs : List Hdr) (body : Bytes) :
    fields u (rewrittenHeaders u hs body) (text "Transfer-Encoding") = [] := by
  rw [rewrittenHeaders, fields_set_other (fold_apart (by decide)), fields_del_other (fold_apart (by decide)),
    fields_del_self]

theorem rewritten_length (hs : List Hdr) {body : Bytes} (fits : body.length < 2 ^ 63) :
    contentLength u (rewrittenHeaders u hs body) = .ok (some body.length) :=
  content_length_values fits (fields_set_values _ _ _)

end Edits

end MessageRewrites
