import RootShell.MessageRewrites

/-!
Forwarding a message whose body is held back for rewriting (spillBuffer in
vpntunnel/http1.go, forwardBufferedBody in vpntunnel/proxy_h1.go). A body that
outgrows the buffer is spilled: head and body go through as they are.
-/
namespace BufferedForward
open ByteLines ByteText BufferedReader HeadReading HeaderLists FallibleState BodyFraming MessageRewrites

variable {p payload body framed encoding method f message rest name front : Bytes} {ids : List Bytes}

structure Wire where
  sent : Bytes
  room : Option Nat
  deriving DecidableEq, Repr

def Wire.write (w : Wire) (p : Bytes) : Option HttpError × Wire :=
  match w.room with
  | none => (none, ⟨w.sent ++ p, none⟩)
  | some n =>
    if p.length ≤ n then (none, ⟨w.sent ++ p, some (n - p.length)⟩)
    else (some .writeFailed, ⟨w.sent ++ p.take n, some 0⟩)

theorem wire_write_ok {w next : Wire} (passed : w.write p = (none, next)) : next.sent = w.sent ++ p := by
  unfold Wire.write at passed
  split at passed
  · cases passed
    rfl
  · split at passed
    · cases passed
      rfl
    · cases passed

/-- The buffers of a body that may be rewritten, with the connection it goes to and what
    the recorder's sink was given. -/
structure Spill where
  raw : Bytes
  data : Bytes
  spilled : Bool
  err : Option HttpError
  wire : Wire
  sunk : Bytes

def rawLimit (limit : Nat) : Nat := limit + 64 * 1024

section Spilling
variable (limit : Nat) (head : Bytes)

def Spill.spill (s : Spill) : Option HttpError × Spill :=
  match s.wire.write head with
  | (some e, wire) => (some e, { s with err := some e, wire := wire })
  | (none, wire) =>
    match wire.write s.raw with
    | (some e, wire) => (some e, { s with err := some e, wire := wire })
    | (none, wire) =>
      (none, { s with raw := [], data := [], spilled := true, wire := wire, sunk := s.sunk ++ s.data })

/-- The write behind the limit check of spillRaw. -/
def Spill.keepRaw (s : Spill) (p : Bytes) : Option HttpError × Spill :=
  if s.spilled then
    match s.wire.write p with
    | (err, wire) => (err, { s with wire := wire })
  else (none, { s with raw := s.raw ++ p })

def spillRaw (s : Spill) (p : Bytes) : Option HttpError × Spill :=
  match s.err with
  | some e => (some e, s)
  | none =>
    if s.spilled = false ∧ rawLimit limit < s.raw.length + p.length then
      match s.spill head with
      | (some e, s) => (some e, s)
      | (none, s) => s.keepRaw p
    else s.keepRaw p

def spillData (s : Spill) (p : Bytes) : Option HttpError × Spill :=
  if s.spilled then (none, { s with sunk := s.sunk ++ p })
  else
    let kept := { s with data := s.data ++ p }
    if limit < kept.data.length then kept.spill head else (none, kept)

def spillWriters : Writers Spill := ⟨spillRaw limit head, spillData limit head⟩

end Spilling

def emit (message body : Bytes) : Copy Spill Unit := fun (r, s) =>
  match s.wire.write message with
  | (none, wire) => (.ok (), (r, { s with wire := wire, sunk := s.sunk ++ body }))
  | (some e, wire) => (.error e, (r, { s with wire := wire }))

def buffered : Copy Spill Spill := fun (r, s) => (.ok s, (r, s))

def rewrittenBody (k : Codecs) (u : CaseTables) (rules : List CompiledRewrite) (encoding data : Bytes) :
    Option (Option Bytes × List Bytes) :=
  match decodeBody k u data encoding with
  | some decoded =>
    if (applyBodyRewrites rules decoded).2 ≠ [] then some (applyBodyRewrites rules decoded) else none
  | none => none

def forwardBufferedBody (k : Codecs) (u : CaseTables) (framing : Framing) (rules : List CompiledRewrite)
    (encoding : Bytes) (headFor : Option Bytes → Bytes) : Copy Spill (List Bytes) := do
  copyBody (spillWriters rewriteBufferLimit (headFor none)) framing
  let s ← buffered
  if s.spilled then pure []
  else
    match rewrittenBody k u rules encoding s.data with
    | some (out, ids) =>
      emit (headFor out ++ out.getD []) (out.getD [])
      pure ids
    | none =>
      emit (headFor none ++ s.raw) s.data
      pure []

def startSpill (wire : Wire) : Spill := ⟨[], [], false, none, wire, []⟩

variable {s s' : Spill}

section Invariant
variable {limit : Nat} {head : Bytes} {start : Wire}

inductive SpillState (limit : Nat) (head : Bytes) (start : Wire) (framed payload : Bytes) (s : Spill) : Prop where
  | held (clean : s.err = none) (kept : s.spilled = false) (raw : s.raw = framed) (data : s.data = payload)
      (wire : s.wire = start) (sunk : s.sunk = []) (small : payload.length ≤ limit)
      (fits : framed.length ≤ rawLimit limit)
  | spilled (clean : s.err = none) (gone : s.spilled = true)
      (sent : s.wire.sent = start.sent ++ head ++ framed) (sunk : s.sunk = payload)
      (large : limit < payload.length ∨ rawLimit limit < framed.length)

theorem spill_ok (passed : s.spill head = (none, s')) :
    s'.err = s.err ∧ s'.spilled = true ∧ s'.wire.sent = s.wire.sent ++ head ++ s.raw ∧
      s'.sunk = s.sunk ++ s.data := by
  unfold Spill.spill at passed
  split at passed
  · cases passed
  · rename_i wire first
    split at passed
    · cases passed
    · rename_i wire' second
      cases passed
      exact ⟨rfl, rfl, by rw [wire_write_ok second, wire_write_ok first], rfl⟩

theorem keep_raw_spilled (gone : s.spilled = true) (passed : s.keepRaw p = (none, s')) :
    s'.err = s.err ∧ s'.spilled = true ∧ s'.wire.sent = s.wire.sent ++ p ∧ s'.sunk = s.sunk := by
  simp only [Spill.keepRaw, gone, ↓reduceIte, Prod.mk.injEq] at passed
  obtain ⟨ok, rfl⟩ := passed
  exact ⟨rfl, rfl, wire_write_ok (Prod.ext ok rfl), rfl⟩

theorem spill_raw_step (state : SpillState limit head start framed payload s)
    (passed : spillRaw limit head s p = (none, s')) : SpillState limit head start (framed ++ p) payload s' := by
  cases state with
  | held clean kept raw data wire sunk small fits =>
    simp only [spillRaw, clean, kept, true_and] at passed
    split at passed
    · rename_i large
      split at passed
      · cases passed
      · rename_i t spilling
        obtain ⟨err, gone, sent, sunk'⟩ := spill_ok spilling
        obtain ⟨err', gone', sent', sunk''⟩ := keep_raw_spilled gone passed
        refine SpillState.spilled (by rw [err', err, clean]) gone' ?_ ?_ (Or.inr ?_)
        · rw [sent', sent, raw, wire, ← List.append_assoc]
        · rw [sunk'', sunk', sunk, data, List.nil_append]
        · rw [List.length_append, ← raw]
          exact large
    · rename_i room
      simp only [Spill.keepRaw, kept, Bool.false_eq_true, ↓reduceIte, Prod.mk.injEq, true_and] at passed
      subst passed
      refine SpillState.held clean rfl (by rw [raw]) data wire sunk small ?_
      rw [List.length_append, ← raw]
      omega
  | spilled clean gone sent sunk large =>
    simp only [spillRaw, clean, gone, Bool.true_eq_false, false_and, ↓reduceIte] at passed
    obtain ⟨err', gone', sent', sunk'⟩ := keep_raw_spilled gone passed
    refine SpillState.spilled (by rw [err', clean]) gone' ?_ (by rw [sunk', sunk]) ?_
    · rw [sent', sent, ← List.append_assoc]
    · rw [List.length_append]
      omega

theorem spill_data_step (state : SpillState limit head start framed payload s)
    (passed : spillData limit head s p = (none, s')) : SpillState limit head start framed (payload ++ p) s' := by
  cases state with
  | held clean kept raw data wire sunk small fits =>
    simp only [spillData, kept, Bool.false_eq_true, ↓reduceIte] at passed
    split at passed
    · rename_i large
      obtain ⟨err, gone, sent, sunk'⟩ := spill_ok passed
      refine SpillState.spilled (by rw [err, clean]) gone ?_ ?_ (Or.inl ?_)
      · rw [sent, raw, wire]
      · rw [sunk', sunk, data, List.nil_append]
      · rw [← data]
        exact large
    · rename_i room
      simp only [Prod.mk.injEq, true_and] at passed
      subst passed
      refine SpillState.held clean rfl raw (by rw [data]) wire sunk ?_ fits
      rw [← data]
      simpa using room
  | spilled clean gone sent sunk large =>
    simp only [spillData, gone, ↓reduceIte, Prod.mk.injEq, true_and] at passed
    subst passed
    refine SpillState.spilled clean rfl sent (by rw [sunk]) ?_
    rw [List.length_append]
    omega

theorem spill_fed (fed : Fed (spillWriters limit head) s f p s')
    (state : SpillState limit head start framed payload s) :
    SpillState limit head start (framed ++ f) (payload ++ p) s' := by
  induction fed generalizing framed payload with
  | nil => simpa using state
  | line sent _ ih => simpa using ih (spill_raw_step state sent)
  | data sunk sent _ ih => simpa using ih (spill_raw_step (spill_data_step state sunk) sent)

theorem start_spill_state : SpillState limit head start [] [] (startSpill start) :=
  SpillState.held rfl rfl rfl rfl rfl rfl (Nat.zero_le _) (Nat.zero_le _)

end Invariant

section Outcome
variable {k : Codecs} {u : CaseTables} {rules : List CompiledRewrite} {r next : BufReader}

def Fits (framed payload : Bytes) : Prop :=
  payload.length ≤ rewriteBufferLimit ∧ framed.length ≤ rawLimit rewriteBufferLimit

theorem emit_ok {a : Unit} (passed : (emit message body).from (r, s) = (.ok a, (next, s'))) :
    next = r ∧ s'.wire.sent = s.wire.sent ++ message := by
  simp only [Prog.from, emit] at passed
  rcases writing : s.wire.write message with ⟨err, wire⟩
  rw [writing] at passed
  cases err with
  | none =>
    cases passed
    exact ⟨rfl, wire_write_ok writing⟩
  | some e => cases passed

theorem emit_last_ok {changed : List Bytes}
    (passed : (do emit message body; pure changed : Copy Spill (List Bytes)).from (r, s) = (.ok ids, (next, s'))) :
    changed = ids ∧ next = r ∧ s'.wire.sent = s.wire.sent ++ message := by
  obtain ⟨_, ⟨mid, last⟩, writing, returning⟩ := bind_ok passed
  rw [run_pure] at returning
  cases returning
  exact ⟨rfl, emit_ok writing⟩

theorem emit_reader (message body : Bytes) (r : BufReader) (s : Spill) :
    ((emit message body).from (r, s)).2.1 = r := by
  simp only [Prog.from, emit]
  rcases s.wire.write message with ⟨_ | e, wire⟩ <;> rfl

theorem forward_within (k : Codecs) (u : CaseTables) {framing : Framing} (rules : List CompiledRewrite)
    (encoding : Bytes) (headFor : Option Bytes → Bytes) (framed : Framed framing body payload)
    (closed : framing = .untilClose → rest = []) (valid : r.WellFormed) (s : Spill) (stream : r.stream = body ++ rest) :
    Within r.size rest ((forwardBufferedBody k u framing rules encoding headFor).from (r, s)) := by
  unfold forwardBufferedBody
  refine bind_within [] (copy_body_within _ framed closed valid s stream) ?_
  intro _ next s' valid' size stream'
  have there : ∀ (ids : List Bytes) (message data : Bytes),
      Within r.size rest ((do emit message data; pure ids : Copy Spill (List Bytes)).from (next, s')) := by
    intro ids message data
    have reader := emit_reader message data next s'
    rcases ending : (emit message data).from (next, s') with ⟨out, last, s''⟩
    obtain rfl : last = next := by simpa [ending] using reader
    cases out with
    | ok a =>
      rw [run_bind_ok ending]
      exact ⟨valid', size, [], stream', by simp⟩
    | error e =>
      rw [run_bind_error ending]
      exact within_error valid' size stream'
  rw [run_bind_ok (show buffered.from (next, s') = (.ok s', (next, s')) from rfl)]
  split
  · exact ⟨valid', size, [], stream', by simp⟩
  · split
    · exact there _ _ _
    · exact there _ _ _

inductive Forwarded (k : Codecs) (u : CaseTables) (rules : List CompiledRewrite) (encoding : Bytes)
    (headFor : Option Bytes → Bytes) (framed payload : Bytes) : List Bytes → Bytes → Prop where
  | through (spared : Fits framed payload → rewrittenBody k u rules encoding payload = none) :
      Forwarded k u rules encoding headFor framed payload [] (headFor none ++ framed)
  | rewritten {out : Option Bytes} {ids : List Bytes} (fits : Fits framed payload)
      (body : rewrittenBody k u rules encoding payload = some (out, ids)) :
      Forwarded k u rules encoding headFor framed payload ids (headFor out ++ out.getD [])

theorem forward_ok {framing : Framing} {headFor : Option Bytes → Bytes}
    (valid : r.WellFormed) {wire : Wire}
    (passed : (forwardBufferedBody k u framing rules encoding headFor).from (r, startSpill wire) =
      (.ok ids, (next, s))) :
    ∃ framed payload message, Framed framing framed payload ∧ r.stream = framed ++ next.stream ∧
      (framing = .untilClose → next.stream = []) ∧ s.wire.sent = wire.sent ++ message ∧
      Forwarded k u rules encoding headFor framed payload ids message := by
  unfold forwardBufferedBody at passed
  obtain ⟨_, ⟨r1, s1⟩, copying, tail1⟩ := bind_ok passed
  obtain ⟨framed, payload, body, fed, stream, valid1, size1, drained⟩ := copy_body_ok valid copying
  obtain ⟨_, _, peek, tail2⟩ := bind_ok tail1
  cases peek
  have state := spill_fed fed start_spill_state
  rw [List.nil_append, List.nil_append] at state
  cases state with
  | spilled clean gone sent sunk large =>
    rw [if_pos gone, run_pure] at tail2
    cases tail2
    refine ⟨framed, payload, headFor none ++ framed, body, stream, drained, by simp [sent], ?_⟩
    exact Forwarded.through fun fits => by
      obtain ⟨small, room⟩ := fits
      omega
  | held clean kept raw data held sunk small fits =>
    rw [if_neg (by simp [kept]), raw, data] at tail2
    cases result : rewrittenBody k u rules encoding payload with
    | none =>
      simp only [result] at tail2
      obtain ⟨rfl, rfl, sent⟩ := emit_last_ok tail2
      exact ⟨framed, payload, _, body, stream, drained, by rw [sent, held],
        Forwarded.through fun _ => result⟩
    | some pair =>
      obtain ⟨out, changed⟩ := pair
      simp only [result] at tail2
      obtain ⟨rfl, rfl, sent⟩ := emit_last_ok tail2
      exact ⟨framed, payload, _, body, stream, drained, by rw [sent, held],
        Forwarded.rewritten ⟨small, fits⟩ result⟩

end Outcome

section Delimiting
variable {u : CaseTables} {rules : List CompiledRewrite} {k : Codecs} {req : ReqHead}
  {res : ResHead}

/-- A message whose body is to be forwarded: the raw head, the head as edited so far, and
    whether it was edited. A response also answers a method. -/
inductive Message where
  | request (raw : Bytes) (req : ReqHead) (changed : Bool)
  | response (method raw : Bytes) (res : ResHead) (changed : Bool)

def Message.headFor (u : CaseTables) : Message → Option Bytes → Bytes
  | .request raw req changed => requestHeadFor u raw req changed
  | .response _ raw res changed => responseHeadFor u raw res changed

def Message.framing (u : CaseTables) : Message → Except HttpError Framing
  | .request _ req _ => requestFraming u req
  | .response method _ res _ => responseFraming u method res

inductive Peer where
  | upstream
  | client (method : Bytes)

def Message.peer : Message → Peer
  | .request .. => .upstream
  | .response method .. => .client method

def Peer.reads (u : CaseTables) : Peer → Bytes → Except HttpError (List Hdr × Framing)
  | .upstream, head => do
    let req ← parseRequestHead head
    let framing ← requestFraming u req
    pure (req.headers, framing)
  | .client method, head => do
    let res ← parseResponseHead head
    let framing ← responseFraming u method res
    pure (res.headers, framing)

inductive Served (u : CaseTables) (rules : List CompiledRewrite) : Message → Prop where
  | request (head : HeadLines) {orig : ReqHead} (parsed : parseRequestHead head.bytes = .ok orig)
      (resRules : List CompiledRewrite) :
      Served u rules (.request head.bytes ((prepareRequest u rules resRules orig).dropExpect u).req
        ((prepareRequest u rules resRules orig).dropExpect u).changed)
  | response (head : HeadLines) {orig : ResHead} (parsed : parseResponseHead head.bytes = .ok orig)
      {method : Bytes} (answered : ¬ Tunnelled method orig.status) :
      Served u rules (.response method head.bytes
        { orig with headers := (applyHeaderRewrites u rules orig.headers).1 }
        ((applyHeaderRewrites u rules orig.headers).2 ≠ []))

def SelfDelimiting (u : CaseTables) (peer : Peer) (ids : List Bytes) (message : Bytes) : Prop :=
  ∃ (head : HeadLines) (body payload : Bytes) (hs : List Hdr) (framing : Framing),
    message = head.bytes ++ body ∧ peer.reads u head.bytes = .ok (hs, framing) ∧
      Framed framing body payload ∧
      (ids ≠ [] → contentLength u hs = .ok (some body.length) ∧ has u hs (text "Transfer-Encoding") = false)

theorem has_fields (hs : List Hdr) (name : Bytes) : has u hs name = false ↔ fields u hs name = [] := by
  simp [has, fields]

theorem fields_nil_trimmed {hs : List Hdr} (none : fields u hs name = []) : fields u (hs.map trimmed) name = [] := by
  rw [fields_trimmed, none]
  rfl

theorem req_line_some (r : ReqHead) : r.line ≠ [] := by simp [ReqHead.line]

theorem res_line_some (r : ResHead) : r.line ≠ [] := by simp [ResHead.line]

theorem reads_request (sound : req.Sound) {framing : Framing} (framed : requestFraming u req = .ok framing) :
    Peer.upstream.reads u req.serialize = .ok (req.headers.map trimmed, framing) := by
  simp only [Peer.reads, parse_request_serialize sound, bind, Except.bind, request_framing_trimmed,
    framed, pure, Except.pure]

theorem reads_response (sound : res.Sound) {framing : Framing} (framed : responseFraming u method res = .ok framing) :
    (Peer.client method).reads u res.serialize = .ok (res.headers.map trimmed, framing) := by
  simp only [Peer.reads, parse_response_serialize sound, bind, Except.bind, response_framing_trimmed,
    framed, pure, Except.pure]

theorem serialize_req_lines (sound : req.Sound) : ∃ head : HeadLines, head.bytes = req.serialize :=
  serialize_head_lines (req_line_some req) sound.line sound.headers.clean

theorem serialize_res_lines (sound : res.Sound) : ∃ head : HeadLines, head.bytes = res.serialize :=
  serialize_head_lines (res_line_some res) sound.line sound.headers.clean

theorem request_framing_zero {r : ReqHead} (zero : contentLength u r.headers = .ok (some 0))
    (coding : has u r.headers (text "Transfer-Encoding") = false) : requestFraming u r = .ok .none := by
  rw [has_fields] at coding
  simp [requestFraming, tokens, coding, zero, bind, Except.bind, pure, Except.pure]

theorem response_framing_zero {r : ResHead} (answered : ¬ Tunnelled method r.status)
    (zero : contentLength u r.headers = .ok (some 0)) (coding : has u r.headers (text "Transfer-Encoding") = false) :
    responseFraming u method r = .ok .none := by
  rw [has_fields] at coding
  unfold responseFraming
  split
  · rfl
  · simp [tokens, coding, zero, bind, Except.bind, pure, Except.pure]

variable {m : Message}

theorem reads_original (served : Served u rules m) (only : BodyOnly rules)
    {framing : Framing} (framed : m.framing u = .ok framing) (some : framing ≠ .none) :
    ∃ (head : HeadLines) (hs : List Hdr), head.bytes = m.headFor u none ∧
      m.peer.reads u head.bytes = .ok (hs, framing) ∧
      ¬ (contentLength u hs = .ok (Option.some 0) ∧ has u hs (text "Transfer-Encoding") = false) := by
  cases served with
  | request head parsed resRules =>
    rename_i orig
    simp only [Message.framing] at framed
    cases changed : ((prepareRequest u rules resRules orig).dropExpect u).changed with
    | false =>
      have same : requestFraming u orig = .ok framing := by
        rw [drop_expect_framing, prepare_framing, apply_header_body_only only] at framed
        exact framed
      refine ⟨head, orig.headers, by simp [Message.headFor, requestHeadFor], ?_, ?_⟩
      · simp [Message.peer, Peer.reads, parsed, bind, Except.bind, same, pure, Except.pure]
      · rintro ⟨zero, coding⟩
        exact some (Except.ok.inj (same.symm.trans (request_framing_zero zero coding)))
    | true =>
      have sound := prepare_sound (u := u) only resRules (parse_request_sound parsed)
      obtain ⟨printed, eq⟩ := serialize_req_lines sound
      have declared := reads_request sound framed
      refine ⟨printed, _, by simp [Message.headFor, requestHeadFor, eq], eq ▸ declared, ?_⟩
      rintro ⟨zero, coding⟩
      rw [content_length_trimmed] at zero
      rw [has_fields, fields_trimmed, List.map_eq_nil_iff, ← has_fields] at coding
      exact some (Except.ok.inj (framed.symm.trans (request_framing_zero zero coding)))
  | response head parsed answered =>
    rename_i orig method
    have edits := apply_header_body_only (u := u) only orig.headers
    simp only [Message.framing, edits] at framed
    have same : responseFraming u method orig = .ok framing := framed
    refine ⟨head, orig.headers, by simp [Message.headFor, responseHeadFor, edits], ?_, ?_⟩
    · simp [Message.peer, Peer.reads, parsed, bind, Except.bind, same, pure, Except.pure]
    · rintro ⟨zero, coding⟩
      exact some (Except.ok.inj (same.symm.trans (response_framing_zero answered zero coding)))

theorem request_framing_rewritten (fits : body.length < 2 ^ 63) :
    requestFraming u { req with headers := rewrittenHeaders u req.headers body } =
      .ok (if body.length = 0 then .none else .length body.length) := by
  have coding := rewritten_coding (u := u) req.headers body
  have length := rewritten_length (u := u) req.headers fits
  simp only [requestFraming, tokens, coding, length, List.flatMap_nil, List.getLast?_nil, bind, Except.bind]
  by_cases empty : body.length = 0
  · simp [empty, pure, Except.pure]
  · simp [empty, pure, Except.pure, Nat.pos_of_ne_zero empty]

theorem response_framing_rewritten (fits : body.length < 2 ^ 63)
    (bodied : ¬ Bodiless method res.status) (answered : ¬ Tunnelled method res.status) :
    responseFraming u method { res with headers := rewrittenHeaders u res.headers body } =
      .ok (if body.length = 0 then .none else .length body.length) := by
  have coding := rewritten_coding (u := u) res.headers body
  have length := rewritten_length (u := u) res.headers fits
  simp only [responseFraming, bodied, answered, ↓reduceIte, tokens, coding, length, List.flatMap_nil,
    List.getLast?_nil, bind, Except.bind]
  by_cases empty : body.length = 0
  · simp [empty, pure, Except.pure]
  · simp [empty, pure, Except.pure]

theorem bodied_of_framing {framing : Framing} (framed : responseFraming u method res = .ok framing)
    (some : framing ≠ .none) : ¬ Bodiless method res.status := by
  intro bodiless
  simp only [responseFraming, bodiless, ↓reduceIte] at framed
  exact some (Except.ok.inj framed).symm

theorem reads_rewritten (served : Served u rules m) (only : BodyOnly rules) {framing : Framing}
    (framed : m.framing u = .ok framing) (some : framing ≠ .none) (fits : body.length < 2 ^ 63) :
    ∃ (head : HeadLines) (hs : List Hdr), head.bytes = m.headFor u (Option.some body) ∧
      m.peer.reads u head.bytes = .ok (hs, if body.length = 0 then .none else .length body.length) ∧
      contentLength u hs = .ok (Option.some body.length) ∧ has u hs (text "Transfer-Encoding") = false := by
  cases served with
  | request head parsed resRules =>
    rename_i orig
    have sound := prepare_sound (u := u) only resRules (parse_request_sound parsed)
    have edited := req_sound_headers sound (printable_rewritten (u := u) sound.headers body)
    obtain ⟨printed, eq⟩ := serialize_req_lines edited
    have declared := reads_request edited (request_framing_rewritten (u := u) fits)
    refine ⟨printed, _, eq, eq ▸ declared, ?_, ?_⟩
    · rw [content_length_trimmed]
      exact rewritten_length _ fits
    · exact (has_fields _ _).mpr (fields_nil_trimmed (rewritten_coding _ _))
  | response head parsed answered =>
    rename_i orig method
    have edits := apply_header_body_only (u := u) only orig.headers
    have sound := parse_response_sound parsed
    have edited := res_sound_headers sound (printable_rewritten (u := u) sound.headers body)
    obtain ⟨printed, eq⟩ := serialize_res_lines edited
    simp only [Message.framing, edits] at framed
    have bodied : ¬ Bodiless method orig.status := bodied_of_framing framed some
    have declared := reads_response edited (response_framing_rewritten (u := u) fits bodied answered)
    refine ⟨printed, _, by rw [eq]; simp [Message.headFor, responseHeadFor, edits], eq ▸ declared, ?_, ?_⟩
    · rw [content_length_trimmed]
      exact rewritten_length _ fits
    · exact (has_fields _ _).mpr (fields_nil_trimmed (rewritten_coding _ _))

/-- The body that comes next on the stream is held, the rules change it, and the slice they
    leave is nil: the last rule is a regular expression whose result is empty, or a literal
    one that is given an empty body. -/
def Erased (k : Codecs) (u : CaseTables) (rules : List CompiledRewrite) (encoding : Bytes) (framing : Framing)
    (stream : Bytes) : Prop :=
  ∃ framed payload rest ids, stream = framed ++ rest ∧ (framing = .untilClose → rest = []) ∧
    Framed framing framed payload ∧ Fits framed payload ∧
    rewrittenBody k u rules encoding payload = some (none, ids)

theorem rewritten_ids {out : Option Bytes}
    (body : rewrittenBody k u rules encoding payload = some (out, ids)) : ids ≠ [] := by
  unfold rewrittenBody at body
  split at body
  · split at body
    · rename_i changed
      rw [Option.some.inj body] at changed
      exact changed
    · cases body
  · cases body

theorem erased_not_delimiting (served : Served u rules m) (only : BodyOnly rules)
    {framing : Framing} (framed : m.framing u = .ok framing) (some : framing ≠ .none)
    (changed : ids ≠ []) : ¬ SelfDelimiting u m.peer ids (m.headFor u none) := by
  obtain ⟨head, hs, eq, reads, bodied⟩ := reads_original served only framed some
  rintro ⟨head', body, payload, hs', framing', split, reads', _, declared⟩
  rw [← eq] at split
  obtain ⟨same, rfl⟩ := head_bytes_unique ((List.append_nil _).trans split)
  rw [← same, reads] at reads'
  cases reads'
  exact bodied (declared changed)

/-- A message forwarded without an error is self-delimiting unless its body was erased. -/
theorem forward_delimiting_iff (k : Codecs) (u : CaseTables) (rules : List CompiledRewrite)
    (only : BodyOnly rules) (m : Message) (served : Served u rules m) (framing : Framing)
    (framed : m.framing u = .ok framing) (some : framing ≠ .none) (encoding : Bytes) (r next : BufReader)
    (valid : r.WellFormed) (room : Option Nat) (s : Spill) (ids : List Bytes)
    (bounded : ∀ front payload body ids, front <+: r.stream → Framed framing front payload →
      rewrittenBody k u rules encoding payload = Option.some (Option.some body, ids) → body.length < 2 ^ 63)
    (returned : (forwardBufferedBody k u framing rules encoding (m.headFor u)).from
      (r, startSpill ⟨[], room⟩) = (.ok ids, (next, s))) :
    SelfDelimiting u m.peer ids s.wire.sent ↔ ¬ Erased k u rules encoding framing r.stream := by
  obtain ⟨body, payload, message, delimited, stream, drained, sent, forwarded⟩ := forward_ok valid returned
  rw [show s.wire.sent = message by simpa using sent]
  constructor
  · rintro delimiting ⟨body', payload', rest, ids', stream', closed, delimited', fits, erased⟩
    obtain ⟨rfl, rfl, _⟩ := framed_unique delimited delimited' (stream.symm.trans stream')
      fun ends => ⟨drained ends, closed ends⟩
    cases forwarded with
    | through spared =>
      rw [spared fits] at erased
      cases erased
    | rewritten _ result =>
      rw [erased] at result
      cases result
      rw [Option.getD_none, List.append_nil] at delimiting
      exact erased_not_delimiting served only framed some (rewritten_ids erased) delimiting
  · intro kept
    cases forwarded with
    | through =>
      obtain ⟨head, hs, eq, reads, _⟩ := reads_original served only framed some
      exact ⟨head, body, payload, hs, framing, by rw [eq], reads, delimited, by simp⟩
    | @rewritten out _ fits result =>
      cases out with
      | none => exact absurd ⟨body, payload, next.stream, ids, stream, drained, delimited, fits, result⟩ kept
      | some new =>
        have small := bounded body payload new ids (stream ▸ List.prefix_append _ _) delimited result
        obtain ⟨head, hs, eq, reads, length, coding⟩ := reads_rewritten served only framed some small
        refine ⟨head, new, new, hs, _, by rw [eq, Option.getD_some], reads, ?_, fun _ => ⟨length, coding⟩⟩
        split
        · rename_i empty
          have := List.length_eq_zero_iff.mp empty
          exact ⟨this, this⟩
        · exact ⟨rfl, rfl⟩

end Delimiting

def plainRegexps : Regexps :=
  ⟨fun p => some fun url => contains p url, fun p => some fun body repl => MarkerRemoval.replaceAll p repl body⟩

def noCodecs : Codecs := ⟨fun _ => none, fun _ => none, fun _ => ([], true)⟩

def bodyRule (find replace : Bytes) (regex : Bool) : RewriteRule :=
  ⟨text "r1", true, text "*", false, .request, .replaceBody, [], [], find, replace, regex⟩

def postHead : HeadLines where
  lines := [text "POST / HTTP/1.1\r\n", text "Content-Length: 2\r\n"]
  blank := [13, 10]
  some := by decide
  isLine := by decide
  solid := by decide
  ends := blank_crlf

def postReq : ReqHead := ⟨text "POST", text "/", text "HTTP/1.1", [⟨text "Content-Length", text "2"⟩]⟩

def postReader : BufReader := newReaderSize ⟨text "ab", [], .eof, false, lively_nil⟩ 4096

def postMessage (rules : List CompiledRewrite) : Message :=
  .request postHead.bytes ((prepareRequest latinTables rules [] postReq).dropExpect latinTables).req
    ((prepareRequest latinTables rules [] postReq).dropExpect latinTables).changed

def postForwarded (rules : List CompiledRewrite) : Except HttpError (List Bytes) × (BufReader × Spill) :=
  (forwardBufferedBody noCodecs latinTables (.length 2) rules [] ((postMessage rules).headFor latinTables)).from
    (postReader, startSpill ⟨[], none⟩)

theorem post_served (rules : List CompiledRewrite) : Served latinTables rules (postMessage rules) := by
  have parsed : parseRequestHead postHead.bytes = .ok postReq := by decide
  exact Served.request postHead parsed []

def erasingRules : List CompiledRewrite := compileRewriteRules plainRegexps [bodyRule (text "ab") [] true]

def growingRules : List CompiledRewrite :=
  compileRewriteRules plainRegexps [bodyRule (text "a") (text "cd") false]

/-- A request body that a regular expression empties still goes out behind its old length. -/
theorem empty_rewrite_keeps_length :
    BodyOnly erasingRules ∧ Served latinTables erasingRules (postMessage erasingRules) ∧
      (postMessage erasingRules).framing latinTables = .ok (.length 2) ∧ postReader.WellFormed ∧
      (postForwarded erasingRules).1 = .ok [text "r1"] ∧
      (postForwarded erasingRules).2.2.wire.sent = postHead.bytes ∧
      ¬ SelfDelimiting latinTables (postMessage erasingRules).peer [text "r1"]
        (postForwarded erasingRules).2.2.wire.sent := by
  have only : BodyOnly erasingRules := by decide
  have served := post_served erasingRules
  have framed : (postMessage erasingRules).framing latinTables = .ok (.length 2) := by decide
  have valid : postReader.WellFormed := (new_reader_well_formed _ _).1
  have ids : (postForwarded erasingRules).1 = .ok [text "r1"] := by decide
  have sent : (postForwarded erasingRules).2.2.wire.sent = (postMessage erasingRules).headFor latinTables none := by
    decide
  refine ⟨only, served, framed, valid, ids, sent, ?_⟩
  rw [sent]
  exact erased_not_delimiting served only framed (by decide) (by decide)

theorem post_delimited (stream : text "ab" = front ++ rest)
    (framed : Framed (.length 2) front payload) : payload = text "ab" := by
  obtain ⟨length, rfl⟩ := framed
  exact (List.append_inj_left (show text "ab" ++ [] = _ by rw [List.append_nil]; exact stream)
    (by rw [length]; decide)).symm

theorem growing_rewrite_delimiting :
    SelfDelimiting latinTables (postMessage growingRules).peer [text "r1"]
      (postForwarded growingRules).2.2.wire.sent ∧
    (postForwarded growingRules).2.2.wire.sent = text "POST / HTTP/1.1\r\nContent-Length: 3\r\n\r\ncdb" := by
  have whole : postReader.stream = text "ab" := by decide
  have result : rewrittenBody noCodecs latinTables growingRules [] (text "ab") =
      some (some (text "cdb"), [text "r1"]) := by decide
  refine ⟨(forward_delimiting_iff noCodecs latinTables growingRules (by decide) (postMessage growingRules)
    (post_served growingRules) (.length 2) (by decide) (by decide) [] postReader
    (postForwarded growingRules).2.1 (new_reader_well_formed _ _).1 none (postForwarded growingRules).2.2
    [text "r1"] ?_ ?_).mpr ?_, by decide⟩
  · rintro front payload body ids ⟨rest, stream⟩ framed body_
    rw [post_delimited (whole ▸ stream.symm) framed, result] at body_
    cases body_
    decide
  · exact Prod.ext (by decide) rfl
  · rintro ⟨front, payload, rest, ids, stream, _, framed, _, erased⟩
    rw [post_delimited (whole ▸ stream) framed, result] at erased
    cases erased

end BufferedForward
