import RootShell.ConnectionLoop
import RootShell.SpillHistories

/-!
What the connection loop gets done while no write fails: a body that is there in full is copied
to its end, and the steps around the copies go through.
-/
namespace LoopProgress
open ByteLines ByteText BufferedReader HeadReading HeaderLists FallibleState BodyFraming MessageRewrites
open BufferedForward ConnectionLoop ChunkedCopies SpillHistories

variable {head encoding body payload rest method : Bytes}

section Wires
variable {s : Spill}

theorem write_endless {w : Wire} (endless : w.room = none) (p : Bytes) : w.write p = (none, ⟨w.sent ++ p, none⟩) := by
  simp [Wire.write, endless]

theorem tap_accepting : AcceptingOn (fun w : Wire => w.room = none) tapWriters :=
  ⟨fun w p endless => by simp [tapWriters, write_endless endless], fun w p endless => ⟨rfl, endless⟩⟩

structure Clean (s : Spill) : Prop where
  err : s.err = none
  endless : s.wire.room = none

theorem start_clean {w : Wire} (endless : w.room = none) : Clean (startSpill w) := ⟨rfl, endless⟩

theorem spill_clean (head : Bytes) (clean : Clean s) : (s.spill head).1 = none ∧ Clean (s.spill head).2 := by
  simp only [Spill.spill, write_endless clean.endless]
  simp only [Wire.write]
  exact ⟨trivial, clean.err, rfl⟩

theorem keep_raw_clean (clean : Clean s) (p : Bytes) : (s.keepRaw p).1 = none ∧ Clean (s.keepRaw p).2 := by
  unfold Spill.keepRaw
  split
  · simp only [write_endless clean.endless]
    exact ⟨trivial, clean.err, rfl⟩
  · exact ⟨rfl, clean.err, clean.endless⟩

theorem spill_accepting (limit : Nat) (head : Bytes) : AcceptingOn Clean (spillWriters limit head) := by
  refine ⟨fun s p clean => ?_, fun s p clean => ?_⟩
  · simp only [spillWriters, spillRaw, clean.err]
    split
    · obtain ⟨passed, clean'⟩ := spill_clean head clean
      rcases spilling : s.spill head with ⟨err, s'⟩
      rw [spilling] at passed clean'
      obtain rfl : err = none := passed
      exact keep_raw_clean clean' p
    · exact keep_raw_clean clean p
  · simp only [spillWriters, spillData]
    split
    · exact ⟨rfl, clean.err, clean.endless⟩
    · have kept : Clean { s with data := s.data ++ p } := ⟨clean.err, clean.endless⟩
      split
      · exact spill_clean head kept
      · exact ⟨rfl, kept⟩

theorem steady_of_accepting {σ : Type} {P : σ → Prop} {w : Writers σ} (accepting : AcceptingOn P w) : Steady P w :=
  ⟨fun s p here => (accepting.dst s p here).2, fun s p here => (accepting.sink s p here).2⟩

theorem emit_passes (message body : Bytes) (clean : Clean s) (r : BufReader) :
    ∃ s', (emit message body).from (r, s) = (.ok (), (r, s')) ∧ Clean s' := by
  simp only [Prog.from, emit, write_endless clean.endless]
  exact ⟨_, rfl, clean.err, rfl⟩

end Wires

section Forwarding
variable {k : Codecs} {u : CaseTables} {framing : Framing} {rules : List CompiledRewrite}
  {headFor : Option Bytes → Bytes} {r : BufReader} {s : Spill}

theorem forward_after_copy {next : BufReader} {last : Spill}
    (copied : (copyBody (spillWriters rewriteBufferLimit (headFor none)) framing).from (r, s) =
      (.ok (), (next, last))) (clean : Clean last) :
    ∃ ids end_, (forwardBufferedBody k u framing rules encoding headFor).from (r, s) = (.ok ids, (next, end_)) ∧
      Clean end_ := by
  have peek : buffered.from (next, last) = (.ok last, (next, last)) := rfl
  rw [forwardBufferedBody, run_bind_ok copied, run_bind_ok peek]
  split
  · exact ⟨_, _, rfl, clean⟩
  · split
    · rename_i out ids _
      obtain ⟨end_, sent, clean'⟩ := emit_passes (headFor out ++ out.getD []) (out.getD []) clean next
      rw [run_bind_ok sent]
      exact ⟨_, _, rfl, clean'⟩
    · obtain ⟨end_, sent, clean'⟩ := emit_passes (headFor none ++ last.raw) last.data clean next
      rw [run_bind_ok sent]
      exact ⟨_, _, rfl, clean'⟩

theorem copy_clean (head : Bytes) (framing : Framing) (r : BufReader) (clean : Clean s) :
    Clean ((copyBody (spillWriters rewriteBufferLimit head) framing).from (r, s)).2.2 :=
  copy_body_keeps (steady_of_accepting (spill_accepting _ head)) framing (r, s) clean

theorem forward_clean : KeepsState Clean (forwardBufferedBody k u framing rules encoding headFor) := by
  rintro ⟨r, s⟩ clean
  have copied := copy_clean (headFor none) framing r clean
  rcases copying : (copyBody (spillWriters rewriteBufferLimit (headFor none)) framing).from (r, s) with
    ⟨_ | _, next, last⟩
  · rw [copying] at copied
    rw [forwardBufferedBody, run_bind_error copying]
    exact copied
  · rw [copying] at copied
    obtain ⟨ids, end_, forwarded, clean'⟩ := forward_after_copy copying copied
    rw [forwarded]
    exact clean'

theorem forward_passes (k : Codecs) (u : CaseTables) (rules : List CompiledRewrite) (encoding : Bytes)
    (headFor : Option Bytes → Bytes) (framed : Framed framing body payload)
    (bounded : framing ≠ .untilClose) (valid : r.WellFormed) (fitting : Fitting r.size framing body)
    (clean : Clean s) (stream : r.stream = body ++ rest) :
    ∃ ids next last,
      (forwardBufferedBody k u framing rules encoding headFor).from (r, s) = (.ok ids, (next, last)) := by
  obtain ⟨next, last, copied⟩ := copy_body_passes (spill_accepting rewriteBufferLimit (headFor none)) framed bounded
    valid fitting clean stream
  have after := copy_clean (headFor none) framing r clean
  rw [copied] at after
  obtain ⟨ids, end_, forwarded, _⟩ := forward_after_copy copied after
  exact ⟨ids, next, end_, forwarded⟩

theorem forward_drains (valid : r.WellFormed) (clean : Clean s) :
    ((forwardBufferedBody k u .untilClose rules encoding headFor).from (r, s)).2.1.stream = [] := by
  obtain ⟨out, next, last, copied, drained⟩ :=
    copy_close_drains (spill_accepting rewriteBufferLimit (headFor none)) valid clean
  have after := copy_clean (headFor none) .untilClose r clean
  rw [copied] at after
  cases out with
  | error e =>
    rw [forwardBufferedBody, run_bind_error copied]
    exact drained
  | ok _ =>
    obtain ⟨ids, end_, forwarded, _⟩ := forward_after_copy copied after
    rw [forwarded]
    exact drained

end Forwarding

section Rounds
variable {site : Site} {env : Env} {A : Type}

structure Unfailing (c : Conn) : Prop where
  client : c.client.room = none
  up : c.up.room = none

theorem keeps_unwritten {p : Serve A} (same : ∀ c, (p.from c).2.client = c.client ∧ (p.from c).2.up = c.up) :
    Keeps Unfailing p := fun c here =>
  ⟨(congrArg Wire.room (same c).1).trans here.client, (congrArg Wire.room (same c).2).trans here.up⟩

theorem write_client_passes {c : Conn} (here : Unfailing c) (p : Bytes) :
    (writeClient p).from c = (.ok (), { c with client := ⟨c.client.sent ++ p, none⟩ }) := by
  simp [Prog.from, writeClient, write_endless here.client]

theorem write_upstream_passes {c : Conn} (here : Unfailing c) (p : Bytes) :
    (writeUpstream p).from c = (.ok (), { c with up := ⟨c.up.sent ++ p, none⟩ }) := by
  simp [Prog.from, writeUpstream, write_endless here.up]

theorem write_client_keeps (p : Bytes) : Keeps Unfailing (writeClient p) := by
  intro c here
  rw [write_client_passes here p]
  exact ⟨rfl, here.up⟩

theorem write_upstream_keeps (p : Bytes) : Keeps Unfailing (writeUpstream p) := by
  intro c here
  rw [write_upstream_passes here p]
  exact ⟨here.client, rfl⟩

theorem tell_client_keeps (p : Bytes) : Keeps Unfailing (tellClient p) := fun _ here =>
  ⟨congrArg (fun w => w.2.room) (write_endless here.client p), here.up⟩

theorem checked_keeps (result : Except HttpError A) : Keeps Unfailing (checked result) := by
  unfold checked
  split
  · exact keeps_pure _
  · exact keeps_throw _

theorem attach_up_keeps : Keeps Unfailing (attachUp site) := by
  intro c here
  simp only [Prog.from, attachUp]
  split
  · exact here
  · exact ⟨here.client, here.up⟩
  · exact ⟨congrArg (fun w => w.2.room) (write_endless here.client _), here.up⟩

theorem say_continue_keeps (p : Prepared) : Keeps Unfailing (sayContinue site p) := by
  unfold sayContinue
  split
  · exact tell_client_keeps _
  · exact keeps_pure ()

theorem copy_wire (framing : Framing) (r : BufReader) {w : Wire} (endless : w.room = none) :
    ((copyBody tapWriters framing).from (r, w)).2.2.room = none :=
  copy_body_keeps (steady_of_accepting tap_accepting) framing (r, w) endless

theorem copy_request_keeps (framing : Framing) : Keeps Unfailing (copyRequestBody framing) := fun c here =>
  ⟨here.client, copy_wire framing c.cr here.up⟩

theorem forward_request_keeps (framing : Framing) (rules : List CompiledRewrite) (raw : Bytes) (p : Prepared) :
    Keeps Unfailing (forwardRequestBody site framing rules raw p) := fun c here =>
  ⟨here.client, (forward_clean (c.cr, startSpill c.up) (start_clean here.up)).endless⟩

theorem send_request_keeps (framing : Framing) (rules : List CompiledRewrite) (raw : Bytes) (p : Prepared) :
    Keeps Unfailing (sendRequest site env framing rules raw p) := by
  unfold sendRequest
  split
  · refine keeps_bind (say_continue_keeps p) fun _ => ?_
    refine keeps_bind (forward_request_keeps framing rules raw _) fun err => ?_
    split
    · exact keeps_pure _
    · exact keeps_throw _
  · refine keeps_bind (write_upstream_keeps _) fun _ => ?_
    exact keeps_bind (copy_request_keeps framing) fun _ => keeps_pure _

theorem read_upstream_head_keeps : Keeps Unfailing readUpstreamHead := by
  intro c here
  simp only [Prog.from, readUpstreamHead]
  split
  · exact ⟨here.client, here.up⟩
  · exact here

theorem note_keeps (f : Exchange → Exchange) : Keeps Unfailing (note f) := keeps_unwritten fun _ => ⟨rfl, rfl⟩

theorem answer_loop_keeps (fuel : Nat) : Keeps Unfailing (answerLoop fuel) := by
  induction fuel with
  | zero => exact keeps_throw ()
  | succ fuel ih =>
    unfold answerLoop
    refine keeps_bind read_upstream_head_keeps fun head => ?_
    split
    · exact keeps_bind (tell_client_keeps _) fun _ => keeps_throw ()
    · refine keeps_bind (checked_keeps _) fun res => ?_
      split
      · refine keeps_bind (note_keeps _) fun _ => ?_
        exact keeps_bind (write_client_keeps _) fun _ => ih
      · exact keeps_bind (note_keeps _) fun _ => keeps_pure _

theorem read_answer_keeps : Keeps Unfailing readAnswer := fun c here => answer_loop_keeps _ c here

theorem copy_response_keeps (framing : Framing) : Keeps Unfailing (copyResponseBody framing) := by
  intro c here
  simp only [Prog.from, copyResponseBody]
  split
  · exact here
  · rename_i r _
    exact ⟨copy_wire framing r here.client, here.up⟩

theorem forward_response_keeps (framing : Framing) (rules : List CompiledRewrite) (raw : Bytes) (res : ResHead)
    (changed : Bool) : Keeps Unfailing (forwardResponseBody site framing rules raw res changed) := by
  intro c here
  simp only [Prog.from, forwardResponseBody]
  split
  · exact here
  · rename_i r _
    exact ⟨(forward_clean (r, startSpill c.client) (start_clean here.client)).endless, here.up⟩

theorem send_response_keeps (rules : List CompiledRewrite) (bufferRes : Bool) (method raw : Bytes) (res : ResHead)
    (changed : Bool) : Keeps Unfailing (sendResponse site env rules bufferRes method raw res changed) := by
  unfold sendResponse
  split
  · exact keeps_bind (write_client_keeps _) fun _ => keeps_throw ()
  · refine keeps_bind (checked_keeps _) fun framing => ?_
    split
    · exact keeps_bind (forward_response_keeps framing rules raw res changed) fun _ => keeps_pure _
    · refine keeps_bind (write_client_keeps _) fun _ => ?_
      exact keeps_bind (copy_response_keeps framing) fun _ => keeps_pure _

theorem answer_request_keeps (req : ReqHead) (p : Prepared) (reqErr : Option HttpError) :
    Keeps Unfailing (answerRequest site env req p reqErr) := by
  unfold answerRequest
  refine keeps_bind read_answer_keeps fun answer => ?_
  refine keeps_bind (send_response_keeps _ _ _ _ _ _) fun ended => ?_
  dsimp only
  split
  · exact keeps_throw ()
  · exact keeps_pure ()

theorem read_client_head_keeps : Keeps Unfailing readClientHead := by
  refine keeps_unwritten fun c => ?_
  simp only [Prog.from, readClientHead]
  split <;> exact ⟨rfl, rfl⟩

theorem serve_request_keeps : Keeps Unfailing (serveRequest site env) := by
  unfold serveRequest
  refine keeps_bind read_client_head_keeps fun raw => ?_
  refine keeps_bind (checked_keeps _) fun req => ?_
  refine keeps_bind (keeps_unwritten fun _ => ⟨rfl, rfl⟩) fun _ => ?_
  refine keeps_bind (checked_keeps _) fun framing => ?_
  refine keeps_bind attach_up_keeps fun _ => ?_
  exact keeps_bind (send_request_keeps framing _ raw _) fun sent => answer_request_keeps req sent.1 sent.2

end Rounds

section Passing
variable {site : Site} {env : Env} {framing : Framing} {c : Conn} {ur : BufReader}

theorem say_continue_passes (site : Site) (p : Prepared) (c : Conn) :
    ∃ mid, (sayContinue site p).from c = (.ok (), mid) ∧ mid.cr = c.cr ∧ mid.past = c.past ∧ mid.ur = c.ur ∧
      mid.now = c.now := by
  unfold sayContinue
  split
  · exact ⟨_, rfl, rfl, rfl, rfl, rfl⟩
  · exact ⟨_, rfl, rfl, rfl, rfl, rfl⟩

theorem forward_request_passes (here : Unfailing c) (delimited : Framed framing body payload)
    (bounded : framing ≠ .untilClose) (valid : c.cr.WellFormed) (fitting : Fitting c.cr.size framing body)
    (stream : c.cr.stream = body ++ rest) (rules : List CompiledRewrite) (raw : Bytes) (p : Prepared) :
    ∃ last, (forwardRequestBody site framing rules raw p).from c = (.ok none, last) := by
  obtain ⟨ids, next, last, forwarded⟩ := forward_passes site.k site.u rules
    (get site.u p.req.headers (text "Content-Encoding")) (requestHeadFor site.u raw p.req p.changed) delimited bounded
    valid fitting (start_clean here.up) stream
  simp only [Prog.from] at forwarded
  simp only [Prog.from, forwardRequestBody, forwarded]
  exact ⟨_, rfl⟩

theorem send_request_passes (here : Unfailing c) (punctual : env.late = false) (delimited : Framed framing body payload)
    (bounded : framing ≠ .untilClose) (valid : c.cr.WellFormed) (fitting : Fitting c.cr.size framing body)
    (stream : c.cr.stream = body ++ rest) (rules : List CompiledRewrite) (raw : Bytes) (p : Prepared) :
    ∃ sent mid, (sendRequest site env framing rules raw p).from c = (.ok (sent, none), mid) := by
  unfold sendRequest
  split
  · obtain ⟨mid, said, same, _⟩ := say_continue_passes site p c
    have here' : Unfailing ((sayContinue site p).from c).2 := say_continue_keeps p c here
    rw [said] at here'
    obtain ⟨end_, ended⟩ := forward_request_passes here' delimited bounded (same ▸ valid) (same ▸ fitting)
      (same ▸ stream) rules raw (p.dropExpect site.u)
    rw [run_bind_ok said, run_bind_ok ended, if_pos rfl]
    exact ⟨_, _, rfl⟩
  · obtain ⟨next, last, copied⟩ := copy_body_passes tap_accepting delimited bounded valid fitting
      (show Wire.room ⟨c.up.sent ++ (if p.changed then p.req.serialize else raw), none⟩ = none from rfl) stream
    have ended : ∃ end_, (copyRequestBody framing).from
        { c with up := ⟨c.up.sent ++ (if p.changed then p.req.serialize else raw), none⟩ } = (.ok none, end_) := by
      simp only [Prog.from, copyRequestBody] at copied ⊢
      simp only [copied]
      exact ⟨_, rfl⟩
    obtain ⟨end_, ended⟩ := ended
    rw [run_bind_ok (write_upstream_passes here _), run_bind_ok ended, punctual]
    exact ⟨_, _, rfl⟩

structure Copied (framing : Framing) (err : Option HttpError) (last : BufReader) : Prop where
  bounded : framing ≠ .untilClose → err = none
  drained : framing = .untilClose → last.stream = []

theorem copy_response_passes (here : Unfailing c) (up : c.ur = some ur) (valid : ur.WellFormed)
    (delimited : Framed framing body payload) (fitting : Fitting ur.size framing body)
    (stream : ur.stream = body ++ rest) :
    ∃ err mid last, (copyResponseBody framing).from c = (.ok err, mid) ∧ mid.ur = some last ∧
      Copied framing err last := by
  refine ⟨_, _, _, by simp only [Prog.from, copyResponseBody, up]; rfl, rfl, ?_, ?_⟩
  · intro bounded
    obtain ⟨next, last, copied⟩ := copy_body_passes tap_accepting delimited bounded valid fitting here.client stream
    exact congrArg (fun out => ConnectionLoop.failure out.1) copied
  · rintro rfl
    obtain ⟨out, next, last, copied, drained⟩ := copy_close_drains tap_accepting valid here.client
    exact (congrArg (fun out => out.2.1.stream) copied).trans drained

theorem forward_response_passes (here : Unfailing c) (up : c.ur = some ur) (valid : ur.WellFormed)
    (delimited : Framed framing body payload) (fitting : Fitting ur.size framing body)
    (stream : ur.stream = body ++ rest) (rules : List CompiledRewrite) (raw : Bytes) (res : ResHead) (changed : Bool) :
    ∃ err mid last, (forwardResponseBody site framing rules raw res changed).from c = (.ok err, mid) ∧
      mid.ur = some last ∧ Copied framing err last := by
  refine ⟨_, _, _, by simp only [Prog.from, forwardResponseBody, up]; rfl, rfl, ?_, ?_⟩
  · intro bounded
    obtain ⟨ids, next, last, forwarded⟩ := forward_passes site.k site.u rules
      (get site.u res.headers (text "Content-Encoding")) (responseHeadFor site.u raw res changed) delimited bounded
      valid fitting (start_clean here.client) stream
    exact congrArg (fun out => ConnectionLoop.failure out.1) forwarded
  · rintro rfl
    exact forward_drains valid (start_clean here.client)

theorem send_response_passes (here : Unfailing c) {res : ResHead}
    (ordinary : ¬ (res.status = 101 ∨ Tunnelled method res.status))
    (framed : responseFraming site.u method res = .ok framing) (delimited : Framed framing body payload)
    (up : c.ur = some ur) (valid : ur.WellFormed) (fitting : Fitting ur.size framing body)
    (stream : ur.stream = body ++ rest) (rules : List CompiledRewrite) (bufferRes : Bool) (raw : Bytes)
    (changed : Bool) :
    ∃ err mid last, (sendResponse site env rules bufferRes method raw res changed).from c = (.ok (framing, err), mid) ∧
      mid.ur = some last ∧ Copied framing err last := by
  have passed : (checked (responseFraming site.u method res)).from c = (.ok framing, c) := by
    rw [framed]
    rfl
  rw [sendResponse, if_neg ordinary, run_bind_ok passed]
  split
  · obtain ⟨err, mid, last, forwarded, up', copied⟩ :=
      forward_response_passes here up valid delimited fitting stream rules raw res changed
    rw [run_bind_ok forwarded]
    exact ⟨err, mid, last, rfl, up', copied⟩
  · have written := write_client_passes here (if changed then res.serialize else raw)
    have here' : Unfailing { c with client := ⟨c.client.sent ++ (if changed then res.serialize else raw), none⟩ } :=
      ⟨rfl, here.up⟩
    obtain ⟨err, mid, last, copying, up', copied⟩ := copy_response_passes here' up valid delimited fitting stream
    rw [run_bind_ok written, run_bind_ok copying]
    exact ⟨err, mid, last, rfl, up', copied⟩

end Passing

end LoopProgress
