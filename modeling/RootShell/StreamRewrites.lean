import RootShell.BufferedForward
import RootShell.FilledReads
import RootShell.HeaderEditors

/-!
The bodies of HTTP/2 messages (rewriteStream in vpntunnel/proxy_h2.go). A body is read up to
the limit of the rewrites; one that is longer, fails or cannot be decoded goes on as if it
had not been read, and any other is rewritten like the body of an HTTP/1 message.
-/
namespace StreamRewrites
open ByteLines ByteText SegmentedStreams FilledReads BodyFraming MessageRewrites BufferedForward HeaderEditors
open BufferedReader (BufReader new_reader_well_formed)

abbrev Body := Conn UInt8 ReadError

/-- io.ReadAll through an io.LimitReader: `left` bytes may still come, and the buffer has room for one more byte
    at least. -/
def readAllLoop (room : Nat → Nat) : Nat → Body → Nat → Nat → Bytes × Option ReadError × Body
  | 0, c, _, _ => ([], none, c)
  | _ + 1, c, 0, _ => ([], none, c)
  | fuel + 1, c, left + 1, got =>
    match c.read (min (room got + 1) (left + 1)) with
    | (p, none, next) =>
      let rest := readAllLoop room fuel next (left + 1 - p.length) (got + p.length)
      (p ++ rest.1, rest.2)
    | (p, some err, next) => (p, if err = .eof then none else some err, next)

def readAll (room : Nat → Nat) (c : Body) (limit : Nat) : Bytes × Option ReadError × Body :=
  readAllLoop room (c.work + 1) c limit 0

def newReader (data : Bytes) : Body := ⟨[(data, none)], .eof⟩

def multiReader (data : Bytes) (rest : Body) : Body := { rest with pieces := (data, none) :: rest.pieces }

def headerGet (h : Header) (name : Bytes) : Bytes := ((h.lookup (canonicalHeaderKey name)).getD []).headD []

structure Streamed where
  ids : List Bytes
  body : Body
  n : Int
  header : Header

def rewriteStream (k : Codecs) (u : CaseTables) (room : Nat → Nat) (body : Body) (h : Header)
    (rules : List CompiledRewrite) : Streamed :=
  let read := readAll room body (rewriteBufferLimit + 1)
  if read.2.1 ≠ none ∨ rewriteBufferLimit < read.1.length then ⟨[], multiReader read.1 read.2.2, -1, h⟩
  else
    match decodeBody k u read.1 (headerGet h (text "Content-Encoding")) with
    | none => ⟨[], newReader read.1, -1, h⟩
    | some decoded =>
      match applyBodyRewrites rules decoded with
      | (out, ids) =>
        if ids = [] then ⟨[], newReader read.1, read.1.length, h⟩
        else
          ⟨ids, newReader (out.getD []), (out.getD []).length,
            headerSet (headerDel h (text "Content-Encoding")) (text "Content-Length") (itoa (out.getD []).length)⟩

section Reading

def Lasting (ending : ReadError) : List (Bytes × Option ReadError) → Prop
  | [] => True
  | (_, none) :: rest => Lasting ending rest
  | (_, some err) :: rest => firstError ending rest = ([], err)

theorem read_onwards {c : Body} (lasting : Lasting c.ending c.pieces) (space : Nat) :
    c.upToError = ((c.read space).1 ++ (c.read space).2.2.upToError.1, (c.read space).2.2.upToError.2) ∧
      ((c.read space).2.1 = none → Lasting (c.read space).2.2.ending (c.read space).2.2.pieces) := by
  obtain ⟨pieces, ending⟩ := c
  cases pieces with
  | nil => exact ⟨rfl, fun _ => trivial⟩
  | cons head rest =>
    obtain ⟨piece, err⟩ := head
    simp only [Conn.read]
    split
    · cases err with
      | none => exact ⟨rfl, fun _ => lasting⟩
      | some err =>
        have again : firstError ending rest = ([], err) := lasting
        simp [Conn.upToError, firstError, again]
    · cases err with
      | none => exact ⟨by simp [Conn.upToError, firstError, ← List.append_assoc], fun _ => lasting⟩
      | some err => exact ⟨by simp [Conn.upToError, firstError], fun _ => lasting⟩

structure AllRead (c : Body) (limit : Nat) (out : Bytes × Option ReadError × Body) : Prop where
  whole : c.upToError = (out.1 ++ out.2.2.upToError.1, out.2.2.upToError.2)
  short : out.1.length ≤ limit
  ended : out.2.1 = none → out.1.length < limit → c.upToError = (out.1, .eof)
  failed : ∀ err, out.2.1 = some err → c.upToError = (out.1, err) ∧ err ≠ .eof

theorem read_all_loop (room : Nat → Nat) {fuel : Nat} {c : Body} (limit got : Nat) (budget : c.work < fuel)
    (lasting : Lasting c.ending c.pieces) : AllRead c limit (readAllLoop room fuel c limit got) := by
  induction fuel generalizing c limit got with
  | zero => omega
  | succ fuel ih =>
    cases limit with
    | zero => exact ⟨rfl, Nat.le_refl 0, fun _ less => absurd less (Nat.not_lt_zero _), nofun⟩
    | succ left =>
      rw [readAllLoop]
      have delivered := conn_read_delivered c (min (room got + 1) (left + 1))
      obtain ⟨onwards, still⟩ := read_onwards lasting (min (room got + 1) (left + 1))
      have short := delivered.short
      rcases read : c.read (min (room got + 1) (left + 1)) with ⟨p, err, next⟩
      rw [read] at delivered onwards still short
      cases err with
      | some err =>
        have here := delivered.failed err rfl
        refine ⟨onwards, by dsimp only at short ⊢; omega, ?_, ?_⟩
        · intro fine _
          by_cases eof : err = .eof
          · rw [here, eof]
          · simp [eof] at fine
        · intro other failed
          by_cases eof : err = .eof
          · simp [eof] at failed
          · simp only [eof, if_false, Option.some.injEq] at failed
            subst failed
            exact ⟨here, eof⟩
      | none =>
        have less : next.work < fuel := by
          rcases delivered.progress (by omega) with less | ⟨_, failed⟩
          · dsimp only at less
            omega
          · cases failed
        have rest := ih (left + 1 - p.length) (got + p.length) less (still rfl)
        dsimp only at onwards short ⊢
        have fits := rest.short
        refine ⟨?_, ?_, ?_, ?_⟩
        · rw [onwards, rest.whole, List.append_assoc]
        · simp only [List.length_append]
          omega
        · intro fine more
          simp only [List.length_append] at more
          rw [onwards, rest.ended fine (by omega)]
        · intro err failed
          obtain ⟨came, other⟩ := rest.failed err failed
          exact ⟨by rw [onwards, came], other⟩

theorem all_read (room : Nat → Nat) {c : Body} (lasting : Lasting c.ending c.pieces) (limit : Nat) :
    AllRead c limit (readAll room c limit) := read_all_loop room limit 0 (Nat.lt_succ_self _) lasting

theorem new_reader_whole (data : Bytes) : (newReader data).upToError = (data, .eof) := by
  simp [newReader, Conn.upToError, firstError]

end Reading

section Outcomes
variable (k : Codecs) (u : CaseTables) (rules : List CompiledRewrite)

inductive Outcome (h : Header) (body : Body) (out : Streamed) : Prop where
  | through (ids : out.ids = []) (header : out.header = h) (same : out.body.upToError = body.upToError)
      (n : out.n = -1 ∨ body.upToError.2 = .eof ∧ out.n = body.upToError.1.length)
      (spared : body.upToError.2 = .eof → body.upToError.1.length ≤ rewriteBufferLimit →
        rewrittenBody k u rules (headerGet h (text "Content-Encoding")) body.upToError.1 = none)
  | rewritten (new : Option Bytes) (complete : body.upToError.2 = .eof)
      (small : body.upToError.1.length ≤ rewriteBufferLimit)
      (rewrites : rewrittenBody k u rules (headerGet h (text "Content-Encoding")) body.upToError.1 =
        some (new, out.ids))
      (sent : out.body.upToError = (new.getD [], .eof)) (n : out.n = (new.getD []).length)
      (length : headerGet out.header (text "Content-Length") = itoa out.n.toNat)
      (encoding : headerGet out.header (text "Content-Encoding") = [])

variable {k u rules}

theorem stream_outcome (room : Nat → Nat) (h : Header) {body : Body}
    (lasting : Lasting body.ending body.pieces) : Outcome k u rules h body (rewriteStream k u room body h rules) := by
  have read := all_read room lasting (rewriteBufferLimit + 1)
  unfold rewriteStream
  generalize readAll room body (rewriteBufferLimit + 1) = out at read
  dsimp only
  split
  · rename_i early
    refine .through rfl rfl read.whole.symm (.inl rfl) ?_
    -- a body that ends in time is never left over
    intro complete small
    rcases early with failed | long
    · obtain ⟨err, failed⟩ := Option.ne_none_iff_exists'.1 failed
      obtain ⟨came, other⟩ := read.failed err failed
      rw [came] at complete
      exact absurd complete other
    · rw [read.whole, List.length_append] at small
      omega
  · rename_i inTime
    simp only [not_or, ne_eq, not_not, Nat.not_lt] at inTime
    have whole := read.ended inTime.1 (Nat.lt_succ_of_le inTime.2)
    split
    · rename_i undecoded
      refine .through rfl rfl ((new_reader_whole _).trans whole.symm) (.inl rfl) ?_
      intro _ _
      rw [rewrittenBody, whole, undecoded]
    · rename_i decoded decodes
      split
      · rename_i none
        refine .through rfl rfl ((new_reader_whole _).trans whole.symm) (.inr ⟨by rw [whole], by rw [whole]⟩) ?_
        intro _ _
        simp [rewrittenBody, whole, decodes, none]
      · rename_i some_
        refine .rewritten (applyBodyRewrites rules decoded).1 (by rw [whole]) (by rw [whole]; exact inTime.2) ?_
          (new_reader_whole _) rfl ?_ ?_
        · simp [rewrittenBody, whole, decodes, some_]
        · simp [headerGet, headerSet]
        · have apart : canonicalHeaderKey (text "Content-Encoding") ≠ canonicalHeaderKey (text "Content-Length") := by
            decide
          simp [headerGet, headerSet, headerDel, AList.lookup_insert_ne apart]

structure Faithful (h : Header) (body : Body) (out : Streamed) : Prop where
  unchanged : out.ids = [] → out.header = h ∧ out.body.upToError = body.upToError
  length : 0 ≤ out.n → out.body.upToError.2 = .eof ∧ out.n = out.body.upToError.1.length
  header : out.ids ≠ [] → headerGet out.header (text "Content-Length") = itoa out.n.toNat ∧
    headerGet out.header (text "Content-Encoding") = []

/-- A body that no rule changes is read behind the rewrites as it was before them, up to its error, and a length
    that is given with a body, or in the header of a changed one, is that of the body. -/
theorem streams_faithful (room : Nat → Nat) (h : Header) {body : Body} (lasting : Lasting body.ending body.pieces) :
    Faithful h body (rewriteStream k u room body h rules) := by
  have outcome : Outcome k u rules h body (rewriteStream k u room body h rules) := stream_outcome room h lasting
  cases outcome with
  | through ids header same n spared =>
    refine ⟨fun _ => ⟨header, same⟩, ?_, fun changed => absurd ids changed⟩
    intro given
    rw [same]
    rcases n with left | known
    · omega
    · exact known
  | rewritten new complete small rewrites sent n length encoding =>
    refine ⟨fun none => absurd none (rewritten_ids rewrites), fun _ => ?_, fun _ => ⟨length, encoding⟩⟩
    rw [sent]
    exact ⟨rfl, n⟩

def brokenBody : Body := ⟨[(text "a", none), (text "b", some (.other []))], .other []⟩

def postBody : Body := ⟨[(text "a", none), (text "b", some .eof)], .eof⟩

theorem bodies_faithful :
    Faithful ∅ brokenBody (rewriteStream noCodecs latinTables (fun _ => 511) brokenBody ∅ growingRules) ∧
      let out := rewriteStream noCodecs latinTables (fun _ => 511) postBody ∅ growingRules
      Faithful ∅ postBody out ∧ out.n = 3 ∧ out.body.upToError.1 = text "cdb" :=
  ⟨streams_faithful _ ∅ rfl, streams_faithful _ ∅ rfl, by decide +kernel, by decide +kernel⟩

/-- A body that HTTP/1 and HTTP/2 hold back alike is rewritten alike: by the same rules, to the same bytes. -/
theorem bodies_rewritten_alike {framing : Framing} {headFor : Option Bytes → Bytes} {r next : BufReader} {wire : Wire}
    {s : Spill} {ids : List Bytes} {h : Header} (valid : r.WellFormed)
    (passed : (forwardBufferedBody k u framing rules (headerGet h (text "Content-Encoding")) headFor).from
      (r, startSpill wire) = (.ok ids, (next, s))) {front payload rest : Bytes} (framed : Framed framing front payload)
    (stream : r.stream = front ++ rest) (closed : framing = .untilClose → rest = []) (fits : Fits front payload)
    (room : Nat → Nat) {body : Body} (lasting : Lasting body.ending body.pieces)
    (same : body.upToError = (payload, .eof)) :
    (rewriteStream k u room body h rules).ids = ids ∧
      ∃ new, s.wire.sent = wire.sent ++ headFor new ++
        if ids = [] then front else (rewriteStream k u room body h rules).body.upToError.1 := by
  obtain ⟨front', payload', message, framed', stream', closed', sent, forwarded⟩ := forward_ok valid passed
  obtain ⟨rfl, rfl, rfl⟩ := framed_unique framed framed' (stream.symm.trans stream') fun until_ =>
    ⟨closed until_, closed' until_⟩
  have outcome : Outcome k u rules h body (rewriteStream k u room body h rules) := stream_outcome room h lasting
  generalize rewriteStream k u room body h rules = out at outcome
  rw [sent]
  cases forwarded with
  | through spared =>
    cases outcome with
    | through none _ _ _ _ => exact ⟨none, Option.none, by simp⟩
    | rewritten new complete small rewrites =>
      rw [same, spared fits] at rewrites
      cases rewrites
  | @rewritten new ids fits body =>
    cases outcome with
    | through none header _ _ spared =>
      rw [same] at spared
      rw [spared rfl fits.1] at body
      cases body
    | rewritten other complete small rewrites sent =>
      rw [same, body] at rewrites
      cases rewrites
      have some_ : out.ids ≠ [] := rewritten_ids body
      exact ⟨rfl, new, by simp [some_, sent]⟩

theorem post_bodies_alike :
    (rewriteStream noCodecs latinTables (fun _ => 511) postBody ∅ growingRules).ids = [text "r1"] := by
  have passed : postForwarded growingRules =
      (.ok [text "r1"], ((postForwarded growingRules).2.1, (postForwarded growingRules).2.2)) :=
    Prod.ext (by decide) rfl
  have framed : Framed (.length 2) (text "ab") (text "ab") := ⟨rfl, rfl⟩
  have stream : postReader.stream = text "ab" ++ [] := by decide
  have fits : Fits (text "ab") (text "ab") := ⟨by decide, by decide⟩
  have lasting : Lasting postBody.ending postBody.pieces := rfl
  exact (bodies_rewritten_alike (h := ∅) (new_reader_well_formed _ _).1 passed framed stream nofun fits _ lasting rfl).1

end Outcomes

end StreamRewrites
