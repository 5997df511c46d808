import RootShell.HeaderLists

/-!
Heads that are printed and parsed again (serialize and the head parsers of
vpntunnel/http1.go). Printing only loses the white space around a value, and a value gets
such white space only from continuation lines.
-/
namespace HeadRoundTrips
open ByteLines ByteText HeaderLists

variable {raw v t l line first proto : Bytes} {hs : List Hdr}

section Values

theorem trim_space_fixed : trimSpace v = v ↔ Trimmed spaceUnits v := by
  constructor
  · intro fixed
    obtain ⟨_, _, _, _, _, trimmed⟩ := trim_spec space_units_separable.nonempty v
    rwa [show trim spaceUnits v = v from fixed] at trimmed
  · exact trim_trimmed space_units_separable

theorem space_alone : ∀ u ∈ spaceUnits, 32 ∈ u → u = [32] := by decide

theorem space_unit : [32] ∈ spaceUnits := by decide

theorem joined_front :
    (∀ u ∈ spaceUnits, ¬ u <+: v ++ 32 :: t) ↔ v ≠ [] ∧ ∀ u ∈ spaceUnits, ¬ u <+: v := by
  constructor
  · intro stops
    refine ⟨?_, fun u member front => stops u member (front.trans (List.prefix_append _ _))⟩
    rintro rfl
    exact stops [32] space_unit (by simp)
  · rintro ⟨filled, stops⟩ u member front
    rcases List.prefix_or_prefix_of_prefix front (List.prefix_append v _) with inside | ⟨w, rfl⟩
    · exact stops u member inside
    · cases w with
      | nil => exact stops v (by simpa using member) (List.prefix_refl v)
      | cons b w =>
        -- a unit that reaches beyond the text has the space inside
        have beyond := (List.prefix_append_right_inj v).1 front
        rw [List.cons_prefix_cons] at beyond
        have alone := space_alone _ member (by simp [beyond.1])
        have lengths := congrArg List.length alone
        have := List.length_pos_iff.mpr filled
        simp only [List.length_append, List.length_cons, List.length_nil] at lengths
        omega

theorem joined_back :
    (∀ u ∈ spaceUnits, ¬ u <:+ v ++ 32 :: t) ↔ t ≠ [] ∧ ∀ u ∈ spaceUnits, ¬ u <:+ t := by
  have regroup : v ++ 32 :: t = (v ++ [32]) ++ t := by simp
  constructor
  · intro stops
    refine ⟨?_, fun u member back => stops u member (regroup ▸ back.trans (List.suffix_append _ _))⟩
    rintro rfl
    exact stops [32] space_unit (List.suffix_append v [32])
  · rintro ⟨filled, stops⟩ u member back
    rw [regroup] at back
    rcases List.suffix_or_suffix_of_suffix back (List.suffix_append (v ++ [32]) t) with inside | ⟨w, rfl⟩
    · exact stops u member inside
    · cases w using List.reverseRecOn with
      | nil => exact stops t (by simpa using member) (List.suffix_refl t)
      | append_singleton w b =>
        have behind := List.suffix_append_self_iff.1 back
        have last : b = 32 := by
          obtain ⟨rest, eq⟩ := behind
          rw [← List.append_assoc] at eq
          exact (List.append_inj' eq rfl).2 |> List.singleton_inj.1
        have alone := space_alone _ member (by simp [last])
        have lengths := congrArg List.length alone
        have := List.length_pos_iff.mpr filled
        simp only [List.length_append, List.length_cons, List.length_nil] at lengths
        omega

end Values

section Folding

def fieldLines (raw : Bytes) : List Bytes := ((raw.splitOn 10).tail.map (trimRight [13])).filter (· ≠ [])

def fieldValue (line : Bytes) : Bytes := trimSpace ((line.dropWhile (· != 58)).drop 1)

instance (l : Bytes) : Decidable (StartsBlank l) :=
  inferInstanceAs (Decidable (l.head? = some 32 ∨ l.head? = some 9))

/-- The lines from one on, which may itself continue another: a field line that is
    continued has a value, and the last line of a field that has been continued is not
    only white space. -/
def SolidFrom : Bool → Bytes → List Bytes → Prop
  | continues, line, [] => continues = true → trimSpace line ≠ []
  | continues, line, next :: lines =>
    (if StartsBlank next then continues = true ∨ fieldValue line ≠ [] else continues = true → trimSpace line ≠ []) ∧
      SolidFrom (decide (StartsBlank next)) next lines

instance decidableSolidFrom : ∀ continues line lines, Decidable (SolidFrom continues line lines)
  | continues, line, [] => inferInstanceAs (Decidable (continues = true → trimSpace line ≠ []))
  | _, _, next :: lines =>
    have := decidableSolidFrom (decide (StartsBlank next)) next lines
    inferInstanceAs (Decidable (_ ∧ _))

def SolidLines : List Bytes → Prop
  | [] => True
  | line :: lines => SolidFrom false line lines

instance decidableSolidLines : ∀ lines, Decidable (SolidLines lines)
  | [] => .isTrue trivial
  | line :: lines => decidableSolidFrom false line lines

def FoldsSolid (raw : Bytes) : Prop := SolidLines (fieldLines raw)

instance (raw : Bytes) : Decidable (FoldsSolid raw) := decidableSolidLines (fieldLines raw)

theorem fold_last_concat (l : Bytes) (init : List Hdr) (h : Hdr) :
    foldLast l (init ++ [h]) = init ++ [{ h with value := h.value ++ 32 :: trimSpace l }] := by
  induction init with
  | nil => rfl
  | cons g init ih =>
    cases init with
    | nil => rfl
    | cons k init => exact congrArg (g :: ·) ih

structure Looked (l : Bytes) : Prop where
  filled : l ≠ []
  ending : trimRight [13] l = l

theorem header_line_continues (looked : Looked l) (blank : StartsBlank l) (init : List Hdr) (h : Hdr) :
    headerLine (init ++ [h]) l = .ok (init ++ [{ h with value := h.value ++ 32 :: trimSpace l }]) := by
  obtain ⟨b, rest, rfl⟩ := List.exists_cons_of_ne_nil looked.filled
  have start : b = 32 ∨ b = 9 := by simpa [StartsBlank] using blank
  simp only [headerLine, looked.ending]
  rw [if_pos ⟨start, by simp⟩, fold_last_concat]
  rfl

theorem header_line_starts (looked : Looked l) {more : List Hdr} (field : hs = [] ∨ ¬ StartsBlank l)
    (parsed : headerLine hs l = .ok more) : ∃ name, more = hs ++ [⟨name, fieldValue l⟩] := by
  obtain ⟨b, rest, rfl⟩ := List.exists_cons_of_ne_nil looked.filled
  have unfolded : ¬ ((b = 32 ∨ b = 9) ∧ hs ≠ []) := by
    rintro ⟨start, more⟩
    exact field.elim more fun solid => solid (by simpa [StartsBlank] using start)
  simp only [headerLine, looked.ending, if_neg unfolded] at parsed
  split at parsed
  · cases parsed
  · exact ⟨_, (Except.ok.inj parsed).symm⟩

theorem header_line_looked (hs : List Hdr) (l : Bytes) : headerLine hs (trimRight [13] l) = headerLine hs l := by
  have again : trimRight [13] (trimRight [13] l) = trimRight [13] l := by
    simp [trimRight, List.rdropWhile_idempotent]
  simp only [headerLine, again]

theorem fold_lines_looked (lines : List Bytes) (hs : List Hdr) :
    lines.foldlM headerLine hs = ((lines.map (trimRight [13])).filter (· ≠ [])).foldlM headerLine hs := by
  induction lines generalizing hs with
  | nil => rfl
  | cons l lines ih =>
    rw [List.foldlM_cons, List.map_cons, ← header_line_looked]
    by_cases empty : trimRight [13] l = []
    · rw [empty, header_line_nil, List.filter_cons_of_neg (by simp)]
      exact ih hs
    · rw [List.filter_cons_of_pos (by simpa using empty), List.foldlM_cons]
      exact bind_congr fun more => ih more

theorem field_lines_looked (member : l ∈ fieldLines raw) : Looked l := by
  obtain ⟨inside, filled⟩ := List.mem_filter.1 member
  obtain ⟨m, _, rfl⟩ := List.mem_map.1 inside
  exact ⟨by simpa using filled, by simp [trimRight, List.rdropWhile_idempotent]⟩

structure Current (continues : Bool) (line v : Bytes) : Prop where
  filled : v ≠ [] ↔ continues = true ∨ fieldValue line ≠ []
  back : (∀ u ∈ spaceUnits, ¬ u <:+ v) ↔ (continues = true → trimSpace line ≠ [])

theorem trim_space_trimmed (s : Bytes) : Trimmed spaceUnits (trimSpace s) :=
  trim_space_fixed.1 (trim_space_idempotent s)

theorem current_field (line : Bytes) : Current false line (fieldValue line) where
  filled := by simp
  back := iff_of_true (trim_space_trimmed _).back (by simp)

theorem current_continues (line v : Bytes) : Current true line (v ++ 32 :: trimSpace line) where
  filled := by simp
  back := by
    rw [joined_back]
    constructor
    · exact fun both _ => both.1
    · exact fun filled => ⟨filled rfl, (trim_space_trimmed line).back⟩

theorem trimmed_fixed {h : Hdr} : trimmed h = h ↔ Trimmed spaceUnits h.value := by
  rw [← trim_space_fixed]
  cases h
  simp [trimmed]

variable {continues : Bool}

theorem Current.closed {h : Hdr} (current : Current continues line h.value) :
    trimmed h = h ↔ (∀ u ∈ spaceUnits, ¬ u <+: h.value) ∧ (continues = true → trimSpace line ≠ []) := by
  rw [trimmed_fixed, ← current.back]
  exact ⟨fun both => ⟨both.front, both.back⟩, fun both => ⟨both.1, both.2⟩⟩

/-- The rest of the lines leaves no white space around values exactly when the lines are
    solid. The last field is still open: its front is settled, its back is what the
    current line makes it. -/
theorem open_field_iff {lines : List Bytes} {init more : List Hdr} {h : Hdr}
    (current : Current continues line h.value) (looked : ∀ l ∈ lines, Looked l)
    (parsed : lines.foldlM headerLine (init ++ [h]) = .ok more) :
    (∀ g ∈ more, trimmed g = g) ↔
      (∀ g ∈ init, trimmed g = g) ∧ (∀ u ∈ spaceUnits, ¬ u <+: h.value) ∧ SolidFrom continues line lines := by
  induction lines generalizing continues line init h with
  | nil =>
    obtain rfl := Except.ok.inj parsed
    simp only [List.mem_append, List.mem_singleton, or_imp, forall_and, forall_eq, current.closed, SolidFrom]
  | cons next lines ih =>
    have here := looked next List.mem_cons_self
    have later : ∀ l ∈ lines, Looked l := fun l member => looked l (List.mem_cons_of_mem _ member)
    rw [List.foldlM_cons] at parsed
    by_cases blank : StartsBlank next
    · rw [header_line_continues here blank] at parsed
      rw [ih (current_continues next h.value) later parsed, joined_front, current.filled]
      simp only [SolidFrom, blank, if_true, decide_true]
      tauto
    · cases step : headerLine (init ++ [h]) next with
      | error e =>
        rw [step] at parsed
        cases parsed
      | ok middle =>
        obtain ⟨name, rfl⟩ := header_line_starts here (Or.inr blank) step
        rw [step] at parsed
        have front : ∀ u ∈ spaceUnits, ¬ u <+: fieldValue next := (trim_space_trimmed _).front
        rw [ih (current_field next) later parsed]
        simp only [List.mem_append, List.mem_singleton, or_imp, forall_and, forall_eq, current.closed, SolidFrom,
          blank, if_false, decide_false]
        tauto

theorem split_head_lines_fields
    (parsed : splitHeadLines raw = .ok (first, hs)) : (fieldLines raw).foldlM headerLine [] = .ok hs := by
  rw [split_head_lines_eq] at parsed
  unfold fieldLines
  cases lines : raw.splitOn 10 with
  | nil => exact absurd lines (List.splitOn_ne_nil _ _)
  | cons start rest =>
    rw [lines] at parsed
    rw [List.tail_cons, ← fold_lines_looked]
    simp only [splitLines] at parsed
    cases fields : rest.foldlM headerLine [] with
    | error e =>
      rw [fields] at parsed
      cases parsed
    | ok more =>
      rw [fields] at parsed
      cases parsed
      rfl

theorem folds_solid_iff (parsed : splitHeadLines raw = .ok (first, hs)) : hs.map trimmed = hs ↔ FoldsSolid raw := by
  have fields := split_head_lines_fields parsed
  have looked := fun l => @field_lines_looked raw l
  have fixed : hs.map trimmed = hs ↔ ∀ g ∈ hs, trimmed g = g := by
    conv_lhs => rhs; rw [← List.map_id hs]
    exact List.map_inj_left
  rw [fixed, FoldsSolid]
  cases lines : fieldLines raw with
  | nil =>
    rw [lines] at fields
    obtain rfl := Except.ok.inj fields
    simp [SolidLines]
  | cons line rest =>
    rw [lines] at fields looked
    have here := looked line List.mem_cons_self
    rw [List.foldlM_cons] at fields
    cases step : headerLine [] line with
    | error e =>
      rw [step] at fields
      cases fields
    | ok middle =>
      obtain ⟨name, rfl⟩ := header_line_starts here (Or.inl rfl) step
      rw [step] at fields
      have current : Current false line (Hdr.mk name (fieldValue line)).value := current_field line
      rw [open_field_iff current (fun l member => looked l (List.mem_cons_of_mem _ member)) fields]
      constructor
      · exact fun all => all.2.2
      · exact fun solid => ⟨by simp, (trim_space_trimmed _).front, solid⟩

end Folding

section Heads

theorem request_fields {r : ReqHead} (parsed : parseRequestHead raw = .ok r) :
    ∃ first, splitHeadLines raw = .ok (first, r.headers) := by
  unfold parseRequestHead at parsed
  cases lines : splitHeadLines raw with
  | error e =>
    rw [lines] at parsed
    cases parsed
  | ok p =>
    obtain ⟨first, hs⟩ := p
    simp only [lines, bind, Except.bind] at parsed
    split at parsed
    · split at parsed
      · obtain rfl := Except.ok.inj parsed
        exact ⟨first, rfl⟩
      · cases parsed
    · cases parsed

theorem response_fields {r : ResHead} (parsed : parseResponseHead raw = .ok r) :
    ∃ first, splitHeadLines raw = .ok (first, r.headers) := by
  unfold parseResponseHead at parsed
  cases lines : splitHeadLines raw with
  | error e =>
    rw [lines] at parsed
    cases parsed
  | ok p =>
    obtain ⟨first, hs⟩ := p
    simp only [lines, bind, Except.bind] at parsed
    split at parsed
    · split at parsed
      · rename_i code _ _ _
        cases status : parseStatus code with
        | error e =>
          rw [status] at parsed
          cases parsed
        | ok n =>
          rw [status] at parsed
          obtain rfl := Except.ok.inj parsed
          exact ⟨first, rfl⟩
      · cases parsed
    · cases parsed

/-- A parsed head comes back from its printed form exactly when its continuation lines
    are solid. -/
theorem reparse_iff (raw : Bytes) :
    (∀ r, parseRequestHead raw = .ok r → (parseRequestHead r.serialize = .ok r ↔ FoldsSolid raw)) ∧
      ∀ r, parseResponseHead raw = .ok r → (parseResponseHead r.serialize = .ok r ↔ FoldsSolid raw) := by
  constructor
  · intro r parsed
    obtain ⟨first, fields⟩ := request_fields parsed
    rw [parse_request_serialize (parse_request_sound parsed), ← folds_solid_iff fields]
    cases r
    simp
  · intro r parsed
    obtain ⟨first, fields⟩ := response_fields parsed
    rw [parse_response_serialize (parse_response_sound parsed), ← folds_solid_iff fields]
    cases r
    simp

theorem folded_field_reparsed :
    FoldsSolid (text "GET / HTTP/1.1\r\nX: a\r\n b\r\n\tc\r\n\r\n") ∧
      parseRequestHead (ReqHead.serialize ⟨text "GET", text "/", text "HTTP/1.1", [⟨text "X", text "a b c"⟩]⟩) =
        .ok ⟨text "GET", text "/", text "HTTP/1.1", [⟨text "X", text "a b c"⟩]⟩ := by
  have parsed : parseRequestHead (text "GET / HTTP/1.1\r\nX: a\r\n b\r\n\tc\r\n\r\n") =
      .ok ⟨text "GET", text "/", text "HTTP/1.1", [⟨text "X", text "a b c"⟩]⟩ := by decide +kernel
  have solid : FoldsSolid (text "GET / HTTP/1.1\r\nX: a\r\n b\r\n\tc\r\n\r\n") := by decide +kernel
  exact ⟨solid, ((reparse_iff _).1 _ parsed).2 solid⟩

/-- The value of a field that is empty on its own line starts with a space, which is lost. -/
theorem empty_value_folded :
    parseRequestHead (text "GET / HTTP/1.1\r\nX:\r\n b\r\n\r\n") =
        .ok ⟨text "GET", text "/", text "HTTP/1.1", [⟨text "X", text " b"⟩]⟩ ∧
      parseRequestHead (ReqHead.serialize ⟨text "GET", text "/", text "HTTP/1.1", [⟨text "X", text " b"⟩]⟩) =
        .ok ⟨text "GET", text "/", text "HTTP/1.1", [⟨text "X", text "b"⟩]⟩ ∧
      text " b" ≠ text "b" := by
  decide +kernel

structure Encodable (h : Hdr) : Prop where
  named : h.name ≠ []
  plain : ∀ b ∈ h.name, b ≠ 58 ∧ b ≠ 13 ∧ b ≠ 10
  solid : ¬ StartsBlank h.name
  line : ∀ b ∈ h.value, b ≠ 13 ∧ b ≠ 10
  trimmed : trimSpace h.value = h.value

structure EncodableReq (r : ReqHead) : Prop where
  method : ∀ b ∈ r.method, b ≠ 32 ∧ b ≠ 13 ∧ b ≠ 10
  target : ∀ b ∈ r.target, b ≠ 32 ∧ b ≠ 13 ∧ b ≠ 10
  http : text "HTTP/" <+: r.proto
  proto : ∀ b ∈ r.proto, b ≠ 13 ∧ b ≠ 10
  headers : ∀ h ∈ r.headers, Encodable h

structure EncodableRes (r : ResHead) : Prop where
  http : text "HTTP/" <+: r.proto
  proto : ∀ b ∈ r.proto, b ≠ 13 ∧ b ≠ 10
  status : 100 ≤ r.status ∧ r.status ≤ 999
  reason : ∀ b ∈ r.reason, b ≠ 13 ∧ b ≠ 10
  headers : ∀ h ∈ r.headers, Encodable h

theorem encodable_printable (encodable : ∀ h ∈ hs, Encodable h) : Printable hs where
  clean h member :=
    have field := encodable h member
    ⟨field.named, fun inside => (field.plain _ inside).1 rfl, fun inside => (field.plain _ inside).2.2 rfl,
      fun inside => (field.line _ inside).2 rfl⟩
  solid h member := (encodable h (List.mem_of_mem_tail member)).solid

theorem encodable_trimmed (encodable : ∀ h ∈ hs, Encodable h) : hs.map trimmed = hs := by
  conv_rhs => rw [← List.map_id hs]
  refine List.map_inj_left.2 fun h member => ?_
  rw [trimmed, (encodable h member).trimmed]
  rfl

theorem http_filled (http : text "HTTP/" <+: proto) : proto ≠ [] := by
  rintro rfl
  exact absurd http (by decide)

theorem encodable_req_sound {r : ReqHead} (encodable : EncodableReq r) : r.Sound where
  method member := (encodable.method _ member).1 rfl
  target member := (encodable.target _ member).1 rfl
  proto := encodable.http
  line := by
    have method : 10 ∉ r.method := fun member => (encodable.method _ member).2.2 rfl
    have target : 10 ∉ r.target := fun member => (encodable.target _ member).2.2 rfl
    have proto : 10 ∉ r.proto := fun member => (encodable.proto _ member).2 rfl
    simp [ReqHead.line, method, target, proto]
  ending := by
    rw [ReqHead.line, trim_right_fixed_append (http_filled encodable.http)]
    exact trim_right_clean fun b member cr => (encodable.proto b member).1 (List.mem_singleton.1 cr)
  headers := encodable_printable encodable.headers

theorem encodable_res_sound {r : ResHead} (encodable : EncodableRes r) (space : 32 ∉ r.proto) : r.Sound := by
  have printed := res_line_sound r (fun member => (encodable.proto _ member).2 rfl)
    (fun member => (encodable.reason _ member).2 rfl)
    (trim_right_clean fun b member cr => (encodable.reason b member).1 (List.mem_singleton.1 cr))
  exact ⟨encodable.http, space, encodable.status, printed.1, printed.2, encodable_printable encodable.headers⟩

/-- Well-formed heads come back from their printed form; of response heads, those whose
    protocol is one word. -/
theorem heads_round_trip :
    (∀ r : ReqHead, EncodableReq r → parseRequestHead r.serialize = .ok r) ∧
      ∀ r : ResHead, EncodableRes r → (parseResponseHead r.serialize = .ok r ↔ 32 ∉ r.proto) := by
  constructor
  · intro r encodable
    rw [parse_request_serialize (encodable_req_sound encodable), encodable_trimmed encodable.headers]
  · intro r encodable
    constructor
    · exact fun parsed => (parse_response_sound parsed).space
    · intro space
      rw [parse_response_serialize (encodable_res_sound encodable space), encodable_trimmed encodable.headers]

def postHead : ReqHead where
  method := text "POST"
  target := text "/a?b"
  proto := text "HTTP/1.1"
  headers := [⟨text "Host", text "x.com"⟩, ⟨text "X", []⟩]

def notFoundHead : ResHead where
  proto := text "HTTP/1.1"
  status := 404
  reason := text "Not Found"
  headers := [⟨text "X", []⟩]

theorem plain_heads_round_trip :
    parseRequestHead postHead.serialize = .ok postHead ∧ parseResponseHead notFoundHead.serialize = .ok notFoundHead :=
  have host : Encodable ⟨text "Host", text "x.com"⟩ :=
    ⟨by decide +kernel, by decide +kernel, by decide +kernel, by decide +kernel, by decide +kernel⟩
  have empty : Encodable ⟨text "X", []⟩ :=
    ⟨by decide +kernel, by decide +kernel, by decide +kernel, by decide +kernel, by decide +kernel⟩
  have post : EncodableReq postHead :=
    ⟨by decide +kernel, by decide +kernel, by decide +kernel, by decide +kernel,
      List.forall_mem_cons.2 ⟨host, List.forall_mem_singleton.2 empty⟩⟩
  have notFound : EncodableRes notFoundHead :=
    ⟨by decide +kernel, by decide +kernel, by decide +kernel, by decide +kernel,
      List.forall_mem_singleton.2 empty⟩
  ⟨heads_round_trip.1 _ post, (heads_round_trip.2 _ notFound).2 (by decide +kernel)⟩

theorem spaced_proto_lost :
    EncodableRes ⟨text "HTTP/1.1 x", 200, text "OK", []⟩ ∧
      parseResponseHead (ResHead.serialize ⟨text "HTTP/1.1 x", 200, text "OK", []⟩) =
        .error (.malformedStatusCode (text "x")) :=
  ⟨⟨by decide +kernel, by decide +kernel, by decide +kernel, by decide +kernel, by simp⟩, by decide +kernel⟩

end Heads

end HeadRoundTrips
