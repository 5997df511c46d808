import RootShell.HeadReading

/-!
Ordered header lists, head parsing and head serialisation (vpntunnel/http1.go).
A parsed list prints back to lines that parse to the same names and, up to the
white space around them, the same values.
-/
namespace HeaderLists
open ByteLines ByteText HeadReading

variable {name raw first a b rest l code value : Bytes} {ls more : List Bytes}

structure Hdr where
  name : Bytes
  value : Bytes
  deriving DecidableEq, Repr

section Lists
variable (u : CaseTables)

def named (name : Bytes) (h : Hdr) : Bool := equalFold u h.name name

def get (hs : List Hdr) (name : Bytes) : Bytes := ((hs.find? (named u name)).map Hdr.value).getD []

def has (hs : List Hdr) (name : Bytes) : Bool := hs.any (named u name)

def valueTokens (value : Bytes) : List Bytes :=
  ((value.splitOn 44).map fun t => toLower u (trimSpace t)).filter (· ≠ [])

def fields (hs : List Hdr) (name : Bytes) : List Hdr := hs.filter (named u name)

def tokens (hs : List Hdr) (name : Bytes) : List Bytes :=
  (fields u hs name).flatMap fun h => valueTokens u h.value

def add (hs : List Hdr) (name value : Bytes) : List Hdr := hs ++ [⟨name, value⟩]

def setLoop (name value : Bytes) : Bool → List Hdr → List Hdr
  | _, [] => []
  | found, h :: hs =>
    if named u name h then
      if found then setLoop name value true hs else { h with value := value } :: setLoop name value true hs
    else h :: setLoop name value found hs

def set (hs : List Hdr) (name value : Bytes) : List Hdr :=
  if has u hs name then setLoop u name value false hs
  else add (setLoop u name value false hs) name value

def del (hs : List Hdr) (name : Bytes) : List Hdr := hs.filter fun h => !named u name h

def hasToken (tokens : List Bytes) (tok : Bytes) : Bool := tokens.contains tok

end Lists

structure ReqHead where
  method : Bytes
  target : Bytes
  proto : Bytes
  headers : List Hdr
  deriving DecidableEq, Repr

structure ResHead where
  proto : Bytes
  status : Nat
  reason : Bytes
  headers : List Hdr
  deriving DecidableEq, Repr

/-- An obs-fold line continues the value of the last field. -/
def foldLast (line : Bytes) : List Hdr → List Hdr
  | [] => []
  | [h] => [{ h with value := h.value ++ 32 :: trimSpace line }]
  | h :: hs => h :: foldLast line hs

def headerLine (hs : List Hdr) (raw : Bytes) : Except HttpError (List Hdr) :=
  let l := trimRight [13] raw
  match l with
  | [] => pure hs
  | b :: _ =>
    if (b = 32 ∨ b = 9) ∧ hs ≠ [] then pure (foldLast l hs)
    else if b = 58 ∨ 58 ∉ l then throw (.malformedHeaderLine l)
    else pure (hs ++ [⟨l.takeWhile (· != 58), trimSpace ((l.dropWhile (· != 58)).drop 1)⟩])

def splitLines : List Bytes → Except HttpError (Bytes × List Hdr)
  | [] => throw .emptyHead
  | first :: lines => do
    let hs ← lines.foldlM headerLine []
    pure (trimRight [13] first, hs)

def splitHeadLines (raw : Bytes) : Except HttpError (Bytes × List Hdr) :=
  splitLines ((trimRight [13, 10] raw).splitOn 10)

def parseRequestHead (raw : Bytes) : Except HttpError ReqHead := do
  let (first, hs) ← splitHeadLines raw
  match splitN 32 3 first with
  | [method, target, proto] =>
    if (text "HTTP/").isPrefixOf proto then pure ⟨method, target, proto, hs⟩
    else throw (.malformedRequestLine first)
  | _ => throw (.malformedRequestLine first)

def parseStatus (code : Bytes) : Except HttpError Nat :=
  match parseInt 10 code with
  | some n => if 100 ≤ n ∧ n ≤ 999 then pure n.toNat else throw (.malformedStatusCode code)
  | none => throw (.malformedStatusCode code)

def parseResponseHead (raw : Bytes) : Except HttpError ResHead := do
  let (first, hs) ← splitHeadLines raw
  match splitN 32 3 first with
  | proto :: code :: reason =>
    if (text "HTTP/").isPrefixOf proto then
      let status ← parseStatus code
      pure ⟨proto, status, reason.headD [], hs⟩
    else throw (.malformedStatusLine first)
  | _ => throw (.malformedStatusLine first)

def printLine (h : Hdr) : Bytes := h.name ++ text ": " ++ h.value

def serializeHead (first : Bytes) (hs : List Hdr) : Bytes :=
  first ++ [13, 10] ++ hs.flatMap (fun h => printLine h ++ [13, 10]) ++ [13, 10]

def ReqHead.line (r : ReqHead) : Bytes := r.method ++ [32] ++ r.target ++ [32] ++ r.proto

def ReqHead.serialize (r : ReqHead) : Bytes := serializeHead r.line r.headers

def ResHead.line (r : ResHead) : Bytes :=
  r.proto ++ [32] ++ itoa r.status ++ if r.reason = [] then [] else [32] ++ r.reason

def ResHead.serialize (r : ResHead) : Bytes := serializeHead r.line r.headers

theorem header_line_nil (hs : List Hdr) : headerLine hs [] = .ok hs := rfl

theorem header_line_cr (hs : List Hdr) (l : Bytes) : headerLine hs (l ++ [13]) = headerLine hs l := by
  simp only [headerLine, trim_right_concat (List.mem_singleton_self 13)]

theorem split_lines_concat (some : ls ≠ []) (l : Bytes) :
    splitLines (ls ++ [l]) = splitLines ls >>= fun p => (fun hs => (p.1, hs)) <$> headerLine p.2 l := by
  obtain ⟨first, lines, rfl⟩ := List.exists_cons_of_ne_nil some
  simp [splitLines]

theorem split_lines_cr (ls : List Bytes) (l : Bytes) : splitLines (ls ++ [l ++ [13]]) = splitLines (ls ++ [l]) := by
  by_cases some : ls = []
  · simp only [some, List.nil_append, splitLines, trim_right_concat (List.mem_singleton_self 13)]
  · simp only [split_lines_concat some, header_line_cr]

theorem split_head_lines_eq (raw : Bytes) : splitHeadLines raw = splitLines (raw.splitOn 10) := by
  change splitLines ((trimRight [13, 10] raw).splitOn 10) = _
  induction raw using List.reverseRecOn with
  | nil => rfl
  | append_singleton s b ih =>
    by_cases cut : b ∈ [13, 10]
    · rw [trim_right_concat cut, ih]
      have found : b = 13 ∨ b = 10 := by simpa using cut
      rcases found with rfl | rfl
      · obtain ⟨ls, l, eq, eq'⟩ := split_on_back (show (10 : UInt8) ∉ [13] by decide) s
        rw [eq, eq', split_lines_cr]
      · rw [List.splitOn_append_cons_self, List.splitOn_nil, split_lines_concat (List.splitOn_ne_nil _ _)]
        simp only [header_line_nil]
        cases splitLines (s.splitOn 10) <;> rfl
    · rw [trim_right_stop cut]

def StartsBlank (l : Bytes) : Prop := l.head? = some 32 ∨ l.head? = some 9

structure Clean (h : Hdr) : Prop where
  named : h.name ≠ []
  colon : 58 ∉ h.name
  name : 10 ∉ h.name
  value : 10 ∉ h.value

/-- Header lists that print to one line a field. Only the first name may start with white
    space: there is no field before it that such a line could continue. -/
structure Printable (hs : List Hdr) : Prop where
  clean : ∀ h ∈ hs, Clean h
  solid : ∀ h ∈ hs.tail, ¬ StartsBlank h.name

def trimmed (h : Hdr) : Hdr := { h with value := trimSpace h.value }

variable {hs : List Hdr}

theorem header_line_field (some : name ≠ []) (colon : 58 ∉ name) (start : hs ≠ [] → ¬ StartsBlank name) :
    headerLine hs (name ++ 58 :: rest) = .ok (hs ++ [⟨name, trimSpace rest⟩]) := by
  have shape : trimRight [13] (name ++ 58 :: rest) = name ++ 58 :: trimRight [13] rest :=
    trim_right_cons (by decide) _ _
  obtain ⟨b, name, rfl⟩ := List.exists_cons_of_ne_nil some
  have unfolded : ¬ ((b = 32 ∨ b = 9) ∧ hs ≠ []) := by
    rintro ⟨blank, more⟩
    exact start more (by simpa [StartsBlank] using blank)
  have first : b ≠ 58 := fun eq => colon (by simp [eq])
  simp only [headerLine, shape, take_while_until colon, drop_while_until colon]
  simp only [List.cons_append, unfolded, ↓reduceIte, first, false_or]
  simp [trim_space_trim_right, pure, Except.pure]

theorem header_line_print {h : Hdr} (clean : Clean h) (start : hs ≠ [] → ¬ StartsBlank h.name) :
    headerLine hs (printLine h ++ [13]) = .ok (hs ++ [trimmed h]) := by
  have shape : printLine h = h.name ++ 58 :: 32 :: h.value := by
    have : text ": " = [58, 32] := by decide
    simp [printLine, this]
  rw [header_line_cr, shape, header_line_field clean.named clean.colon start, trim_space_cons]
  rfl

theorem header_lines_print (acc : List Hdr) (clean : ∀ h ∈ hs, Clean h)
    (solid : ∀ h ∈ hs.tail, ¬ StartsBlank h.name) (start : acc ≠ [] → ∀ h ∈ hs, ¬ StartsBlank h.name) :
    (hs.map fun h => printLine h ++ [13]).foldlM headerLine acc = .ok (acc ++ hs.map trimmed) := by
  induction hs generalizing acc with
  | nil => simp [pure, Except.pure]
  | cons h hs ih =>
    rw [List.map_cons, List.foldlM_cons,
      header_line_print (clean h (by simp)) fun more => start more h (by simp)]
    simp only [bind, Except.bind]
    rw [ih _ (fun g member => clean g (by simp [member]))
      (fun g member => solid g (List.mem_of_mem_tail member)) (fun _ g member => solid g member)]
    simp

theorem split_serialized (first : Bytes) (hs : List Hdr) (line : 10 ∉ first) (clean : ∀ h ∈ hs, Clean h) :
    (serializeHead first hs).splitOn 10 =
      (first ++ [13]) :: (hs.map fun h => printLine h ++ [13]) ++ [[13], []] := by
  have shape : serializeHead first hs =
      first ++ [13] ++ 10 :: ((hs.flatMap fun h => printLine h ++ [13, 10]) ++ [13, 10]) := by
    simp [serializeHead]
  rw [shape, List.splitOn_append_cons_self_of_not_mem (by simp [line]), List.cons_append]
  congr 1
  clear shape
  induction hs with
  | nil => decide
  | cons h hs ih =>
    have printed : 10 ∉ printLine h ++ [13] := by
      have := (clean h (by simp)).name
      have := (clean h (by simp)).value
      have : (10 : UInt8) ∉ text ": " := by decide
      simp [printLine, *]
    have regroup : (List.flatMap (fun h => printLine h ++ [13, 10]) (h :: hs) ++ [13, 10]) =
        (printLine h ++ [13]) ++ 10 :: ((hs.flatMap fun h => printLine h ++ [13, 10]) ++ [13, 10]) := by
      simp
    rw [regroup, List.splitOn_append_cons_self_of_not_mem printed, List.map_cons, List.cons_append,
      ih fun g member => clean g (by simp [member])]

theorem split_head_lines_serialize (first : Bytes) (line : 10 ∉ first) (printable : Printable hs) :
    splitHeadLines (serializeHead first hs) = .ok (trimRight [13] first, hs.map trimmed) := by
  rw [split_head_lines_eq, split_serialized first hs line printable.clean]
  have fields : (hs.map fun h => printLine h ++ [13]).foldlM headerLine [] = .ok (hs.map trimmed) := by
    simpa using header_lines_print [] printable.clean printable.solid (by simp)
  have last : headerLine (hs.map trimmed) [13] = .ok (hs.map trimmed) := header_line_cr _ []
  simp [splitLines, fields, last, header_line_nil, trim_right_concat, bind, Except.bind, pure, Except.pure]

theorem fold_last_names (l : Bytes) (hs : List Hdr) : (foldLast l hs).map Hdr.name = hs.map Hdr.name := by
  fun_induction foldLast l hs with
  | case1 => rfl
  | case2 => rfl
  | case3 h hs _ ih => simp [ih]

theorem fold_last_clean (line : 10 ∉ l) (clean : ∀ h ∈ hs, Clean h) : ∀ h ∈ foldLast l hs, Clean h := by
  fun_induction foldLast l hs with
  | case1 => simp
  | case2 h =>
    have old := clean h (by simp)
    have added : 10 ∉ trimSpace l := fun member => line (trim_space_subset l _ member)
    intro g member
    rw [List.mem_singleton.mp member]
    exact ⟨old.named, old.colon, old.name, by simp [old.value, added]⟩
  | case3 h hs _ ih =>
    intro g member
    rcases List.mem_cons.mp member with rfl | inside
    · exact clean _ (by simp)
    · exact ih (fun k hk => clean k (by simp [hk])) g inside

theorem tail_solid_of_names {gs : List Hdr} (names : gs.map Hdr.name = hs.map Hdr.name)
    (solid : ∀ h ∈ hs.tail, ¬ StartsBlank h.name) : ∀ h ∈ gs.tail, ¬ StartsBlank h.name := by
  intro g member
  have inside : g.name ∈ hs.tail.map Hdr.name := by
    rw [List.map_tail, ← names, ← List.map_tail]
    exact List.mem_map_of_mem member
  obtain ⟨h, found, eq⟩ := List.mem_map.mp inside
  exact eq ▸ solid h found

theorem printable_nil : Printable [] := ⟨by simp, by simp⟩

theorem printable_concat (printable : Printable hs) {h : Hdr} (clean : Clean h)
    (start : hs ≠ [] → ¬ StartsBlank h.name) : Printable (hs ++ [h]) := by
  refine ⟨?_, ?_⟩
  · intro g member
    rcases List.mem_append.mp member with old | new
    · exact printable.clean g old
    · rw [List.mem_singleton.mp new]
      exact clean
  · cases hs with
    | nil => simp
    | cons a hs =>
      intro g member
      have inside : g ∈ hs ∨ g = h := by simpa using member
      rcases inside with old | rfl
      · exact printable.solid g old
      · exact start (by simp)

theorem header_line_printable {more : List Hdr} (printable : Printable hs)
    (line : 10 ∉ raw) (parsed : headerLine hs raw = .ok more) : Printable more := by
  obtain ⟨back, whole, _⟩ := trim_right_spec [13] raw
  have clean : 10 ∉ trimRight [13] raw := fun member => line (by rw [whole]; simp [member])
  unfold headerLine at parsed
  generalize trimRight [13] raw = l at parsed clean
  cases l with
  | nil => exact Except.ok.inj parsed ▸ printable
  | cons b rest =>
    dsimp only at parsed
    split at parsed
    · rw [← Except.ok.inj parsed]
      exact ⟨fold_last_clean clean printable.clean,
        tail_solid_of_names (fold_last_names _ _) printable.solid⟩
    · rename_i unfolded
      split at parsed
      · cases parsed
      · rename_i colon
        simp only [not_or, not_not] at colon
        rw [← Except.ok.inj parsed]
        have start : (b :: rest).takeWhile (· != 58) = b :: rest.takeWhile (· != 58) := by
          simp [colon.1]
        apply printable_concat printable
        · refine ⟨by simp [start], ?_, ?_, ?_⟩
          · intro member
            simpa using List.mem_takeWhile_imp member
          · intro member
            exact clean ((List.takeWhile_prefix (· != 58)).subset member)
          · intro member
            apply clean
            have := List.mem_of_mem_drop (trim_space_subset _ _ member)
            exact (List.dropWhile_suffix _).subset this
        · intro some blank
          apply unfolded
          rw [start] at blank
          exact ⟨by simpa [StartsBlank] using blank, some⟩

theorem fold_lines_printable {more : List Hdr} (printable : Printable hs)
    (lines : ∀ l ∈ ls, 10 ∉ l) (parsed : ls.foldlM headerLine hs = .ok more) : Printable more := by
  induction ls generalizing hs with
  | nil => exact Except.ok.inj parsed ▸ printable
  | cons l ls ih =>
    rw [List.foldlM_cons] at parsed
    cases step : headerLine hs l with
    | error e => simp [step, bind, Except.bind] at parsed
    | ok next =>
      exact ih (header_line_printable printable (lines l (by simp)) step)
        (fun m member => lines m (by simp [member])) (by simpa [step, bind, Except.bind] using parsed)

theorem split_head_lines_printable (parsed : splitHeadLines raw = .ok (first, hs)) :
    Printable hs ∧ 10 ∉ first ∧ trimRight [13] first = first := by
  rw [split_head_lines_eq] at parsed
  have clean := split_on_clean 10 raw
  generalize raw.splitOn 10 = ls at parsed clean
  cases ls with
  | nil => cases parsed
  | cons l ls =>
    simp only [splitLines] at parsed
    cases fields : ls.foldlM headerLine [] with
    | error e => simp [fields, bind, Except.bind] at parsed
    | ok more =>
      simp only [fields, bind, Except.bind, pure, Except.pure, Except.ok.injEq, Prod.mk.injEq] at parsed
      obtain ⟨rfl, rfl⟩ := parsed
      obtain ⟨back, whole, _⟩ := trim_right_spec [13] l
      refine ⟨fold_lines_printable printable_nil (fun m member => clean m (by simp [member])) fields, ?_, ?_⟩
      · intro member
        exact clean l (by simp) (by rw [whole]; simp [member])
      · simp [trimRight, List.rdropWhile_idempotent]

structure ReqHead.Sound (r : ReqHead) : Prop where
  method : 32 ∉ r.method
  target : 32 ∉ r.target
  proto : text "HTTP/" <+: r.proto
  line : 10 ∉ r.line
  ending : trimRight [13] r.line = r.line
  headers : Printable r.headers

structure ResHead.Sound (r : ResHead) : Prop where
  proto : text "HTTP/" <+: r.proto
  space : 32 ∉ r.proto
  status : 100 ≤ r.status ∧ r.status ≤ 999
  line : 10 ∉ r.line
  ending : trimRight [13] r.line = r.line
  headers : Printable r.headers

theorem head_parsed {A : Type} {parse : Bytes × List Hdr → Except HttpError A} {r : A}
    (parsed : splitHeadLines raw >>= parse = .ok r) :
    ∃ first hs, Printable hs ∧ 10 ∉ first ∧ trimRight [13] first = first ∧ parse (first, hs) = .ok r := by
  cases lines : splitHeadLines raw with
  | error e => simp [lines, bind, Except.bind] at parsed
  | ok p =>
    obtain ⟨first, hs⟩ := p
    obtain ⟨printable, line, ending⟩ := split_head_lines_printable lines
    rw [lines] at parsed
    exact ⟨first, hs, printable, line, ending, parsed⟩

theorem start_line_parts (parts : splitN 32 3 first = a :: b :: more) :
    32 ∉ a ∧ (more = [] ∧ first = a ++ 32 :: b ∨
      ∃ last, more = [last] ∧ 32 ∉ b ∧ first = a ++ 32 :: (b ++ 32 :: last)) := by
  rcases split_n_cases 32 1 first with ⟨_, one⟩ | ⟨front, rest, eq, noSpace, found⟩
  · simp [one] at parts
  · rw [found] at parts
    obtain ⟨rfl, behind⟩ := List.cons.inj parts
    refine ⟨noSpace, ?_⟩
    rcases split_n_cases 32 0 rest with ⟨_, one⟩ | ⟨middle, last, eq', noSpace', found'⟩
    · obtain ⟨rfl, none⟩ := List.cons.inj (one.symm.trans behind)
      exact .inl ⟨none.symm, eq⟩
    · obtain ⟨rfl, same⟩ := List.cons.inj (found'.symm.trans behind)
      exact .inr ⟨last, same.symm, noSpace', by rw [eq, eq']⟩

theorem parse_request_sound {r : ReqHead} (parsed : parseRequestHead raw = .ok r) : r.Sound := by
  obtain ⟨first, hs, printable, line, ending, parsed⟩ := head_parsed parsed
  dsimp only at parsed
  split at parsed
  · rename_i method target proto parts
    split at parsed
    · rename_i http
      rw [← Except.ok.inj parsed]
      obtain ⟨noSpace, ⟨two, _⟩ | ⟨last, three, noSpace', eq⟩⟩ := start_line_parts parts
      · cases two
      · cases three
        have whole : first = ReqHead.line ⟨method, target, proto, hs⟩ := by simp [ReqHead.line, eq]
        exact ⟨noSpace, noSpace', by simpa using http, whole ▸ line, whole ▸ ending, printable⟩
    · cases parsed
  · cases parsed

theorem parse_request_serialize {r : ReqHead} (sound : r.Sound) :
    parseRequestHead r.serialize = .ok { r with headers := r.headers.map trimmed } := by
  have parts : splitN 32 3 r.line = [r.method, r.target, r.proto] := by
    have shape : r.line = r.method ++ 32 :: (r.target ++ 32 :: r.proto) := by simp [ReqHead.line]
    rw [shape, split_n_found 1 sound.method, split_n_found 0 sound.target]
    rfl
  have lines := split_head_lines_serialize r.line sound.line sound.headers
  rw [sound.ending] at lines
  have http : (text "HTTP/").isPrefixOf r.proto = true := List.isPrefixOf_iff_prefix.mpr sound.proto
  change parseRequestHead (serializeHead r.line r.headers) = _
  simp [parseRequestHead, lines, bind, Except.bind, parts, http, pure, Except.pure]

theorem parse_status_ok {status : Nat} (parsed : parseStatus code = .ok status) : 100 ≤ status ∧ status ≤ 999 := by
  unfold parseStatus at parsed
  split at parsed
  · split at parsed
    · rw [← Except.ok.inj parsed]
      omega
    · cases parsed
  · cases parsed

theorem parse_status_itoa {status : Nat} (range : 100 ≤ status ∧ status ≤ 999) :
    parseStatus (itoa status) = .ok status := by
  unfold parseStatus
  rw [parse_int_itoa status (by omega)]
  have : (100 : Int) ≤ (status : Int) ∧ (status : Int) ≤ 999 := by omega
  simp [this, pure, Except.pure]

theorem res_line_sound (r : ResHead) (proto : 10 ∉ r.proto) (reason : 10 ∉ r.reason)
    (ending : trimRight [13] r.reason = r.reason) : 10 ∉ r.line ∧ trimRight [13] r.line = r.line := by
  have digits : 10 ∉ itoa r.status := itoa_clean _ (by decide)
  have space : (10 : UInt8) ≠ 32 := by decide
  by_cases empty : r.reason = []
  · simp only [ResHead.line, empty, ↓reduceIte, List.append_nil]
    refine ⟨by simp [proto, digits, space],
      (trim_right_fixed_append (itoa_not_nil _)).mpr (trim_right_clean ?_)⟩
    intro b member cr
    rw [List.mem_singleton.mp cr] at member
    exact itoa_clean _ (by decide) member
  · simp only [ResHead.line, empty, ↓reduceIte]
    refine ⟨by simp [proto, digits, space, reason], ?_⟩
    rw [← List.append_assoc, trim_right_fixed_append empty]
    exact ending

theorem parse_response_sound {r : ResHead} (parsed : parseResponseHead raw = .ok r) : r.Sound := by
  obtain ⟨first, hs, printable, line, ending, parsed⟩ := head_parsed parsed
  dsimp only at parsed
  split at parsed
  · rename_i proto code reason parts
    split at parsed
    · rename_i http
      cases status : parseStatus code with
      | error e => simp [status, bind, Except.bind] at parsed
      | ok n =>
        simp only [status, bind, Except.bind] at parsed
        rw [← Except.ok.inj parsed]
        have range := parse_status_ok status
        have http' : text "HTTP/" <+: proto := by simpa using http
        obtain ⟨noSpace, ⟨rfl, eq⟩ | ⟨last, rfl, _, eq⟩⟩ := start_line_parts parts
        · have cleanProto : 10 ∉ proto := fun member => line (by simp [eq, member])
          have printed := res_line_sound ⟨proto, n, [], hs⟩ cleanProto (by simp) rfl
          exact ⟨http', noSpace, range, printed.1, printed.2, printable⟩
        · have cleanProto : 10 ∉ proto := fun member => line (by simp [eq, member])
          have cleanReason : 10 ∉ last := fun member => line (by simp [eq, member])
          have fixed : trimRight [13] last = last := by
            by_cases empty : last = []
            · simp [empty, trimRight]
            · have shape : first = (proto ++ 32 :: code ++ [32]) ++ last := by simp [eq]
              exact (trim_right_fixed_append empty).mp (shape ▸ ending)
          have printed := res_line_sound ⟨proto, n, last, hs⟩ cleanProto cleanReason fixed
          exact ⟨http', noSpace, range, printed.1, printed.2, printable⟩
    · cases parsed
  · cases parsed

theorem parse_response_serialize {r : ResHead} (sound : r.Sound) :
    parseResponseHead r.serialize = .ok { r with headers := r.headers.map trimmed } := by
  have digits : 32 ∉ itoa r.status := itoa_clean _ (by decide)
  have lines := split_head_lines_serialize r.line sound.line sound.headers
  rw [sound.ending] at lines
  have http : (text "HTTP/").isPrefixOf r.proto = true := List.isPrefixOf_iff_prefix.mpr sound.proto
  have parts : splitN 32 3 r.line = r.proto :: itoa r.status :: if r.reason = [] then [] else [r.reason] := by
    by_cases empty : r.reason = []
    · have shape : r.line = r.proto ++ 32 :: itoa r.status := by simp [ResHead.line, empty]
      rw [shape, split_n_found 1 sound.space, split_n_absent 0 digits]
      simp [empty]
    · have shape : r.line = r.proto ++ 32 :: (itoa r.status ++ 32 :: r.reason) := by
        simp [ResHead.line, empty]
      rw [shape, split_n_found 1 sound.space, split_n_found 0 digits]
      simp [empty, splitN]
  change parseResponseHead (serializeHead r.line r.headers) = _
  simp only [parseResponseHead, lines, bind, Except.bind, parts, http, ↓reduceIte,
    parse_status_itoa sound.status, pure, Except.pure]
  by_cases empty : r.reason = []
  · simp [empty]
  · simp [empty]

section Edits
variable {u : CaseTables}

theorem fold_apart (apart : (runes a).length ≠ (runes b).length) : equalFold u a b = false := by
  by_contra same
  have keys : foldKey u a = foldKey u b := by simpa [equalFold] using same
  apply apart
  simpa [foldKey] using congrArg List.length keys

theorem named_other (other : equalFold u a b = false) {h : Hdr}
    (first : named u a h = true) : named u b h = false := by
  have left : foldKey u h.name = foldKey u a := by simpa [named, equalFold] using first
  simpa [named, equalFold, left] using other

theorem named_alike (alike : equalFold u a b = true) : named u a = named u b := by
  have keys : foldKey u a = foldKey u b := by simpa [equalFold] using alike
  funext h
  simp [named, equalFold, keys]

theorem named_refl (name value : Bytes) : named u name ⟨name, value⟩ = true := by
  simp [named, equalFold]

theorem fields_del_self (hs : List Hdr) (name : Bytes) : fields u (del u hs name) name = [] := by
  simp [fields, del, List.filter_filter]

theorem fields_del_other (other : equalFold u a b = false) (hs : List Hdr) :
    fields u (del u hs a) b = fields u hs b := by
  simp only [fields, del, List.filter_filter]
  apply List.filter_congr
  intro h _
  by_cases here : named u a h = true
  · simp [here, named_other other here]
  · simp [here]

theorem set_loop_other (other : equalFold u a b = false) (value : Bytes)
    (found : Bool) (hs : List Hdr) : fields u (setLoop u a value found hs) b = fields u hs b := by
  induction hs generalizing found with
  | nil => simp [setLoop]
  | cons h hs ih =>
    simp only [fields] at ih ⊢
    by_cases here : named u a h = true
    · have apart := named_other other here
      have kept : named u b { h with value := value } = false := apart
      cases found with
      | true => simp [setLoop, here, apart, ih]
      | false => simp [setLoop, here, apart, kept, ih]
    · simp [setLoop, here, List.filter_cons, ih]

theorem fields_set_other (other : equalFold u a b = false) (hs : List Hdr)
    (value : Bytes) : fields u (set u hs a value) b = fields u hs b := by
  unfold set
  split
  · exact set_loop_other other value false hs
  · have apart := named_other other (named_refl a value)
    simp only [add, fields, List.filter_append]
    have := set_loop_other other value false hs
    simp only [fields] at this
    simp [this, apart]

theorem set_loop_found (name value : Bytes) (hs : List Hdr) : fields u (setLoop u name value true hs) name = [] := by
  induction hs with
  | nil => rfl
  | cons h hs ih =>
    by_cases here : named u name h = true
    · simpa [setLoop, here] using ih
    · simpa [setLoop, here, fields, List.filter_cons] using ih

theorem set_loop_values (name value : Bytes) (hs : List Hdr) :
    (fields u (setLoop u name value false hs) name).map Hdr.value =
      if has u hs name then [value] else [] := by
  induction hs with
  | nil => rfl
  | cons h hs ih =>
    by_cases here : named u name h = true
    · have kept : named u name { h with value := value } = true := here
      have rest := set_loop_found (u := u) name value hs
      simp only [fields] at rest
      simp [setLoop, here, fields, kept, rest, has]
    · simpa [setLoop, here, fields, List.filter_cons, has] using ih

theorem fields_set_values (hs : List Hdr) (name value : Bytes) :
    (fields u (set u hs name value) name).map Hdr.value = [value] := by
  have loop := set_loop_values (u := u) name value hs
  unfold set
  split
  · rename_i found
    simpa [found] using loop
  · rename_i absent
    rw [if_neg absent] at loop
    simp only [fields, add, List.filter_append, List.map_append] at loop ⊢
    simp [loop, named_refl]

theorem printable_filter (printable : Printable hs) (p : Hdr → Bool) : Printable (hs.filter p) :=
  ⟨fun h member => printable.clean h (List.mem_of_mem_filter member),
    fun h member => printable.solid h (List.filter_sublist.tail.subset member)⟩

theorem set_loop_names (name value : Bytes) (found : Bool) (hs : List Hdr) :
    ((setLoop u name value found hs).map Hdr.name).Sublist (hs.map Hdr.name) := by
  induction hs generalizing found with
  | nil => simp [setLoop]
  | cons h hs ih =>
    by_cases here : named u name h = true
    · cases found with
      | true => simpa [setLoop, here] using (ih true).cons h.name
      | false => simpa [setLoop, here] using ih true
    · simpa [setLoop, here] using ih found

theorem set_loop_clean (line : 10 ∉ value)
    (clean : ∀ h ∈ hs, Clean h) (found : Bool) : ∀ h ∈ setLoop u name value found hs, Clean h := by
  induction hs generalizing found with
  | nil => simp [setLoop]
  | cons h hs ih =>
    have old := clean h (by simp)
    have rest := ih fun g member => clean g (by simp [member])
    have replaced : Clean { h with value := value } := ⟨old.named, old.colon, old.name, line⟩
    by_cases here : named u name h = true
    · cases found with
      | true => simpa [setLoop, here] using rest true
      | false => simpa [setLoop, here, replaced] using rest true
    · simpa [setLoop, here, old] using rest found

theorem printable_set (printable : Printable hs)
    (clean : Clean ⟨name, value⟩) (solid : ¬ StartsBlank name) : Printable (set u hs name value) := by
  have loop : Printable (setLoop u name value false hs) := by
    refine ⟨set_loop_clean clean.value printable.clean false, ?_⟩
    intro h member
    have inside : h.name ∈ (hs.map Hdr.name).tail :=
      (set_loop_names name value false hs).tail.subset (by
        rw [← List.map_tail]
        exact List.mem_map_of_mem member)
    rw [← List.map_tail] at inside
    obtain ⟨g, found, eq⟩ := List.mem_map.mp inside
    exact eq ▸ printable.solid g found
  unfold set
  split
  · exact loop
  · exact printable_concat loop clean fun _ => solid

theorem serialize_head_lines (some : first ≠ []) (line : 10 ∉ first)
    (clean : ∀ h ∈ hs, Clean h) : ∃ head : HeadLines, head.bytes = serializeHead first hs := by
  have printed : ∀ h ∈ hs, 10 ∉ printLine h := by
    intro h member
    have := (clean h member).name
    have := (clean h member).value
    have : (10 : UInt8) ∉ text ": " := by decide
    simp [printLine, *]
  have longer : ∀ h ∈ hs, printLine h ≠ [] := by
    intro h member
    have := (clean h member).named
    simp [printLine, this]
  have isLine : ∀ l : Bytes, 10 ∉ l → IsLine (l ++ [13, 10]) :=
    fun l clean => ⟨l ++ [13], by simp, by simp [clean]⟩
  have solid : ∀ l : Bytes, l ≠ [] → ¬ Blank (l ++ [13, 10]) := by
    intro l some blank
    have := List.length_pos_of_ne_nil some
    rcases blank with eq | eq <;> simpa [some] using congrArg List.length eq
  refine ⟨⟨(first ++ [13, 10]) :: hs.map (fun h => printLine h ++ [13, 10]), [13, 10], by simp, ?_, ?_,
    Or.inr rfl⟩, by simp [HeadLines.bytes, serializeHead, List.flatMap_def]⟩
  · intro l member
    rcases List.mem_cons.mp member with rfl | inside
    · exact isLine first line
    · obtain ⟨h, found, rfl⟩ := List.mem_map.mp inside
      exact isLine _ (printed h found)
  · intro l member
    rcases List.mem_cons.mp member with rfl | inside
    · exact solid first some
    · obtain ⟨h, found, rfl⟩ := List.mem_map.mp inside
      exact solid _ (longer h found)

end Edits

end HeaderLists
