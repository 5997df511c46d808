import RootShell.Interleaving
import RootShell.SliceViews
import RootShell.WordFields

/-!
What the user types while the connection is lost: handleUserInput and forwardInput of
tssh/notif.go and handleAndDecodeTmuxInput of tssh/tmuxcc.go. One goroutine reads into a buffer
and another one writes to the server; the undecoded end of a read, and what is queued, may be
slices of the buffer.
-/
namespace InterceptedInput
open ByteLines ByteText WordFields SliceViews Interleaving

variable {data a last : Bytes} {buf : Slice} {count : Nat} {interceptFlag : Bool}

section Decoding

structure Found where
  input : Bytes
  paneId : Bytes
  detach : Bool
  acks : Nat

structure Decoded extends Found where
  last : Bytes

def hexInput (token : Bytes) : Bytes :=
  if (text "0x").isPrefixOf token then ((parseUintSized 16 8 (token.drop 2)).map UInt8.ofNat).toList else []

def decodeTokens (f : Found) : List Bytes → Found
  | verb :: flag :: target :: rest =>
    if verb = text "send" then
      if flag = text "-lt" then { f with paneId := target, input := f.input ++ rest.headD [] }
      else if flag = text "-t" then { f with paneId := target, input := f.input ++ rest.flatMap hexInput }
      else f
    else if (verb = text "select-pane" ∨ verb = text "display-message") ∧ flag = text "-t" then
      { f with paneId := target }
    else f
  | _ => f

def decodeCommand (f : Found) (cmd : Bytes) : Found :=
  let tokens := fields (trimSpace cmd)
  decodeTokens
    { f with acks := f.acks + 1, detach := f.detach || decide (tokens.head? = some (text "detach")) } tokens

def cleanPane (paneId : Bytes) : Bytes :=
  match trimSet (text "\"'") paneId with
  | 37 :: number => if (parseUintSized 10 32 number).isSome then number else []
  | _ => []

def commands (buf : Bytes) : List Bytes := (buf.splitOn 13).dropLast.flatMap fun part => part.splitOn 59

def remainder (buf : Bytes) : Bytes := (buf.splitOn 13).getLastD []

def handleAndDecodeTmuxInput (buf : Bytes) : Decoded :=
  let found := (commands buf).foldl decodeCommand ⟨[], [], false, 0⟩
  { found with paneId := cleanPane found.paneId, last := remainder buf }

end Decoding

section Intercepting

structure Interceptor where
  tmuxFlag : Bool
  filterESC6n : Bool
  tmuxLeftBuf : Option Slice
  tmuxPaneId : Option Bytes
  cursorPos : Option Bytes
  interceptChan : Option UInt8
  exited : Bool

def isCursorPos (n : Nat) (buf : Bytes) : Bool :=
  decide (5 < n ∧ buf.getD 0 0 = 0x1B ∧ buf.getD 1 0 = 91 ∧ buf.getD (n - 1) 0 = 82)

/-- A single byte is a key, unless the last key has not been taken. -/
def Interceptor.offer (ni : Interceptor) (buf : Bytes) : Interceptor :=
  if buf.length = 1 then { ni with interceptChan := ni.interceptChan.or buf.head? }
  else if isCursorPos buf.length buf then { ni with cursorPos := some ((buf.drop 2).take (buf.length - 3)) }
  else ni

def Interceptor.react (ni : Interceptor) (d : Decoded) : Interceptor :=
  if d.detach then { ni with exited := true }
  else if d.paneId = [] then ni
  else
    match ni.tmuxPaneId with
    | none => { ni with tmuxPaneId := some d.paneId }.offer d.input
    | some pane => if pane ≠ d.paneId then ni else ni.offer d.input

/-- `waiting` is the chunk that forwardInput waits to queue, `queue` the channel and `writing`
    what the writer has left to write. `decoded` collects the input that the decoder has
    returned. -/
structure State where
  mem : Memory UInt8
  ni : Interceptor
  waiting : Option Slice
  queue : List Slice
  writing : Option Slice
  server : Bytes
  decoded : Bytes
  acks : Nat

variable (grow : Nat → Nat → Nat)

def State.join (s : State) (input : Slice) : Memory UInt8 × Slice :=
  match s.ni.tmuxLeftBuf with
  | none => (s.mem, input)
  | some left => s.mem.append grow left (s.mem.view input)

/-- The last part of bytes.Split is a slice of its argument, with all of its capacity. -/
def lastPart (buf : Slice) (last : Bytes) : Option Slice :=
  if last = [] then none else some (buf.drop (buf.len - last.length))

def State.handleUserInput (s : State) (input : Slice) : State :=
  if s.ni.tmuxFlag then
    let joined := s.join grow input
    let d := handleAndDecodeTmuxInput (joined.1.view joined.2)
    { s with
      mem := joined.1
      ni := { s.ni with tmuxLeftBuf := lastPart joined.2 d.last }.react d
      decoded := s.decoded ++ d.input
      acks := s.acks + d.acks }
  else { s with ni := { s.ni with tmuxLeftBuf := none }.offer (s.mem.view input) }

def bufferSize : Nat := 32768

def filled (n : Nat) : Slice := ⟨0, 0, n, bufferSize⟩

def State.chunk (s : State) (n : Nat) : Memory UInt8 × Slice :=
  match s.ni.tmuxLeftBuf with
  | none => s.mem.alloc (s.mem.view (filled n)) n
  | some left => s.mem.append grow left (s.mem.view (filled n))

def State.forward (s : State) (n : Nat) : State :=
  let made := s.chunk grow n
  let s' := { s with mem := made.1, ni := { s.ni with tmuxLeftBuf := none } }
  if s.ni.filterESC6n = true ∧ isCursorPos n (made.1.view made.2) = true then s'
  else { s' with ni := { s'.ni with filterESC6n := false }, waiting := some made.2 }

inductive Move where
  | read (data : Bytes) (interceptFlag : Bool)
  | enqueue
  | intercept
  | take
  | emit (count : Nat)
  | consume

def step (s : State) : Move → Option State
  | .read data interceptFlag =>
    if s.waiting = none ∧ 0 < data.length ∧ data.length ≤ bufferSize then
      let s := { s with mem := s.mem.write 0 0 data }
      some (if interceptFlag then s.handleUserInput grow (filled data.length) else s.forward grow data.length)
    else none
  | .enqueue =>
    match s.waiting with
    | some buf => if s.queue.length < 10 then some { s with waiting := none, queue := s.queue ++ [buf] } else none
    | none => none
  | .intercept =>
    match s.waiting with
    | some buf => if s.queue.length < 10 then none else some ({ s with waiting := none }.handleUserInput grow buf)
    | none => none
  | .take =>
    match s.writing, s.queue with
    | none, buf :: queue => some { s with writing := some buf, queue := queue }
    | _, _ => none
  | .emit count =>
    match s.writing with
    | some buf =>
      if 0 < count ∧ count ≤ buf.len then
        some { s with
          server := s.server ++ (s.mem.view buf).take count
          writing := if count = buf.len then none else some (buf.drop count) }
      else none
    | none => none
  | .consume => some { s with ni := { s.ni with interceptChan := none } }

def start (ni : Interceptor) : State where
  mem := ⟨fun _ _ => 0, 1⟩
  ni := { ni with tmuxFlag := true, filterESC6n := false, tmuxLeftBuf := none }
  waiting := none
  queue := []
  writing := none
  server := []
  decoded := []
  acks := 0

end Intercepting

section Expecting

structure Choices where
  reads : List (Bytes × Bool)
  waiting : Option Bytes

def Choices.next (c : Choices) : Move → Choices
  | .read data true => { c with reads := c.reads ++ [(data, true)] }
  | .read data false => { c with waiting := some data }
  | .enqueue => ⟨c.reads ++ (c.waiting.map (·, false)).toList, none⟩
  | .intercept => ⟨c.reads ++ (c.waiting.map (·, true)).toList, none⟩
  | _ => c

def choices (moves : List Move) : Choices := moves.foldl Choices.next ⟨[], none⟩

structure Expected where
  decoded : Bytes
  acks : Nat
  phase : Bytes
  written : Bytes

/-- A phase is decoded in one call; its remainder goes to the server in front of the next
    read. -/
def Expected.next (e : Expected) : Bytes × Bool → Expected
  | (data, true) => { e with phase := e.phase ++ data }
  | (data, false) =>
    { decoded := e.decoded ++ (handleAndDecodeTmuxInput e.phase).input
      acks := e.acks + (handleAndDecodeTmuxInput e.phase).acks
      phase := []
      written := e.written ++ (handleAndDecodeTmuxInput e.phase).last ++ data }

def expected (reads : List (Bytes × Bool)) : Expected := reads.foldl Expected.next ⟨[], 0, [], []⟩

end Expecting

section Seams

theorem remainder_behind (x y : Bytes) : remainder (x ++ 13 :: y) = remainder y := by
  rw [remainder, remainder, List.splitOn_append_cons_self, List.getLastD_eq_getLast?, List.getLastD_eq_getLast?,
    List.getLast?_append_of_ne_nil _ (List.splitOn_ne_nil 13 y)]

theorem remainder_whole (absent : 13 ∉ a) : remainder a = a := by
  rw [remainder, List.splitOn_eq_singleton absent]
  rfl

theorem split_seam (a b : Bytes) :
    (a ++ b).splitOn 13 = (a.splitOn 13).dropLast ++ (remainder a ++ b).splitOn 13 := by
  induction a using separated_induct 13 with
  | plain a absent =>
    rw [remainder_whole absent, List.splitOn_eq_singleton absent]
    rfl
  | cut x y _ ih =>
    rw [List.append_assoc, List.cons_append, List.splitOn_append_cons_self, ih, remainder_behind,
      List.splitOn_append_cons_self, List.dropLast_append_of_ne_nil (List.splitOn_ne_nil 13 y), List.append_assoc]

theorem commands_seam (a b : Bytes) : commands (a ++ b) = commands a ++ commands (remainder a ++ b) := by
  rw [commands, split_seam, List.dropLast_append_of_ne_nil (List.splitOn_ne_nil 13 _), List.flatMap_append]
  rfl

theorem remainder_seam (a b : Bytes) : remainder (a ++ b) = remainder (remainder a ++ b) := by
  rw [remainder, split_seam, List.getLastD_eq_getLast?, List.getLast?_append_of_ne_nil _ (List.splitOn_ne_nil 13 _),
    ← List.getLastD_eq_getLast?]
  rfl

def commandInput (cmd : Bytes) : Bytes := (decodeCommand ⟨[], [], false, 0⟩ cmd).input

theorem decode_tokens_input (f : Found) (tokens : List Bytes) :
    (decodeTokens f tokens).input = f.input ++ (decodeTokens ⟨[], [], false, 0⟩ tokens).input ∧
      (decodeTokens f tokens).acks = f.acks := by
  rcases tokens with _ | ⟨verb, _ | ⟨flag, _ | ⟨target, rest⟩⟩⟩
  · simp [decodeTokens]
  · simp [decodeTokens]
  · simp [decodeTokens]
  · by_cases sending : verb = text "send"
    · by_cases literal : flag = text "-lt"
      · simp [decodeTokens, sending, literal]
      · by_cases hex : flag = text "-t"
        · simp only [decodeTokens, if_pos sending, if_neg literal, if_pos hex, List.nil_append, and_self]
        · simp [decodeTokens, sending, literal, hex]
    · by_cases naming : (verb = text "select-pane" ∨ verb = text "display-message") ∧ flag = text "-t"
      · simp [decodeTokens, sending, naming]
      · simp [decodeTokens, sending, naming]

theorem decode_command_input (f : Found) (cmd : Bytes) :
    (decodeCommand f cmd).input = f.input ++ commandInput cmd ∧ (decodeCommand f cmd).acks = f.acks + 1 := by
  obtain ⟨input, acks⟩ := decode_tokens_input
    { f with acks := f.acks + 1, detach := f.detach || decide ((fields (trimSpace cmd)).head? = some (text "detach")) }
    (fields (trimSpace cmd))
  have alone : commandInput cmd = (decodeTokens ⟨[], [], false, 0⟩ (fields (trimSpace cmd))).input :=
    (decode_tokens_input _ _).1.trans (List.nil_append _)
  rw [alone]
  exact ⟨input, acks⟩

theorem decode_commands (f : Found) (cmds : List Bytes) :
    (cmds.foldl decodeCommand f).input = f.input ++ cmds.flatMap commandInput ∧
      (cmds.foldl decodeCommand f).acks = f.acks + cmds.length := by
  induction cmds generalizing f with
  | nil => simp
  | cons cmd cmds ih =>
    obtain ⟨input, acks⟩ := ih (decodeCommand f cmd)
    obtain ⟨here, one⟩ := decode_command_input f cmd
    rw [List.foldl_cons, input, acks, here, one, List.flatMap_cons, List.length_cons]
    exact ⟨List.append_assoc _ _ _, by omega⟩

theorem decoded_input (buf : Bytes) : (handleAndDecodeTmuxInput buf).input = (commands buf).flatMap commandInput :=
  (decode_commands ⟨[], [], false, 0⟩ (commands buf)).1

theorem decoded_acks (buf : Bytes) : (handleAndDecodeTmuxInput buf).acks = (commands buf).length := by
  have count := (decode_commands ⟨[], [], false, 0⟩ (commands buf)).2
  rw [Nat.zero_add] at count
  exact count

/-- A text in two calls, the remainder of the first in front of the second: the same input,
    the same number of blocks and the same remainder as in one call. -/
theorem decode_seam (a b : Bytes) :
    (handleAndDecodeTmuxInput (a ++ b)).input =
        (handleAndDecodeTmuxInput a).input ++ (handleAndDecodeTmuxInput (remainder a ++ b)).input ∧
      (handleAndDecodeTmuxInput (a ++ b)).acks =
        (handleAndDecodeTmuxInput a).acks + (handleAndDecodeTmuxInput (remainder a ++ b)).acks := by
  simp only [decoded_input, decoded_acks, commands_seam a b, List.flatMap_append, List.length_append, and_self]

theorem remainder_suffix (a : Bytes) : remainder a <:+ a := by
  induction a using separated_induct 13 with
  | plain a absent => rw [remainder_whole absent]
  | cut x y _ ih =>
    rw [remainder_behind]
    exact ih.trans ⟨x ++ [13], by simp⟩

end Seams

section Views

def State.chunks (s : State) : List Slice := s.writing.toList ++ s.queue

def State.onTheWay (s : State) : Bytes := s.chunks.flatMap s.mem.view

def State.kept (s : State) : Bytes := (s.ni.tmuxLeftBuf.map s.mem.view).getD []

def Spares (s : State) : Move → Prop
  | .read data _ =>
    (∀ v ∈ s.ni.tmuxLeftBuf.toList ++ s.chunks, v.array = 0 → data.length ≤ v.offset) ∧
      ∀ left ∈ s.ni.tmuxLeftBuf.toList, left.len + data.length ≤ left.cap →
        ∀ v ∈ s.chunks, Apart v left.array (left.offset + left.len) data.length
  | _ => True

instance decidableSpares (s : State) : ∀ m, Decidable (Spares s m)
  | .read _ _ => inferInstanceAs (Decidable (_ ∧ _))
  | .enqueue => .isTrue trivial
  | .intercept => .isTrue trivial
  | .take => .isTrue trivial
  | .emit _ => .isTrue trivial
  | .consume => .isTrue trivial

structure Same (ni ni' : Interceptor) : Prop where
  tmuxFlag : ni'.tmuxFlag = ni.tmuxFlag
  filterESC6n : ni'.filterESC6n = ni.filterESC6n
  tmuxLeftBuf : ni'.tmuxLeftBuf = ni.tmuxLeftBuf

theorem offer_same (ni : Interceptor) (buf : Bytes) : Same ni (ni.offer buf) := by
  unfold Interceptor.offer
  split
  · exact ⟨rfl, rfl, rfl⟩
  · split
    · exact ⟨rfl, rfl, rfl⟩
    · exact ⟨rfl, rfl, rfl⟩

theorem react_same (ni : Interceptor) (d : Decoded) : Same ni (ni.react d) := by
  unfold Interceptor.react
  split
  · exact ⟨rfl, rfl, rfl⟩
  · split
    · exact ⟨rfl, rfl, rfl⟩
    · split
      · obtain ⟨flag, filter, left⟩ := offer_same { ni with tmuxPaneId := some d.paneId } d.input
        exact ⟨flag, filter, left⟩
      · split
        · exact ⟨rfl, rfl, rfl⟩
        · exact offer_same ni d.input

structure Made (s : State) (count : Nat) (text : Bytes) (made : Memory UInt8 × Slice) : Prop where
  view : made.1.view made.2 = text
  next : s.mem.next ≤ made.1.next
  known : made.2.array < made.1.next
  keeps : ∀ v : Slice, v.array < s.mem.next →
    (∀ left ∈ s.ni.tmuxLeftBuf.toList, left.len + count ≤ left.cap →
      Apart v left.array (left.offset + left.len) count) → made.1.view v = s.mem.view v

variable (grow : Nat → Nat → Nat)

theorem append_made {s : State} {left : Slice} (keeping : s.ni.tmuxLeftBuf = some left)
    (known : left.array < s.mem.next) (data : Bytes) :
    Made s data.length (s.kept ++ data) (s.mem.append grow left data) where
  view := by
    rw [append_view, State.kept, keeping]
    rfl
  next := append_next grow s.mem left data
  known := append_known grow known
  keeps := by
    intro v seen apart
    exact append_keeps grow seen (apart left (by simp [keeping]))

theorem join_made {s : State} {input : Slice} (leftKnown : ∀ left ∈ s.ni.tmuxLeftBuf.toList, left.array < s.mem.next)
    (known : input.array < s.mem.next) : Made s input.len (s.kept ++ s.mem.view input) (s.join grow input) := by
  unfold State.join
  cases keeping : s.ni.tmuxLeftBuf with
  | none =>
    have nothing : s.kept = [] := by
      rw [State.kept, keeping]
      rfl
    exact ⟨by rw [nothing]; rfl, Nat.le_refl _, known, fun v _ _ => rfl⟩
  | some left =>
    have made := append_made grow keeping (leftKnown left (by simp [keeping])) (s.mem.view input)
    rwa [view_length] at made

theorem chunk_made {s : State} (leftKnown : ∀ left ∈ s.ni.tmuxLeftBuf.toList, left.array < s.mem.next) (n : Nat) :
    Made s n (s.kept ++ s.mem.view (filled n)) (s.chunk grow n) := by
  unfold State.chunk
  cases keeping : s.ni.tmuxLeftBuf with
  | none =>
    have nothing : s.kept = [] := by
      rw [State.kept, keeping]
      rfl
    refine ⟨?_, Nat.le_succ _, Nat.lt_succ_self _, fun v seen _ => alloc_keeps seen⟩
    rw [alloc_view, nothing]
    rfl
  | some left =>
    have made := append_made grow keeping (leftKnown left (by simp [keeping])) (s.mem.view (filled n))
    rwa [view_length] at made

theorem last_part_view (m : Memory UInt8) (buf : Slice) :
    ((lastPart buf (remainder (m.view buf))).map m.view).getD [] = remainder (m.view buf) := by
  obtain ⟨front, whole⟩ := remainder_suffix (m.view buf)
  unfold lastPart
  split
  · rename_i empty
    rw [empty]
    rfl
  · have lengths := congrArg List.length whole
    rw [List.length_append, view_length] at lengths
    have place : buf.len - (remainder (m.view buf)).length = front.length := by omega
    rw [place, Option.map_some, Option.getD_some, view_drop]
    conv => lhs; rw [← whole]
    exact List.drop_left

theorem last_part_array {v : Slice} (member : v ∈ (lastPart buf last).toList) : v.array = buf.array := by
  unfold lastPart at member
  split at member
  · cases member
  · rw [Option.toList_some, List.mem_singleton] at member
    rw [member]
    rfl

end Views

section Moves
variable {grow : Nat → Nat → Nat} {s t : State}

theorem read_taken (taken : step grow s (.read data interceptFlag) = some t) :
    s.waiting = none ∧
      t = if interceptFlag then State.handleUserInput grow { s with mem := s.mem.write 0 0 data } (filled data.length)
        else State.forward grow { s with mem := s.mem.write 0 0 data } data.length := by
  obtain ⟨enabled, same⟩ := guarded taken
  exact ⟨enabled.1, same.symm⟩

theorem enqueue_taken (taken : step grow s .enqueue = some t) :
    ∃ buf, s.waiting = some buf ∧ t = { s with waiting := none, queue := s.queue ++ [buf] } := by
  cases waiting : s.waiting with
  | none => simp [step, waiting] at taken
  | some buf =>
    simp only [step, waiting] at taken
    exact ⟨buf, rfl, (guarded taken).2.symm⟩

theorem intercept_taken (taken : step grow s .intercept = some t) :
    ∃ buf, s.waiting = some buf ∧ t = State.handleUserInput grow { s with waiting := none } buf := by
  cases waiting : s.waiting with
  | none => simp [step, waiting] at taken
  | some buf =>
    simp only [step, waiting] at taken
    exact ⟨buf, rfl, (Option.some.inj (Option.ite_none_left_eq_some.1 taken).2).symm⟩

theorem take_taken (taken : step grow s .take = some t) :
    ∃ buf queue, s.writing = none ∧ s.queue = buf :: queue ∧ t = { s with writing := some buf, queue := queue } := by
  cases writing : s.writing with
  | some buf => simp [step, writing] at taken
  | none =>
    cases queued : s.queue with
    | nil => simp [step, writing, queued] at taken
    | cons buf queue =>
      simp only [step, writing, queued, Option.some.injEq] at taken
      exact ⟨buf, queue, rfl, rfl, taken.symm⟩

theorem emit_taken (taken : step grow s (.emit count) = some t) :
    ∃ buf, s.writing = some buf ∧
      t = { s with
        server := s.server ++ (s.mem.view buf).take count
        writing := if count = buf.len then none else some (buf.drop count) } := by
  cases writing : s.writing with
  | none => simp [step, writing] at taken
  | some buf =>
    simp only [step, writing] at taken
    exact ⟨buf, rfl, (guarded taken).2.symm⟩

end Moves

section Steps
variable (grow : Nat → Nat → Nat) {s : State} {e : Expected} {c : Choices}

structure Shows (s : State) (e : Expected) : Prop where
  tmuxFlag : s.ni.tmuxFlag = true
  filterESC6n : s.ni.filterESC6n = false
  buffer : 0 < s.mem.next
  known : ∀ v ∈ s.ni.tmuxLeftBuf.toList ++ s.waiting.toList ++ s.chunks, v.array < s.mem.next
  decoded : s.decoded = e.decoded ++ (handleAndDecodeTmuxInput e.phase).input
  acks : s.acks = e.acks + (handleAndDecodeTmuxInput e.phase).acks
  written : s.server ++ s.onTheWay = e.written

theorem on_the_way_congr {s t : State} (chunks : t.chunks = s.chunks)
    (keeps : ∀ v ∈ s.chunks, t.mem.view v = s.mem.view v) : t.onTheWay = s.onTheWay := by
  rw [State.onTheWay, State.onTheWay, chunks]
  exact List.flatMap_congr keeps

theorem Shows.left_known (shows : Shows s e) : ∀ left ∈ s.ni.tmuxLeftBuf.toList, left.array < s.mem.next :=
  fun left member => shows.known left (by simp [List.mem_append.2 (.inl member)])

theorem Shows.chunk_known (shows : Shows s e) : ∀ v ∈ s.chunks, v.array < s.mem.next :=
  fun v member => shows.known v (List.mem_append_right _ member)

theorem Shows.overwrite (shows : Shows s e)
    (spared : ∀ v ∈ s.ni.tmuxLeftBuf.toList ++ s.chunks, v.array = 0 → data.length ≤ v.offset) :
    Shows { s with mem := s.mem.write 0 0 data } e ∧
      State.kept { s with mem := s.mem.write 0 0 data } = s.kept := by
  have keeps : ∀ v ∈ s.ni.tmuxLeftBuf.toList ++ s.chunks, (s.mem.write 0 0 data).view v = s.mem.view v := by
    intro v member
    have apart : Apart v 0 0 data.length := by
      intro buffer
      have place := spared v member buffer
      omega
    exact view_write_apart apart
  refine ⟨{ shows with written := ?_ }, ?_⟩
  · have way := on_the_way_congr (s := s) (t := { s with mem := s.mem.write 0 0 data }) rfl
      fun v member => keeps v (List.mem_append_right _ member)
    rw [way]
    exact shows.written
  · unfold State.kept
    cases keeping : s.ni.tmuxLeftBuf with
    | none => rfl
    | some left => exact keeps left (by simp [keeping])

theorem Shows.handle (shows : Shows s e) (waiting : s.waiting = none) {input : Slice}
    (known : input.array < s.mem.next) (bytes : s.kept ++ s.mem.view input = remainder e.phase ++ data)
    (spared : ∀ left ∈ s.ni.tmuxLeftBuf.toList, left.len + input.len ≤ left.cap →
      ∀ v ∈ s.chunks, Apart v left.array (left.offset + left.len) input.len) :
    Shows (s.handleUserInput grow input) (e.next (data, true)) ∧ (s.handleUserInput grow input).waiting = none ∧
      (s.handleUserInput grow input).kept = remainder (e.phase ++ data) := by
  have made := join_made grow shows.left_known known
  rw [bytes] at made
  rcases joined : s.join grow input with ⟨mem, buf⟩
  rw [joined] at made
  have view : mem.view buf = remainder e.phase ++ data := made.view
  have chunks : ∀ v ∈ s.chunks, mem.view v = s.mem.view v := by
    intro v member
    exact made.keeps v (shows.chunk_known v member) fun left keeping room => spared left keeping room v member
  have same := react_same { s.ni with tmuxLeftBuf := lastPart buf (handleAndDecodeTmuxInput (mem.view buf)).last }
    (handleAndDecodeTmuxInput (mem.view buf))
  dsimp only at same
  obtain ⟨input, acks⟩ := decode_seam e.phase data
  rw [State.handleUserInput, if_pos shows.tmuxFlag, joined]
  dsimp only
  refine ⟨⟨?_, ?_, ?_, ?_, ?_, ?_, ?_⟩, waiting, ?_⟩
  · exact same.tmuxFlag.trans shows.tmuxFlag
  · exact same.filterESC6n.trans shows.filterESC6n
  · exact Nat.lt_of_lt_of_le shows.buffer made.next
  · intro v member
    dsimp only at member
    rw [same.tmuxLeftBuf, List.append_assoc] at member
    rcases List.mem_append.1 member with kept | other
    · rw [last_part_array kept]
      exact made.known
    · have before := shows.known v (by
        rw [List.append_assoc]
        exact List.mem_append_right _ other)
      exact Nat.lt_of_lt_of_le before made.next
  · rw [Expected.next, input, shows.decoded, view, List.append_assoc]
  · rw [Expected.next, acks, shows.acks, view, Nat.add_assoc]
  · have way := on_the_way_congr (s := s) (t := { s with mem := mem }) rfl chunks
    exact (congrArg (s.server ++ ·) way).trans shows.written
  · rw [remainder_seam, ← view, State.kept]
    dsimp only
    rw [same.tmuxLeftBuf]
    exact last_part_view mem buf

theorem Shows.released (shows : Shows s e) : Shows { s with waiting := none } e where
  tmuxFlag := shows.tmuxFlag
  filterESC6n := shows.filterESC6n
  buffer := shows.buffer
  known := by
    intro v member
    rcases List.mem_append.1 member with before | chunk
    · exact shows.left_known v (by simpa using before)
    · exact shows.chunk_known v chunk
  decoded := shows.decoded
  acks := shows.acks
  written := shows.written

theorem Shows.forward (shows : Shows s e) {n : Nat}
    (spared : ∀ left ∈ s.ni.tmuxLeftBuf.toList, left.len + n ≤ left.cap →
      ∀ v ∈ s.chunks, Apart v left.array (left.offset + left.len) n) :
    Shows (s.forward grow n) e ∧ (s.forward grow n).ni.tmuxLeftBuf = none ∧
      ∃ buf, (s.forward grow n).waiting = some buf ∧
        (s.forward grow n).mem.view buf = s.kept ++ s.mem.view (filled n) := by
  have made := chunk_made grow shows.left_known n
  rcases chunk : s.chunk grow n with ⟨mem, buf⟩
  rw [chunk] at made
  have chunks : ∀ v ∈ s.chunks, mem.view v = s.mem.view v := by
    intro v member
    exact made.keeps v (shows.chunk_known v member) fun left keeping room => spared left keeping room v member
  have off : ¬ (s.ni.filterESC6n = true ∧ isCursorPos n (mem.view buf) = true) := by
    rw [shows.filterESC6n]
    exact fun both => Bool.false_ne_true both.1
  simp only [State.forward, chunk]
  rw [if_neg off]
  refine ⟨⟨shows.tmuxFlag, rfl, ?_, ?_, shows.decoded, shows.acks, ?_⟩, rfl, buf, rfl, made.view⟩
  · exact Nat.lt_of_lt_of_le shows.buffer made.next
  · intro v member
    rcases List.mem_cons.1 member with rfl | other
    · exact made.known
    · exact Nat.lt_of_lt_of_le (shows.chunk_known v other) made.next
  · have way := on_the_way_congr (s := s) (t := { s with mem := mem }) rfl chunks
    exact (congrArg (s.server ++ ·) way).trans shows.written

theorem Shows.enqueue (shows : Shows s e) (waiting : s.waiting = some buf)
    (left : s.ni.tmuxLeftBuf = none) (bytes : s.mem.view buf = remainder e.phase ++ data) :
    Shows { s with waiting := none, queue := s.queue ++ [buf] } (e.next (data, false)) := by
  have way : State.onTheWay { s with waiting := none, queue := s.queue ++ [buf] } = s.onTheWay ++ s.mem.view buf := by
    simp [State.onTheWay, State.chunks]
  refine ⟨shows.tmuxFlag, shows.filterESC6n, shows.buffer, ?_, ?_, ?_, ?_⟩
  · intro v member
    refine shows.known v ?_
    rw [waiting, left]
    rw [left] at member
    simp only [State.chunks, Option.toList_none, Option.toList_some, List.nil_append, List.mem_append,
      List.mem_singleton] at member ⊢
    tauto
  · rw [Expected.next]
    exact shows.decoded.trans (List.append_nil _).symm
  · exact shows.acks
  · rw [way, ← List.append_assoc, shows.written, bytes, Expected.next, List.append_assoc]
    rfl

theorem Shows.take (shows : Shows s e) {queue : List Slice} (writing : s.writing = none)
    (queued : s.queue = buf :: queue) : Shows { s with writing := some buf, queue := queue } e := by
  have chunks : State.chunks { s with writing := some buf, queue := queue } = s.chunks := by
    simp [State.chunks, writing, queued]
  refine ⟨shows.tmuxFlag, shows.filterESC6n, shows.buffer, ?_, shows.decoded, shows.acks, ?_⟩
  · rw [chunks]
    exact shows.known
  · rw [State.onTheWay, chunks]
    exact shows.written

theorem emit_chunks {v : Slice} (writing : s.writing = some buf)
    (member : v ∈ (if count = buf.len then none else some (buf.drop count)).toList ++ s.queue) :
    ∃ u ∈ s.chunks, v.array = u.array := by
  rcases List.mem_append.1 member with here | queued
  · split at here
    · cases here
    · rw [List.mem_singleton.1 here]
      exact ⟨buf, by simp [State.chunks, writing], rfl⟩
  · exact ⟨v, List.mem_append_right _ queued, rfl⟩

theorem Shows.emit (shows : Shows s e) (writing : s.writing = some buf) :
    Shows
      { s with
        server := s.server ++ (s.mem.view buf).take count
        writing := if count = buf.len then none else some (buf.drop count) } e := by
  have rest : (if count = buf.len then none else some (buf.drop count)).toList.flatMap s.mem.view =
      (s.mem.view buf).drop count := by
    split
    · rename_i all
      rw [List.drop_of_length_le (by simp [all])]
      rfl
    · simp [view_drop]
  refine ⟨shows.tmuxFlag, shows.filterESC6n, shows.buffer, ?_, shows.decoded, shows.acks, ?_⟩
  · intro v member
    rcases List.mem_append.1 member with before | chunk
    · exact shows.known v (List.mem_append_left _ before)
    · obtain ⟨u, there, same⟩ := emit_chunks writing chunk
      rw [same]
      exact shows.chunk_known u there
  · rw [← shows.written, State.onTheWay, State.onTheWay, State.chunks, State.chunks, writing, List.flatMap_append,
      List.flatMap_append, rest]
    simp only [Option.toList_some, List.flatMap_singleton, List.append_assoc]
    rw [← List.append_assoc ((s.mem.view buf).take count), List.take_append_drop]

structure Agrees (s : State) (c : Choices) : Prop where
  shows : Shows s (expected c.reads)
  pending :
    s.waiting = none ∧ c.waiting = none ∧ s.kept = remainder (expected c.reads).phase ∨
      ∃ buf data, s.waiting = some buf ∧ c.waiting = some data ∧ s.ni.tmuxLeftBuf = none ∧
        s.mem.view buf = remainder (expected c.reads).phase ++ data

theorem expected_concat (reads : List (Bytes × Bool)) (read : Bytes × Bool) :
    expected (reads ++ [read]) = (expected reads).next read := by
  simp [expected]

theorem start_agrees (ni : Interceptor) : Agrees (start ni) (choices []) where
  shows := by
    refine ⟨rfl, rfl, Nat.one_pos, ?_, rfl, rfl, rfl⟩
    intro v member
    cases member
  pending := .inl ⟨rfl, rfl, rfl⟩

theorem read_agrees {s t : State} (agrees : Agrees s c) (spares : Spares s (.read data interceptFlag))
    (taken : step grow s (.read data interceptFlag) = some t) : Agrees t (c.next (.read data interceptFlag)) := by
  obtain ⟨waiting, rfl⟩ := read_taken taken
  obtain ⟨spared, apart⟩ := spares
  obtain ⟨shows, kept⟩ := agrees.shows.overwrite spared
  have bytes : (s.mem.write 0 0 data).view (filled data.length) = data := view_write _ _ _ _ _
  rcases agrees.pending with ⟨_, free, same⟩ | ⟨buf, _, some, _⟩
  · rw [← kept] at same
    cases interceptFlag with
    | true =>
      have joined : State.kept { s with mem := s.mem.write 0 0 data } ++
          (s.mem.write 0 0 data).view (filled data.length) = remainder (expected c.reads).phase ++ data := by
        rw [bytes, same]
      obtain ⟨shows, waiting, rest⟩ := shows.handle grow waiting shows.buffer joined apart
      refine ⟨?_, .inl ⟨waiting, free, ?_⟩⟩
      · rw [Choices.next, expected_concat]
        exact shows
      · rw [Choices.next, expected_concat]
        exact rest
    | false =>
      obtain ⟨shows, left, buf, waiting, view⟩ := shows.forward grow apart
      refine ⟨shows, .inr ⟨buf, data, waiting, rfl, left, ?_⟩⟩
      refine view.trans ?_
      rw [same]
      exact congrArg _ bytes
  · rw [waiting] at some
    cases some

theorem Agrees.waits {s : State} (agrees : Agrees s c) (waiting : s.waiting = some buf) :
    ∃ data, c.waiting = some data ∧ s.ni.tmuxLeftBuf = none ∧
      s.mem.view buf = remainder (expected c.reads).phase ++ data := by
  rcases agrees.pending with ⟨nothing, _⟩ | ⟨other, data, same, chosen⟩
  · rw [nothing] at waiting
    cases waiting
  · obtain rfl : other = buf := Option.some.inj (same.symm.trans waiting)
    exact ⟨data, chosen⟩

theorem step_agrees {s t : State} {m : Move} (agrees : Agrees s c) (spares : Spares s m)
    (taken : step grow s m = some t) : Agrees t (c.next m) := by
  cases m with
  | read data interceptFlag => exact read_agrees grow agrees spares taken
  | enqueue =>
    obtain ⟨buf, waiting, rfl⟩ := enqueue_taken taken
    obtain ⟨data, chosen, left, bytes⟩ := agrees.waits waiting
    have next : c.next .enqueue = ⟨c.reads ++ [(data, false)], none⟩ := by
      simp [Choices.next, chosen]
    rw [next]
    refine ⟨?_, .inl ⟨rfl, rfl, ?_⟩⟩
    · rw [expected_concat]
      exact agrees.shows.enqueue waiting left bytes
    · rw [expected_concat, State.kept, left]
      rfl
  | intercept =>
    obtain ⟨buf, waiting, rfl⟩ := intercept_taken taken
    obtain ⟨data, chosen, left, bytes⟩ := agrees.waits waiting
    have next : c.next .intercept = ⟨c.reads ++ [(data, true)], none⟩ := by
      simp [Choices.next, chosen]
    have nothing : State.kept { s with waiting := none } = [] := by
      rw [State.kept, left]
      rfl
    have known := agrees.shows.known buf (by simp [waiting])
    have joined : State.kept { s with waiting := none } ++ s.mem.view buf =
        remainder (expected c.reads).phase ++ data := by
      rw [nothing]
      exact bytes
    obtain ⟨shows, free, rest⟩ := agrees.shows.released.handle grow rfl known joined (by simp [left])
    rw [next]
    refine ⟨?_, .inl ⟨free, rfl, ?_⟩⟩
    · rw [expected_concat]
      exact shows
    · rw [expected_concat]
      exact rest
  | take =>
    obtain ⟨buf, queue, writing, queued, rfl⟩ := take_taken taken
    exact ⟨agrees.shows.take writing queued, agrees.pending⟩
  | emit count =>
    obtain ⟨buf, writing, rfl⟩ := emit_taken taken
    exact ⟨agrees.shows.emit writing, agrees.pending⟩
  | consume =>
    cases taken
    exact ⟨{ agrees.shows with }, agrees.pending⟩

end Steps

section Runs
variable (grow : Nat → Nat → Nat)

/-- Where no read writes over bytes that are kept or on their way, every phase of
    intercepted reads is decoded as in one call, and the server gets the remainder of each
    phase and the reads behind it. -/
theorem input_survives {ni : Interceptor} {moves : List Move} {s : State}
    (spared : Along (step grow) Spares (start ni) moves) (reached : run (step grow) (start ni) moves = some s) :
    s.decoded = (expected (choices moves).reads).decoded ++
        (handleAndDecodeTmuxInput (expected (choices moves).reads).phase).input ∧
      s.acks = (expected (choices moves).reads).acks +
        (handleAndDecodeTmuxInput (expected (choices moves).reads).phase).acks ∧
      s.server ++ s.onTheWay = (expected (choices moves).reads).written := by
  have agrees : Agrees s (choices moves) := by
    refine run_induct (P := fun moves s => Agrees s (choices moves)) (start_agrees ni) ?_ spared reached
    intro before m move t _ agrees spares taken
    rw [choices, List.foldl_append]
    exact step_agrees grow agrees spares taken
  exact ⟨agrees.shows.decoded, agrees.shows.acks, agrees.shows.written⟩

def idle : Interceptor := ⟨true, false, none, none, none, none, false⟩

def sparedMoves : List Move :=
  [.read (text "send -t %1 0x41\rsend -t %1 0x4") true, .read (text "2\rab") true, .read (text "cd") false,
    .enqueue, .take, .emit 4]

theorem spared_moves_survive :
    ∃ s, run (step fun _ n => n) (start idle) sparedMoves = some s ∧ s.decoded = [0x41, 0x42] ∧
      s.server ++ s.onTheWay = text "abcd" := by
  have spared : Along (step fun _ n => n) Spares (start idle) sparedMoves := by decide +kernel
  obtain ⟨s, reached⟩ : ∃ s, run (step fun _ n => n) (start idle) sparedMoves = some s :=
    Option.isSome_iff_exists.1 (by decide +kernel)
  obtain ⟨decoded, _, written⟩ := input_survives _ spared reached
  refine ⟨s, reached, ?_, ?_⟩
  · rw [decoded]
    decide +kernel
  · rw [written]
    decide +kernel

/-- A command in two reads: the second read writes over the first. -/
theorem split_command_lost :
    ((run (step fun _ n => n) (start idle) [.read (text "send -t %1 0x4") true, .read (text "1\r") true]).map
        fun s => s.decoded) = some [] ∧
      (handleAndDecodeTmuxInput (text "send -t %1 0x4" ++ text "1\r")).input = [0x41] ∧
      ((run (step fun _ n => n) (start idle)
          [.read (text "ab") true, .read (text "cd") false, .enqueue, .take, .emit 4]).map fun s => s.server) =
        some (text "cdcd") := by
  decide +kernel

end Runs

end InterceptedInput
