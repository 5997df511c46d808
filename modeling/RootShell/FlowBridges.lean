import RootShell.ByteLines
import RootShell.DuplexRelays

/-!
The relays of the program: the SSH port forwards (tssh/forward_tcp.go, tssh/forward.go,
iosbridge/forward.go), the sockets handed to Swift (iosbridge/tailnet_fd.go) and the flows of the
tunnel (vpntunnel/flows.go, vpntunnel/netstack.go). Up is the direction from the client, down the
one back to it.
-/
namespace FlowBridges
open ByteLines DuplexRelays Interleaving

def copyBoth : Policy where
  counting _ := .writes
  finishCloses _ := false
  failureCloses _ := false
  closes u d _ _ := u && d
  lasts := by decide
  stopsOnCancel := false

def tcpForward : Policy := copyBoth

def forwardChannel : Policy := copyBoth

def bridgeConnections : Policy := copyBoth

/-- `streamFD` closes both ends when a copy fails, and also when one finishes whose destination cannot be told
    about the end alone. -/
def streamFD (localHalfCloses remoteHalfCloses : Bool) : Policy where
  counting _ := .writes
  finishCloses
    | .up => !remoteHalfCloses
    | .down => !localHalfCloses
  failureCloses _ := true
  closes u d _ _ := u && d
  lasts := by decide
  stopsOnCancel := false

/-- `relayConns` closes when the responses are over, and once the requests are over also on the context or
    after the idle time. -/
def relayConns : Policy where
  counting _ := .writes
  finishCloses _ := false
  failureCloses _ := false
  closes u d c e := d || u && (c || e) || c
  lasts := by decide
  stopsOnCancel := false

/-- The bridge in `handleTCPForward` closes when either direction is over. It counts the bytes from the remote
    as they are read and those to it when a piece has been written. -/
def rawBridge : Policy where
  counting
    | .up => .chunks
    | .down => .reads
  finishCloses _ := false
  failureCloses _ := false
  closes u d _ _ := u || d
  lasts := by decide
  stopsOnCancel := true

variable {o : Policy} {requests responses : Bytes} {r : Relay UInt8} {as : List Action}

theorem delivered_whole (sound : Sound o requests responses r) (returned : r.returned = true) {d : Dir}
    (counting : o.counting d = .writes) (unfailed : (r.pump d).status ≠ .failed) (undisturbed : ¬ Overtaken o r d) :
    (r.pump d).delivered = source requests responses d ∧
      (r.pump d).counted = (source requests responses d).length := by
  have ended := sound.ended returned d
  cases status : (r.pump d).status with
  | running => exact absurd status ended
  | failed => exact absurd status unfailed
  | cut => exact absurd (sound.cut d status) undisturbed
  | finished =>
    have whole := sound.whole status
    have counted := (sound.pumps d).counted
    rw [counting] at counted
    refine ⟨whole, ?_⟩
    rw [← whole]
    exact counted

structure Waits (o : Policy) : Prop where
  counting : ∀ d, o.counting d = .writes
  finish : ∀ d, o.finishCloses d = false
  both : ∀ u d c e, o.closes u d c e = true → u = true ∧ d = true
  patient : o.stopsOnCancel = false

theorem copyBoth_waits : Waits copyBoth := ⟨fun _ => rfl, fun _ => rfl, by decide, rfl⟩

theorem streamFD_waits : Waits (streamFD true true) :=
  ⟨fun _ => rfl, fun d => by cases d <;> rfl, by decide, rfl⟩

theorem Waits.undisturbed (waits : Waits o) {d : Dir} (unfailed : (r.pump d.other).status ≠ .failed) :
    ¬ Overtaken o r d := by
  intro overtaken
  rcases overtaken with ⟨_, closes⟩ | ⟨failed, _⟩ | allowed | ⟨stops, _⟩
  · rw [waits.finish] at closes
    cases closes
  · exact unfailed failed
  · cases d
    · cases (waits.both _ _ _ _ allowed).1
    · cases (waits.both _ _ _ _ allowed).2
  · rw [waits.patient] at stops
    cases stops

/-- Whatever the sizes of the reads and writes and whichever side ends first, when the relay
    returns without a failure every byte of each direction has been delivered, once and in order,
    and the counts are the numbers of bytes. -/
theorem bridges_complete (relay : o ∈ [tcpForward, forwardChannel, bridgeConnections, streamFD true true])
    (reached : run (step o) (start requests responses) as = some r) (returned : r.returned = true)
    (unfailed : ∀ d, (r.pump d).status ≠ .failed) (d : Dir) :
    (r.pump d).delivered = source requests responses d ∧
      (r.pump d).counted = (source requests responses d).length := by
  have waits : Waits o := by
    simp only [List.mem_cons, List.not_mem_nil, or_false] at relay
    rcases relay with rfl | rfl | rfl | rfl
    · exact copyBoth_waits
    · exact copyBoth_waits
    · exact copyBoth_waits
    · exact streamFD_waits
  exact delivered_whole (sound_run reached) returned (waits.counting d) (unfailed d) (waits.undisturbed (unfailed _))

def halfClosed : List Action :=
  [.read .up 2, .write .up 2, .finish .up, .read .down 1, .write .down 1, .read .down 9, .write .down 1, .write .down 9,
    .finish .down, .close, .return_]

def question : Bytes := [1, 2]

def answer : Bytes := [3, 4, 5]

theorem halfClosed_complete : ∃ r, run (step bridgeConnections) (start question answer) halfClosed = some r ∧
    ((r.pump .down).delivered = source question answer .down ∧
      (r.pump .down).counted = (source question answer .down).length) := by
  have reached : run (step bridgeConnections) (start question answer) halfClosed = some _ := rfl
  have listed : bridgeConnections ∈ [tcpForward, forwardChannel, bridgeConnections, streamFD true true] :=
    .tail _ (.tail _ (.head _))
  refine ⟨_, reached, bridges_complete listed reached rfl ?_ .down⟩
  intro d
  cases d <;> decide

/-- A client that has sent its requests and says so still gets all of the answer, unless the
    context is cancelled, the idle time passes or the responses themselves fail. -/
theorem responses_complete (reached : run (step relayConns) (start requests responses) as = some r)
    (returned : r.returned = true) (calm : r.cancelled = false) (early : r.expired = false)
    (unfailed : r.down.status ≠ .failed) : r.down.delivered = responses ∧ r.down.counted = responses.length := by
  have sound := sound_run reached
  apply delivered_whole sound returned (d := .down) rfl unfailed
  intro overtaken
  rcases overtaken with ⟨_, closes⟩ | ⟨_, closes⟩ | allowed | ⟨stops, _⟩
  · cases closes
  · cases closes
  · simp [Policy.closesOver, relayConns, calm, early] at allowed
  · cases stops

theorem halfClosed_answered : ∃ r, run (step relayConns) (start question answer) halfClosed = some r ∧
    r.down.delivered = answer ∧ r.down.counted = answer.length := by
  have reached : run (step relayConns) (start question answer) halfClosed = some _ := rfl
  exact ⟨_, reached, responses_complete reached rfl rfl rfl (by decide)⟩

structure Counted (requests responses : Bytes) (r : Relay UInt8) : Prop where
  up : r.up.delivered <+: requests
  down : r.down.delivered <+: responses
  sent : r.up.counted ≤ r.up.delivered.length
  received : r.down.counted = r.down.delivered.length + r.down.held.length
  written : r.up.held = [] → r.up.counted = r.up.delivered.length

/-- The bridge of the flows that are not captured keeps the order of both directions, and counts
    no byte as sent that was not and no byte as received that was not read. -/
theorem raw_bridge_counts (reached : run (step rawBridge) (start requests responses) as = some r) :
    Counted requests responses r := by
  have sound := sound_run reached
  have up : Counting.chunks.Fits r.up := (sound.pumps .up).counted
  have down : Counting.reads.Fits r.down := (sound.pumps .down).counted
  obtain ⟨fits, counted⟩ := up
  refine ⟨sound.front .up, sound.front .down, ?_, down, ?_⟩
  · by_cases free : r.up.held = []
    · rw [if_pos free] at counted
      exact counted.le
    · rw [if_neg free] at counted
      omega
  · intro free
    rwa [if_pos free] at counted

theorem halfClosed_counts : ∃ r, run (step rawBridge) (start question answer) (halfClosed.take 8) = some r ∧
    Counted question answer r := by
  have reached : run (step rawBridge) (start question answer) (halfClosed.take 8) = some _ := rfl
  exact ⟨_, reached, raw_bridge_counts reached⟩

/-- For every request and answer the answer can be cut off behind any of its bytes once the
    request has ended, without a failure, a cancelled context or an expired timer. -/
theorem half_close_cuts (requests responses : Bytes) (k : Nat) :
    ∃ as r, run (step rawBridge) (start requests responses) as = some r ∧ r.returned = true ∧
      r.up.status = .finished ∧ r.up.delivered = requests ∧
      r.down.status = .cut ∧ r.down.delivered = responses.take k ∧ r.cancelled = false ∧ r.expired = false := by
  obtain ⟨sent, up, first, upGoing, upFree, upUnread, upDelivered⟩ :=
    copied rawBridge (start requests responses) .up requests.length rfl rfl
  obtain ⟨got, down, second, downGoing, downFree, downUnread, downDelivered⟩ :=
    copied rawBridge ((start requests responses).set up .up) .down k rfl rfl
  have nothingLeft : up.unread = [] := by
    rw [upUnread]
    exact List.drop_eq_nil_of_le (Nat.le_refl requests.length)
  have allSent : up.delivered = requests := by
    rw [upDelivered]
    exact List.take_length
  refine ⟨sent ++ got ++ [.finish .up, .close, .cut .down, .return_],
    ⟨up.stop .finished, down.stop .cut, true, false, false, true⟩, ?_, rfl, rfl, allSent, rfl, downDelivered, rfl, rfl⟩
  rw [run_append, run_append, first, Option.bind_some, second, Option.bind_some]
  simp [run_cons, step, Relay.set, Relay.pump, start, Policy.mayClose, Relay.done, rawBridge, Pump.stop, upGoing,
    upFree, nothingLeft, downGoing]

end FlowBridges
