import RootShell.HostRules
import RootShell.KeyedTables

/-!
What the tunnel does with a TLS connection before it takes a slot (vpntunnel/mitm.go), and how it
finds hosts that only accept their own certificate (vpntunnel/capture.go): two intercepted
connections closed without a request within a minute, with no request served in between.
-/
namespace MitmDecisions
open ByteLines ByteText HostRules KeyedTables

structure CaptureState where
  hosts : Option HostMatcher
  minter : Bool
  enableH2 : Bool
  autoBypassPinned : Bool
  mitmSem : Nat

structure ClientHello where
  serverName : Bytes
  supportedProtos : List Bytes

structure Destination where
  ip : Bytes
  port : Int

inductive Pass where
  | noSNI
  | notMatched
  | bypassed
  | noCA
  | alpn
  | capacity
  | upstreamDial
  | upstreamTLS
  | clientCertRequired
  | mintFailed
  deriving DecidableEq

def filterALPN (offered : List Bytes) (h2 : Bool) : List Bytes :=
  offered.filter fun p => p = text "http/1.1" || (p = text "h2" && h2)

section Screening
variable (u : CaseTables)

def hostName (hello : ClientHello) (dst : Destination) : Bytes :=
  if toLower u hello.serverName = [] then dst.ip else toLower u hello.serverName

def screen (cs : CaptureState) (bypassed : Bool) (hello : ClientHello) (dst : Destination) : Option Pass :=
  if toLower u hello.serverName = [] ∧ isMatch u cs.hosts dst.ip dst.port = false then some .noSNI
  else if isMatch u cs.hosts (hostName u hello dst) dst.port = false then some .notMatched
  else if bypassed then some .bypassed
  else if cs.minter = false then some .noCA
  else if hello.supportedProtos ≠ [] ∧ filterALPN hello.supportedProtos cs.enableH2 = [] then some .alpn
  else none

structure Screened (cs : CaptureState) (bypassed : Bool) (hello : ClientHello) (dst : Destination) : Prop where
  named : isMatch u cs.hosts (hostName u hello dst) dst.port = true
  free : bypassed = false
  minter : cs.minter = true
  protos : hello.supportedProtos = [] ∨ filterALPN hello.supportedProtos cs.enableH2 ≠ []

variable {u}

theorem screened_of_none {cs : CaptureState} {bypassed : Bool} {hello : ClientHello} {dst : Destination}
    (passed : screen u cs bypassed hello dst = none) : Screened u cs bypassed hello dst := by
  simp only [screen, ite_eq_iff, reduceCtorEq, and_false, false_or, and_true, Bool.not_eq_true, Bool.not_eq_false]
    at passed
  obtain ⟨_, named, free, minter, protos⟩ := passed
  refine ⟨named, free, minter, ?_⟩
  by_cases none : hello.supportedProtos = []
  · exact .inl none
  · exact .inr fun empty => protos ⟨none, empty⟩

end Screening

section Pinned

def pinnedEmptyThreshold : Nat := 2

def pinnedEmptyWindow : Int := 60 * 1000000000

abbrev Empties := Table Bytes (List Int)

def noteEmptyMITM (empty : Empties) (host : Bytes) (now : Int) : Empties × Bool :=
  let kept := ((get (some empty) host).getD []).filter (fun t => now - t < pinnedEmptyWindow) ++ [now]
  (empty.insert host kept, pinnedEmptyThreshold ≤ kept.length)

def noteServedMITM (empty : Empties) (host : Bytes) : Empties := empty.erase host

inductive Note where
  | empty (host : Bytes) (now : Int)
  | served (host : Bytes)

def Note.apply (empty : Empties) : Note → Empties
  | .empty host now => (noteEmptyMITM empty host now).1
  | .served host => noteServedMITM empty host

def emptiesSince (host : Bytes) (notes : List Note) : List Int :=
  notes.foldl (fun times note =>
    match note with
    | .empty other now => if other = host then times ++ [now] else times
    | .served other => if other = host then [] else times) []

def Note.time : Note → Option Int
  | .empty _ now => some now
  | .served _ => none

def ordered (notes : List Note) : Prop := (notes.filterMap Note.time).Pairwise (· ≤ ·)

variable {notes : List Note} {host : Bytes}

theorem emptiesSince_append (note : Note) : emptiesSince host (notes ++ [note]) =
    match note with
    | .empty other now => if other = host then emptiesSince host notes ++ [now] else emptiesSince host notes
    | .served other => if other = host then [] else emptiesSince host notes := by
  unfold emptiesSince
  rw [List.foldl_append]
  rfl

def window (now : Int) (times : List Int) : List Int := times.filter fun t => now - t < pinnedEmptyWindow

theorem window_append (now : Int) (a b : List Int) : window now (a ++ b) = window now a ++ window now b :=
  List.filter_append _ _

theorem window_window {now later : Int} (onwards : now ≤ later) (times : List Int) :
    window later (window now times) = window later times := by
  unfold window
  rw [List.filter_filter]
  apply List.filter_congr
  intro t _
  have : later - t < pinnedEmptyWindow → now - t < pinnedEmptyWindow := by omega
  by_cases inside : later - t < pinnedEmptyWindow <;> simp [inside, this]

/-- The table keeps only part of the history, but what it has dropped no later look would see. -/
theorem kept_window (clock : ordered notes) {now : Int} (behind : ∀ t ∈ notes.filterMap Note.time, t ≤ now)
    (host : Bytes) :
    window now ((get (some (notes.foldl Note.apply ∅)) host).getD []) = window now (emptiesSince host notes) := by
  induction notes using List.reverseRecOn with
  | nil => rfl
  | append_singleton notes note ih =>
    unfold ordered at clock
    rw [List.filterMap_append] at clock behind
    obtain ⟨clock, _, before⟩ := List.pairwise_append.1 clock
    have earlier := ih clock fun t member => behind t (List.mem_append_left _ member)
    rw [List.foldl_append, emptiesSince_append]
    cases note with
    | empty other t =>
      by_cases same : other = host
      · subst same
        have known : t ≤ now := behind t (by simp [Note.time])
        simp only [List.foldl_cons, List.foldl_nil, Note.apply, noteEmptyMITM, get_insert, if_true, Option.getD_some]
        rw [window_append, window_append, ← earlier]
        congr 1
        exact window_window known _
      · have other_host : ¬ host = other := fun h => same h.symm
        simpa [Note.apply, noteEmptyMITM, get_insert, same, other_host] using earlier
    | served other =>
      have forgotten := get_delete (some (notes.foldl Note.apply ∅)) other host
      simp only [delete, Option.map_some] at forgotten
      by_cases same : other = host
      · subst same
        simp [Note.apply, noteServedMITM, forgotten]
      · have other_host : ¬ host = other := fun h => same h.symm
        simpa [Note.apply, noteServedMITM, forgotten, same, other_host] using earlier

/-- A connection without a request makes its host a pinned one exactly if there was another one less than a
    minute before, with no request served in between, whatever was noted about other hosts. -/
theorem pinned_exact (notes : List Note) (host : Bytes) (now : Int) (clock : ordered notes)
    (behind : ∀ t ∈ notes.filterMap Note.time, t ≤ now) :
    (noteEmptyMITM (notes.foldl Note.apply ∅) host now).2 = true ↔
      ∃ t ∈ emptiesSince host notes, now - t < pinnedEmptyWindow := by
  have kept := kept_window clock behind host
  have answer : (noteEmptyMITM (notes.foldl Note.apply ∅) host now).2 = true ↔
      0 < (window now ((get (some (notes.foldl Note.apply ∅)) host).getD [])).length := by
    simp [noteEmptyMITM, pinnedEmptyThreshold, window, Nat.succ_le_iff]
  rw [answer, kept, List.length_pos_iff]
  simp [window, List.filter_eq_nil_iff]

def twoEmpties : List Note := [.empty (text "a") 0, .served (text "b"), .empty (text "a") 1]

theorem pinned_after_two :
    (noteEmptyMITM (twoEmpties.foldl Note.apply ∅) (text "a") pinnedEmptyWindow).2 = true ∧
      (noteEmptyMITM (twoEmpties.foldl Note.apply ∅) (text "a") (pinnedEmptyWindow + 1)).2 = false := by
  have clock : ordered twoEmpties := by simp [twoEmpties, ordered, Note.time, List.filterMap_cons]
  have exact_ (now : Int) (late : 1 ≤ now) := pinned_exact twoEmpties (text "a") now clock
    (by simp [twoEmpties, Note.time, List.filterMap_cons]; omega)
  have empties : emptiesSince (text "a") twoEmpties = [0, 1] := by decide
  constructor
  · rw [exact_ _ (by decide), empties]
    exact ⟨1, by simp, by decide⟩
  · rw [Bool.eq_false_iff, Ne, exact_ _ (by decide), empties]
    decide

end Pinned

end MitmDecisions
